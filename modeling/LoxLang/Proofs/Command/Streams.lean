import LoxLang.Command.Program
import LoxLang.Proofs.Execution.Course

/-!
# The standard streams

What events put on the two standard streams, by the readings of events. The standard output takes
what is shown as output and as outline (`stdout_eq_shown`). The error stream is a list of
**entries**, lines of the log among the diagnostics (`stderr_eq_join`). Which lines of the log are
entries is a matter of the verbosity, and nothing else is: the other entries are always the reports
(`plain_entries`), and without verbosity they are all (`entries_zero`).
-/

namespace LoxLang.Command

/-! ## Standard output -/

theorem stdout_cons (verbosity : Nat) (event : Event) (rest : List Event) :
    (streams verbosity (event :: rest)).stdout =
      event.on .output ++ event.on .outline ++ (streams verbosity rest).stdout := by
  cases event with
  | printed v => simp [streams, Event.on, Event.line?, String.join_cons]
  | outlined s => simp [streams, Event.on, Event.line?, String.join_cons]
  | _ => simp [streams, Event.on, Event.line?]

/-- Without an outline the standard output is what is shown as output. -/
theorem stdout_eq_shown (verbosity : Nat) {events : List Event}
    (plain : shown .outline events = "") :
    (streams verbosity events).stdout = shown .output events := by
  induction events with
  | nil => rfl
  | cons event rest ih =>
    rw [shown_cons] at plain
    obtain ⟨now, later⟩ := String.append_eq_empty_iff.mp plain
    rw [stdout_cons, now, ih later, shown_cons, String.append_empty]

/-- A run outlines nothing. -/
theorem shown_outline_run (b : Bindings) (source : String) :
    shown .outline (run b source).events = "" := by
  obtain ⟨first, did, last, parts, notices, effects, notices', -⟩ := run_parts b source
  rw [parts, shown_append, shown_append, shown_of_notices notices .outline (by decide),
    shown_of_effects effects .outline (by decide), shown_of_notices notices' .outline (by decide)]
  rfl

/-- Analysis puts nothing on the standard output. -/
theorem stdout_analyse (verbosity : Nat) (source : String) :
    (streams verbosity (analyse source).events).stdout = "" := by
  have notices : ∀ event ∈ (analyse source).events, event.isNotice = true :=
    fun _ => isNotice_of_mem_analyse
  rw [stdout_eq_shown verbosity (shown_of_notices notices .outline (by decide)),
    shown_of_notices notices .output (by decide)]

/-! ## The error stream -/

/-- An entry on the error stream: a line of the log, or a text. -/
inductive Entry where
  | log (entry : LogEntry)
  | plain (text : String)

namespace Entry

/-- The text of an entry. -/
def text : Entry → String
  | .log entry => entry.text ++ "\n"
  | .plain text => text

/-- Whether an entry is no line of the log. -/
def isPlain : Entry → Bool
  | .log _ => false
  | .plain _ => true

/-- The entry that a diagnostic makes. -/
def ofDiagnostic (d : Diagnostic) : Entry := .plain (d.text ++ "\n")

/-- The entry that an event makes at a verbosity. -/
def ofEvent? (verbosity : Nat) (event : Event) : Option Entry :=
  match event with
  | .reported d => some (ofDiagnostic d)
  | _ => Option.map log <| event.entry?.filter fun entry => entry.level.isShown verbosity

end Entry

/-- The entries that events make at a verbosity. -/
def entries (verbosity : Nat) (events : List Event) : List Entry :=
  events.filterMap (Entry.ofEvent? verbosity)

theorem entries_cons (verbosity : Nat) (event : Event) (rest : List Event) :
    entries verbosity (event :: rest) =
      (Entry.ofEvent? verbosity event).toList ++ entries verbosity rest := by
  rw [entries, List.filterMap_cons]
  cases Entry.ofEvent? verbosity event <;> rfl

/-- What an event puts on the error stream is its entry. -/
theorem errorLine_eq (verbosity : Nat) (event : Event) :
    errorLine verbosity event = ((Entry.ofEvent? verbosity event).map Entry.text).getD "" := by
  have logged (entry : LogEntry) :
      (if entry.level.isShown verbosity then entry.text ++ "\n" else "") =
        ((((some entry).filter fun entry => entry.level.isShown verbosity).map Entry.log).map
          Entry.text).getD "" := by
    cases shown : entry.level.isShown verbosity <;> simp [Option.filter, shown, Entry.text]
  cases event with
  | reported d => rfl
  | printed v => rfl
  | outlined s => rfl
  | _ => exact logged _

/-- The error stream is its entries, one behind the other. -/
theorem stderr_eq_join (verbosity : Nat) (events : List Event) :
    (streams verbosity events).stderr =
      String.join ((entries verbosity events).map Entry.text) := by
  induction events with
  | nil => rfl
  | cons event rest ih =>
    have now : (streams verbosity (event :: rest)).stderr =
        errorLine verbosity event ++ (streams verbosity rest).stderr := String.join_cons
    rw [now, ih, errorLine_eq, entries_cons]
    cases Entry.ofEvent? verbosity event with
    | none => exact String.empty_append
    | some entry => exact String.join_cons.symm

/-- An event makes the entry of its report, if it is one, or else at most a line of the log. -/
theorem filter_ofEvent? (verbosity : Nat) (event : Event) :
    (Entry.ofEvent? verbosity event).toList.filter Entry.isPlain =
      (reports [event]).map Entry.ofDiagnostic := by
  have logged (found : Option LogEntry) :
      (found.map Entry.log).toList.filter Entry.isPlain = [] := by
    cases found <;> rfl
  cases event with
  | reported d => rfl
  | printed v => rfl
  | outlined s => rfl
  | _ => exact logged _

/-- The entries that are no lines of the log are **the reports**, at every verbosity. -/
theorem plain_entries (verbosity : Nat) (events : List Event) :
    (entries verbosity events).filter Entry.isPlain = (reports events).map Entry.ofDiagnostic := by
  induction events with
  | nil => rfl
  | cons event rest ih =>
    have told : reports (event :: rest) = reports [event] ++ reports rest :=
      reports_append [event] rest
    rw [entries_cons, told, List.filter_append, List.map_append, ih, filter_ofEvent?]

/-- Without verbosity there are no other entries. -/
theorem entries_zero (events : List Event) :
    entries 0 events = (reports events).map Entry.ofDiagnostic := by
  rw [← plain_entries 0 events, eq_comm, List.filter_eq_self]
  intro entry mem
  obtain ⟨event, -, made⟩ := List.mem_filterMap.mp mem
  cases event with
  | reported d =>
    cases made
    rfl
  -- No event logs at the level that is always shown.
  | _ => cases made

/-- Without verbosity the error stream shows the diagnostics. -/
theorem stderr_zero (events : List Event) :
    (streams 0 events).stderr = shown .diagnostics events := by
  rw [stderr_eq_join, entries_zero, List.map_map, shown_diagnostics]
  rfl

end LoxLang.Command
