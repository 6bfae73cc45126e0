import LoxLang.Execution

/-!
# What a run leaves behind

The events of a run have three readings: what they show on a channel, what they report, and what
they declare. Each is a homomorphism from lists of events, so a run is read part by part
(`shown_append`, `reports_append`, `afterAll_append`).

A statement computes a value and only then does anything (`Stmt.execute_eq`), which gives one
equation for a statement that succeeds and one for a statement that fails
(`execute_cons_of_ok`, `execute_cons_of_error`). All that is said about execution rests on these.

The parts of a run are analysis, which reports and executes nothing (`reports_analyse`,
`effects_analyse`), execution, which reports nothing (`reports_execute`), and the conclusion. Hence
the run of a well-formed source leaves behind what the execution of its statements does and the
report of its ending (`run_of_wellFormed`).
-/

namespace LoxLang

/-! ## Readings of events -/

/-- The diagnostics reported among events. -/
def reports (events : List Event) : List Diagnostic :=
  events.filterMap fun
    | .reported diagnostic => some diagnostic
    | _ => none

/-- Whether an event is one of execution: a value printed or a variable declared. -/
def Event.isEffect : Event → Bool
  | .defined .. | .printed _ => true
  | _ => false

/-- The events of execution among events. -/
def effects (events : List Event) : List Event :=
  events.filter Event.isEffect

/-- What an event shows on a channel. -/
def Event.on (channel : Channel) (event : Event) : String :=
  match event.line? with
  | some (c, text) => if c = channel then text else ""
  | none => ""

theorem shown_cons (channel : Channel) (event : Event) (rest : List Event) :
    shown channel (event :: rest) = event.on channel ++ shown channel rest := by
  unfold shown Event.on
  rw [List.filterMap_cons]
  cases event.line? with
  | none => simp only [String.empty_append]
  | some line =>
    obtain ⟨c, text⟩ := line
    by_cases same : c = channel
    · simp only [if_pos same, String.join_cons]
    · simp only [if_neg same, String.empty_append]

theorem shown_append (channel : Channel) (events events' : List Event) :
    shown channel (events ++ events') = shown channel events ++ shown channel events' := by
  simp only [shown, List.filterMap_append, String.join_append]

theorem reports_append (events events' : List Event) :
    reports (events ++ events') = reports events ++ reports events' :=
  List.filterMap_append

theorem effects_append (events events' : List Event) :
    effects (events ++ events') = effects events ++ effects events' :=
  List.filter_append ..

theorem afterAll_append (b : Bindings) (events events' : List Event) :
    b.afterAll (events ++ events') = (b.afterAll events).afterAll events' :=
  List.foldl_append

/-- What is shown as diagnostics are the reports, a line each. -/
theorem shown_diagnostics (events : List Event) :
    shown .diagnostics events = String.join ((reports events).map fun d => d.text ++ "\n") := by
  induction events with
  | nil => rfl
  | cons event rest ih =>
    rw [shown_cons, ih]
    cases event with
    | reported d => exact String.join_cons.symm
    | _ => exact String.empty_append

/-- Only events of execution show as output. -/
theorem shown_output_effects (events : List Event) :
    shown .output (effects events) = shown .output events := by
  induction events with
  | nil => rfl
  | cons event rest ih =>
    rw [shown_cons, ← ih]
    cases event with
    | printed value => exact shown_cons ..
    | defined name value => exact shown_cons ..
    | _ => exact String.empty_append.symm

/-- Only events of execution declare anything. -/
theorem afterAll_effects (b : Bindings) (events : List Event) :
    b.afterAll (effects events) = b.afterAll events := by
  induction events generalizing b with
  | nil => rfl
  | cons event rest ih => cases event <;> exact ih _

/-! ## Statements -/

/-- The value that a statement computes: that of its expression, or nil where there is none. -/
def Stmt.value (b : Bindings) : Stmt → Except Failure Value
  | .expression e | .print e | .declare _ (some e) => e.evaluate b
  | .declare _ none => .ok .nil

/-- What a statement does with its value. -/
def Stmt.event? (v : Value) : Stmt → Option Event
  | .expression _ => none
  | .print _ => some (.printed v)
  | .declare name _ => some (.defined name.lexeme v)

/-- A statement computes its value, and only then does anything. -/
theorem Stmt.execute_eq (b : Bindings) (s : Stmt) :
    s.execute b = (s.value b).map fun v => s.event? v := by
  match s with
  | .expression _ => rfl
  | .print _ => rfl
  | .declare _ none => rfl
  | .declare _ (some _) => rfl

theorem Stmt.isEffect_event? {s : Stmt} {v : Value} {event : Event}
    (does : s.event? v = some event) : event.isEffect = true := by
  cases s <;> cases does <;> rfl

/-! ## Execution -/

/-- The bindings after a statement that has computed a value. -/
def Bindings.afterStmt (b : Bindings) (s : Stmt) (v : Value) : Bindings :=
  b.afterAll (s.event? v).toList

theorem execute_cons_of_error {b : Bindings} {s : Stmt} {failure : Failure}
    (fails : s.value b = .error failure) (rest : List Stmt) :
    execute b (s :: rest) = ⟨[], .error failure⟩ := by
  rw [execute, Stmt.execute_eq, fails]
  rfl

/-- A statement that computes a value does its event, and execution goes on behind it. -/
theorem execute_cons_of_ok {b : Bindings} {s : Stmt} {v : Value} (computes : s.value b = .ok v)
    (rest : List Stmt) :
    execute b (s :: rest) =
      ⟨(s.event? v).toList ++ (execute (b.afterStmt s v) rest).events,
        (execute (b.afterStmt s v) rest).ending⟩ := by
  rw [execute, Stmt.execute_eq, computes, Bindings.afterStmt]
  simp only [Except.map]
  cases s.event? v <;> rfl

/-- Statements behind ones that succeed are executed under the bindings these leave. -/
theorem execute_append_of_ok {b : Bindings} {first : List Stmt}
    (succeeds : (execute b first).ending = .ok ()) (second : List Stmt) :
    execute b (first ++ second) =
      ⟨(execute b first).events ++
          (execute (b.afterAll (execute b first).events) second).events,
        (execute (b.afterAll (execute b first).events) second).ending⟩ := by
  induction first generalizing b with
  | nil => rfl
  | cons s first ih =>
    cases computes : s.value b with
    | error failure =>
      rw [execute_cons_of_error computes] at succeeds
      cases succeeds
    | ok v =>
      rw [execute_cons_of_ok computes] at succeeds
      rw [List.cons_append, execute_cons_of_ok computes, execute_cons_of_ok computes, ih succeeds]
      simp only [afterAll_append, List.append_assoc, Bindings.afterStmt]

/-- Statements behind ones that fail are not executed. -/
theorem execute_append_of_error {b : Bindings} {first : List Stmt} {failure : Failure}
    (fails : (execute b first).ending = .error failure) (second : List Stmt) :
    execute b (first ++ second) = execute b first := by
  induction first generalizing b with
  | nil => cases fails
  | cons s first ih =>
    cases computes : s.value b with
    | error failure =>
      rw [List.cons_append, execute_cons_of_error computes, execute_cons_of_error computes]
    | ok v =>
      rw [execute_cons_of_ok computes] at fails
      rw [List.cons_append, execute_cons_of_ok computes, execute_cons_of_ok computes, ih fails]

/-- Execution does nothing but print and declare. -/
theorem isEffect_of_mem_execute {b : Bindings} {ss : List Stmt} {event : Event}
    (mem : event ∈ (execute b ss).events) : event.isEffect = true := by
  induction ss generalizing b with
  | nil => cases mem
  | cons s ss ih =>
    cases computes : s.value b with
    | error failure =>
      rw [execute_cons_of_error computes] at mem
      cases mem
    | ok v =>
      rw [execute_cons_of_ok computes] at mem
      rcases List.mem_append.mp mem with now | later
      · exact Stmt.isEffect_event? (Option.mem_toList.mp now)
      · exact ih later

theorem effects_execute (b : Bindings) (ss : List Stmt) :
    effects (execute b ss).events = (execute b ss).events :=
  List.filter_eq_self.mpr fun _ => isEffect_of_mem_execute

theorem reports_execute (b : Bindings) (ss : List Stmt) : reports (execute b ss).events = [] := by
  refine List.filterMap_eq_nil_iff.mpr ?_
  intro event mem
  have effect := isEffect_of_mem_execute mem
  cases event <;> first | rfl | cases effect

/-! ## Sources -/

/-- Attempts are all statements exactly if there is no error among them. -/
theorem results_eq_ok_iff {attempts : List Grammar.Attempt} {ss : List Stmt} :
    attempts.map Grammar.Attempt.result = ss.map .ok ↔
      Grammar.errors attempts = [] ∧ Grammar.statements attempts = ss := by
  induction attempts generalizing ss with
  | nil =>
    cases ss with
    | nil => exact ⟨fun _ => ⟨rfl, rfl⟩, fun _ => rfl⟩
    | cons => exact ⟨fun read => (nomatch read), fun found => (nomatch found.2)⟩
  | cons a rest ih =>
    obtain ⟨result, skipped⟩ := a
    cases result with
    | error d =>
      refine ⟨fun read => ?_, fun found => (nomatch found.1)⟩
      cases ss <;> cases read
    | ok s =>
      cases ss with
      | nil => exact ⟨fun read => (nomatch read), fun found => (nomatch found.2)⟩
      | cons s' ss =>
        show Except.ok s :: _ = Except.ok s' :: _ ↔
          Grammar.errors rest = [] ∧ s :: Grammar.statements rest = s' :: ss
        rw [List.cons.injEq, List.cons.injEq, Except.ok.injEq, ih]
        exact and_left_comm

/-- A source without a lexical and without a syntax error. -/
def WellFormed (source : String) : Prop :=
  Source.errors (Source.scan source) = [] ∧
    Grammar.errors (Grammar.attempts (Source.tokens (Source.scan source))) = []

/-- The statements of a source. -/
def statementsOf (source : String) : List Stmt :=
  Grammar.statements (Grammar.attempts (Source.tokens (Source.scan source)))

/-- A well-formed source is read whole. -/
theorem results_of_wellFormed {source : String} (formed : WellFormed source) :
    (Grammar.attempts (Source.tokens (Source.scan source))).map Grammar.Attempt.result =
      (statementsOf source).map .ok :=
  results_eq_ok_iff.mpr ⟨formed.2, rfl⟩

theorem analyse_ending_of_wellFormed {source : String} (formed : WellFormed source) :
    (analyse source).ending = some (statementsOf source) := by
  simp [analyse, formed.1, formed.2, statementsOf]

theorem analyse_ending_of_not_wellFormed {source : String} (malformed : ¬ WellFormed source) :
    (analyse source).ending = none := by
  have found : ((Source.errors (Source.scan source)).isEmpty && (Grammar.errors (Grammar.attempts
      (Source.tokens (Source.scan source)))).isEmpty) = false := by
    simpa [WellFormed] using malformed
  simp [analyse, found]

/-- Analysis executes nothing. -/
theorem effects_analyse (source : String) : effects (analyse source).events = [] := by
  refine List.filter_eq_nil_iff.mpr ?_
  intro event mem
  simp only [analyse, List.mem_append, List.mem_singleton, List.mem_map] at mem
  rcases mem with (((rfl | ⟨_, _, rfl⟩) | ⟨_, _, rfl⟩) | ⟨_, _, rfl⟩) | rfl <;>
    simp [Event.isEffect]

/-- Analysis reports the lexical errors, then the syntax errors. -/
theorem reports_analyse (source : String) :
    reports (analyse source).events = Source.errors (Source.scan source) ++
      Grammar.errors (Grammar.attempts (Source.tokens (Source.scan source))) := by
  have reported (ds : List Diagnostic) : reports (ds.map .reported) = ds := by
    rw [reports, List.filterMap_map]
    exact List.filterMap_some
  have discarded (ts : List Token) : reports (ts.map .discarded) = [] := by
    rw [reports, List.filterMap_map]
    exact List.filterMap_eq_nil_iff.mpr fun _ _ => rfl
  simp only [analyse, reports_append, reported, discarded, List.append_nil]
  simp [reports]

theorem effects_conclude (ending : Except Failure Unit) :
    effects (conclude ending).events = [] := by
  match ending with
  | .ok () => rfl
  | .error (.fault _ _) => rfl
  | .error (.broken _) => rfl

theorem conclude_ending_ne_staticError (ending : Except Failure Unit) :
    (conclude ending).ending ≠ .ok .staticError := by
  match ending with
  | .ok () => simp [conclude]
  | .error (.fault _ _) => simp [conclude]
  | .error (.broken _) => simp [conclude]

theorem conclude_ending_eq_ok_iff {ending : Except Failure Unit} :
    (conclude ending).ending = .ok .ok ↔ ending = .ok () := by
  match ending with
  | .ok () => simp [conclude]
  | .error (.fault _ _) => simp [conclude]
  | .error (.broken _) => simp [conclude]

/-- Execution that ends with a runtime error has failed. -/
theorem exists_of_conclude_ending_eq_runtimeError {ending : Except Failure Unit}
    (status : (conclude ending).ending = .ok .runtimeError) :
    ∃ site cause, ending = .error (.fault site cause) := by
  match ending with
  | .ok () => cases status
  | .error (.fault site cause) => exact ⟨site, cause, rfl⟩
  | .error (.broken _) => cases status

/-- A source that is not well-formed is reported, and nothing of it is executed. -/
theorem run_of_not_wellFormed {source : String} (malformed : ¬ WellFormed source) (b : Bindings) :
    run b source = ⟨(analyse source).events, .ok .staticError⟩ := by
  rw [run, analyse_ending_of_not_wellFormed malformed]

/-- What the run of a well-formed source leaves behind: what its statements do, the report of how
that ends, and a status. -/
theorem run_of_wellFormed {source : String} (formed : WellFormed source) (b : Bindings) :
    effects (run b source).events = (execute b (statementsOf source)).events ∧
      reports (run b source).events =
        reports (conclude (execute b (statementsOf source)).ending).events ∧
      (run b source).ending = (conclude (execute b (statementsOf source)).ending).ending := by
  rw [run, analyse_ending_of_wellFormed formed]
  refine ⟨?_, ?_, rfl⟩
  · simp only [effects_append, effects_analyse, effects_execute, effects_conclude, List.nil_append,
      List.append_nil]
    rfl
  · simp only [reports_append, reports_analyse, formed.1, formed.2, reports_execute,
      List.append_nil]
    rfl

/-- A source that is run to any other status than the static error is well-formed. -/
theorem wellFormed_of_ending {b : Bindings} {source : String} {status : Status}
    (ended : (run b source).ending = .ok status) (other : status ≠ .staticError) :
    WellFormed source := by
  by_cases formed : WellFormed source
  · exact formed
  · rw [run_of_not_wellFormed formed] at ended
    exact absurd (Except.ok.inj ended).symm other

/-- Nothing is executed of a source that ends with the static error. -/
theorem effects_of_staticError {b : Bindings} {source : String}
    (ended : (run b source).ending = .ok .staticError) : effects (run b source).events = [] := by
  have malformed : ¬ WellFormed source := by
    intro formed
    obtain ⟨-, -, ended'⟩ := run_of_wellFormed formed b
    exact conclude_ending_ne_staticError _ (ended'.symm.trans ended)
  rw [run_of_not_wellFormed malformed]
  exact effects_analyse source

/-- An outline executes nothing. -/
theorem effects_outline (source : String) : effects (outline source).events = [] := by
  simp only [outline]
  split
  · exact effects_analyse source
  · rw [effects_append, effects_analyse]
    refine List.filter_eq_nil_iff.mpr ?_
    intro event mem
    obtain ⟨s, -, rfl⟩ := List.mem_map.mp mem
    simp [Event.isEffect]

end LoxLang
