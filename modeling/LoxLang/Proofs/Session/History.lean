import LoxLang.Proofs.Execution.Operable
import LoxLang.Proofs.Session.Unlimited

/-!
# The history of a session

A session is a sequence of calls, and its **history** lists, call by call, the statements that were
executed to completion, each with the value it computed. A source with an error in its text, an
outline and a file that cannot be read have no part in it; a source that fails at run time has
contributed the statements in front of the one that failed (`Contributes`).

The history accounts for all that a session keeps: a variable has the value of the last declaration
of it in the history, and the output of a call is what its print statements computed
(`Session.calls_history`). Both hold of sinks without limits only.
-/

namespace LoxLang

/-! ## Statements executed to completion -/

/-- A statement that was executed to completion, and the value it computed. -/
structure Completed where
  statement : Stmt
  value : Value

namespace Completed

/-- Whether this was a declaration of a variable. -/
def declares (x : String) (d : Completed) : Bool :=
  match d.statement with
  | .declare name _ => name.lexeme = x
  | _ => false

/-- The line that this showed, if it was a print statement. -/
def line? (d : Completed) : Option String :=
  match d.statement with
  | .print _ => some (d.value.text ++ "\n")
  | _ => none

/-- What this did. -/
def events (d : Completed) : List Event :=
  (d.statement.event? d.value).toList

end Completed

/-- The value of the last declaration of a variable. -/
def lastDeclared (x : String) (done : List Completed) : Option Value :=
  (done.filter (Completed.declares x)).getLast?.map Completed.value

/-- All lines that print statements showed. -/
def printed (done : List Completed) : String :=
  String.join (done.filterMap Completed.line?)

/-- The bindings after statements executed to completion. -/
def Bindings.afterCompleted (b : Bindings) (done : List Completed) : Bindings :=
  b.afterAll (done.flatMap Completed.events)

/-- Statements that are all executed to completion, each under the bindings that those before it
leave. -/
inductive Completes : Bindings → List Stmt → List Completed → Prop where
  | nil {b : Bindings} : Completes b [] []
  | cons {b : Bindings} {s : Stmt} {v : Value} {ss : List Stmt} {done : List Completed}
      (computes : s.value b = .ok v) (later : Completes (b.afterStmt s v) ss done) :
      Completes b (s :: ss) (⟨s, v⟩ :: done)

/-! ## What they leave behind -/

theorem Bindings.afterCompleted_append (b : Bindings) (done done' : List Completed) :
    b.afterCompleted (done ++ done') = (b.afterCompleted done).afterCompleted done' := by
  simp only [Bindings.afterCompleted, List.flatMap_append, afterAll_append]

theorem Bindings.afterCompleted_cons (b : Bindings) (s : Stmt) (v : Value)
    (done : List Completed) :
    b.afterCompleted (⟨s, v⟩ :: done) = (b.afterStmt s v).afterCompleted done := by
  simp only [Bindings.afterCompleted, List.flatMap_cons, afterAll_append]
  rfl

theorem Bindings.get?_afterStmt (b : Bindings) (d : Completed) (x : String) :
    (b.afterStmt d.statement d.value).get? x =
      if d.declares x then some d.value else b.get? x := by
  obtain ⟨s, v⟩ := d
  cases s with
  | expression e => rfl
  | print e => rfl
  | declare name initial =>
    show (b.define name.lexeme v).get? x = _
    rw [Bindings.get?_define]
    by_cases same : x = name.lexeme
    · simp [Completed.declares, same]
    · simp [Completed.declares, same, Ne.symm same]

theorem lastDeclared_cons (x : String) (d : Completed) (done : List Completed) :
    lastDeclared x (d :: done) =
      (lastDeclared x done).or (if d.declares x then some d.value else none) := by
  unfold lastDeclared
  rw [List.filter_cons]
  by_cases declares : d.declares x = true
  · rw [if_pos declares, if_pos declares, List.getLast?_cons]
    cases (done.filter (Completed.declares x)).getLast? <;> rfl
  · rw [if_neg declares, if_neg declares, Option.or_none]

/-- A variable has the value of its last declaration, and without one the value it had. -/
theorem Bindings.get?_afterCompleted (b : Bindings) (done : List Completed) (x : String) :
    (b.afterCompleted done).get? x = (lastDeclared x done).or (b.get? x) := by
  induction done generalizing b with
  | nil => rfl
  | cons d done ih =>
    rw [Bindings.afterCompleted_cons, ih, Bindings.get?_afterStmt b d, lastDeclared_cons,
      Option.or_assoc]
    by_cases declares : d.declares x = true
    · rw [if_pos declares, if_pos declares]
      rfl
    · rw [if_neg declares, if_neg declares]
      rfl

theorem lastDeclared_eq_none_iff {x : String} {done : List Completed} :
    lastDeclared x done = none ↔ ∀ d ∈ done, d.declares x = false := by
  simp [lastDeclared]

/-- What is shown as output are the lines of the print statements. -/
theorem shown_output_events (done : List Completed) :
    shown .output (done.flatMap Completed.events) = printed done := by
  induction done with
  | nil => rfl
  | cons d done ih =>
    rw [List.flatMap_cons, shown_append, ih]
    obtain ⟨s, v⟩ := d
    cases s with
    | print e =>
      show shown .output [.printed v] ++ printed done = String.join (_ :: _)
      rw [shown_cons, String.join_cons]
      simp [shown, Event.on, Event.line?, printed]
    | expression e => exact String.empty_append
    | declare name initial => exact String.empty_append

/-- Statements executed to completion, as execution has them. -/
theorem Completes.execute {b : Bindings} {ss : List Stmt} {done : List Completed}
    (completes : Completes b ss done) :
    LoxLang.execute b ss = ⟨done.flatMap Completed.events, .ok ()⟩ := by
  induction completes with
  | nil => rfl
  | cons computes later ih =>
    rw [execute_cons_of_ok computes, ih]
    rfl

/-- Statements executed to completion and then one that fails. -/
theorem Completes.execute_append {b : Bindings} {before rest : List Stmt} {failing : Stmt}
    {done : List Completed} {failure : Failure} (completes : Completes b before done)
    (fails : failing.value (b.afterCompleted done) = .error failure) :
    LoxLang.execute b (before ++ failing :: rest) =
      ⟨done.flatMap Completed.events, .error failure⟩ := by
  have first := completes.execute
  rw [execute_append_of_ok (by rw [first]), first]
  show (⟨_ ++ (LoxLang.execute (b.afterCompleted done) (failing :: rest)).events,
    (LoxLang.execute (b.afterCompleted done) (failing :: rest)).ending⟩ : Run _) = _
  rw [execute_cons_of_error fails, List.append_nil]

/-- Every execution is of one of the two forms: all statements are executed to completion, or those
in front of one that fails. -/
theorem exists_completes (b : Bindings) (ss : List Stmt) :
    (∃ done, Completes b ss done ∧ (execute b ss).ending = .ok ()) ∨
      ∃ before failing rest done failure, ss = before ++ failing :: rest ∧
        Completes b before done ∧ failing.value (b.afterCompleted done) = .error failure ∧
        (execute b ss).ending = .error failure := by
  induction ss generalizing b with
  | nil => exact .inl ⟨[], .nil, rfl⟩
  | cons s ss ih =>
    cases computes : s.value b with
    | error failure =>
      refine .inr ⟨[], s, ss, [], failure, rfl, .nil, computes, ?_⟩
      rw [execute_cons_of_error computes]
    | ok v =>
      rw [execute_cons_of_ok computes]
      rcases ih (b.afterStmt s v) with ⟨done, completes, ended⟩ |
        ⟨before, failing, rest, done, failure, rfl, completes, fails, ended⟩
      · exact .inl ⟨_, .cons computes completes, ended⟩
      · refine .inr ⟨s :: before, failing, rest, _, failure, rfl, .cons computes completes, ?_,
          ended⟩
        rwa [Bindings.afterCompleted_cons]

/-! ## Calls -/

/-- A call on a session. -/
inductive Call where
  | run (source : String)
  | outline (source : String)
  | runFile (file : Except IoError (List UInt8))

namespace Session

/-- Makes a call, with no limit to an outline. -/
def call (s : Session) : Call → Step (Except BrokenTree Status) × Session
  | .run source => s.run source
  | .outline source =>
    let (step, after) := s.outline none source
    (⟨step.result.map .ok, step.output, step.diagnostics, step.outline⟩, after)
  | .runFile file => s.runFile file

/-- Makes calls in order. -/
def calls (s : Session) : List Call → List (Step (Except BrokenTree Status)) × Session
  | [] => ([], s)
  | c :: rest =>
    let (step, after) := s.call c
    let (steps, last) := after.calls rest
    (step :: steps, last)

end Session

/-- The statements that a call executes to completion, by how it ends. -/
inductive Contributes (s : Session) : Call → List Completed → Prop where
  | ok {source : String} {done : List Completed}
      (status : (s.run source).1.result = .ok (.ok .ok))
      (completes : Completes s.bindings (statementsOf source) done) :
      Contributes s (.run source) done
  | staticError {source : String} (status : (s.run source).1.result = .ok (.ok .staticError)) :
      Contributes s (.run source) []
  | runtimeError {source : String} {before rest : List Stmt} {failing : Stmt}
      {done : List Completed} {site : Token} {cause : RuntimeFault}
      (status : (s.run source).1.result = .ok (.ok .runtimeError))
      (cut : statementsOf source = before ++ failing :: rest)
      (completes : Completes s.bindings before done)
      (fails : failing.value (s.bindings.afterCompleted done) = .error (.fault site cause)) :
      Contributes s (.run source) done
  | outline {source : String} : Contributes s (.outline source) []
  | file {file : Except IoError (List UInt8)} {source : String} {done : List Completed}
      (text : fileText file = .ok source) (contributes : Contributes s (.run source) done) :
      Contributes s (.runFile file) done
  | unreadable {file : Except IoError (List UInt8)} {error : IoError}
      (text : fileText file = .error error) : Contributes s (.runFile file) []

/-- What the calls of a session contribute, call by call. -/
inductive History : Session → List Call → List (List Completed) → Prop where
  | nil {s : Session} : History s [] []
  | cons {s : Session} {c : Call} {rest : List Call} {done : List Completed}
      {log : List (List Completed)} (contributes : Contributes s c done)
      (later : History (s.call c).2 rest log) : History s (c :: rest) (done :: log)

/-! ## One call -/

/-- The bindings and the output of a run, by the statements it executes to completion. -/
theorem Session.run_of_effects {b : Bindings} {source : String} {done : List Completed}
    (did : effects (LoxLang.run b source).events = done.flatMap Completed.events) :
    ((Session.unlimited b).run source).2 = Session.unlimited (b.afterCompleted done) ∧
      ((Session.unlimited b).run source).1.output = utf8 (printed done) := by
  rw [Session.run_unlimited, did, shown_output_events]
  exact ⟨rfl, rfl⟩

/-- A call leaves the bindings and the output of what it contributes. -/
theorem Contributes.call {b : Bindings} {c : Call} {done : List Completed}
    (contributes : Contributes (Session.unlimited b) c done) :
    ((Session.unlimited b).call c).2 = Session.unlimited (b.afterCompleted done) ∧
      ((Session.unlimited b).call c).1.output = utf8 (printed done) := by
  have ended {source : String} {status : Status}
      (result : ((Session.unlimited b).run source).1.result = .ok (.ok status)) :
      (LoxLang.run b source).ending = .ok status := by
    rw [Session.run_unlimited] at result
    exact Except.ok.inj result
  induction contributes with
  | @ok source done status completes =>
    have formed := wellFormed_of_ending (ended status) (by simp)
    have executed : execute b (statementsOf source) = _ := completes.execute
    have did := (run_of_wellFormed formed b).1
    rw [executed] at did
    exact Session.run_of_effects did
  | @staticError source status =>
    exact Session.run_of_effects (effects_of_staticError (ended status))
  | @runtimeError source before rest failing done site cause status cut completes fails =>
    have formed := wellFormed_of_ending (ended status) (by simp)
    have executed : execute b (before ++ failing :: rest) = _ := completes.execute_append fails
    have did := (run_of_wellFormed formed b).1
    rw [cut, executed] at did
    exact Session.run_of_effects did
  | @outline source =>
    have stepped : (Session.unlimited b).outline none source = _ :=
      Session.step_unlimited b (LoxLang.outline source)
    have silent := shown_output_effects (LoxLang.outline source).events
    have still := afterAll_effects b (LoxLang.outline source).events
    rw [effects_outline] at silent still
    rw [← silent, ← still] at stepped
    simp only [Session.call, stepped]
    exact ⟨rfl, rfl⟩
  | @file file source done text contributes ih =>
    have same : (Session.unlimited b).call (.runFile file) =
        (Session.unlimited b).call (.run source) := by
      simp only [Session.call, Session.runFile, text]
    rw [same]
    exact ih
  | @unreadable file error text =>
    simp only [Session.call, Session.runFile, text]
    exact ⟨rfl, rfl⟩

/-- Every run has a contribution, which may be empty. -/
theorem exists_contributes_run (b : Bindings) (source : String) :
    ∃ done, Contributes (Session.unlimited b) (.run source) done := by
  have result : ((Session.unlimited b).run source).1.result =
      .ok (LoxLang.run b source).ending := by
    rw [Session.run_unlimited]
  by_cases formed : WellFormed source
  · have ended := (run_of_wellFormed formed b).2.2
    have operable := Grammar.operable_of_mem_statements (Source.tokens (Source.scan source))
    rcases exists_completes b (statementsOf source) with ⟨done, completes, finished⟩ |
      ⟨before, failing, rest, done, failure, cut, completes, fails, stopped⟩
    · rw [ended, finished] at result
      exact ⟨done, .ok result completes⟩
    · cases failure with
      | broken tree => exact absurd stopped (execute_ne_broken operable b)
      | fault site cause =>
        rw [ended, stopped] at result
        exact ⟨done, .runtimeError result cut completes fails⟩
  · rw [run_of_not_wellFormed formed] at result
    exact ⟨[], .staticError result⟩

theorem exists_contributes (b : Bindings) (c : Call) :
    ∃ done, Contributes (Session.unlimited b) c done := by
  cases c with
  | run source => exact exists_contributes_run b source
  | outline source => exact ⟨[], .outline⟩
  | runFile file =>
    cases text : fileText file with
    | error error => exact ⟨[], .unreadable text⟩
    | ok source =>
      obtain ⟨done, contributes⟩ := exists_contributes_run b source
      exact ⟨done, .file text contributes⟩

/-! ## All calls -/

theorem exists_history (b : Bindings) (calls : List Call) :
    ∃ log, History (Session.unlimited b) calls log := by
  induction calls generalizing b with
  | nil => exact ⟨[], .nil⟩
  | cons c rest ih =>
    obtain ⟨done, contributes⟩ := exists_contributes b c
    obtain ⟨log, later⟩ := ih (b.afterCompleted done)
    rw [← contributes.call.1] at later
    exact ⟨done :: log, .cons contributes later⟩

/-- The bindings and the outputs of calls, by their history. -/
theorem History.calls {b : Bindings} {calls : List Call} {log : List (List Completed)}
    (history : History (Session.unlimited b) calls log) :
    ((Session.unlimited b).calls calls).2 = Session.unlimited (b.afterCompleted log.flatten) ∧
      ((Session.unlimited b).calls calls).1.map Step.output =
        log.map fun done => utf8 (printed done) := by
  induction calls generalizing b log with
  | nil =>
    cases history
    exact ⟨rfl, rfl⟩
  | cons c rest ih =>
    cases history with
    | @cons _ _ _ done log contributes later =>
      obtain ⟨after, output⟩ := contributes.call
      rw [after] at later
      obtain ⟨last, outputs⟩ := ih later
      simp only [Session.calls, after, List.map_cons, List.flatten_cons]
      rw [last, outputs, output, Bindings.afterCompleted_append]
      exact ⟨rfl, rfl⟩

/-- The bindings of a session are **those of its history**, and so is its output. Whatever was
called, there is a history of it; after the calls a variable has the value of its last declaration
in that history and is unbound if there is none, and each call has shown just the values that its
print statements computed, a line each. -/
theorem Session.calls_history (calls : List Call) :
    (∃ log, History (Session.start none none) calls log) ∧
      ∀ log, History (Session.start none none) calls log →
        let (steps, last) := (Session.start none none).calls calls
        (∀ x, last.bindings.get? x = lastDeclared x log.flatten) ∧
        (∀ x, last.bindings.get? x = none ↔ ∀ d ∈ log.flatten, d.declares x = false) ∧
        steps.map Step.output = log.map fun done => utf8 (printed done) := by
  refine ⟨exists_history .empty calls, ?_⟩
  intro log history
  obtain ⟨last, outputs⟩ := History.calls history
  have values : ∀ x, ((Session.start none none).calls calls).2.bindings.get? x =
      lastDeclared x log.flatten := by
    intro x
    show ((Session.unlimited .empty).calls calls).2.bindings.get? x = _
    rw [last]
    show (Bindings.empty.afterCompleted log.flatten).get? x = _
    rw [Bindings.get?_afterCompleted, Bindings.get?_empty, Option.or_none]
  refine ⟨values, ?_, outputs⟩
  intro x
  rw [values, lastDeclared_eq_none_iff]

/-- Neither an outline nor a declaration that fails takes a declared value away, and the print
statement in front of the failure has shown it. -/
theorem Session.calls_history_kept :
    let calls := [.run "var a = true;", .outline "var a = nil;", .run "print a; var a = b;"]
    let ran := (Session.start none none).calls calls
    ran.1.map Step.output = [[], [], utf8 "true\n"] ∧
      ran.2.bindings.get? "a" = some (.bool true) ∧
      ∃ log, History (Session.start none none) calls log ∧
        lastDeclared "a" log.flatten = some (.bool true) ∧
        (log.map fun done => utf8 (printed done)) = [[], [], utf8 "true\n"] := by
  intro calls ran
  obtain ⟨⟨log, history⟩, told⟩ := Session.calls_history calls
  obtain ⟨values, -, outputs⟩ := told log history
  have shows : ran.1.map Step.output = [[], [], utf8 "true\n"] := by decide +kernel
  have kept : ran.2.bindings.get? "a" = some (.bool true) := by decide +kernel
  exact ⟨shows, kept, log, history, (values "a").symm.trans kept, outputs.symm.trans shows⟩

end LoxLang
