import LoxLang.Proofs.Session.History

/-!
# The course of a run

A run does three kinds of things: it only reports, it executes, or it outlines. What events of one
kind show, they show on one channel (`shown_of_notices`, `shown_of_effects`).

Execution takes one of two courses. All statements are executed to completion, or those in front of
one that fails are (`Course`). What was executed to completion tells all that execution leaves
behind, so a session that executes statements, and the run of a well-formed source, can be read off
the course (`Session.execute_of_course`, `Session.run_of_course`). Of statements that were read from
tokens, it fails with a fault if at all (`Course.ending_cases_of_read`).

Around the execution a run only reports: its events are notices, then those of execution, then
notices again, and what it reports first is the reason not to execute (`run_parts`).
-/

namespace LoxLang

/-! ## Events by what they do -/

/-- Whether an event can do no more than report. -/
def Event.isNotice : Event → Bool
  | .defined .. | .printed _ | .outlined _ => false
  | _ => true

theorem shown_eq_empty {channel : Channel} {events : List Event}
    (silent : ∀ event ∈ events, event.on channel = "") : shown channel events = "" := by
  induction events with
  | nil => rfl
  | cons event rest ih =>
    obtain ⟨now, later⟩ := List.forall_mem_cons.mp silent
    rw [shown_cons, now, ih later]
    rfl

/-- Notices show as diagnostics only. -/
theorem shown_of_notices {events : List Event}
    (notices : ∀ event ∈ events, event.isNotice = true) (channel : Channel)
    (other : channel ≠ .diagnostics) : shown channel events = "" := by
  refine shown_eq_empty ?_
  intro event mem
  have notice := notices event mem
  cases event with
  | defined | printed | outlined => cases notice
  | reported d => simp [Event.on, Event.line?, Ne.symm other]
  | _ => rfl

/-- Events of execution show as output only. -/
theorem shown_of_effects {events : List Event}
    (effects : ∀ event ∈ events, event.isEffect = true) (channel : Channel)
    (other : channel ≠ .output) : shown channel events = "" := by
  refine shown_eq_empty ?_
  intro event mem
  have effect := effects event mem
  cases event with
  | defined => rfl
  | printed v => simp [Event.on, Event.line?, Ne.symm other]
  | _ => cases effect

/-- Notices declare nothing. -/
theorem afterAll_of_notices {events : List Event}
    (notices : ∀ event ∈ events, event.isNotice = true) (b : Bindings) : b.afterAll events = b := by
  induction events generalizing b with
  | nil => rfl
  | cons event rest ih =>
    obtain ⟨now, later⟩ := List.forall_mem_cons.mp notices
    cases event with
    | defined => cases now
    | _ => exact ih later b

/-! ## Courses -/

/-- The **course** of an execution of statements: which were executed to completion, and how it
ended. -/
inductive Course (b : Bindings) : List Stmt → List Completed → Except Failure Unit → Prop where
  | whole {ss : List Stmt} {done : List Completed} (completes : Completes b ss done) :
      Course b ss done (.ok ())
  | stopped {before rest : List Stmt} {failing : Stmt} {done : List Completed} {failure : Failure}
      (completes : Completes b before done)
      (fails : failing.value (b.afterCompleted done) = .error failure) :
      Course b (before ++ failing :: rest) done (.error failure)

theorem Course.execute {b : Bindings} {ss : List Stmt} {done : List Completed}
    {ending : Except Failure Unit} (course : Course b ss done ending) :
    LoxLang.execute b ss = ⟨done.flatMap Completed.events, ending⟩ := by
  cases course with
  | whole completes => exact completes.execute
  | stopped completes fails => exact completes.execute_append fails

theorem exists_course (b : Bindings) (ss : List Stmt) :
    ∃ done ending, Course b ss done ending := by
  rcases exists_completes b ss with ⟨done, completes, -⟩ |
    ⟨before, failing, rest, done, failure, rfl, completes, fails, -⟩
  · exact ⟨done, _, .whole completes⟩
  · exact ⟨done, _, .stopped completes fails⟩

/-- Statements that were read from tokens end well or with a fault. -/
theorem Course.ending_cases_of_read {b : Bindings} {ss : List Stmt} {done : List Completed}
    {ending : Except Failure Unit} (course : Course b ss done ending) {tokens : List Token}
    (read : ss ⊆ Grammar.statements (Grammar.attempts tokens)) :
    ending = .ok () ∨ ∃ site cause, ending = .error (.fault site cause) := by
  have operable : ∀ s ∈ ss, s.Operable := fun s mem =>
    Grammar.operable_of_mem_statements tokens s (read mem)
  have ended : (LoxLang.execute b ss).ending = ending := by rw [course.execute]
  match ending with
  | .ok () => exact .inl rfl
  | .error (.fault site cause) => exact .inr ⟨site, cause, rfl⟩
  | .error (.broken tree) => exact absurd ended (execute_ne_broken operable b)

/-- What a session executes, by the course. -/
theorem Session.execute_of_course {b : Bindings} {ss : List Stmt} {done : List Completed}
    {ending : Except Failure Unit} (course : Course b ss done ending) :
    (Session.unlimited b).execute ss =
      (⟨.ok ending, utf8 (printed done), [], []⟩, Session.unlimited (b.afterCompleted done)) := by
  have stepped : (Session.unlimited b).execute ss = _ :=
    Session.step_unlimited b (LoxLang.execute b ss)
  have effects : ∀ event ∈ (LoxLang.execute b ss).events, event.isEffect = true :=
    fun _ => isEffect_of_mem_execute
  rw [stepped, shown_of_effects effects .diagnostics (by decide),
    shown_of_effects effects .outline (by decide), course.execute,
    shown_output_events]
  rfl

/-- What a session runs of a well-formed source, by the course of its statements. -/
theorem Session.run_of_course {b : Bindings} {source : String} {done : List Completed}
    {ending : Except Failure Unit} (formed : WellFormed source)
    (course : Course b (statementsOf source) done ending) :
    let ran := (Session.unlimited b).run source
    ran.1.result = .ok (conclude ending).ending ∧ ran.1.output = utf8 (printed done) ∧
      ran.2 = Session.unlimited (b.afterCompleted done) := by
  obtain ⟨did, -, ended⟩ := LoxLang.run_of_wellFormed formed b
  rw [course.execute] at did ended
  rw [Session.run_unlimited, did, ended, shown_output_events]
  exact ⟨rfl, rfl, rfl⟩

/-! ## The parts of a run -/

theorem isNotice_of_mem_analyse {source : String} {event : Event}
    (mem : event ∈ (analyse source).events) : event.isNotice = true := by
  simp only [analyse, List.mem_append, List.mem_singleton, List.mem_map] at mem
  rcases mem with (((rfl | ⟨_, _, rfl⟩) | ⟨_, _, rfl⟩) | ⟨_, _, rfl⟩) | rfl <;> rfl

theorem isNotice_of_mem_conclude {ending : Except Failure Unit} {event : Event}
    (mem : event ∈ (conclude ending).events) : event.isNotice = true := by
  match ending with
  | .ok () => cases mem
  | .error (.fault _ _) =>
    cases List.mem_singleton.mp mem
    rfl
  | .error (.broken _) => cases mem

/-- A run reports, executes, and reports. What it reports first is the reason not to execute. -/
theorem run_parts (b : Bindings) (source : String) :
    ∃ first did last, (run b source).events = first ++ did ++ last ∧
      (∀ event ∈ first, event.isNotice = true) ∧ (∀ event ∈ did, event.isEffect = true) ∧
      (∀ event ∈ last, event.isNotice = true) ∧
      (did = [] ∨ did = (execute b (statementsOf source)).events ∧
        shown .diagnostics first = "") := by
  by_cases formed : WellFormed source
  · refine ⟨(analyse source).events ++ [.started (statementsOf source).length],
      (execute b (statementsOf source)).events,
      (conclude (execute b (statementsOf source)).ending).events, ?_, ?_,
      fun _ => isEffect_of_mem_execute, fun _ => isNotice_of_mem_conclude, .inr ⟨rfl, ?_⟩⟩
    · rw [run, analyse_ending_of_wellFormed formed]
    · intro event mem
      rcases List.mem_append.mp mem with analysed | started
      · exact isNotice_of_mem_analyse analysed
      · cases List.mem_singleton.mp started
        rfl
    · rw [shown_diagnostics, reports_append, reports_analyse, formed.1, formed.2]
      rfl
  · refine ⟨(analyse source).events, [], [], ?_, fun _ => isNotice_of_mem_analyse, ?_, ?_, .inl rfl⟩
    · rw [run_of_not_wellFormed formed, List.append_nil, List.append_nil]
    · intro _ mem
      cases mem
    · intro _ mem
      cases mem

end LoxLang
