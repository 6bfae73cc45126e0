import LoxLang.Proofs.Execution.Course
import LoxLang.Proofs.Execution.StaticErrors

/-!
# Outlines observe

To outline a source is to analyse it as a run does, and then to show its statements instead of
executing them. An outline changes nothing in its session (`Session.outline_unlimited`), so among
other calls it could as well not have been made (`Session.calls_insert_outline`). It refuses just
the sources that a run refuses, with the same reports, and of any other it shows the statements that
a run executes, as far as no fault stops it (`Session.outline_observes`).
-/

namespace LoxLang

/-! ## Programs -/

/-- Tokens that are the declarations of statements, up to the end of the source. -/
def Grammar.Declares (tokens : List Token) (ss : List Stmt) : Prop :=
  ∃ slices close, tokens = slices.flatten ++ [close] ∧ close.kind = .endOfFile ∧
    List.Forall₂ IsDeclaration slices ss

/-- The tokens of a well-formed source are the declarations of its statements. -/
theorem declares_statementsOf {source : String} (formed : WellFormed source) :
    Grammar.Declares (Source.tokens (Source.scan source)) (statementsOf source) := by
  have read := results_of_wellFormed formed
  rw [Source.tokens_scan] at read ⊢
  obtain ⟨slices, cut, all⟩ :=
    Grammar.exists_cut_of_results (Source.not_isEnd_of_mem_tokens_split source) rfl read
  exact ⟨slices, _, by rw [cut], rfl, all⟩

/-! ## What an outline shows -/

/-- The outlines of statements, a line each. -/
def outlines (ss : List Stmt) : String :=
  String.join (ss.map fun s => s.outline ++ "\n")

theorem shown_outline_outlined (ss : List Stmt) :
    shown .outline (ss.map .outlined) = outlines ss := by
  induction ss with
  | nil => rfl
  | cons s rest ih =>
    rw [List.map_cons, shown_cons, ih, outlines, outlines, List.map_cons, String.join_cons]
    rfl

/-- The outline of a well-formed source shows its statements. -/
theorem outline_of_wellFormed {source : String} (formed : WellFormed source) :
    (outline source).ending = .ok ∧
      shown .outline (outline source).events = outlines (statementsOf source) := by
  have silent : shown .outline (analyse source).events = "" :=
    shown_of_notices (fun _ => isNotice_of_mem_analyse) .outline (by decide)
  rw [outline, analyse_ending_of_wellFormed formed]
  refine ⟨rfl, ?_⟩
  rw [shown_append, silent, shown_outline_outlined, String.empty_append]

/-- The outline of any other source shows nothing. -/
theorem outline_of_not_wellFormed {source : String} (malformed : ¬ WellFormed source) :
    (outline source).ending = .staticError ∧ shown .outline (outline source).events = "" := by
  rw [outline, analyse_ending_of_not_wellFormed malformed]
  exact ⟨rfl, shown_of_notices (fun _ => isNotice_of_mem_analyse) .outline (by decide)⟩

/-- An outline in a session: it prints and declares nothing, and reports what the analysis does. -/
theorem Session.outline_unlimited (b : Bindings) (source : String) :
    (Session.unlimited b).outline none source =
      (⟨.ok (LoxLang.outline source).ending, [], rendered (reports (analyse source).events),
        utf8 (shown .outline (LoxLang.outline source).events)⟩, Session.unlimited b) := by
  have stepped : (Session.unlimited b).outline none source = _ :=
    Session.step_unlimited b (LoxLang.outline source)
  rw [stepped, ← shown_output_effects, ← afterAll_effects, effects_outline, shown_diagnostics,
    reports_outline]
  rfl

/-! ## Among other calls -/

theorem Session.calls_cons (s : Session) (c : Call) (rest : List Call) :
    s.calls (c :: rest) =
      ((s.call c).1 :: ((s.call c).2.calls rest).1, ((s.call c).2.calls rest).2) := rfl

theorem Session.calls_append (s : Session) (before after : List Call) :
    s.calls (before ++ after) =
      ((s.calls before).1 ++ ((s.calls before).2.calls after).1,
        ((s.calls before).2.calls after).2) := by
  induction before generalizing s with
  | nil => rfl
  | cons c rest ih =>
    simp only [List.cons_append, calls_cons, ih]

theorem Session.length_calls (s : Session) (calls : List Call) :
    (s.calls calls).1.length = calls.length := by
  induction calls generalizing s with
  | nil => rfl
  | cons c rest ih => exact congrArg (· + 1) (ih (s.call c).2)

/-- The bindings are all that calls change in a session without limits. -/
theorem Session.exists_unlimited_calls (b : Bindings) (calls : List Call) :
    ∃ b', ((Session.unlimited b).calls calls).2 = Session.unlimited b' := by
  obtain ⟨log, history⟩ := exists_history b calls
  exact ⟨_, history.calls.1⟩

/-- An outline among other calls changes none of their steps, and not what they leave behind. -/
theorem Session.calls_insert_outline (b : Bindings) (before after : List Call) (source : String) :
    let plain := (Session.unlimited b).calls (before ++ after)
    let watched := (Session.unlimited b).calls (before ++ .outline source :: after)
    watched.1.eraseIdx before.length = plain.1 ∧ watched.2 = plain.2 := by
  intro plain watched
  obtain ⟨b', reached⟩ := exists_unlimited_calls b before
  have still : ((Session.unlimited b').call (.outline source)).2 = Session.unlimited b' := by
    simp only [call, outline_unlimited]
  have length := length_calls (Session.unlimited b) before
  simp only [plain, watched, calls_append, calls_cons, reached, still, and_true]
  rw [← length, List.eraseIdx_append_of_length_le (Nat.le_refl _), Nat.sub_self]
  rfl

/-! ## Beside a run -/

/-- An outline **observes**. Made among any other calls, it changes none of their steps and not what
they leave behind. It ends with the static error if and only if a run does, and then reports the
same and shows nothing. Otherwise it only shows: the outlines of the statements that the source
declares, which are those that a run executes, all of them or those in front of one that fails. -/
theorem Session.outline_observes :
    (∀ (b : Bindings) (before after : List Call) (source : String),
      let plain := (Session.unlimited b).calls (before ++ after)
      let watched := (Session.unlimited b).calls (before ++ .outline source :: after)
      watched.1.eraseIdx before.length = plain.1 ∧ watched.2 = plain.2) ∧
    ∀ (b : Bindings) (source : String),
      let ran := (Session.unlimited b).run source
      let outlined := (Session.unlimited b).outline none source
      (outlined.1.result = .ok .staticError ↔ ran.1.result = .ok (.ok .staticError)) ∧
      (ran.1.result = .ok (.ok .staticError) →
        outlined.1.diagnostics = ran.1.diagnostics ∧ outlined.1.outline = []) ∧
      (ran.1.result ≠ .ok (.ok .staticError) →
        outlined.1.result = .ok .ok ∧ outlined.1.diagnostics = [] ∧
        ∃ ss, Grammar.Declares (Source.tokens (Source.scan source)) ss ∧
          outlined.1.outline = utf8 (outlines ss) ∧
          ∃ done ending, Course b ss done ending ∧ ran.1.output = utf8 (printed done) ∧
            ran.1.result = .ok (conclude ending).ending) ∧
      outlined.1.output = [] ∧ outlined.2 = Session.unlimited b := by
  refine ⟨calls_insert_outline, ?_⟩
  intro b source ran outlined
  have outlinedIs : outlined = _ := outline_unlimited b source
  by_cases formed : WellFormed source
  · obtain ⟨done, ending, course⟩ := exists_course b (statementsOf source)
    obtain ⟨result, output, -⟩ := run_of_course formed course
    have result : ran.1.result = .ok (conclude ending).ending := result
    obtain ⟨succeeds, shows⟩ := LoxLang.outline_of_wellFormed formed
    have executed : ran.1.result ≠ .ok (.ok .staticError) := by
      rw [result]
      exact fun same => conclude_ending_ne_staticError ending (Except.ok.inj same)
    have silent : rendered (reports (analyse source).events) = [] := by
      rw [reports_analyse, formed.1, formed.2]
      rfl
    rw [outlinedIs, succeeds, shows, silent]
    exact ⟨⟨fun same => (nomatch same), fun static => absurd static executed⟩,
      fun static => absurd static executed,
      fun _ => ⟨rfl, rfl, _, declares_statementsOf formed, rfl, done, ending, course, output,
        result⟩, rfl, rfl⟩
  · obtain ⟨static, -, -, reported⟩ := run_of_not_wellFormed formed b
    have static : ran.1.result = .ok (.ok .staticError) := static
    have reported : ran.1.diagnostics = _ := reported
    obtain ⟨refuses, shows⟩ := LoxLang.outline_of_not_wellFormed formed
    rw [outlinedIs, refuses, shows, reports_analyse, reported]
    exact ⟨⟨fun _ => static, fun _ => rfl⟩, fun _ => ⟨rfl, rfl⟩, fun other => absurd static other,
      rfl, rfl⟩

/-- A fault stops the run at its second statement and not the outline, and an outline in front of a
call leaves that call as it was. -/
theorem Session.outline_observes_fault :
    let source := "var a = true; print a + nil; print a;"
    let ran := (Session.unlimited .empty).run source
    let outlined := (Session.unlimited .empty).outline none source
    ran.1.result = .ok (.ok .runtimeError) ∧ ran.1.output = [] ∧
      outlined.1.result = .ok .ok ∧ outlined.1.diagnostics = [] ∧
      outlined.1.outline = utf8 "(var a true)\n(print (+ a nil))\n(print a)\n" ∧
      (((Session.unlimited .empty).calls [.outline source, .run source]).1.eraseIdx 0).map
        Step.result = [.ok (.ok .runtimeError)] := by
  intro source ran outlined
  have fails : ran.1.result = .ok (.ok .runtimeError) := by decide +kernel
  obtain ⟨observes, beside⟩ := Session.outline_observes
  obtain ⟨succeeds, silent, -⟩ := (beside .empty source).2.2.1 (by
    show ran.1.result ≠ _
    rw [fails]
    simp)
  have beside_run : ((Session.unlimited .empty).calls [.outline source, .run source]).1.eraseIdx 0 =
      ((Session.unlimited .empty).calls [.run source]).1 :=
    (observes .empty [] [.run source] source).1
  refine ⟨fails, by decide +kernel, succeeds, silent, by decide +kernel, ?_⟩
  rw [beside_run]
  exact congrArg (fun result => [result]) fails

end LoxLang
