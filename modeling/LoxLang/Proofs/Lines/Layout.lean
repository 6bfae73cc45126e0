import LoxLang.Proofs.Lines.Execution
import LoxLang.Proofs.Session.Outlines
import LoxLang.Proofs.Source.Joining

/-!
# Layout does not matter

Two sources have the same layout up to lines if they scan to the same items once lines are
**forgotten**: blanks and comments may stand anywhere that does not change a lexeme. Forgetting is
relabelling by a constant function, so what commutes with relabelling is the same for both sources:
the attempts made on their tokens, the statements read, and what these do.

Hence such sources run alike and are outlined alike, and their diagnostics are the same but for the
lines that they name (`Session.run_layout`). Lines show in no other way.
-/

namespace LoxLang

/-- Forgets a line. -/
def forget : Nat → Nat := fun _ => 0

/-- Sources with the same items, once lines are forgotten. -/
def Source.SameItems (source source' : String) : Prop :=
  (scan source).map (Item.relabel forget) = (scan source').map (Item.relabel forget)

instance (source source' : String) : Decidable (Source.SameItems source source') :=
  inferInstanceAs (Decidable (_ = _))

/-! ## Relabelled attempts -/

namespace Grammar

variable (f : Nat → Nat)

theorem statements_relabel (attempts : List Attempt) :
    statements (attempts.map (Attempt.relabel f)) = (statements attempts).map (Stmt.relabel f) := by
  induction attempts with
  | nil => rfl
  | cons a rest ih =>
    obtain ⟨result, skipped⟩ := a
    cases result with
    | ok s => exact congrArg (s.relabel f :: ·) ih
    | error d => exact ih

theorem errors_relabel (attempts : List Attempt) :
    errors (attempts.map (Attempt.relabel f)) = (errors attempts).map (Diagnostic.relabel f) := by
  induction attempts with
  | nil => rfl
  | cons a rest ih =>
    obtain ⟨result, skipped⟩ := a
    cases result with
    | ok s => exact ih
    | error d => exact congrArg (d.relabel f :: ·) ih

end Grammar

/-! ## Relabelled outlines -/

theorem Expr.outline_relabel (f : Nat → Nat) (e : Expr) : (e.relabel f).outline = e.outline := by
  induction e with
  | literal value => rfl
  | name token => rfl
  | grouping inner ih => simp only [Expr.relabel, Expr.outline, ih]
  | unary op operand ih => simp only [Expr.relabel, Expr.outline, ih, Token.relabel_lexeme]
  | binary left op right ihl ihr =>
    simp only [Expr.relabel, Expr.outline, ihl, ihr, Token.relabel_lexeme]

theorem Stmt.outline_relabel (f : Nat → Nat) (s : Stmt) : (s.relabel f).outline = s.outline := by
  match s with
  | .expression e => simp only [Stmt.relabel, Stmt.outline, e.outline_relabel f]
  | .print e => simp only [Stmt.relabel, Stmt.outline, e.outline_relabel f]
  | .declare name none => rfl
  | .declare name (some e) =>
    simp only [Stmt.relabel, Stmt.outline, Option.map_some, e.outline_relabel f,
      Token.relabel_lexeme]

theorem outlines_relabel (f : Nat → Nat) (ss : List Stmt) :
    outlines (ss.map (Stmt.relabel f)) = outlines ss := by
  simp only [outlines, List.map_map, Function.comp_def, Stmt.outline_relabel]

/-! ## The stages of two sources -/

section

variable {source source' : String} (same : Source.SameItems source source')

include same

theorem attempts_sameItems :
    (Grammar.attempts (Source.tokens (Source.scan source))).map (Grammar.Attempt.relabel forget) =
      (Grammar.attempts (Source.tokens (Source.scan source'))).map
        (Grammar.Attempt.relabel forget) := by
  rw [← Grammar.attempts_relabel, ← Grammar.attempts_relabel, ← Source.tokens_relabel,
    ← Source.tokens_relabel, same]

theorem statementsOf_sameItems :
    (statementsOf source).map (Stmt.relabel forget) =
      (statementsOf source').map (Stmt.relabel forget) := by
  rw [statementsOf, statementsOf, ← Grammar.statements_relabel, ← Grammar.statements_relabel,
    attempts_sameItems same]

theorem lexical_sameItems :
    (Source.errors (Source.scan source)).map (Diagnostic.relabel forget) =
      (Source.errors (Source.scan source')).map (Diagnostic.relabel forget) := by
  rw [← Source.errors_relabel, ← Source.errors_relabel, same]

theorem syntactic_sameItems :
    (Grammar.errors (Grammar.attempts (Source.tokens (Source.scan source)))).map
        (Diagnostic.relabel forget) =
      (Grammar.errors (Grammar.attempts (Source.tokens (Source.scan source')))).map
        (Diagnostic.relabel forget) := by
  rw [← Grammar.errors_relabel, ← Grammar.errors_relabel, attempts_sameItems same]

theorem wellFormed_sameItems : WellFormed source ↔ WellFormed source' := by
  have empty {ds ds' : List Diagnostic}
      (alike : ds.map (Diagnostic.relabel forget) = ds'.map (Diagnostic.relabel forget)) :
      ds = [] ↔ ds' = [] := by
    rw [← List.length_eq_zero_iff, ← List.length_eq_zero_iff, ← List.length_map, alike,
      List.length_map]
  exact and_congr (empty (lexical_sameItems same)) (empty (syntactic_sameItems same))

theorem reports_analyse_sameItems :
    (reports (analyse source).events).map (Diagnostic.relabel forget) =
      (reports (analyse source').events).map (Diagnostic.relabel forget) := by
  rw [reports_analyse, reports_analyse, List.map_append, List.map_append, lexical_sameItems same,
    syntactic_sameItems same]

/-- The execution of two sources with the same items does the same, and ends in the same way but for
the line of its fault. -/
theorem execute_sameItems (b : Bindings) :
    (execute b (statementsOf source)).events = (execute b (statementsOf source')).events ∧
      (execute b (statementsOf source)).ending.mapError (Failure.relabel forget) =
        (execute b (statementsOf source')).ending.mapError (Failure.relabel forget) := by
  have executed := execute_relabel forget b (statementsOf source)
  rw [statementsOf_sameItems same, execute_relabel] at executed
  injection executed with events ending
  exact ⟨events.symm, ending.symm⟩

/-- Runs of two sources with the same items. -/
theorem run_sameItems (b : Bindings) :
    (run b source).ending = (run b source').ending ∧
      effects (run b source).events = effects (run b source').events ∧
      (reports (run b source).events).map (Diagnostic.relabel forget) =
        (reports (run b source').events).map (Diagnostic.relabel forget) := by
  by_cases formed : WellFormed source
  · obtain ⟨did, reported, ended⟩ := run_of_wellFormed formed b
    obtain ⟨did', reported', ended'⟩ := run_of_wellFormed ((wellFormed_sameItems same).mp formed) b
    obtain ⟨events, ending⟩ := execute_sameItems same b
    obtain ⟨status, told⟩ := conclude_relabel forget (execute b (statementsOf source)).ending
    obtain ⟨status', told'⟩ := conclude_relabel forget (execute b (statementsOf source')).ending
    rw [ending] at status told
    refine ⟨?_, ?_, ?_⟩
    · rw [ended, ended', ← status, status']
    · rw [did, did', events]
    · rw [reported, reported', ← told, told']
  · have malformed' := fun formed' => formed ((wellFormed_sameItems same).mpr formed')
    rw [run_of_not_wellFormed formed, run_of_not_wellFormed malformed']
    exact ⟨rfl, by rw [effects_analyse, effects_analyse], reports_analyse_sameItems same⟩

/-- Outlines of two sources with the same items. -/
theorem outline_sameItems :
    (outline source).ending = (outline source').ending ∧
      shown .outline (outline source).events = shown .outline (outline source').events := by
  by_cases formed : WellFormed source
  · obtain ⟨ended, shows⟩ := outline_of_wellFormed formed
    obtain ⟨ended', shows'⟩ := outline_of_wellFormed ((wellFormed_sameItems same).mp formed)
    rw [ended, ended', shows, shows', ← outlines_relabel forget (statementsOf source),
      statementsOf_sameItems same, outlines_relabel]
    exact ⟨rfl, rfl⟩
  · have malformed' := fun formed' => formed ((wellFormed_sameItems same).mpr formed')
    obtain ⟨ended, shows⟩ := outline_of_not_wellFormed formed
    obtain ⟨ended', shows'⟩ := outline_of_not_wellFormed malformed'
    rw [ended, ended', shows, shows']
    exact ⟨rfl, rfl⟩

end

/-! ## Running and outlining -/

/-- **Layout does not matter** beyond lines. Two sources that scan to the same items, once lines are
forgotten, run from the same bindings to the same end, with the same output and the same bindings,
and what they report is the same once lines are forgotten. Their outlines are the same too. -/
theorem Session.run_layout {source source' : String} (same : Source.SameItems source source')
    (b : Bindings) :
    let ran := (Session.unlimited b).run source
    let ran' := (Session.unlimited b).run source'
    let outlined := (Session.unlimited b).outline none source
    let outlined' := (Session.unlimited b).outline none source'
    (ran.1.result = ran'.1.result ∧ ran.1.output = ran'.1.output ∧ ran.2 = ran'.2) ∧
    (outlined.1.result = outlined'.1.result ∧ outlined.1.outline = outlined'.1.outline) ∧
    ran.1.diagnostics = rendered (reports (LoxLang.run b source).events) ∧
    ran'.1.diagnostics = rendered (reports (LoxLang.run b source').events) ∧
    (reports (LoxLang.run b source).events).map (Diagnostic.relabel forget) =
      (reports (LoxLang.run b source').events).map (Diagnostic.relabel forget) ∧
    outlined.1.diagnostics = rendered (reports (LoxLang.outline source).events) ∧
    outlined'.1.diagnostics = rendered (reports (LoxLang.outline source').events) ∧
    (reports (LoxLang.outline source).events).map (Diagnostic.relabel forget) =
      (reports (LoxLang.outline source').events).map (Diagnostic.relabel forget) := by
  intro ran ran' outlined outlined'
  obtain ⟨ended, did, reported⟩ := run_sameItems same b
  obtain ⟨ended', shows⟩ := outline_sameItems same
  have ranIs : ran = _ := Session.run_unlimited b source
  have ranIs' : ran' = _ := Session.run_unlimited b source'
  have outlinedIs : outlined = _ := Session.outline_unlimited b source
  have outlinedIs' : outlined' = _ := Session.outline_unlimited b source'
  rw [reports_outline, reports_outline]
  refine ⟨⟨?_, ?_, ?_⟩, ⟨?_, ?_⟩, ?_, ?_, reported, ?_, ?_, reports_analyse_sameItems same⟩
  · rw [ranIs, ranIs', ended]
  · rw [ranIs, ranIs', did]
  · rw [ranIs, ranIs', did]
  · rw [outlinedIs, outlinedIs', ended']
  · rw [outlinedIs, outlinedIs', shows]
  · rw [ranIs]
  · rw [ranIs']
  · rw [outlinedIs]
  · rw [outlinedIs']

/-- The same statements on one line and on four, with a comment: the second print statement fails
in both, and is reported on lines 1 and 4. -/
theorem Session.run_layout_comment :
    let source := "var a=true;print a;print b;"
    let source' := "var a\n = true; // and\nprint a;\nprint\tb ;"
    let ran := (Session.unlimited .empty).run source
    let ran' := (Session.unlimited .empty).run source'
    Source.SameItems source source' ∧ ran.1.result = .ok (.ok .runtimeError) ∧
      ran'.1.result = ran.1.result ∧ ran'.1.output = utf8 "true\n" ∧ ran'.2 = ran.2 ∧
      ran.1.diagnostics = utf8 "[line 1] Error at 'b': Undefined variable 'b'.\n" ∧
      ran'.1.diagnostics = utf8 "[line 4] Error at 'b': Undefined variable 'b'.\n" := by
  intro source source' ran ran'
  have same : Source.SameItems source source' := by decide +kernel
  obtain ⟨⟨result, output, bindings⟩, -⟩ := Session.run_layout same .empty
  refine ⟨same, by decide +kernel, result.symm, output.symm.trans ?_, bindings.symm, ?_, ?_⟩
  · decide +kernel
  · decide +kernel
  · decide +kernel

end LoxLang
