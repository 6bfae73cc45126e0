import LoxLang.Proofs.Execution.Operable
import LoxLang.Proofs.Grammar.Trials
import LoxLang.Proofs.Session.Unlimited
import LoxLang.Proofs.Source.Faults

/-!
# Errors in the text of a source

A source with an error in its text is reported in full and nothing of it is executed; any other is
executed and at most its runtime error is reported (`Session.run_static`). Which sources these are
is a matter of the grammar: the ones with a lexical error, and the ones whose tokens are not
declarations up to the end (`wellFormed_iff`).

The syntax errors are reported where they can first be known (`fault_earliest`). As the scanner
closes every source with an end-of-file token, each of them is about a token: that the tokens run
out is never reported of a source.
-/

namespace LoxLang

/-! ## Syntax errors -/

namespace Grammar

/-- Tokens that are declarations up to the end of the source. -/
def IsProgram (tokens : List Token) : Prop :=
  ∃ slices ss close, tokens = slices.flatten ++ [close] ∧ close.kind = .endOfFile ∧
    List.Forall₂ IsDeclaration slices ss

theorem errors_eq_nil_iff {tokens : List Token} {close : Token}
    (before : ∀ t ∈ tokens, t.isEnd = false) (closes : close.kind = .endOfFile) :
    errors (attempts (tokens ++ [close])) = [] ↔ IsProgram (tokens ++ [close]) := by
  have ends {close : Token} (closes : close.kind = .endOfFile) : close.isEnd = true := by
    simp [Token.isEnd, closes]
  constructor
  · intro clean
    obtain ⟨slices, cut, all⟩ :=
      exists_cut_of_results before (ends closes) (results_eq_ok_iff.mpr ⟨clean, rfl⟩)
    exact ⟨slices, _, close, by rw [cut], closes, all⟩
  · rintro ⟨slices, ss, close', spelled, closes', all⟩
    have read := (program_eq_ok_iff.mpr ⟨slices, spelled, all, ends closes'⟩).1
    exact (results_eq_ok_iff.mp read).1

/-- The errors of trials, one for each that failed and in their order. -/
theorem errors_trials {R : Nat → Diagnostic → Prop} {ts : List Trial}
    (told : ∀ t ∈ ts, ∀ d, t.attempt.result = .error d → R t.fault d) :
    List.Forall₂ R ((ts.filter Trial.failed).map Trial.fault) (errors (ts.map Trial.attempt)) := by
  induction ts with
  | nil => exact .nil
  | cons t rest ih =>
    obtain ⟨first, later⟩ := List.forall_mem_cons.mp told
    cases result : t.attempt.result with
    | ok s =>
      have succeeds : ¬ t.failed = true := by
        rw [Trial.failed_iff, result]
        rintro ⟨d, same⟩
        cases same
      have none : errors ((t :: rest).map Trial.attempt) = errors (rest.map Trial.attempt) := by
        simp [errors, result]
      rw [List.filter_cons_of_neg succeeds, none]
      exact ih later
    | error d =>
      have fails : t.failed = true := Trial.failed_iff.mpr ⟨d, result⟩
      have one : errors ((t :: rest).map Trial.attempt) =
          d :: errors (rest.map Trial.attempt) := by
        simp [errors, result]
      rw [List.filter_cons_of_pos fails, one]
      exact .cons (first d result) (ih later)

/-- In tokens that have an end, the syntax errors are about tokens at strictly increasing
positions. -/
theorem exists_positions (tokens : List Token) {close : Token} (closes : close.isEnd = true) :
    ∃ positions : List Nat, positions.Pairwise (· < ·) ∧
      List.Forall₂ (fun p d => ∃ u message, (tokens ++ [close])[p]? = some u ∧
        d = .syntactic u message) positions (errors (attempts (tokens ++ [close]))) := by
  refine ⟨_, pairwise_fault_trials 0 (tokens ++ [close]), ?_⟩
  rw [← map_attempt_trials 0]
  apply errors_trials
  intro t mem d failed
  have place := token?_of_mem_trials mem failed
  obtain ⟨_, _, u, _, fault, _, _, _, _, rfl⟩ := exists_token_of_error closes mem failed
  exact ⟨u, fault.message, place.symm, rfl⟩

/-- The trial that a syntax error comes from. -/
theorem exists_trial_of_mem_errors {tokens : List Token} {d : Diagnostic}
    (mem : d ∈ errors (attempts tokens)) :
    ∃ t ∈ trials 0 tokens, t.attempt.result = .error d := by
  rw [← map_attempt_trials 0] at mem
  obtain ⟨a, attempted, found⟩ := List.mem_filterMap.mp mem
  obtain ⟨t, tried, rfl⟩ := List.mem_map.mp attempted
  refine ⟨t, tried, ?_⟩
  split at found
  · cases found
  · rename_i error
    cases found
    exact error

/-- In tokens that have an end, every syntax error is about one of them. -/
theorem exists_of_mem_errors {tokens : List Token} {close : Token} (closes : close.isEnd = true)
    {d : Diagnostic} (mem : d ∈ errors (attempts (tokens ++ [close]))) :
    ∃ u ∈ tokens ++ [close], ∃ fault, d = .syntactic u (SyntaxFault.message fault) := by
  obtain ⟨t, tried, failed⟩ := exists_trial_of_mem_errors mem
  obtain ⟨_, _, u, _, fault, whole, _, _, _, same⟩ := exists_token_of_error closes tried failed
  exact ⟨u, by rw [whole]; simp, fault, same⟩

/-- In tokens that have an end, nothing is reported of tokens that run out. -/
theorem inputEnded_not_mem_errors (tokens : List Token) {close : Token}
    (closes : close.isEnd = true) : .inputEnded ∉ errors (attempts (tokens ++ [close])) := by
  intro mem
  obtain ⟨_, _, _, same⟩ := exists_of_mem_errors closes mem
  cases same

end Grammar

/-- A source is well-formed if it has no lexical error and its tokens are declarations up to the
end. -/
theorem wellFormed_iff {source : String} :
    WellFormed source ↔
      ¬ Source.HasFault source ∧ Grammar.IsProgram (Source.tokens (Source.scan source)) := by
  rw [WellFormed, Source.errors_scan_eq_nil_iff, Source.tokens_scan,
    Grammar.errors_eq_nil_iff (Source.not_isEnd_of_mem_tokens_split source) rfl]

/-! ## Where a declaration fails -/

/-- Analysis reports lexical faults, and syntax faults at tokens of the source. -/
theorem of_mem_reports_analyse {source : String} {d : Diagnostic}
    (mem : d ∈ reports (analyse source).events) :
    (∃ line fault, d = .lexical line (LexicalFault.message fault) ∧
      ∀ c, fault = .strayCharacter c → Source.isBlank c = false) ∨
    ∃ u ∈ Source.tokens (Source.scan source), ∃ fault,
      d = .syntactic u (SyntaxFault.message fault) := by
  rw [reports_analyse] at mem
  rcases List.mem_append.mp mem with lexical | syntactic
  · exact .inl (Source.exists_of_mem_errors lexical)
  · rw [Source.tokens_scan] at syntactic ⊢
    exact .inr (Grammar.exists_of_mem_errors rfl syntactic)

/-- Analysis never reports that the tokens ran out. -/
theorem inputEnded_not_mem_analyse (source : String) :
    .inputEnded ∉ reports (analyse source).events := by
  intro mem
  rcases of_mem_reports_analyse mem with ⟨_, _, same, -⟩ | ⟨_, _, _, same⟩
  · cases same
  · cases same

/-- A run reports what its analysis does, or its one runtime error, or nothing, by how it ends. -/
theorem reports_run_cases (b : Bindings) (source : String) :
    (run b source).ending = .ok .staticError ∧
        reports (run b source).events = reports (analyse source).events ∨
      (run b source).ending = .ok .runtimeError ∧
        (∃ site cause,
          reports (run b source).events = [.runtime site (RuntimeFault.message cause)]) ∨
      (run b source).ending = .ok .ok ∧ reports (run b source).events = [] := by
  by_cases formed : WellFormed source
  · rcases run_cases_of_wellFormed formed b with succeeds | fails
    · exact .inr (.inr succeeds)
    · exact .inr (.inl fails)
  · rw [run_of_not_wellFormed formed]
    exact .inl ⟨rfl, rfl⟩

theorem mem_reports_run {b : Bindings} {source : String} {d : Diagnostic}
    (mem : d ∈ reports (run b source).events) :
    d ∈ reports (analyse source).events ∨ ∃ site message, d = .runtime site message := by
  rcases reports_run_cases b source with ⟨-, analysed⟩ | ⟨-, site, cause, one⟩ | ⟨-, none⟩
  · rw [analysed] at mem
    exact .inl mem
  · rw [one] at mem
    exact .inr ⟨site, _, List.mem_singleton.mp mem⟩
  · rw [none] at mem
    cases mem

/-- An outline reports what its analysis does. -/
theorem reports_outline (source : String) :
    reports (outline source).events = reports (analyse source).events := by
  have outlined (ss : List Stmt) : reports (ss.map .outlined) = [] := by
    rw [reports, List.filterMap_map]
    exact List.filterMap_eq_nil_iff.mpr fun _ _ => rfl
  simp only [outline]
  split
  · rfl
  · rw [reports_append, outlined, List.append_nil]

namespace Grammar

/-- A declaration fails at the **earliest token** at which that can be known. In tokens with an end,
each failure is about a token at or behind the start of its trial: the kinds from the start up to it
properly begin the kinds of some declaration, and with its own kind they begin those of none. So
that the tokens ran out is never reported, neither of such tokens nor of any source. -/
theorem fault_earliest :
    (∀ (tokens : List Token) (close : Token), close.kind = .endOfFile →
      let all := tokens ++ [close]
      (trials 0 all).map Trial.attempt = attempts all ∧
      (∀ t ∈ trials 0 all, t.attempt = (attempt (all.drop t.start)).1 ∧
        ∀ d, t.attempt.result = .error d →
          ∃ p u message, t.start ≤ p ∧ all[p]? = some u ∧ d = .syntactic u message ∧
            (∃ ds s, IsDeclaration ds s ∧
              (all.extract t.start p).map Token.kind <+: ds.map Token.kind ∧
              (all.extract t.start p).map Token.kind ≠ ds.map Token.kind) ∧
            ∀ ds s, IsDeclaration ds s →
              ¬ (all.extract t.start (p + 1)).map Token.kind <+: ds.map Token.kind) ∧
      .inputEnded ∉ errors (attempts all)) ∧
    ∀ (b : Bindings) (source : String), .inputEnded ∉ reports (run b source).events ∧
      .inputEnded ∉ reports (outline source).events := by
  constructor
  · intro tokens close kind all
    have closes : close.isEnd = true := by simp [Token.isEnd, kind]
    refine ⟨map_attempt_trials 0 all, ?_, inputEnded_not_mem_errors tokens closes⟩
    intro t mem
    refine ⟨attempt_of_mem_trials mem, ?_⟩
    intro d failed
    obtain ⟨before, us, u, behind, fault, whole, start, begins, tried, rfl⟩ :=
      exists_token_of_error closes mem failed
    have whole : all = before ++ (us ++ u :: behind) := whole
    have front : all.extract t.start (before.length + us.length) = us := by
      rw [whole, start, extract_append]
    have through : all.extract t.start (before.length + us.length + 1) = us ++ [u] := by
      have cut := extract_append before (us ++ [u]) behind
      rw [List.append_assoc, List.length_append] at cut
      rw [whole, start]
      exact cut
    refine ⟨before.length + us.length, u, fault.message, ?_, ?_, rfl, ?_, ?_⟩
    · rw [start]
      exact Nat.le_add_right _ _
    · rw [whole]
      simp
    · rw [front]
      exact begins.kinds
    · rw [through]
      exact fun ds s => not_prefix_of_error tried
  · intro b source
    constructor
    · intro mem
      rcases mem_reports_run mem with analysed | ⟨site, message, same⟩
      · exact inputEnded_not_mem_analyse source analysed
      · cases same
    · rw [reports_outline]
      exact inputEnded_not_mem_analyse source

/-- In `print ( a ;` the parenthesis is missed at the semicolon, which three tokens precede that
begin a declaration. -/
theorem fault_earliest_unclosed :
    let all : List Token := [⟨.keyword .print, "print", 1⟩, ⟨.mark .leftParen, "(", 1⟩,
      ⟨.identifier, "a", 1⟩, ⟨.mark .semicolon, ";", 1⟩] ++ [⟨.endOfFile, "", 1⟩]
    (trial 0 all).fault = 3 ∧ ∃ d, (trial 0 all).attempt.result = .error d ∧
      ∃ p u message, all[p]? = some u ∧ d = .syntactic u message ∧
        ∀ ds s, IsDeclaration ds s → ¬ (all.extract 0 (p + 1)).map Token.kind <+:
          ds.map Token.kind := by
  intro all
  have tried : trial 0 all ∈ trials 0 all := by
    rw [trials, if_neg (by decide)]
    exact List.mem_cons_self
  have failed : (trial 0 all).failed = true := by decide +kernel
  obtain ⟨d, error⟩ := Trial.failed_iff.mp failed
  obtain ⟨p, u, message, -, found, told, -, none⟩ :=
    ((fault_earliest.1 _ ⟨.endOfFile, "", 1⟩ rfl).2.1 _ tried).2 d error
  have start : (trial 0 all).start = 0 := rfl
  rw [start] at none
  exact ⟨by decide +kernel, d, error, p, u, message, found, told, none⟩

end Grammar

/-! ## Running a source -/

/-- A well-formed source succeeds without a report, or ends with a runtime error and its report. -/
theorem Session.run_of_wellFormed {source : String} (formed : WellFormed source) (b : Bindings) :
    let step := ((Session.unlimited b).run source).1
    step.result = .ok (.ok .ok) ∧ step.diagnostics = [] ∨
      step.result = .ok (.ok .runtimeError) ∧
        ∃ site cause, step.diagnostics = rendered [.runtime site (RuntimeFault.message cause)] := by
  intro step
  have stepIs : step = _ := congrArg Prod.fst (Session.run_unlimited b source)
  have result : step.result = .ok (LoxLang.run b source).ending := by rw [stepIs]
  have diagnostics : step.diagnostics = rendered (reports (LoxLang.run b source).events) := by
    rw [stepIs]
  rcases run_cases_of_wellFormed formed b with ⟨ended, none⟩ | ⟨ended, site, cause, one⟩
  · rw [ended] at result
    rw [none] at diagnostics
    exact .inl ⟨result, diagnostics⟩
  · rw [ended] at result
    rw [one] at diagnostics
    exact .inr ⟨result, site, cause, diagnostics⟩

/-- Any other source ends with the static error and the reports of its analysis, and changes
nothing. -/
theorem Session.run_of_not_wellFormed {source : String} (malformed : ¬ WellFormed source)
    (b : Bindings) :
    let ran := (Session.unlimited b).run source
    ran.1.result = .ok (.ok .staticError) ∧ ran.2 = Session.unlimited b ∧ ran.1.output = [] ∧
      ran.1.diagnostics = rendered (Source.errors (Source.scan source) ++
        Grammar.errors (Grammar.attempts (Source.tokens (Source.scan source)))) := by
  intro ran
  have ranIs : ran = _ := Session.run_unlimited b source
  rw [LoxLang.run_of_not_wellFormed malformed] at ranIs
  simp only [effects_analyse, reports_analyse] at ranIs
  rw [ranIs]
  exact ⟨rfl, rfl, rfl, rfl⟩

/-- Errors in the text are **all or nothing**. A run ends with the static error exactly if the
source has a lexical error or its tokens are not declarations up to the end. It then leaves bindings
and output as they were, and reports all lexical errors and then all syntax errors, both in the
order of the source. Otherwise it reports its runtime error, if it ends with one, and nothing
else. -/
theorem Session.run_static (b : Bindings) (source : String) :
    let tokens := Source.tokens (Source.scan source)
    let ran := (Session.unlimited b).run source
    (ran.1.result = .ok (.ok .staticError) ↔
      Source.HasFault source ∨ ¬ Grammar.IsProgram tokens) ∧
    (ran.1.result = .ok (.ok .staticError) →
      ran.2 = Session.unlimited b ∧ ran.1.output = [] ∧
      ∃ lexical syntactic, ran.1.diagnostics = rendered (lexical ++ syntactic) ∧
        lexical = Source.errors (Source.scan source) ∧
        syntactic = Grammar.errors (Grammar.attempts tokens) ∧
        (∃ pieces, Source.Segments pieces source.toList ∧
          List.Forall₂ Source.Gives (pieces.filter Source.Piece.isFault) (lexical.map .error)) ∧
        ∃ positions : List Nat, positions.Pairwise (· < ·) ∧
          List.Forall₂ (fun p d => ∃ u message, tokens[p]? = some u ∧ d = .syntactic u message)
            positions syntactic) ∧
    (ran.1.result ≠ .ok (.ok .staticError) →
      ran.1.result = .ok (.ok .ok) ∧ ran.1.diagnostics = [] ∨
      ran.1.result = .ok (.ok .runtimeError) ∧
        ∃ site cause, ran.1.diagnostics =
          rendered [.runtime site (RuntimeFault.message cause)]) := by
  intro tokens ran
  have textual : Source.HasFault source ∨ ¬ Grammar.IsProgram tokens ↔ ¬ WellFormed source := by
    rw [wellFormed_iff, not_and_or, not_not]
  have static : ran.1.result = .ok (.ok .staticError) ↔ ¬ WellFormed source := by
    constructor
    · intro ended formed
      rcases Session.run_of_wellFormed formed b with ⟨succeeds, -⟩ | ⟨fails, -⟩
      · cases ended.symm.trans succeeds
      · cases ended.symm.trans fails
    · intro malformed
      exact (Session.run_of_not_wellFormed malformed b).1
  refine ⟨static.trans textual.symm, ?_, ?_⟩
  · intro ended
    obtain ⟨-, after, output, reported⟩ := Session.run_of_not_wellFormed (static.mp ended) b
    refine ⟨after, output, _, _, reported, rfl, rfl, ?_, ?_⟩
    · rw [Source.errors_scan]
      exact ⟨_, Source.split_eq_iff.mp rfl, Source.errors_gives 1 _⟩
    · simp only [tokens, Source.tokens_scan]
      apply Grammar.exists_positions
      rfl
  · intro other
    exact Session.run_of_wellFormed (not_not.mp fun malformed => other (static.mpr malformed)) b

/-- A stray character spoils a source of which all tokens together are a declaration, and is
reported. Behind a syntax error in the line in front of it, it is reported first all the same. -/
theorem Session.run_static_stray :
    let source := "var a @ = true;"
    let source' := "print;\nvar a @ = true;"
    let ran := (Session.unlimited .empty).run source
    let ran' := (Session.unlimited .empty).run source'
    (Grammar.errors (Grammar.attempts (Source.tokens (Source.scan source))) = [] ∧
      ran.1.result = .ok (.ok .staticError) ∧ ran.2 = Session.unlimited .empty ∧
      ran.1.output = [] ∧
      ran.1.diagnostics = utf8 "[line 1] Error: Unexpected character '@'.\n") ∧
    ran'.1.result = .ok (.ok .staticError) ∧ ran'.2 = Session.unlimited .empty ∧
      ran'.1.output = [] ∧
      ran'.1.diagnostics = utf8 ("[line 2] Error: Unexpected character '@'.\n" ++
        "[line 1] Error at ';': Expect expression.\n") := by
  intro source source' ran ran'
  have hasFault {source : String}
      (stray : (Source.errors (Source.scan source)).isEmpty = false) : Source.HasFault source := by
    by_contra clean
    rw [Source.errors_scan_eq_nil_iff.mpr clean] at stray
    cases stray
  have fault : Source.HasFault source := hasFault (by decide +kernel)
  have fault' : Source.HasFault source' := hasFault (by decide +kernel)
  obtain ⟨static, changes, -⟩ := Session.run_static .empty source
  obtain ⟨static', changes', -⟩ := Session.run_static .empty source'
  have ended := static.mpr (.inl fault)
  have ended' := static'.mpr (.inl fault')
  obtain ⟨after, output, lexical, syntactic, told, rfl, rfl, -⟩ := changes ended
  obtain ⟨after', output', lexical', syntactic', told', rfl, rfl, -⟩ := changes' ended'
  refine ⟨⟨?_, ended, after, output, told.trans ?_⟩, ended', after', output', told'.trans ?_⟩
  all_goals decide +kernel

end LoxLang
