import LoxLang.Proofs.Grammar.Reading
import LoxLang.Proofs.Lines.Execution
import LoxLang.Proofs.Session.Unlimited
import LoxLang.Proofs.Source.Joining

/-!
# Running joined sources

Two well-formed sources with a line break between them make one well-formed source, whose statements
are those of the first and then those of the second, moved down by the lines of the first
(`statementsOf_append_newline`). The three stages each do their part: the scanner cuts at the line
break, the reader never looks past the last semicolon of the first source, and the bindings that the
first leaves are the ones the second starts from.

So running the whole is running the parts, up to the lines in what the second reports
(`Session.run_append_newline`). Where the first source fails at run time, nothing of the second is
executed.
-/

namespace LoxLang

/-! ## Statements of joined sources -/

/-- The statements of two well-formed sources with a line break between them. -/
theorem statementsOf_append_newline {first second : String} (formed : WellFormed first)
    (formed' : WellFormed second) :
    WellFormed (first ++ "\n" ++ second) ∧
      statementsOf (first ++ "\n" ++ second) = statementsOf first ++
        (statementsOf second).map (Stmt.relabel (· + Source.lineCount first)) := by
  have clean : Source.errors (Source.stamped 1 (Source.split first.toList)) = [] := by
    rw [← Source.errors_scan]
    exact formed.1
  have joined := Source.scan_append_newline first second (Source.closedBy_newline_of_errors clean)
  -- The first source is read whole, so it is read the same in front of the second.
  have read := results_of_wellFormed formed
  rw [Source.tokens_scan] at read
  have before := Source.not_isEnd_of_mem_tokens_split first
  have front := Grammar.attempts_append_of_ok before rfl read
  have read' := results_of_wellFormed formed'
  have whole : (Grammar.attempts (Source.tokens (Source.scan (first ++ "\n" ++ second)))).map
      Grammar.Attempt.result = (statementsOf first ++
        (statementsOf second).map (Stmt.relabel (· + Source.lineCount first))).map .ok := by
    rw [joined, Source.tokens_append, Source.tokens_relabel, front, Grammar.attempts_relabel,
      List.map_append, Grammar.results_relabel _ read', List.map_append, List.map_map]
    rfl
  obtain ⟨clean', same⟩ := results_eq_ok_iff.mp whole
  refine ⟨⟨?_, clean'⟩, same⟩
  rw [joined, Source.errors_append, Source.errors_relabel, clean, formed'.1]
  rfl

/-! ## Running joined sources -/

/-- Behind a source that succeeds, a second one runs from the bindings that the first leaves, and
reports what it would report alone, moved down by the lines of the first. -/
theorem run_append_newline_of_ok {first second : String} (formed : WellFormed first)
    (formed' : WellFormed second) {b : Bindings} (succeeds : (run b first).ending = .ok .ok) :
    let b' := b.afterAll (effects (run b first).events)
    let down : Nat → Nat := (· + Source.lineCount first)
    effects (run b (first ++ "\n" ++ second)).events =
        effects (run b first).events ++ effects (run b' second).events ∧
      reports (run b (first ++ "\n" ++ second)).events =
        (reports (run b' second).events).map (Diagnostic.relabel down) ∧
      (run b (first ++ "\n" ++ second)).ending = (run b' second).ending := by
  intro b' down
  obtain ⟨formedBoth, statements⟩ := statementsOf_append_newline formed formed'
  obtain ⟨did, -, ended⟩ := run_of_wellFormed formed b
  obtain ⟨did', reported', ended'⟩ := run_of_wellFormed formed' b'
  obtain ⟨didBoth, reportedBoth, endedBoth⟩ := run_of_wellFormed formedBoth b
  have finished : (execute b (statementsOf first)).ending = .ok () :=
    conclude_ending_eq_ok_iff.mp (ended.symm.trans succeeds)
  have starts : b' = b.afterAll (execute b (statementsOf first)).events := congrArg b.afterAll did
  have whole : execute b (statementsOf (first ++ "\n" ++ second)) =
      ⟨(execute b (statementsOf first)).events ++ (execute b' (statementsOf second)).events,
        (execute b' (statementsOf second)).ending.mapError (Failure.relabel down)⟩ := by
    rw [statements, execute_append_of_ok finished, execute_relabel, starts]
  rw [whole] at didBoth reportedBoth endedBoth
  refine ⟨?_, ?_, ?_⟩
  · rw [didBoth, did, did']
  · rw [reportedBoth, reported', (conclude_relabel down _).2]
  · rw [endedBoth, ended', (conclude_relabel down _).1]

/-- Behind a source that fails at run time, nothing is executed. -/
theorem run_append_newline_of_runtimeError {first second : String} (formed : WellFormed first)
    (formed' : WellFormed second) {b : Bindings}
    (fails : (run b first).ending = .ok .runtimeError) :
    effects (run b (first ++ "\n" ++ second)).events = effects (run b first).events ∧
      reports (run b (first ++ "\n" ++ second)).events = reports (run b first).events ∧
      (run b (first ++ "\n" ++ second)).ending = (run b first).ending := by
  obtain ⟨formedBoth, statements⟩ := statementsOf_append_newline formed formed'
  obtain ⟨did, reported, ended⟩ := run_of_wellFormed formed b
  obtain ⟨didBoth, reportedBoth, endedBoth⟩ := run_of_wellFormed formedBoth b
  obtain ⟨site, cause, failed⟩ :=
    exists_of_conclude_ending_eq_runtimeError (ended.symm.trans fails)
  rw [statements, execute_append_of_error failed] at didBoth reportedBoth endedBoth
  exact ⟨didBoth.trans did.symm, reportedBoth.trans reported.symm, endedBoth.trans ended.symm⟩

/-- Running a first source and then a second is **running the two as one**, with a line break
between them, if both are well-formed. After a success of the first the whole ends as the second
does, with its bindings, its output behind that of the first, and its diagnostics moved down by the
lines of the first. After a failure of the first at run time the whole ends as the first does, and
executes nothing else. -/
theorem Session.run_append_newline {first second : String} (formed : WellFormed first)
    (formed' : WellFormed second) (b : Bindings) :
    let one := (Session.unlimited b).run first
    let two := one.2.run second
    let both := (Session.unlimited b).run (first ++ "\n" ++ second)
    let down : Nat → Nat := (· + (first.toList.count '\n' + 1))
    (one.1.result = .ok (.ok .ok) →
      both.1.result = two.1.result ∧ both.2 = two.2 ∧
      both.1.output = one.1.output ++ two.1.output ∧
      ∃ diagnostics, reports (LoxLang.run one.2.bindings second).events = diagnostics ∧
        two.1.diagnostics = rendered diagnostics ∧
        both.1.diagnostics = rendered (diagnostics.map (Diagnostic.relabel down))) ∧
    (one.1.result = .ok (.ok .runtimeError) →
      both.1.result = one.1.result ∧ both.2 = one.2 ∧ both.1.output = one.1.output ∧
      both.1.diagnostics = one.1.diagnostics ∧
      effects (LoxLang.run b (first ++ "\n" ++ second)).events =
        effects (LoxLang.run b first).events) := by
  intro one two both down
  have lines : down = (· + Source.lineCount first) := by
    funext line
    exact congrArg (line + ·) (Nat.add_comm _ _)
  have oneIs : one = _ := Session.run_unlimited b first
  have twoIs : two = one.2.run second := rfl
  have bothIs : both = _ := Session.run_unlimited b (first ++ "\n" ++ second)
  constructor
  · intro succeeds
    rw [oneIs] at succeeds
    obtain ⟨did, reported, ended⟩ :=
      run_append_newline_of_ok formed formed' (Except.ok.inj succeeds)
    rw [oneIs, Session.run_unlimited] at twoIs
    rw [did, reported, ended] at bothIs
    rw [oneIs, twoIs, bothIs, lines]
    refine ⟨rfl, ?_, ?_, _, rfl, rfl, rfl⟩
    · exact congrArg Session.unlimited (afterAll_append ..)
    · simp only [shown_append, utf8_append]
  · intro fails
    rw [oneIs] at fails
    obtain ⟨did, reported, ended⟩ :=
      run_append_newline_of_runtimeError formed formed' (Except.ok.inj fails)
    rw [did, reported, ended] at bothIs
    rw [oneIs, bothIs]
    exact ⟨rfl, rfl, rfl, rfl, did⟩

/-- Two sources in both orders. In the one, the value declared and printed by the first is found by
the second, which fails on line 3 of the whole and on line 1 of its own; in the other, the name is
not declared yet, and what fails on line 1 keeps the declaration behind it from being executed. -/
theorem Session.run_append_newline_declaration :
    let first := "var a = true;\nprint a;"
    let second := "print -a;"
    let one := (Session.unlimited .empty).run first
    let two := one.2.run second
    let both := (Session.unlimited .empty).run (first ++ "\n" ++ second)
    let alone := (Session.unlimited .empty).run second
    let swapped := (Session.unlimited .empty).run (second ++ "\n" ++ first)
    (WellFormed first ∧ WellFormed second) ∧
    (one.1.result = .ok (.ok .ok) ∧ both.2 = two.2 ∧
      both.1.result = .ok (.ok .runtimeError) ∧ both.1.output = utf8 "true\n" ∧
      two.1.diagnostics = utf8 "[line 1] Error at '-': Operand must be a number.\n" ∧
      both.1.diagnostics = utf8 "[line 3] Error at '-': Operand must be a number.\n" ∧
      both.2.bindings.get? "a" = some (.bool true)) ∧
    alone.1.result = .ok (.ok .runtimeError) ∧ swapped.2 = alone.2 ∧
      swapped.1.result = .ok (.ok .runtimeError) ∧ swapped.1.output = [] ∧
      swapped.1.diagnostics = utf8 "[line 1] Error at 'a': Undefined variable 'a'.\n" ∧
      swapped.2.bindings.get? "a" = none := by
  intro first second one two both alone swapped
  have formed : WellFormed first := by constructor <;> decide +kernel
  have formed' : WellFormed second := by constructor <;> decide +kernel
  have succeeds : one.1.result = .ok (.ok .ok) := by decide +kernel
  have fails : alone.1.result = .ok (.ok .runtimeError) := by decide +kernel
  obtain ⟨result, after, output, ds, reported, told, moved⟩ :=
    (Session.run_append_newline formed formed' .empty).1 succeeds
  obtain ⟨result', after', output', told', -⟩ :=
    (Session.run_append_newline formed' formed .empty).2 fails
  have report : ds = [.runtime ⟨.mark .minus, "-", 1⟩ "Operand must be a number."] := by
    rw [← reported]
    decide +kernel
  rw [report] at told moved
  have kept : both.2.bindings.get? "a" = some (.bool true) := by
    rw [after]
    decide +kernel
  have unbound : swapped.2.bindings.get? "a" = none := by
    rw [after']
    decide +kernel
  refine ⟨⟨formed, formed'⟩,
    ⟨succeeds, after, result.trans ?_, output.trans ?_, told.trans ?_, moved.trans ?_, kept⟩,
    fails, after', result'.trans fails, output'.trans ?_, told'.trans ?_, unbound⟩
  all_goals decide +kernel

end LoxLang
