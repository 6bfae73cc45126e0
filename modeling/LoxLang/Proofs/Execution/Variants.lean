import LoxLang.Proofs.Execution.Course

/-!
# Faults depend on variants only

A value is of one of four **variants**. Programs are **alike** if they differ in their literals only
and have literals of the same variants at the same places. Bindings are alike if they give values of
the same variants to the same names.

Whether an operator can be applied depends on the variants of its operands, and so does the variant
of what it gives (`ByVariant`). So expressions that are alike have values of the same variant or the
same failure (`Expr.Alike.evaluate`), and statements that are alike leave bindings that are alike
(`Bindings.Alike.afterStmt`). A course of one program is therefore accompanied by a course of the
other, statement by statement and with the same ending (`Course.alike`): values decide what is
printed, and never whether or where execution stops (`Session.execute_alike`).
-/

namespace LoxLang

/-! ## Variants -/

/-- The **variants** of values. -/
inductive Variant where
  | nil
  | bool
  | number
  | string
deriving DecidableEq, Repr

/-- The variant of a value. -/
def Value.variant : Value → Variant
  | .nil => .nil
  | .bool _ => .bool
  | .number _ => .number
  | .string _ => .string

theorem Value.variant_bool (flag : Bool) : (Value.bool flag).variant = .bool := rfl

theorem Value.variant_number (value : Float) : (Value.number value).variant = .number := rfl

/-- Bindings of the same names to values of the same variants. -/
def Bindings.Alike (b b' : Bindings) : Prop :=
  ∀ name, (b.get? name).map Value.variant = (b'.get? name).map Value.variant

/-- Expressions that are the same but for the values of their literals, which are of the same
variants. -/
inductive Expr.Alike : Expr → Expr → Prop where
  | literal {v v' : Value} (same : v.variant = v'.variant) : Alike (.literal v) (.literal v')
  | name (token : Token) : Alike (.name token) (.name token)
  | grouping {e e' : Expr} (inner : Alike e e') : Alike (.grouping e) (.grouping e')
  | unary (op : Token) {e e' : Expr} (operand : Alike e e') : Alike (.unary op e) (.unary op e')
  | binary (op : Token) {l l' r r' : Expr} (left : Alike l l') (right : Alike r r') :
      Alike (.binary l op r) (.binary l' op r')

/-- Statements that are the same but for the values of their literals. -/
inductive Stmt.Alike : Stmt → Stmt → Prop where
  | expression {e e' : Expr} (value : e.Alike e') : Alike (.expression e) (.expression e')
  | print {e e' : Expr} (value : e.Alike e') : Alike (.print e) (.print e')
  | bare (name : Token) : Alike (.declare name none) (.declare name none)
  | initialised (name : Token) {e e' : Expr} (initial : e.Alike e') :
      Alike (.declare name (some e)) (.declare name (some e'))

/-! ## Operators -/

/-- Results with values of the same variant, or with the same failure. -/
theorem cases_of_variants_eq {result result' : Except Failure Value}
    (same : result.map Value.variant = result'.map Value.variant) :
    (∃ v v', result = .ok v ∧ result' = .ok v' ∧ v.variant = v'.variant) ∨
      ∃ failure, result = .error failure ∧ result' = .error failure := by
  match result, result' with
  | .ok v, .ok v' => exact .inl ⟨v, v', rfl, rfl, Except.ok.inj same⟩
  | .error failure, .error failure' =>
    cases same
    exact .inr ⟨failure, rfl, rfl⟩
  | .ok _, .error _ => cases same
  | .error _, .ok _ => cases same

/-- An operation that fails or not, and gives a variant, by the variants of its operands. -/
def ByVariant (operation : Value → Value → Except Failure Value) : Prop :=
  ∀ {l l' r r' : Value}, l.variant = l'.variant → r.variant = r'.variant →
    (operation l r).map Value.variant = (operation l' r').map Value.variant

/-- An operation on numbers that always gives the same variant. -/
theorem onNumbers_byVariant (op : Token) {f : Float → Float → Value} {variant : Variant}
    (gives : ∀ a b, (f a b).variant = variant) : ByVariant (onNumbers op f) := by
  intro l l' r r' left right
  cases l <;> cases l' <;> cases left <;> cases r <;> cases r' <;> cases right <;>
    simp only [onNumbers, Except.map, gives]

theorem add_byVariant (op : Token) : ByVariant (add op) := by
  intro l l' r r' left right
  cases l <;> cases l' <;> cases left <;> cases r <;> cases r' <;> cases right <;>
    simp only [add, Except.map, Value.variant]

theorem applyBinary_byVariant (op : Token) : ByVariant (applyBinary op) := by
  intro l l' r r' left right
  unfold applyBinary
  split
  -- The variants of results are given by lemmas: `rfl` would compare the results as doubles.
  case h_1 | h_3 | h_4 =>
    exact onNumbers_byVariant op (fun _ _ => Value.variant_number _) left right
  case h_2 => exact add_byVariant op left right
  case h_5 | h_6 | h_7 | h_8 =>
    exact onNumbers_byVariant op (fun _ _ => Value.variant_bool _) left right
  case h_9 | h_10 => simp only [Except.map, Value.variant]
  case h_11 => rfl

theorem applyUnary_byVariant (op : Token) {v v' : Value} (same : v.variant = v'.variant) :
    (applyUnary op v).map Value.variant = (applyUnary op v').map Value.variant := by
  by_cases minus : op.kind = .mark .minus
  · cases v <;> cases v' <;> cases same <;>
      simp only [applyUnary, minus, Except.map, Value.variant]
  · by_cases bang : op.kind = .mark .bang
    · simp only [applyUnary, bang, Except.map, Value.variant]
    · have broken (v : Value) : applyUnary op v = .error (.broken .notUnary) := by
        unfold applyUnary
        split <;> first | contradiction | rfl
      rw [broken, broken]

/-! ## Expressions and statements -/

section

variable {b b' : Bindings} (same : b.Alike b')

include same

theorem Expr.Alike.evaluate {e e' : Expr} (alike : e.Alike e') :
    (e.evaluate b).map Value.variant = (e'.evaluate b').map Value.variant := by
  induction alike with
  | literal variant => exact congrArg Except.ok variant
  | name token =>
    have bound := same token.lexeme
    simp only [Expr.evaluate]
    cases found : b.get? token.lexeme with
    | none =>
      rw [found] at bound
      rw [Option.map_eq_none_iff.mp bound.symm]
    | some v =>
      rw [found] at bound
      obtain ⟨v', found', variant⟩ := Option.map_eq_some_iff.mp bound.symm
      rw [found']
      exact congrArg Except.ok variant.symm
  | grouping _ ih => exact ih
  | unary op _ ih =>
    simp only [Expr.evaluate]
    rcases cases_of_variants_eq ih with ⟨v, v', computes, computes', variant⟩ |
      ⟨failure, fails, fails'⟩
    · rw [computes, computes']
      exact applyUnary_byVariant op variant
    · rw [fails, fails']
  | binary op _ _ ihl ihr =>
    simp only [Expr.evaluate]
    rcases cases_of_variants_eq ihl with ⟨v, v', computes, computes', left⟩ |
      ⟨failure, fails, fails'⟩
    · rw [computes, computes']
      rcases cases_of_variants_eq ihr with ⟨w, w', computes, computes', right⟩ |
        ⟨failure, fails, fails'⟩
      · rw [computes, computes']
        exact applyBinary_byVariant op left right
      · rw [fails, fails']
    · rw [fails, fails']

theorem Stmt.Alike.value {s s' : Stmt} (alike : s.Alike s') :
    (s.value b).map Value.variant = (s'.value b').map Value.variant := by
  cases alike with
  | expression value => exact value.evaluate same
  | print value => exact value.evaluate same
  | bare name => rfl
  | initialised name initial => exact initial.evaluate same

end

/-! ## Executions -/

/-- Statements that are alike and were executed to completion with values of the same variant. -/
structure Completed.Alike (d d' : Completed) : Prop where
  statement : d.statement.Alike d'.statement
  variant : d.value.variant = d'.value.variant

theorem Completed.Alike.declares {d d' : Completed} (alike : d.Alike d') (x : String) :
    d.declares x = d'.declares x := by
  obtain ⟨s, v⟩ := d
  obtain ⟨s', v'⟩ := d'
  cases alike.statement <;> rfl

theorem Completed.Alike.isSome_line? {d d' : Completed} (alike : d.Alike d') :
    d.line?.isSome = d'.line?.isSome := by
  obtain ⟨s, v⟩ := d
  obtain ⟨s', v'⟩ := d'
  cases alike.statement <;> rfl

/-- As many lines are printed. -/
theorem length_lines_alike {done done' : List Completed}
    (alike : List.Forall₂ Completed.Alike done done') :
    (done.filterMap Completed.line?).length = (done'.filterMap Completed.line?).length := by
  rw [List.length_filterMap_eq_countP, List.length_filterMap_eq_countP]
  induction alike with
  | nil => rfl
  | cons first _ ih => rw [List.countP_cons, List.countP_cons, ih, first.isSome_line?]

/-- Bindings stay alike, whatever variant a name has after a statement. -/
theorem Bindings.Alike.afterStmt {b b' : Bindings} (same : b.Alike b') {d d' : Completed}
    (alike : d.Alike d') :
    (b.afterStmt d.statement d.value).Alike (b'.afterStmt d'.statement d'.value) := by
  intro x
  rw [Bindings.get?_afterStmt, Bindings.get?_afterStmt, alike.declares x]
  by_cases declares : d'.declares x = true
  · rw [if_pos declares, if_pos declares]
    exact congrArg some alike.variant
  · rw [if_neg declares, if_neg declares]
    exact same x

/-- Where one program completes its first statements, so does the other. -/
theorem Completes.alike {b b' : Bindings} {before rest ss' : List Stmt} {done : List Completed}
    (completes : Completes b before done) (same : b.Alike b')
    (alike : List.Forall₂ Stmt.Alike (before ++ rest) ss') :
    ∃ before' rest' done', ss' = before' ++ rest' ∧ List.Forall₂ Stmt.Alike rest rest' ∧
      Completes b' before' done' ∧ List.Forall₂ Completed.Alike done done' ∧
      (b.afterCompleted done).Alike (b'.afterCompleted done') := by
  -- The statements behind come along, so that the other program is cut at the same place.
  induction completes generalizing b' ss' with
  | nil => exact ⟨[], ss', [], rfl, alike, .nil, .nil, same⟩
  | @cons b s v ss done computes later ih =>
    obtain ⟨s', ss', first, others, rfl⟩ := List.forall₂_cons_left_iff.mp alike
    rcases cases_of_variants_eq (first.value same) with ⟨_, v', computed, computes', variant⟩ |
      ⟨_, fails, -⟩
    · cases computes.symm.trans computed
      have pair : Completed.Alike ⟨s, v⟩ ⟨s', v'⟩ := ⟨first, variant⟩
      obtain ⟨before', rest', done', rfl, rests, completes', dones, after⟩ :=
        ih (same.afterStmt pair) others
      refine ⟨s' :: before', rest', ⟨s', v'⟩ :: done', rfl, rests, .cons computes' completes',
        .cons pair dones, ?_⟩
      rwa [Bindings.afterCompleted_cons, Bindings.afterCompleted_cons]
    · cases computes.symm.trans fails

/-- A course of one program is accompanied by a course of the other: statement by statement, and to
the same ending. -/
theorem Course.alike {b b' : Bindings} {ss ss' : List Stmt} {done : List Completed}
    {ending : Except Failure Unit} (course : Course b ss done ending) (same : b.Alike b')
    (alike : List.Forall₂ Stmt.Alike ss ss') :
    ∃ done', Course b' ss' done' ending ∧ List.Forall₂ Completed.Alike done done' ∧
      (b.afterCompleted done).Alike (b'.afterCompleted done') := by
  cases course with
  | whole completes =>
    rw [← List.append_nil ss] at alike
    obtain ⟨before', _, done', rfl, rests, completes', dones, after⟩ := completes.alike same alike
    cases rests
    rw [List.append_nil]
    exact ⟨done', .whole completes', dones, after⟩
  | stopped completes fails =>
    obtain ⟨before', _, done', rfl, rests, completes', dones, after⟩ := completes.alike same alike
    obtain ⟨failing', rest', failing, -, rfl⟩ := List.forall₂_cons_left_iff.mp rests
    rcases cases_of_variants_eq (failing.value after) with ⟨_, _, computes, -⟩ |
      ⟨_, failed, fails'⟩
    · cases fails.symm.trans computes
    · cases fails.symm.trans failed
      exact ⟨done', .stopped completes' fails', dones, after⟩

/-- **Faults depend on variants only.** Statements that are alike, executed under bindings that are
alike, end in the same way: both to the end, or both with the same failure at the same statement,
the one behind those that were completed. They print as many lines, and leave bindings that are
alike. The failure of statements that were read from tokens is a fault. -/
theorem Session.execute_alike {ss ss' : List Stmt} (alike : List.Forall₂ Stmt.Alike ss ss')
    {b b' : Bindings} (same : b.Alike b') :
    let executed := (Session.unlimited b).execute ss
    let executed' := (Session.unlimited b').execute ss'
    ∃ done done' ending,
      (Course b ss done ending ∧ executed.1.result = .ok ending ∧
        executed.1.output = utf8 (printed done)) ∧
      (Course b' ss' done' ending ∧ executed'.1.result = .ok ending ∧
        executed'.1.output = utf8 (printed done')) ∧
      done.length = done'.length ∧
      (done.filterMap Completed.line?).length = (done'.filterMap Completed.line?).length ∧
      executed.2.bindings.Alike executed'.2.bindings ∧
      ∀ tokens, ss ⊆ Grammar.statements (Grammar.attempts tokens) →
        ending = .ok () ∨ ∃ site cause, ending = .error (.fault site cause) := by
  intro executed executed'
  obtain ⟨done, ending, course⟩ := exists_course b ss
  obtain ⟨done', course', dones, after⟩ := course.alike same alike
  have executedIs : executed = _ := Session.execute_of_course course
  have executedIs' : executed' = _ := Session.execute_of_course course'
  refine ⟨done, done', ending, ⟨course, ?_, ?_⟩, ⟨course', ?_, ?_⟩, dones.length_eq,
    length_lines_alike dones, ?_, ?_⟩
  · rw [executedIs]
  · rw [executedIs]
  · rw [executedIs']
  · rw [executedIs']
  · rw [executedIs, executedIs']
    exact after
  · exact fun tokens read => course.ending_cases_of_read read

/-- Two strings under one name, and two programs that differ in a string: both print a line, and
both fail at the negation. -/
theorem Session.execute_alike_negation :
    let b := Bindings.empty.define "x" (.string "a")
    let b' := Bindings.empty.define "x" (.string "bc")
    let ss := statementsOf "print x+\"!\";print -x;print x;"
    let ss' := statementsOf "print x+\"\";print -x;print x;"
    let executed := (Session.unlimited b).execute ss
    let executed' := (Session.unlimited b').execute ss'
    (List.Forall₂ Stmt.Alike ss ss' ∧ b.Alike b') ∧
      executed.1.result = .ok (.error (.fault ⟨.mark .minus, "-", 1⟩ .operandNotNumber)) ∧
      executed'.1.result = executed.1.result ∧
      executed.1.output = utf8 "a!\n" ∧ executed'.1.output = utf8 "bc\n" ∧
      executed.2.bindings.Alike executed'.2.bindings := by
  intro b b' ss ss' executed executed'
  have same : b.Alike b' := by
    intro name
    simp only [b, b', Bindings.get?_define, Bindings.get?_empty]
    split <;> rfl
  have statements : ss = [
      .print (.binary (.name ⟨.identifier, "x", 1⟩) ⟨.mark .plus, "+", 1⟩ (.literal (.string "!"))),
      .print (.unary ⟨.mark .minus, "-", 1⟩ (.name ⟨.identifier, "x", 1⟩)),
      .print (.name ⟨.identifier, "x", 1⟩)] := by
    decide +kernel
  have statements' : ss' = [
      .print (.binary (.name ⟨.identifier, "x", 1⟩) ⟨.mark .plus, "+", 1⟩ (.literal (.string ""))),
      .print (.unary ⟨.mark .minus, "-", 1⟩ (.name ⟨.identifier, "x", 1⟩)),
      .print (.name ⟨.identifier, "x", 1⟩)] := by
    decide +kernel
  have alike : List.Forall₂ Stmt.Alike ss ss' := by
    rw [statements, statements']
    exact .cons (.print (.binary _ (.name _) (.literal rfl))) <|
      .cons (.print (.unary _ (.name _))) <| .cons (.print (.name _)) .nil
  obtain ⟨_, _, _, ⟨-, ended, -⟩, ⟨-, ended', -⟩, -, -, after, -⟩ :=
    Session.execute_alike alike same
  refine ⟨⟨alike, same⟩, ?_, ended'.trans ended.symm, ?_, ?_, after⟩
  · decide +kernel
  · decide +kernel
  · decide +kernel

end LoxLang
