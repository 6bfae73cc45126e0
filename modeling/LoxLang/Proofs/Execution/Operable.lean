import LoxLang.Proofs.Execution.Trace
import LoxLang.Proofs.Grammar.Trials

/-!
# Operable trees

A tree can hold any token where an operator is meant, and to evaluate one that is no operator is a
failure apart from the faults of a program. A tree is **operable** if its operators are ones that
the grammar has at their place.

What is read from tokens is declared by some of them, also next to declarations that could not be
read (`exists_of_mem_statements`), and so it is operable (`operable_of_mem_statements`). Evaluation
of an operable tree ends with a value or a fault (`Expr.Operable.evaluate_ne_broken`), and so does
the execution of what was read. A source without an error in its text is thus run to success or to a
runtime error (`run_cases_of_wellFormed`).
-/

namespace LoxLang

/-- Whether all operators of an expression are operators of the grammar at their place. -/
def Expr.Operable : Expr → Prop
  | .literal _ | .name _ => True
  | .grouping inner => inner.Operable
  | .unary op operand => (op.kind = .mark .bang ∨ op.kind = .mark .minus) ∧ operand.Operable
  | .binary left op right =>
    (∃ (c : Grammar.Category) (m : Mark), op.kind = .mark m ∧ m ∈ c.operators) ∧
      left.Operable ∧ right.Operable

/-- Whether the expression of a statement is operable. -/
def Stmt.Operable : Stmt → Prop
  | .expression e | .print e | .declare _ (some e) => e.Operable
  | .declare _ none => True

/-! ## What is read is operable -/

namespace Grammar

theorem Derives.operable {c : Category} {ts : List Token} {e : Expr} (derived : Derives c ts e) :
    e.Operable := by
  induction derived with
  | descend _ _ ih => exact ih
  | @binary c next ls rs l r op m step kind mem left right ihl ihr =>
    exact ⟨⟨c, m, kind, mem⟩, ihl, ihr⟩
  | unary kind _ ih => exact ⟨kind, ih⟩
  | grouping _ _ _ ih => exact ih
  | _ => trivial

theorem IsDeclaration.operable {ts : List Token} {s : Stmt} (declared : IsDeclaration ts s) :
    s.Operable := by
  cases declared with
  | initialised _ _ _ initial _ => exact initial.operable
  | bare => trivial
  | statement statement =>
    cases statement with
    | print _ value _ => exact value.operable
    | expression value _ => exact value.operable

/-- A statement read from tokens is declared by some of them, whatever else they hold. -/
theorem exists_of_mem_statements {tokens : List Token} {s : Stmt}
    (mem : s ∈ statements (attempts tokens)) : ∃ ts, ts ⊆ tokens ∧ IsDeclaration ts s := by
  rw [← map_attempt_trials 0] at mem
  obtain ⟨a, attempted, read⟩ := List.mem_filterMap.mp mem
  obtain ⟨t, tried, rfl⟩ := List.mem_map.mp attempted
  have result : (attempt (tokens.drop t.start)).1.result = .ok s := by
    rw [← attempt_of_mem_trials tried]
    cases found : t.attempt.result with
    | error d =>
      rw [found] at read
      cases read
    | ok s' =>
      rw [found] at read
      cases read
      rfl
  obtain ⟨ts, front, declared⟩ := declaration_eq_ok_iff.mp (result_attempt_eq_ok_iff.mp result)
  refine ⟨ts, ?_, declared⟩
  intro u inside
  apply List.mem_of_mem_drop
  rw [front]
  exact List.mem_append_left _ inside

/-- Every statement read from tokens is operable, whatever else they hold. -/
theorem operable_of_mem_statements (tokens : List Token) :
    ∀ s ∈ statements (attempts tokens), s.Operable := by
  intro s mem
  obtain ⟨_, -, declared⟩ := exists_of_mem_statements mem
  exact declared.operable

end Grammar

/-! ## Operable trees are never broken -/

variable {tree : BrokenTree}

theorem onNumbers_ne_broken (op : Token) (f : Float → Float → Value) (left right : Value) :
    onNumbers op f left right ≠ .error (.broken tree) := by
  unfold onNumbers
  split <;> simp

theorem add_ne_broken (op : Token) (left right : Value) :
    add op left right ≠ .error (.broken tree) := by
  unfold add
  split <;> simp

theorem applyBinary_ne_broken {op : Token} {c : Grammar.Category} {m : Mark}
    (kind : op.kind = .mark m) (mem : m ∈ c.operators) (left right : Value) :
    applyBinary op left right ≠ .error (.broken tree) := by
  unfold applyBinary
  rw [kind]
  cases c <;>
    simp only [Grammar.Category.operators, List.mem_cons, List.not_mem_nil, or_false] at mem
  case equality => rcases mem with rfl | rfl <;> simp
  case comparison =>
    rcases mem with rfl | rfl | rfl | rfl <;> exact onNumbers_ne_broken op _ left right
  case term =>
    rcases mem with rfl | rfl
    · exact onNumbers_ne_broken op _ left right
    · exact add_ne_broken op left right
  case factor => rcases mem with rfl | rfl <;> exact onNumbers_ne_broken op _ left right

theorem applyUnary_ne_broken {op : Token} (kind : op.kind = .mark .bang ∨ op.kind = .mark .minus)
    (operand : Value) : applyUnary op operand ≠ .error (.broken tree) := by
  unfold applyUnary
  rcases kind with kind | kind <;> rw [kind]
  · simp
  · cases operand <;> simp

/-- An operable expression has a value or a fault. -/
theorem Expr.Operable.evaluate_ne_broken {e : Expr} (operable : e.Operable) (b : Bindings) :
    e.evaluate b ≠ .error (.broken tree) := by
  induction e with
  | literal value => simp [Expr.evaluate]
  | grouping inner ih => exact ih operable
  | name token =>
    simp only [Expr.evaluate]
    split <;> simp
  | unary op operand ih =>
    obtain ⟨kind, inner⟩ := operable
    simp only [Expr.evaluate]
    cases computes : operand.evaluate b with
    | ok value => exact applyUnary_ne_broken kind value
    | error failure =>
      have ended := ih inner
      rwa [computes] at ended
  | binary left op right ihl ihr =>
    obtain ⟨⟨c, m, kind, mem⟩, innerLeft, innerRight⟩ := operable
    simp only [Expr.evaluate]
    cases computesLeft : left.evaluate b with
    | error failure =>
      have ended := ihl innerLeft
      rwa [computesLeft] at ended
    | ok leftValue =>
      cases computesRight : right.evaluate b with
      | error failure =>
        have ended := ihr innerRight
        rwa [computesRight] at ended
      | ok rightValue => exact applyBinary_ne_broken kind mem leftValue rightValue

theorem Stmt.Operable.value_ne_broken {s : Stmt} (operable : s.Operable) (b : Bindings) :
    s.value b ≠ .error (.broken tree) := by
  match s with
  | .expression _ | .print _ | .declare _ (some _) =>
    exact Expr.Operable.evaluate_ne_broken operable b
  | .declare _ none => simp [Stmt.value]

/-- Operable statements are executed to their end or to a fault. -/
theorem execute_ne_broken {ss : List Stmt} (operable : ∀ s ∈ ss, s.Operable) (b : Bindings) :
    (execute b ss).ending ≠ .error (.broken tree) := by
  induction ss generalizing b with
  | nil => simp [execute]
  | cons s rest ih =>
    obtain ⟨first, later⟩ := List.forall_mem_cons.mp operable
    cases computes : s.value b with
    | error failure =>
      rw [execute_cons_of_error computes]
      intro same
      rw [Except.error.inj same] at computes
      exact first.value_ne_broken b computes
    | ok v =>
      rw [execute_cons_of_ok computes]
      exact ih later _

/-- A well-formed source is run to success and reports nothing, or to a runtime error and reports
just that. -/
theorem run_cases_of_wellFormed {source : String} (formed : WellFormed source) (b : Bindings) :
    (run b source).ending = .ok .ok ∧ reports (run b source).events = [] ∨
      (run b source).ending = .ok .runtimeError ∧ ∃ site cause,
        reports (run b source).events = [.runtime site (RuntimeFault.message cause)] := by
  obtain ⟨-, reported, ended⟩ := run_of_wellFormed formed b
  have operable := Grammar.operable_of_mem_statements (Source.tokens (Source.scan source))
  rw [reported, ended]
  match finished : (execute b (statementsOf source)).ending with
  | .ok () => exact .inl ⟨rfl, rfl⟩
  | .error (.fault site cause) => exact .inr ⟨rfl, site, cause, rfl⟩
  | .error (.broken tree) => exact absurd finished (execute_ne_broken operable b)

end LoxLang
