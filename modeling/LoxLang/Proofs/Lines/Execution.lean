import LoxLang.Proofs.Execution.Trace
import LoxLang.Proofs.Lines.Reading

/-!
# Lines do not matter to execution

Evaluation meets a line only where it reports a fault: the value of an expression does not depend on
the lines of its tokens, and the fault it ends with is relabelled along with them. So statements on
other lines do the same events in the same order (`execute_relabel`), and only what is reported at
the end tells the lines apart (`conclude_relabel`).
-/

namespace LoxLang

/-- A failure at a token on another line. -/
def Failure.relabel (f : Nat → Nat) : Failure → Failure
  | .fault site cause => .fault (site.relabel f) cause
  | .broken tree => .broken tree

variable (f : Nat → Nat)

/-! ## Expressions -/

theorem onNumbers_relabel (op : Token) (g : Float → Float → Value) (left right : Value) :
    onNumbers (op.relabel f) g left right =
      (onNumbers op g left right).mapError (Failure.relabel f) := by
  unfold onNumbers
  split <;> rfl

theorem add_relabel (op : Token) (left right : Value) :
    add (op.relabel f) left right = (add op left right).mapError (Failure.relabel f) := by
  unfold add
  split <;> rfl

theorem applyBinary_relabel (op : Token) (left right : Value) :
    applyBinary (op.relabel f) left right =
      (applyBinary op left right).mapError (Failure.relabel f) := by
  unfold applyBinary
  rw [Token.relabel_kind]
  split
  -- All operators but the sum and the two equalities take numbers.
  case h_2 => exact add_relabel f op left right
  case h_9 => rfl
  case h_10 => rfl
  case h_11 => rfl
  all_goals exact onNumbers_relabel f op _ left right

theorem applyUnary_relabel (op : Token) (operand : Value) :
    applyUnary (op.relabel f) operand = (applyUnary op operand).mapError (Failure.relabel f) := by
  unfold applyUnary
  rw [Token.relabel_kind]
  split <;> rfl

/-- An expression on other lines has the same value, or the same fault on another line. -/
theorem Expr.evaluate_relabel (b : Bindings) (e : Expr) :
    (e.relabel f).evaluate b = (e.evaluate b).mapError (Failure.relabel f) := by
  induction e with
  | literal value => rfl
  | grouping inner ih => exact ih
  | name token =>
    simp only [Expr.relabel, Expr.evaluate, Token.relabel_lexeme]
    cases b.get? token.lexeme <;> rfl
  | unary op operand ih =>
    simp only [Expr.relabel, Expr.evaluate, ih]
    cases operand.evaluate b with
    | error failure => rfl
    | ok value => exact applyUnary_relabel f op value
  | binary left op right ihl ihr =>
    simp only [Expr.relabel, Expr.evaluate, ihl, ihr]
    cases left.evaluate b with
    | error failure => rfl
    | ok leftValue =>
      cases right.evaluate b with
      | error failure => rfl
      | ok rightValue => exact applyBinary_relabel f op leftValue rightValue

/-! ## Statements -/

theorem Stmt.value_relabel (b : Bindings) (s : Stmt) :
    (s.relabel f).value b = (s.value b).mapError (Failure.relabel f) := by
  match s with
  | .expression e => exact e.evaluate_relabel f b
  | .print e => exact e.evaluate_relabel f b
  | .declare _ none => rfl
  | .declare _ (some e) => exact e.evaluate_relabel f b

theorem Stmt.event?_relabel (v : Value) (s : Stmt) : (s.relabel f).event? v = s.event? v := by
  cases s <;> rfl

/-- Statements on other lines do the same, and end in the same way on other lines. -/
theorem execute_relabel (b : Bindings) (ss : List Stmt) :
    execute b (ss.map (Stmt.relabel f)) =
      ⟨(execute b ss).events, (execute b ss).ending.mapError (Failure.relabel f)⟩ := by
  induction ss generalizing b with
  | nil => rfl
  | cons s rest ih =>
    have computes' := s.value_relabel f b
    cases computes : s.value b with
    | error failure =>
      rw [computes] at computes'
      rw [List.map_cons, execute_cons_of_error computes', execute_cons_of_error computes]
      rfl
    | ok v =>
      rw [computes] at computes'
      rw [List.map_cons, execute_cons_of_ok computes', execute_cons_of_ok computes]
      simp only [Bindings.afterStmt, Stmt.event?_relabel, ih]

/-- An ending on other lines has the same status and reports the same on other lines. -/
theorem conclude_relabel (ending : Except Failure Unit) :
    (conclude (ending.mapError (Failure.relabel f))).ending = (conclude ending).ending ∧
      reports (conclude (ending.mapError (Failure.relabel f))).events =
        (reports (conclude ending).events).map (Diagnostic.relabel f) := by
  match ending with
  | .ok () => exact ⟨rfl, rfl⟩
  | .error (.fault site cause) => exact ⟨rfl, rfl⟩
  | .error (.broken tree) => exact ⟨rfl, rfl⟩

end LoxLang
