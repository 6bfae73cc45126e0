import LoxLang.Bindings
import LoxLang.Diagnostic
import LoxLang.Grammar.Tree

/-!
# Evaluation

The value of an expression under bindings. Operands are evaluated from left to
right and before their operator, and the first fault met ends the evaluation.
Expressions change nothing, so evaluation takes the bindings and gives none
back.

A tree can hold a token where the language has no operator. Evaluating it is a
**broken tree**, a failure apart from the faults that a program can have.
-/

namespace LoxLang

/-! ## Failures -/

/-- An operator node whose token is no operator of its arity. -/
inductive BrokenTree where
  | notBinary
  | notUnary
deriving DecidableEq, Repr

/-- The wording of a broken tree. -/
def BrokenTree.message : BrokenTree → String
  | .notBinary => "The parser only builds binary expressions from binary operators."
  | .notUnary => "The parser only builds unary expressions from '!' and '-'."

/-- Why an evaluation gave no value. -/
inductive Failure where
  | fault (site : Token) (cause : RuntimeFault)
  | broken (tree : BrokenTree)
deriving DecidableEq

/-! ## Operators -/

/-- An arithmetic operation or comparison, which takes two numbers. -/
def onNumbers (op : Token) (f : Float → Float → Value) : Value → Value → Except Failure Value
  | .number a, .number b => .ok (f a b)
  | _, _ => .error (.fault op .operandsNotNumbers)

/-- The sum of two numbers, or two strings joined. -/
def add (op : Token) : Value → Value → Except Failure Value
  | .number a, .number b => .ok (.number (a + b))
  | .string a, .string b => .ok (.string (a ++ b))
  | _, _ => .error (.fault op .operandsNotAddable)

/-- A binary operator on the values of its operands. -/
def applyBinary (op : Token) (left right : Value) : Except Failure Value :=
  match op.kind with
  | .mark .minus => onNumbers op (fun a b => .number (a - b)) left right
  | .mark .plus => add op left right
  | .mark .slash => onNumbers op (fun a b => .number (a / b)) left right
  | .mark .star => onNumbers op (fun a b => .number (a * b)) left right
  | .mark .greater => onNumbers op (fun a b => .bool (b < a)) left right
  | .mark .greaterEqual => onNumbers op (fun a b => .bool (b ≤ a)) left right
  | .mark .less => onNumbers op (fun a b => .bool (a < b)) left right
  | .mark .lessEqual => onNumbers op (fun a b => .bool (a ≤ b)) left right
  | .mark .equalEqual => .ok (.bool (left.equals right))
  | .mark .bangEqual => .ok (.bool (!left.equals right))
  | _ => .error (.broken .notBinary)

/-- A prefix operator on the value of its operand. -/
def applyUnary (op : Token) (operand : Value) : Except Failure Value :=
  match op.kind, operand with
  | .mark .minus, .number a => .ok (.number (-a))
  | .mark .minus, _ => .error (.fault op .operandNotNumber)
  | .mark .bang, v => .ok (.bool !v.isTruthy)
  | _, _ => .error (.broken .notUnary)

/-! ## Expressions -/

/-- The value of an expression. -/
def Expr.evaluate (b : Bindings) : Expr → Except Failure Value
  | .literal value => .ok value
  | .grouping inner => inner.evaluate b
  | .name token =>
    match b.get? token.lexeme with
    | some value => .ok value
    | none => .error (.fault token (.undefinedVariable token.lexeme))
  | .unary op operand =>
    match operand.evaluate b with
    | .ok value => applyUnary op value
    | .error failure => .error failure
  | .binary left op right =>
    match left.evaluate b with
    | .ok leftValue =>
      match right.evaluate b with
      | .ok rightValue => applyBinary op leftValue rightValue
      | .error failure => .error failure
    | .error failure => .error failure

end LoxLang
