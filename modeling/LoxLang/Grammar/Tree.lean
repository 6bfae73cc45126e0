import LoxLang.Token

/-!
# Syntax trees

Expressions and statements. Operators and names are whole tokens, so that a
fault found during execution can be reported where it stands in the source.
-/

namespace LoxLang

/-- An **expression**. -/
inductive Expr where
  | binary (left : Expr) (op : Token) (right : Expr)
  | grouping (inner : Expr)
  | literal (value : Value)
  | unary (op : Token) (operand : Expr)
  /-- The use of a variable. -/
  | name (token : Token)
deriving DecidableEq

/-- A **statement**. -/
inductive Stmt where
  | expression (e : Expr)
  | print (e : Expr)
  /-- A variable declaration, with or without an initial value. -/
  | declare (name : Token) (initial : Option Expr)
deriving DecidableEq

instance : Inhabited Expr := ⟨.literal .nil⟩

/-- Equality of expressions in which the numbers are compared as doubles, those
within tokens included. -/
def Expr.equals : Expr → Expr → Bool
  | .binary l op r, .binary l' op' r' => l.equals l' && op.equals op' && r.equals r'
  | .grouping e, .grouping e' => e.equals e'
  | .literal v, .literal v' => v.equals v'
  | .unary op e, .unary op' e' => op.equals op' && e.equals e'
  | .name t, .name t' => t.equals t'
  | _, _ => false

end LoxLang
