import LoxLang.Grammar.Tree

/-!
# Outlines

The **outline** of a tree is its parenthesised form: the operator first, then
the operands. It shows structure only: a string literal appears without quotes.
-/

namespace LoxLang

/-- A head and its parts between parentheses. -/
def parenthesised (head : String) (parts : List String) : String :=
  "(" ++ " ".intercalate (head :: parts) ++ ")"

/-- The outline of an expression. -/
def Expr.outline : Expr → String
  | .binary left op right => parenthesised op.lexeme [left.outline, right.outline]
  | .grouping inner => parenthesised "group" [inner.outline]
  | .literal value => value.text
  | .unary op operand => parenthesised op.lexeme [operand.outline]
  | .name token => token.lexeme

/-- The outline of a statement. -/
def Stmt.outline : Stmt → String
  | .expression e => parenthesised ";" [e.outline]
  | .print e => parenthesised "print" [e.outline]
  | .declare name (some initial) => parenthesised "var" [name.lexeme, initial.outline]
  | .declare name none => parenthesised "var" [name.lexeme]

end LoxLang
