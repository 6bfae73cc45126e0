import LoxLang.Value

/-!
# Tokens

A **token** is a lexeme of the source with its kind and the line it ends on.
The fixed lexemes fall into two closed families, the marks (`+`, `<=`, `(`, …)
and the keywords, each with its spelling; the open families are identifiers,
strings and numbers, of which the latter two carry what they denote.

A token can be built with any lexeme at all: that a lexeme fits its kind is a
fact about scanned tokens and not about the type.
-/

namespace LoxLang

/-! ## Marks -/

/-- Punctuation and operators. -/
inductive Mark where
  | leftParen | rightParen | leftBrace | rightBrace
  | comma | dot | minus | plus | semicolon | slash | star
  | bang | bangEqual | equal | equalEqual
  | greater | greaterEqual | less | lessEqual
deriving DecidableEq, Repr

namespace Mark

/-- Every mark once. -/
def all : List Mark :=
  [.leftParen, .rightParen, .leftBrace, .rightBrace, .comma, .dot, .minus, .plus, .semicolon,
    .slash, .star, .bang, .bangEqual, .equal, .equalEqual, .greater, .greaterEqual, .less,
    .lessEqual]

/-- The name that token listings give a mark. -/
def name : Mark → String
  | .leftParen => "LeftParen"
  | .rightParen => "RightParen"
  | .leftBrace => "LeftBrace"
  | .rightBrace => "RightBrace"
  | .comma => "Comma"
  | .dot => "Dot"
  | .minus => "Minus"
  | .plus => "Plus"
  | .semicolon => "Semicolon"
  | .slash => "Slash"
  | .star => "Star"
  | .bang => "Bang"
  | .bangEqual => "BangEqual"
  | .equal => "Equal"
  | .equalEqual => "EqualEqual"
  | .greater => "Greater"
  | .greaterEqual => "GreaterEqual"
  | .less => "Less"
  | .lessEqual => "LessEqual"

/-- The mark that a character is on its own. -/
def ofChar? : Char → Option Mark
  | '(' => some .leftParen
  | ')' => some .rightParen
  | '\x7b' => some .leftBrace
  | '\x7d' => some .rightBrace
  | ',' => some .comma
  | '.' => some .dot
  | '-' => some .minus
  | '+' => some .plus
  | ';' => some .semicolon
  | '/' => some .slash
  | '*' => some .star
  | '!' => some .bang
  | '=' => some .equal
  | '>' => some .greater
  | '<' => some .less
  | _ => none

/-- The mark that a following `=` extends a mark to. -/
def withEqual? : Mark → Option Mark
  | .bang => some .bangEqual
  | .equal => some .equalEqual
  | .greater => some .greaterEqual
  | .less => some .lessEqual
  | _ => none

end Mark

/-! ## Keywords -/

/-- Reserved words, named for what they introduce. -/
inductive Keyword where
  | andOp | classDecl | elseBranch | falseLit | forLoop | funDecl | ifBranch | nilLit
  | orOp | print | returnStmt | superRef | thisRef | trueLit | varDecl | whileLoop
deriving DecidableEq, Repr

namespace Keyword

/-- Every keyword once. -/
def all : List Keyword :=
  [.andOp, .classDecl, .elseBranch, .falseLit, .forLoop, .funDecl, .ifBranch, .nilLit, .orOp,
    .print, .returnStmt, .superRef, .thisRef, .trueLit, .varDecl, .whileLoop]

/-- The keyword as it stands in source text. -/
def spelling : Keyword → String
  | .andOp => "and"
  | .classDecl => "class"
  | .elseBranch => "else"
  | .falseLit => "false"
  | .forLoop => "for"
  | .funDecl => "fun"
  | .ifBranch => "if"
  | .nilLit => "nil"
  | .orOp => "or"
  | .print => "print"
  | .returnStmt => "return"
  | .superRef => "super"
  | .thisRef => "this"
  | .trueLit => "true"
  | .varDecl => "var"
  | .whileLoop => "while"

/-- The keyword with a given spelling. -/
def ofSpelling? (text : String) : Option Keyword :=
  all.find? fun word => word.spelling = text

/-- The name that token listings give a keyword: its spelling with a capital. -/
def name (word : Keyword) : String :=
  word.spelling.capitalize

/-- The keywords with which a statement can begin. -/
def startsStatement : Keyword → Bool
  | .classDecl | .forLoop | .funDecl | .ifBranch | .print | .returnStmt | .varDecl
  | .whileLoop => true
  | _ => false

end Keyword

/-! ## Tokens -/

/-- The kind of a token, with what a literal denotes. -/
inductive TokenKind where
  | mark (mark : Mark)
  | keyword (word : Keyword)
  | identifier
  | string (contents : String)
  | number (value : Float)
  | endOfFile
deriving DecidableEq

/-- A lexeme with its kind and the line it ends on. -/
structure Token where
  kind : TokenKind
  lexeme : String
  line : Nat
deriving DecidableEq

namespace TokenKind

/-- Equality of kinds in which the numbers are compared as doubles. -/
def equals : TokenKind → TokenKind → Bool
  | .number a, .number b => a == b
  | a, b => a = b

/-- Whether a statement can begin with this kind. -/
def startsStatement : TokenKind → Bool
  | .keyword word => word.startsStatement
  | _ => false

end TokenKind

namespace Token

/-- The token that closes a source. -/
def endOfFile (line : Nat) : Token := ⟨.endOfFile, "", line⟩

/-- Whether a token closes its source. -/
def isEnd (t : Token) : Bool :=
  t.kind = .endOfFile

/-- The value that a string or number token denotes. -/
def literal? (t : Token) : Option Value :=
  match t.kind with
  | .string contents => some (.string contents)
  | .number value => some (.number value)
  | _ => none

/-- Equality of tokens in which the numbers are compared as doubles. -/
def equals (a b : Token) : Bool :=
  a.kind.equals b.kind && a.lexeme == b.lexeme && a.line == b.line

end Token

end LoxLang
