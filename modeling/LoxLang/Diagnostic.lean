import LoxLang.Token

/-!
# Diagnostics

What is reported when something goes wrong, and where. The **faults** are the
causes that the stages can meet, each with its wording in one place; a
**diagnostic** attaches a message to a line, a token, the end of the input or a
failed operation on a file or stream.

A diagnostic's `text` is the line that users see. It holds the lexeme of its
token unaltered, so it need not be a single line.
-/

namespace LoxLang

/-! ## Causes -/

/-- What can be wrong with the characters of a source. -/
inductive LexicalFault where
  /-- A character that begins no lexeme. -/
  | strayCharacter (c : Char)
  /-- A quote that nothing closes. -/
  | unterminatedString
deriving DecidableEq, Repr

/-- The wording of a lexical fault. -/
def LexicalFault.message : LexicalFault → String
  | .strayCharacter c => "Unexpected character '" ++ String.singleton c ++ "'."
  | .unterminatedString => "Unterminated string."

/-- What a semicolon closes. -/
inductive Clause where
  | value
  | expression
  | variableDeclaration
deriving DecidableEq, Repr

/-- What the grammar can miss at a token. -/
inductive SyntaxFault where
  | expression
  | closingParen
  | variableName
  | semicolon (after : Clause)
deriving DecidableEq, Repr

/-- The wording of a clause. -/
def Clause.wording : Clause → String
  | .value => "value"
  | .expression => "expression"
  | .variableDeclaration => "variable declaration"

/-- The wording of a syntax fault. -/
def SyntaxFault.message : SyntaxFault → String
  | .expression => "Expect expression."
  | .closingParen => "Expect ')' after expression."
  | .variableName => "Expect variable name."
  | .semicolon after => "Expect ';' after " ++ after.wording ++ "."

/-- What an operation can find wrong with its operands. -/
inductive RuntimeFault where
  | operandNotNumber
  | operandsNotNumbers
  | operandsNotAddable
  | undefinedVariable (name : String)
deriving DecidableEq, Repr

/-- The wording of a runtime fault. -/
def RuntimeFault.message : RuntimeFault → String
  | .operandNotNumber => "Operand must be a number."
  | .operandsNotNumbers => "Operands must be numbers."
  | .operandsNotAddable => "Operands must be two numbers or two strings."
  | .undefinedVariable name => "Undefined variable '" ++ name ++ "'."

/-! ## Files and streams -/

/-- The kinds of failed file and stream operations that are told apart. -/
inductive IoKind where
  | notFound
  | isDirectory
  | notDirectory
  | invalidData
  | other
deriving DecidableEq, Repr

/-- The name of a kind of failure. -/
def IoKind.name : IoKind → String
  | .notFound => "NotFound"
  | .isDirectory => "IsADirectory"
  | .notDirectory => "NotADirectory"
  | .invalidData => "InvalidData"
  | .other => "Other"

/-- A failed operation on a file or stream. -/
structure IoError where
  kind : IoKind
  text : String
deriving DecidableEq, Repr

namespace IoError

/-- There is no file of that name. -/
def missingFile : IoError := ⟨.notFound, "No such file or directory (os error 2)"⟩

/-- A directory stands where a file is wanted. -/
def isDirectory : IoError := ⟨.isDirectory, "Is a directory (os error 21)"⟩

/-- A file stands where a directory is wanted. -/
def notDirectory : IoError := ⟨.notDirectory, "Not a directory (os error 20)"⟩

/-- Bytes that are not text. -/
def notText : IoError := ⟨.invalidData, "stream did not contain valid UTF-8"⟩

/-- A sink with no room for what is written to it. -/
def sinkFull : IoError := ⟨.other, "writer full"⟩

end IoError

/-! ## Diagnostics -/

/-- A **diagnostic**: what went wrong, and where. -/
inductive Diagnostic where
  | lexical (line : Nat) (message : String)
  | syntactic (token : Token) (message : String)
  | runtime (token : Token) (message : String)
  /-- The tokens ran out without a closing one. -/
  | inputEnded
  | io (error : IoError)
deriving DecidableEq

namespace Diagnostic

/-- What went wrong. -/
def message : Diagnostic → String
  | .lexical _ message | .syntactic _ message | .runtime _ message => message
  | .inputEnded => "Unexpected end of input."
  | .io _ => "IO error"

/-- The token at which it went wrong. -/
def token? : Diagnostic → Option Token
  | .syntactic token _ | .runtime token _ => some token
  | _ => none

/-- The line on which it went wrong. -/
def line? : Diagnostic → Option Nat
  | .lexical line _ => some line
  | d => d.token?.map Token.line

/-- The place within the line, as it follows the word `Error`. -/
def location (d : Diagnostic) : String :=
  match d.token? with
  | some token => if token.isEnd then " at end" else " at '" ++ token.lexeme ++ "'"
  | none => ""

/-- The diagnostic as users see it. A place without a line counts as line 0. -/
def text (d : Diagnostic) : String :=
  match d with
  | .io error => "Error: " ++ d.message ++ ": " ++ error.text
  | _ => "[line " ++ (d.line?.getD 0).repr ++ "] Error" ++ d.location ++ ": " ++ d.message

/-- Whether execution was stopped by it. -/
def isRuntime : Diagnostic → Bool
  | .runtime .. => true
  | _ => false

/-- The failed operation behind a diagnostic. -/
def cause? : Diagnostic → Option IoError
  | .io error => some error
  | _ => none

/-- A diagnostic as a failed operation: the one behind it, or its text. -/
def toIoError (d : Diagnostic) : IoError :=
  d.cause?.getD ⟨.other, d.text⟩

end Diagnostic

end LoxLang
