import LoxLang.Token

/-!
# Token listings

The line that a listing shows for a token: the name of its kind, what a literal
denotes in brackets, and the lexeme. Strings are quoted with escapes here and
numbers keep a point, unlike the text that printing shows.
-/

namespace LoxLang

/-! ## Quoted text -/

/-- A character code in lower-case hexadecimal. -/
def hexCode (c : Char) : List Char :=
  Nat.toDigits 16 c.toNat

/-- A character as it stands between quotes: the quote, the backslash and the
control characters are escaped. Characters outside of ASCII stand for
themselves. -/
def escapeChar (c : Char) : List Char :=
  match c with
  | '"' => ['\\', '"']
  | '\\' => ['\\', '\\']
  | '\n' => ['\\', 'n']
  | '\r' => ['\\', 'r']
  | '\t' => ['\\', 't']
  | '\x00' => ['\\', '0']
  | _ =>
    if c.toNat < 32 ∨ c.toNat = 127 then ['\\', 'u', '\x7b'] ++ hexCode c ++ ['\x7d'] else [c]

/-- A text between quotes. -/
def quote (text : String) : String :=
  String.ofList ('"' :: text.toList.flatMap escapeChar ++ ['"'])

/-! ## Listings -/

/-- In a listing a whole number keeps a point, and only magnitudes from `10^-4`
to below `10^16` are written with every place. -/
def TokenKind.numberStyle : Number.Style where
  isPositional := fun magnitude => -4 ≤ magnitude && magnitude < 16
  keepPoint := true
  infinityWord := "inf"

/-- The name of a kind, without what it denotes. -/
def TokenKind.name : TokenKind → String
  | .mark m => m.name
  | .keyword word => word.name
  | .identifier => "Identifier"
  | .string _ => "String"
  | .number _ => "Number"
  | .endOfFile => "EndOfFile"

/-- The name of a kind and, for a literal, what it denotes. -/
def TokenKind.listing (kind : TokenKind) : String :=
  match kind with
  | .string contents => kind.name ++ "(" ++ quote contents ++ ")"
  | .number value => kind.name ++ "(" ++ numberStyle.write value ++ ")"
  | _ => kind.name

/-- The line of a token listing. -/
def Token.listing (t : Token) : String :=
  t.kind.listing ++ " " ++ t.lexeme

end LoxLang
