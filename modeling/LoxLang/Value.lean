import LoxLang.Number.Numeral

/-!
# Values

The four kinds of value a program computes with, and what the language says of
all of them: which count as true in a condition, when two are equal, and the
text that printing shows.
-/

namespace LoxLang

/-- A **value** of the language. -/
inductive Value where
  | nil
  | bool (flag : Bool)
  | number (value : Float)
  | string (text : String)
deriving DecidableEq

namespace Value

instance : Inhabited Value := ⟨.nil⟩

/-- Only nil and false fail a condition. -/
def isTruthy : Value → Bool
  | .nil => false
  | .bool flag => flag
  | _ => true

/-- The language's equality: values of different kinds differ, and numbers are
compared as doubles, so that NaN differs from itself and the two zeros are
equal. It is not the equality of the type. -/
def equals : Value → Value → Bool
  | .nil, .nil => true
  | .bool a, .bool b => a == b
  | .number a, .number b => a == b
  | .string a, .string b => a == b
  | _, _ => false

/-- Numbers are shown with every place written out and no point on a whole
number. -/
def numberStyle : Number.Style where
  isPositional := fun _ => true
  keepPoint := false
  infinityWord := "Infinity"

/-- The text that printing shows. -/
def text : Value → String
  | .nil => "nil"
  | .bool true => "true"
  | .bool false => "false"
  | .number value => numberStyle.write value
  | .string text => text

end Value

end LoxLang
