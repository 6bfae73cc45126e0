import LoxLang.Number.Shortest

/-!
# Numerals

The written forms of numbers. `ofDigits` reads the one form that source text
has: digits, and optionally a point with more digits. `Style.write` writes a
double from the digits of its shortest decimal; a `Style` holds what a
particular output decides: which exponents are laid out positionally, whether a
whole number keeps a point, and the word for infinity.
-/

namespace LoxLang.Number

/-! ## Reading -/

/-- The double nearest to the numeral with these digits before and after the
point. -/
def ofDigits (whole fraction : List Char) : Float :=
  let units := Nat.ofDigitChars 10 (whole ++ fraction) 0
  ofRank (nearest (units * Nat.pow 2 1074) (Nat.pow 10 fraction.length))

/-! ## Writing -/

namespace Decimal

/-- The digits of the coefficient, most significant first. -/
def digits (d : Decimal) : List Char :=
  Nat.toDigits 10 d.coefficient

/-- The power of ten that the leading digit stands for. -/
def magnitude (d : Decimal) : Int :=
  d.exponent + (d.digits.length - 1 : Nat)

/-- The digits before and after the point when every place is written out. -/
def places (d : Decimal) : List Char × List Char :=
  if 0 ≤ d.exponent then
    (d.digits ++ List.replicate d.exponent.toNat '0', [])
  else
    let below := (-d.exponent).toNat
    let padded := List.replicate (below + 1 - d.digits.length) '0' ++ d.digits
    padded.splitAt (padded.length - below)

/-- The numeral with every place written out. -/
def positional (d : Decimal) (keepPoint : Bool) : List Char :=
  match d.places with
  | (whole, []) => if keepPoint then whole ++ ['.', '0'] else whole
  | (whole, fraction) => whole ++ '.' :: fraction

/-- A power of ten as it follows the exponent mark: digits, after a minus when it
is below zero. -/
def exponentText : Int → List Char
  | .ofNat n => Nat.toDigits 10 n
  | .negSucc n => '-' :: Nat.toDigits 10 (n + 1)

/-- The numeral as one digit, the other digits after a point if there are any,
and the power of ten. -/
def scientific (d : Decimal) : List Char :=
  let mantissa := match d.digits with
    | lead :: next :: more => lead :: '.' :: next :: more
    | few => few
  mantissa ++ 'e' :: exponentText d.magnitude

end Decimal

/-- What an output decides about the text of its numbers. -/
structure Style where
  /-- Whether a magnitude is written with every place. -/
  isPositional : Int → Bool
  /-- Whether a whole number keeps a point and one zero. -/
  keepPoint : Bool
  /-- The word for a magnitude beyond every finite double. -/
  infinityWord : String

namespace Style

/-- A decimal in the layout that the style gives its magnitude. Zero is
positional in every style. -/
def layout (style : Style) (d : Decimal) : String :=
  String.ofList <|
    if d.coefficient = 0 ∨ style.isPositional d.magnitude then d.positional style.keepPoint
    else d.scientific

/-- The text of a double: its sign, unless it is no number, and the shortest
digits that read back. -/
def write (style : Style) (x : Float) : String :=
  let text :=
    if rank x < infinity then style.layout (shortest (rank x))
    else if rank x = infinity then style.infinityWord
    else "NaN"
  if isNegative x && rank x ≤ infinity then "-" ++ text else text

end Style

end LoxLang.Number
