/-!
# Non-negative doubles, by rank

A non-negative double is handled through its **rank**: its place in the
increasing enumeration `0, 2^-1074, 2 · 2^-1074, …`, which is also its bit
pattern read as a natural number. All magnitudes are counted in **quanta** of
`2^-1074`, the distance between the two smallest doubles, so that the value of
every finite rank is a natural number (`quanta`) and rounding is a matter of
natural-number division alone.

`nearest` is the rounding rule: the rank nearest to a ratio of quanta, a tie
going to the even rank, everything beyond the largest finite double going to
infinity. Signs and NaN patterns stay outside of this module.
-/

namespace LoxLang.Number

/-! ## Ranks -/

/-- The number of doubles in a **binade**: those that share one exponent. -/
def binade : Nat := Nat.pow 2 52

/-- The rank of positive infinity; smaller ranks are finite, larger ones are no
numbers. -/
def infinity : Nat := 2047 * binade

/-- The value of a finite rank, in quanta. The first two binades are spaced by
one quantum, and each later one twice as widely as the one before. -/
def quanta (rank : Nat) : Nat :=
  if rank < binade then rank
  else (binade + rank % binade) * Nat.pow 2 (rank / binade - 1)

/-! ## Rounding -/

/-- The quotient rounded to the nearest natural number, a half to the even
neighbour. -/
def roundDiv (num den : Nat) : Nat :=
  let quotient := num / den
  let excess := 2 * (num % den)
  if excess < den then quotient
  else if den < excess then quotient + 1
  else quotient + quotient % 2

/-- The rank nearest to `num / den` quanta. The quotient's magnitude fixes the
binade and with it the spacing `2 ^ shift`; counting in that spacing carries
over into the next binade on its own. -/
def nearest (num den : Nat) : Nat :=
  let shift := (num / den).log2 - 52
  min infinity (shift * binade + roundDiv num (den * Nat.pow 2 shift))

/-! ## Ranks and doubles -/

/-- The non-negative double of a rank. -/
def ofRank (rank : Nat) : Float :=
  Float.ofBits (UInt64.ofNat rank)

/-- The rank of a double's magnitude: its bits without the sign. -/
def rank (x : Float) : Nat :=
  x.toBits.toNat % Nat.pow 2 63

/-- Whether a double carries the sign bit; negative zero does. -/
def isNegative (x : Float) : Bool :=
  Nat.pow 2 63 ≤ x.toBits.toNat

end LoxLang.Number
