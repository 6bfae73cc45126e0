import LoxLang.Number.Double

/-!
# The shortest decimal of a double

Every finite double is a finite decimal: a quantum is `5^1074 / 10^1074`, so a
magnitude of `n` quanta is exactly `n · 5^1074` units of `10^-1074`
(`exactUnits`). A shorter decimal comes from a coarser grid, the multiples of a
power of ten. `shortest` takes the coarsest grid on which a neighbour of the
exact value still **reads back**, that is, rounds to the same double; of two
such neighbours the nearer is taken, and at equal distance the upper one.

The finest grid holds the exact value itself, so the search needs no limit on
the number of digits.
-/

namespace LoxLang.Number

/-- A decimal numeral `coefficient · 10 ^ exponent`. -/
structure Decimal where
  coefficient : Nat
  exponent : Int
deriving DecidableEq, Repr

/-- The number of decimal places of the finest grid. -/
def finestPlaces : Nat := 1074

/-- A quantum in units of the finest grid. -/
def unitsPerQuantum : Nat := Nat.pow 5 finestPlaces

/-- A rank's exact value in units of the finest grid. -/
def exactUnits (rank : Nat) : Nat :=
  quanta rank * unitsPerQuantum

/-- Whether a number of finest units rounds to a rank. -/
def readsBack (rank units : Nat) : Bool :=
  nearest units unitsPerQuantum = rank

/-- The multiple of `grid` next to an exact value that passes a test, as a
multiplier: of two that pass, the nearer one, and at equal distance the upper
one; none when neither passes. -/
def neighbour? (passes : Nat → Bool) (exact grid : Nat) : Option Nat :=
  let below := exact / grid
  match passes (below * grid), passes ((below + 1) * grid) with
  | true, true => some (if 2 * (exact % grid) < grid then below else below + 1)
  | true, false => some below
  | false, true => some (below + 1)
  | false, false => none

/-- The search for a neighbour that passes, from the grid of `10 ^ level` units
down to the finest, on which the exact value lies: the multiplier, and the level
of its grid. -/
def coarsest (passes : Nat → Bool) (exact : Nat) : Nat → Nat × Nat
  | 0 => (exact, 0)
  | level + 1 =>
    match neighbour? passes exact (Nat.pow 10 (level + 1)) with
    | some multiplier => (multiplier, level + 1)
    | none => coarsest passes exact level

/-- The decimal with the fewest digits that reads back as the double of a finite
rank, and among those the closest to it. Zero is `0 · 10^0`. -/
def shortest (rank : Nat) : Decimal :=
  if rank = 0 then ⟨0, 0⟩
  else
    let exact := exactUnits rank
    let found := coarsest (readsBack rank) exact (Nat.toDigits 10 exact).length
    ⟨found.1, (found.2 : Int) - finestPlaces⟩

end LoxLang.Number
