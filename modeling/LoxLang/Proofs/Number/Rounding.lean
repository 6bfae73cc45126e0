import LoxLang.Number.Double
import Mathlib

/-!
# Rounding to doubles

What the rounding rule depends on, and what it leaves alone. It depends on a ratio and not on its
terms (`nearest_mul_right`), and every finite double is nearest to itself (`nearest_quanta`): the
magnitude of a value gives back the binade of its rank, and in the spacing of that binade the value
is a whole number. It keeps the order of values (`nearest_mono`), and every whole number of 53
binary digits, shifted, is the value of a double (`exists_quanta_eq`).

Up to infinity, ranks are the doubles without a sign, each of them once (`rank_ofRank`,
`ofRank_rank`): the bit patterns that are no numbers begin behind infinity. A double with a sign is
the negation of one without (`neg_ofRank`).
-/

namespace LoxLang.Number

/-! ## Ratios -/

theorem roundDiv_mul_right (num den : Nat) {c : Nat} (pos : 0 < c) :
    roundDiv (num * c) (den * c) = roundDiv num den := by
  simp only [roundDiv, Nat.mul_div_mul_right num den pos, Nat.mul_mod_mul_right, ← Nat.mul_assoc,
    Nat.mul_lt_mul_right pos]

theorem roundDiv_mul_self (num : Nat) {den : Nat} (pos : 0 < den) :
    roundDiv (num * den) den = num := by
  simp [roundDiv, pos]

/-- Rounding depends on the ratio alone. -/
theorem nearest_mul_right (num den : Nat) {c : Nat} (pos : 0 < c) :
    nearest (num * c) (den * c) = nearest num den := by
  simp only [nearest, Nat.mul_div_mul_right num den pos, Nat.mul_right_comm den c,
    roundDiv_mul_right _ _ pos]

theorem nearest_le_infinity (num den : Nat) : nearest num den ≤ infinity :=
  Nat.min_le_left _ _

/-! ## Finite doubles -/

theorem binade_pos : 0 < binade := by decide

/-- A value of 53 binary digits and `shift` zeros has this many digits. -/
theorem log2_shifted {significand : Nat} (shift : Nat) (normal : binade ≤ significand)
    (short : significand < 2 * binade) : (significand * 2 ^ shift).log2 = 52 + shift := by
  have binadeIs : binade = 2 ^ 52 := rfl
  have pos : 0 < 2 ^ shift := Nat.two_pow_pos shift
  have nonzero : significand * 2 ^ shift ≠ 0 := Nat.mul_ne_zero (by omega) (by omega)
  rw [Nat.log2_eq_iff nonzero, Nat.add_right_comm, Nat.pow_add, Nat.pow_add]
  exact ⟨Nat.mul_le_mul_right _ (by omega), Nat.mul_lt_mul_of_pos_right (by omega) pos⟩

/-- A rank is a shift by whole binades and a **significand**. Its value is the significand shifted,
and the magnitude of that value is the shift. -/
theorem exists_shift (rank : Nat) :
    ∃ shift significand, shift * binade + significand = rank ∧
      quanta rank = significand * 2 ^ shift ∧ (quanta rank).log2 - 52 = shift := by
  by_cases low : rank < binade
  · have value : quanta rank = rank := if_pos low
    refine ⟨0, rank, by rw [Nat.zero_mul, Nat.zero_add], by rw [value, Nat.pow_zero, Nat.mul_one],
      ?_⟩
    rw [value]
    by_cases zero : rank = 0
    · rw [zero, Nat.log2_zero]
    · have small : rank.log2 < 52 := (Nat.log2_lt zero).mpr low
      omega
  · have value : quanta rank = (binade + rank % binade) * 2 ^ (rank / binade - 1) := if_neg low
    have inside : rank % binade < binade := Nat.mod_lt rank binade_pos
    have high : 1 ≤ rank / binade := (Nat.one_le_div_iff binade_pos).mpr (by omega)
    refine ⟨rank / binade - 1, binade + rank % binade, ?_, value, ?_⟩
    · calc (rank / binade - 1) * binade + (binade + rank % binade)
          = (rank / binade - 1 + 1) * binade + rank % binade := by
            rw [Nat.add_mul, Nat.one_mul, Nat.add_assoc]
        _ = rank := by rw [Nat.sub_add_cancel high, Nat.mul_comm, Nat.div_add_mod]
    · rw [value, log2_shifted _ (by omega) (by omega), Nat.add_sub_cancel_left]

/-- A finite double is nearest to itself, and infinity to the value that it would have. -/
theorem nearest_quanta {rank : Nat} (bounded : rank ≤ infinity) :
    nearest (quanta rank) 1 = rank := by
  obtain ⟨shift, significand, isRank, value, magnitude⟩ := exists_shift rank
  have exact : roundDiv (quanta rank) (1 * Nat.pow 2 shift) = significand := by
    rw [Nat.one_mul, value]
    exact roundDiv_mul_self significand (Nat.two_pow_pos shift)
  simp only [nearest, Nat.div_one, magnitude, exact, isRank]
  exact Nat.min_eq_right bounded

/-! ## Order -/

theorem div_le_roundDiv (num den : Nat) : num / den ≤ roundDiv num den := by
  simp only [roundDiv]
  split_ifs <;> omega

theorem roundDiv_le_div (num den : Nat) : roundDiv num den ≤ num / den + 1 := by
  simp only [roundDiv]
  split_ifs <;> omega

theorem roundDiv_mono (den : Nat) {num num' : Nat} (le : num ≤ num') :
    roundDiv num den ≤ roundDiv num' den := by
  rcases Nat.lt_or_eq_of_le (Nat.div_le_div_right le : num / den ≤ num' / den) with lower | same
  · calc roundDiv num den ≤ num / den + 1 := roundDiv_le_div num den
      _ ≤ num' / den := lower
      _ ≤ roundDiv num' den := div_le_roundDiv num' den
  · have excess : num % den ≤ num' % den := by
      have parts := Nat.div_add_mod num den
      have parts' := Nat.div_add_mod num' den
      rw [same] at parts
      omega
    simp only [roundDiv, same]
    split_ifs <;> omega

/-- In the spacing of its binade, a value is two binades at most. -/
theorem roundDiv_le_binades (num den : Nat) :
    roundDiv num (den * 2 ^ ((num / den).log2 - 52)) ≤ 2 * binade := by
  have pos : 0 < 2 ^ ((num / den).log2 - 52) := Nat.two_pow_pos _
  have short : num / den < 2 * binade * 2 ^ ((num / den).log2 - 52) :=
    calc num / den < 2 ^ ((num / den).log2 + 1) := Nat.lt_log2_self
      _ ≤ 2 ^ (53 + ((num / den).log2 - 52)) := Nat.pow_le_pow_right (by decide) (by omega)
      _ = 2 * binade * 2 ^ ((num / den).log2 - 52) := by rw [Nat.pow_add]; rfl
  have below : num / den / 2 ^ ((num / den).log2 - 52) < 2 * binade :=
    (Nat.div_lt_iff_lt_mul pos).mpr short
  calc roundDiv num (den * 2 ^ ((num / den).log2 - 52))
      ≤ num / (den * 2 ^ ((num / den).log2 - 52)) + 1 := roundDiv_le_div _ _
    _ = num / den / 2 ^ ((num / den).log2 - 52) + 1 := by rw [Nat.div_div_eq_div_mul]
    _ ≤ 2 * binade := below

/-- In the spacing of its binade, a value is a binade at least, but for the first one. -/
theorem binade_le_roundDiv {num den : Nat} (shifted : 0 < (num / den).log2 - 52) :
    binade ≤ roundDiv num (den * 2 ^ ((num / den).log2 - 52)) := by
  have pos : 0 < 2 ^ ((num / den).log2 - 52) := Nat.two_pow_pos _
  have nonzero : num / den ≠ 0 := by
    intro zero
    rw [zero, Nat.log2_zero] at shifted
    cases shifted
  have long : binade * 2 ^ ((num / den).log2 - 52) ≤ num / den :=
    calc binade * 2 ^ ((num / den).log2 - 52)
        = 2 ^ (52 + ((num / den).log2 - 52)) := by rw [Nat.pow_add]; rfl
      _ = 2 ^ (num / den).log2 := by rw [Nat.add_sub_cancel' (by omega)]
      _ ≤ num / den := Nat.log2_self_le nonzero
  calc binade ≤ num / den / 2 ^ ((num / den).log2 - 52) := (Nat.le_div_iff_mul_le pos).mpr long
    _ = num / (den * 2 ^ ((num / den).log2 - 52)) := Nat.div_div_eq_div_mul ..
    _ ≤ roundDiv num (den * 2 ^ ((num / den).log2 - 52)) := div_le_roundDiv _ _

/-- Rounding keeps the order of values. -/
theorem nearest_mono (den : Nat) {num num' : Nat} (le : num ≤ num') :
    nearest num den ≤ nearest num' den := by
  have magnitudes : (num / den).log2 ≤ (num' / den).log2 := by
    simp only [Nat.log2_eq_log_two]
    exact Nat.log_mono_right (Nat.div_le_div_right le)
  refine min_le_min_left infinity ?_
  rcases Nat.lt_or_eq_of_le (Nat.sub_le_sub_right magnitudes 52) with lower | same
  · -- The lower value ends at the latest where the next binade begins.
    have high := binade_le_roundDiv (Nat.zero_lt_of_lt lower)
    have room := Nat.mul_le_mul_right binade lower
    calc ((num / den).log2 - 52) * binade + roundDiv num (den * 2 ^ ((num / den).log2 - 52))
        ≤ ((num / den).log2 - 52) * binade + 2 * binade :=
          Nat.add_le_add_left (roundDiv_le_binades num den) _
      _ = ((num / den).log2 - 52 + 1) * binade + binade := by
          rw [Nat.add_mul, Nat.one_mul, Nat.two_mul, Nat.add_assoc]
      _ ≤ ((num' / den).log2 - 52) * binade + roundDiv num' (den * 2 ^ ((num' / den).log2 - 52)) :=
          Nat.add_le_add room high
  · rw [same]
    exact Nat.add_le_add_left (roundDiv_mono _ le) _

/-- A significand with all its digits is shifted by whole binades. -/
theorem quanta_shifted {significand : Nat} (shift : Nat) (normal : binade ≤ significand)
    (short : significand ≤ 2 * binade) :
    quanta (shift * binade + significand) = significand * 2 ^ shift := by
  have high : ¬ shift * binade + significand < binade := by omega
  have value : quanta (shift * binade + significand) =
      (binade + (shift * binade + significand) % binade) *
        2 ^ ((shift * binade + significand) / binade - 1) := if_neg high
  have binades : (shift * binade + significand) / binade = significand / binade + shift := by
    rw [Nat.add_comm, Nat.add_mul_div_right _ _ binade_pos]
  rw [value, Nat.mul_add_mod_self_right, binades]
  rcases Nat.lt_or_eq_of_le short with inside | rfl
  · have one : significand / binade = 1 := by
      rw [Nat.div_eq_iff binade_pos]
      omega
    have rest : significand % binade = significand - binade := by
      rw [Nat.mod_eq_sub_mod normal, Nat.mod_eq_of_lt (by omega)]
    rw [one, rest, Nat.add_sub_cancel' normal, Nat.add_sub_cancel_left]
  · have two : 2 * binade / binade + shift - 1 = shift + 1 := by
      rw [Nat.mul_div_cancel _ binade_pos]
      omega
    rw [Nat.mul_mod_left, two, Nat.add_zero, Nat.pow_succ, Nat.mul_comm 2, Nat.mul_assoc,
      Nat.mul_comm 2]

/-- Every whole number of 53 binary digits, shifted, is the value of a double. -/
theorem exists_quanta_eq {significand : Nat} (shift : Nat) (short : significand ≤ 2 * binade) :
    ∃ rank, rank ≤ (shift + 2) * binade ∧ quanta rank = significand * 2 ^ shift := by
  have normal {shift significand : Nat} (normal : binade ≤ significand)
      (short : significand ≤ 2 * binade) :
      ∃ rank, rank ≤ (shift + 2) * binade ∧ quanta rank = significand * 2 ^ shift :=
    ⟨_, by rw [Nat.add_mul]; omega, quanta_shifted shift normal short⟩
  -- A short significand is lengthened by the zeros behind it.
  induction shift generalizing significand with
  | zero =>
    rcases Nat.lt_or_ge significand binade with low | high
    · exact ⟨significand, by omega, by rw [quanta, if_pos low, Nat.pow_zero, Nat.mul_one]⟩
    · exact normal high short
  | succ shift ih =>
    rcases Nat.lt_or_ge significand binade with low | high
    · have longer : significand * 2 ≤ 2 * binade := by omega
      obtain ⟨rank, bounded, value⟩ := ih longer
      refine ⟨rank, ?_, by rw [value, Nat.pow_succ, Nat.mul_assoc, Nat.mul_comm 2]⟩
      exact Nat.le_trans bounded (Nat.mul_le_mul_right _ (by omega))
    · exact normal high short

/-! ## Doubles -/

/-- Bits up to those of infinity are the bits of a double. -/
theorem toBits_ofBits {bits : UInt64} (number : bits.toNat ≤ infinity) :
    (Float.ofBits bits).toBits = bits := by
  have packed := @Float.Model.UnpackedFloat.pack_unpack .binary64 bits.toBitVec (by decide)
  have isNumber : ¬ @Float.Model.UnpackedFloat.isNaNBits .binary64 bits.toBitVec = true := by
    simp only [Float.Model.UnpackedFloat.isNaNBits, decide_eq_true_eq, not_and, not_not,
      Float.Model.UnpackedFloat.unpackExponent_def, Float.Model.UnpackedFloat.unpackMantissa_def]
    intro full
    have exponent : bits.toNat / 2 ^ 52 % 2 ^ 11 = 2 ^ 11 - 1 := by
      simpa [Nat.shiftRight_eq_div_pow] using congrArg BitVec.toNat full
    have isInfinity : bits.toNat = 2047 * 2 ^ 52 := by
      have bounded : bits.toNat ≤ 2047 * 2 ^ 52 := number
      omega
    apply BitVec.eq_of_toNat_eq
    simp [isInfinity]
  rw [if_neg isNumber] at packed
  exact UInt64.toBitVec_inj.mp packed

variable {rank : Nat}

theorem toNat_toBits_ofRank (number : rank ≤ infinity) : (ofRank rank).toBits.toNat = rank := by
  have fits : rank < 2 ^ 64 := Nat.lt_of_le_of_lt number (by decide)
  have bits : (UInt64.ofNat rank).toNat = rank := UInt64.toNat_ofNat_of_lt' fits
  rw [ofRank, toBits_ofBits (by rw [bits]; exact number), bits]

theorem rank_ofRank (number : rank ≤ infinity) : Number.rank (ofRank rank) = rank := by
  rw [Number.rank, toNat_toBits_ofRank number]
  exact Nat.mod_eq_of_lt (Nat.lt_of_le_of_lt number (by decide))

theorem isNegative_ofRank (number : rank ≤ infinity) : isNegative (ofRank rank) = false := by
  rw [isNegative, toNat_toBits_ofRank number]
  exact decide_eq_false (Nat.not_le.mpr (Nat.lt_of_le_of_lt number (by decide)))

/-- A double without a sign is the double of its rank. -/
theorem ofRank_rank {x : Float} (unsigned : isNegative x = false) : ofRank (Number.rank x) = x := by
  have small : x.toBits.toNat < 2 ^ 63 := Nat.not_le.mp (of_decide_eq_false unsigned)
  have whole : Number.rank x = x.toBits.toNat := Nat.mod_eq_of_lt small
  rw [whole, ofRank, UInt64.ofNat_toNat, Float.ofBits_toBits]

open Float.Model.UnpackedFloat in
/-- Bits that differ in the sign alone unpack to opposite numbers. -/
theorem neg_unpack {bits bits' : BitVec 64}
    (opposite : bits.toNat = bits'.toNat + 2 ^ 63) :
    (unpack .binary64 bits').neg = unpack .binary64 bits := by
  have exponent : @unpackExponent .binary64 bits = @unpackExponent .binary64 bits' := by
    apply BitVec.eq_of_toNat_eq
    simp only [unpackExponent_def, BitVec.extractLsb'_toNat, Nat.shiftRight_eq_div_pow, opposite]
    show (bits'.toNat + 2 ^ 63) / 2 ^ 52 % 2 ^ 11 = bits'.toNat / 2 ^ 52 % 2 ^ 11
    omega
  have mantissa : @unpackMantissa .binary64 bits = @unpackMantissa .binary64 bits' := by
    apply BitVec.eq_of_toNat_eq
    simp only [unpackMantissa_def, BitVec.extractLsb'_toNat, Nat.shiftRight_eq_div_pow, opposite]
    show (bits'.toNat + 2 ^ 63) / 2 ^ 0 % 2 ^ 52 = bits'.toNat / 2 ^ 0 % 2 ^ 52
    omega
  have sign : Sign.ofBitVec (@unpackSign .binary64 bits) =
      -Sign.ofBitVec (@unpackSign .binary64 bits') := by
    have high := bits.isLt
    have set : @unpackSign .binary64 bits = 1#1 := by
      apply BitVec.eq_of_toNat_eq
      simp only [unpackSign_def, BitVec.extractLsb'_toNat, Nat.shiftRight_eq_div_pow]
      show bits.toNat / 2 ^ 63 % 2 ^ 1 = 1
      omega
    have clear : @unpackSign .binary64 bits' = 0#1 := by
      apply BitVec.eq_of_toNat_eq
      simp only [unpackSign_def, BitVec.extractLsb'_toNat, Nat.shiftRight_eq_div_pow]
      show bits'.toNat / 2 ^ 63 % 2 ^ 1 = 0
      omega
    rw [set, clear]
    rfl
  simp only [unpack, exponent, mantissa, sign]
  split_ifs <;> rfl

/-- A double with a sign is the negation of the double of its rank. -/
theorem neg_ofRank {x : Float} (negative : isNegative x = true)
    (number : Number.rank x ≤ infinity) : -ofRank (Number.rank x) = x := by
  have bits : x.toBits.toBitVec.toNat =
      (ofRank (Number.rank x)).toBits.toBitVec.toNat + 2 ^ 63 := by
    have same : (ofRank (Number.rank x)).toBits.toBitVec.toNat = Number.rank x :=
      toNat_toBits_ofRank number
    have high : 2 ^ 63 ≤ x.toBits.toNat := of_decide_eq_true negative
    have bound := x.toBits.toNat_lt
    rw [same, Number.rank]
    show x.toBits.toNat = x.toBits.toNat % 2 ^ 63 + 2 ^ 63
    omega
  have unpacked := neg_unpack bits
  calc -ofRank (Number.rank x)
      = Float.ofBits x.toBits := congrArg (fun u => Float.ofModel (Float.Model.pack u)) unpacked
    _ = x := Float.ofBits_toBits x

end LoxLang.Number
