import LoxLang.Proofs.Number.Rounding
import LoxLang.Proofs.Source.Lexeme

/-!
# The text of a number reads back

The digits that are written for a double are digits from which it is read again. The search for the
shortest decimal only settles on one that reads back, and it ends on the finest grid with the exact
value, which does (`readsBack_shortest`). Writing a decimal with all its places loses none of it
(`Decimal.spells_places`), and reading a numeral is rounding a whole number of finest units
(`ofDigits_of_spells`).

Hence the text of a finite number without a sign is a numeral for that number (`isLexeme_text`), and
by the lexical grammar a numeral for no other.
-/

namespace LoxLang.Number

/-! ## Units

The number of places is a variable in these lemmas, so that no power of it is ever computed. -/

theorem natPow_eq (b n : Nat) : Nat.pow b n = b ^ n := rfl

/-- A decimal in units of `10 ^ -places`, where it has no more places than that. -/
def Decimal.units (d : Decimal) (places : Nat) : Nat :=
  d.coefficient * 10 ^ (d.exponent + places).toNat

theorem Decimal.units_grid (multiplier level places : Nat) :
    (⟨multiplier, (level : Int) - places⟩ : Decimal).units places = multiplier * 10 ^ level := by
  rw [units, Int.sub_add_cancel, Int.toNat_natCast]

theorem Decimal.units_zero (places : Nat) : (⟨0, 0⟩ : Decimal).units places = 0 :=
  Nat.zero_mul _

/-- Counting quanta in units of `10 ^ -places` trades twos for fives. -/
theorem nearest_units (n : Nat) {places f : Nat} (few : f ≤ places) :
    nearest (n * 2 ^ places) (10 ^ f) = nearest (n * 10 ^ (places - f)) (5 ^ places) := by
  have fives : 0 < 5 ^ places := Nat.pow_pos (by decide)
  have tens : 0 < 10 ^ f := Nat.pow_pos (by decide)
  have trade : 2 ^ places * 5 ^ places = 10 ^ (places - f) * 10 ^ f := by
    rw [← Nat.mul_pow, ← Nat.pow_add, Nat.sub_add_cancel few]
  calc nearest (n * 2 ^ places) (10 ^ f)
      = nearest (n * 2 ^ places * 5 ^ places) (10 ^ f * 5 ^ places) :=
        (nearest_mul_right _ _ fives).symm
    _ = nearest (n * 10 ^ (places - f) * 10 ^ f) (5 ^ places * 10 ^ f) := by
        rw [Nat.mul_assoc, trade, ← Nat.mul_assoc, Nat.mul_comm (10 ^ f)]
    _ = nearest (n * 10 ^ (places - f)) (5 ^ places) := nearest_mul_right _ _ tens

/-! ## The search for the coarsest grid -/

theorem passes_of_neighbour? {passes : Nat → Bool} {exact grid multiplier : Nat}
    (found : neighbour? passes exact grid = some multiplier) :
    passes (multiplier * grid) = true := by
  simp only [neighbour?] at found
  split at found
  · rename_i below above
    split at found <;> obtain rfl := Option.some.inj found
    · exact below
    · exact above
  · rename_i below _
    obtain rfl := Option.some.inj found
    exact below
  · rename_i _ above
    obtain rfl := Option.some.inj found
    exact above
  · cases found

/-- Where the exact value passes, the search settles on a multiple that passes. -/
theorem passes_coarsest {passes : Nat → Bool} {exact : Nat} (sound : passes exact = true)
    (bound : Nat) :
    passes ((coarsest passes exact bound).1 * 10 ^ (coarsest passes exact bound).2) = true := by
  induction bound with
  | zero => simpa [coarsest] using sound
  | succ level ih =>
    rw [coarsest]
    split
    · rename_i multiplier found
      exact passes_of_neighbour? found
    · exact ih

/-! ## The shortest decimal -/

theorem unitsPerQuantum_eq : unitsPerQuantum = 5 ^ finestPlaces := by
  delta unitsPerQuantum
  rw [natPow_eq]

theorem readsBack_iff {rank units : Nat} :
    readsBack rank units = true ↔ nearest units unitsPerQuantum = rank := by
  rw [readsBack, decide_eq_true_iff]

/-- The exact value of a finite double reads back. -/
theorem readsBack_exactUnits {rank : Nat} (bounded : rank ≤ infinity) :
    readsBack rank (exactUnits rank) = true := by
  have pos : 0 < unitsPerQuantum := by
    rw [unitsPerQuantum_eq]
    exact Nat.pow_pos (by decide)
  have exact := nearest_mul_right (quanta rank) 1 pos
  rw [Nat.one_mul, nearest_quanta bounded] at exact
  exact readsBack_iff.mpr exact

/-- The shortest decimal has no more places than the finest grid, and reads back. -/
theorem readsBack_shortest {rank : Nat} (bounded : rank ≤ infinity) :
    -(finestPlaces : Int) ≤ (shortest rank).exponent ∧
      readsBack rank ((shortest rank).units finestPlaces) = true := by
  have sound := readsBack_exactUnits bounded
  by_cases zero : rank = 0
  · have nothing : exactUnits rank = 0 := by
      rw [zero, exactUnits, quanta, if_pos binade_pos, Nat.zero_mul]
    have decimal : shortest rank = ⟨0, 0⟩ := if_pos zero
    rw [decimal, Decimal.units_zero, ← nothing]
    exact ⟨Int.neg_nonpos_of_nonneg (Int.natCast_nonneg _), sound⟩
  · obtain ⟨multiplier, level, decimal, passes⟩ : ∃ multiplier level : Nat,
        shortest rank = ⟨multiplier, (level : Int) - finestPlaces⟩ ∧
          readsBack rank (multiplier * 10 ^ level) = true :=
      ⟨_, _, if_neg zero, passes_coarsest sound _⟩
    rw [decimal, Decimal.units_grid]
    exact ⟨Int.le_add_of_nonneg_left (Int.natCast_nonneg _), passes⟩

/-! ## Numerals -/

/-- Digits before and after a point that **spell** a decimal. -/
structure Decimal.Spells (d : Decimal) (whole fraction : List Char) : Prop where
  nonempty : whole ≠ []
  digits : ∀ c ∈ whole, c.isDigit = true
  decimals : ∀ c ∈ fraction, c.isDigit = true
  length : fraction.length = (-d.exponent).toNat
  value : Nat.ofDigitChars 10 (whole ++ fraction) 0 = d.coefficient * 10 ^ d.exponent.toNat

/-- With every place written out, a decimal is spelled. -/
theorem Decimal.spells_places (d : Decimal) : d.Spells d.places.1 d.places.2 := by
  have digits : ∀ c ∈ d.digits, c.isDigit = true :=
    fun c mem => Nat.isDigit_of_mem_toDigits (by decide) (by decide) mem
  have zeros : ∀ n, ∀ c ∈ List.replicate n '0', c.isDigit = true := by
    intro n c mem
    rw [List.eq_of_mem_replicate mem]
    decide
  have value : Nat.ofDigitChars 10 d.digits 0 = d.coefficient := Nat.ofDigitChars_ten_toDigits
  by_cases whole : 0 ≤ d.exponent
  · have places : d.places = (d.digits ++ List.replicate d.exponent.toNat '0', []) := if_pos whole
    rw [places]
    refine ⟨by simp [Decimal.digits, Nat.toDigits_ne_nil], ?_, by simp, by simp; omega, ?_⟩
    · intro c mem
      exact (List.mem_append.mp mem).elim (digits c) (zeros _ c)
    · rw [List.append_nil, Nat.ofDigitChars_append, value, Nat.ofDigitChars_replicate_zero,
        Nat.mul_comm]
  · let below := (-d.exponent).toNat
    let padded := List.replicate (below + 1 - d.digits.length) '0' ++ d.digits
    let point := padded.length - below
    have places : d.places = (padded.take point, padded.drop point) :=
      (if_neg whole).trans List.splitAt_eq
    have long : below < padded.length := by simp [padded]; omega
    have inside : ∀ c ∈ padded, c.isDigit = true :=
      fun c mem => (List.mem_append.mp mem).elim (zeros _ c) (digits c)
    rw [places]
    refine ⟨?_, fun c mem => inside c (List.mem_of_mem_take mem),
      fun c mem => inside c (List.mem_of_mem_drop mem), ?_, ?_⟩
    · intro empty
      have short := congrArg List.length empty
      simp only [List.length_take, List.length_nil, point] at short
      omega
    · simp only [List.length_drop, point]
      omega
    · have none : d.exponent.toNat = 0 := by omega
      rw [List.take_append_drop, Nat.ofDigitChars_append, Nat.ofDigitChars_replicate_zero,
        Nat.mul_zero, value, none, Nat.pow_zero, Nat.mul_one]

/-- To read a numeral is to round a whole number of finest units. -/
theorem ofDigits_of_spells {d : Decimal} {whole fraction : List Char}
    (spells : d.Spells whole fraction) (fine : -(finestPlaces : Int) ≤ d.exponent) :
    ofDigits whole fraction = ofRank (nearest (d.units finestPlaces) unitsPerQuantum) := by
  have read : ofDigits whole fraction =
      ofRank (nearest (Nat.ofDigitChars 10 (whole ++ fraction) 0 * 2 ^ finestPlaces)
        (10 ^ fraction.length)) := by
    delta ofDigits finestPlaces
    simp only [natPow_eq]
  have length := spells.length
  rw [read, spells.value, unitsPerQuantum_eq]
  generalize finestPlaces = places at *
  have few : fraction.length ≤ places := by omega
  have together : d.exponent.toNat + (places - fraction.length) = (d.exponent + places).toNat := by
    omega
  rw [nearest_units _ few, Nat.mul_assoc, ← Nat.pow_add, together, Decimal.units]

/-! ## The text of a number -/

/-- The text of a finite number without a sign is its shortest decimal, with every place. -/
theorem text_number {x : Float} (finite : rank x < infinity) (unsigned : isNegative x = false) :
    (Value.number x).text.toList =
      (shortest (rank x)).places.1 ++ Source.pointed (shortest (rank x)).places.2 := by
  have layout : (Value.number x).text =
      String.ofList ((shortest (rank x)).positional false) := by
    rw [Value.text, Style.write, if_pos finite, unsigned]
    simp [Style.layout, Value.numberStyle]
  rw [layout, String.toList_ofList, Decimal.positional]
  generalize (shortest (rank x)).places = places
  obtain ⟨whole, fraction⟩ := places
  cases fraction with
  | nil => simp [Source.pointed]
  | cons c fraction => rfl

/-- The text of a finite number without a sign is a numeral for that number. -/
theorem isLexeme_text {x : Float} (finite : rank x < infinity) (unsigned : isNegative x = false) :
    Source.IsLexeme (.number x) (Value.number x).text.toList := by
  obtain ⟨fine, reads⟩ := readsBack_shortest (Nat.le_of_lt finite)
  have spells := (shortest (rank x)).spells_places
  have readAgain := ofDigits_of_spells spells fine
  rw [readsBack_iff.mp reads, ofRank_rank unsigned] at readAgain
  have numeral := Source.IsLexeme.number spells.nonempty spells.digits spells.decimals
  rwa [readAgain, ← text_number finite unsigned] at numeral

/-- What a numeral denotes has no sign, and is infinity at most. -/
theorem of_isLexeme {x : Float} {text : List Char} (is : Source.IsLexeme (.number x) text) :
    rank x ≤ infinity ∧ isNegative x = false := by
  cases is with
  | number =>
    rw [ofDigits]
    have bounded := nearest_le_infinity
    exact ⟨by rw [rank_ofRank (bounded _ _)]; exact bounded _ _, isNegative_ofRank (bounded _ _)⟩

end LoxLang.Number
