import LoxLang.Proofs.Number.ReadBack

/-!
# The text of a whole number

A whole number of at most 53 binary digits is a double (`exists_integer`), and it is shown by its
own decimal digits. The search for the shortest decimal comes to the grid on which only the zeros at
the end of the number are left out, and there is the number itself. On a coarser grid there is only
a neighbour, which is another whole number, and no other even one rounds to the same double
(`eq_of_nearest_eq`): it is a double of its own, or lies behind the first whole number that is a
double beyond the range.

The bound is sharp. The whole number behind `2 ^ 53` is odd and rounds to it.
-/

namespace LoxLang.Number

/-! ## Digits -/

/-- Zeros at the end of a number are the last of its digits. -/
theorem toDigits_mul_pow {n : Nat} (pos : 0 < n) (zeros : Nat) :
    Nat.toDigits 10 (n * 10 ^ zeros) = Nat.toDigits 10 n ++ List.replicate zeros '0' := by
  induction zeros with
  | zero => simp
  | succ zeros ih =>
    have shifted : n * 10 ^ (zeros + 1) = 10 * (n * 10 ^ zeros) + 0 := by
      rw [Nat.pow_succ, ← Nat.mul_assoc, Nat.mul_comm 10, Nat.add_zero]
    have more : 0 < n * 10 ^ zeros := Nat.mul_pos pos (Nat.pow_pos (by decide))
    rw [shifted, ← Nat.toDigits_append_toDigits (by decide) more (by decide), ih,
      List.append_assoc, List.replicate_succ', Nat.toDigits_zero]

/-! ## The search for the coarsest grid -/

variable {passes : Nat → Bool} {exact : Nat}

/-- No neighbour is found on a grid without a number that passes. -/
theorem neighbour?_eq_none {grid : Nat} (fails : ∀ multiplier, passes (multiplier * grid) = false) :
    neighbour? passes exact grid = none := by
  simp only [neighbour?, fails]

/-- On a grid with the exact value, the neighbour that is found is that value. -/
theorem neighbour?_of_exact {multiplier grid : Nat} (pos : 0 < grid)
    (on : exact = multiplier * grid) (sound : passes exact = true) :
    neighbour? passes exact grid = some multiplier := by
  have below : exact / grid = multiplier := by rw [on, Nat.mul_div_cancel _ pos]
  have excess : exact % grid = 0 := by rw [on, Nat.mul_mod_left]
  simp only [neighbour?, below, excess, ← on, sound]
  cases passes ((multiplier + 1) * grid)
  · rfl
  · simp [pos]

/-- The search ends on the first grid with a neighbour that passes. -/
theorem coarsest_eq {multiplier level bound : Nat} (pos : 0 < level) (within : level ≤ bound)
    (found : neighbour? passes exact (10 ^ level) = some multiplier)
    (coarser : ∀ l, level < l → neighbour? passes exact (10 ^ l) = none) :
    coarsest passes exact bound = (multiplier, level) := by
  induction bound with
  | zero => omega
  | succ bound ih =>
    rw [coarsest, natPow_eq]
    rcases Nat.lt_or_eq_of_le within with later | rfl
    · rw [coarser _ later]
      exact ih (Nat.le_of_lt_succ later)
    · rw [found]

/-! ## Whole numbers -/

/-- The rank of the double nearest to a whole number. -/
def integer (n : Nat) : Nat := nearest (n * 2 ^ finestPlaces) 1

theorem integer_mono {n m : Nat} (le : n ≤ m) : integer n ≤ integer m := by
  rw [integer, integer]
  exact nearest_mono 1 (Nat.mul_le_mul_right _ le)

/-- A whole number of at most 53 binary digits, doubled once at most, is a double. -/
theorem quanta_integer {n : Nat} (shift : Nat) (short : n ≤ 2 * binade) (few : shift ≤ 1) :
    integer (n * 2 ^ shift) < infinity ∧
      quanta (integer (n * 2 ^ shift)) = n * 2 ^ shift * 2 ^ finestPlaces := by
  obtain ⟨rank, bounded, value⟩ := exists_quanta_eq (shift + finestPlaces) short
  have finite : rank < infinity :=
    calc rank ≤ (shift + finestPlaces + 2) * binade := bounded
      _ < infinity := by
        rw [infinity]
        exact Nat.mul_lt_mul_of_pos_right (by rw [finestPlaces]; omega) binade_pos
  have same : integer (n * 2 ^ shift) = rank := by
    rw [integer, Nat.mul_assoc, ← Nat.pow_add, ← value, nearest_quanta (Nat.le_of_lt finite)]
  rw [same, value, Nat.mul_assoc, ← Nat.pow_add]
  exact ⟨finite, rfl⟩

/-- A whole number of at most 53 binary digits is a double. -/
theorem integer_exact {n : Nat} (short : n ≤ 2 * binade) :
    integer n < infinity ∧ quanta (integer n) = n * 2 ^ finestPlaces := by
  have exact := quanta_integer 0 short (Nat.zero_le 1)
  rwa [Nat.pow_zero, Nat.mul_one] at exact

/-- Whole numbers that keep their value are not rounded to one double. -/
theorem eq_of_quanta_integer {n m : Nat} (exact : quanta (integer n) = n * 2 ^ finestPlaces)
    (exact' : quanta (integer m) = m * 2 ^ finestPlaces) (same : integer m = integer n) :
    m = n := by
  have values : m * 2 ^ finestPlaces = n * 2 ^ finestPlaces := by rw [← exact', same, exact]
  exact Nat.eq_of_mul_eq_mul_right (Nat.two_pow_pos _) values

/-- No even number is rounded to the double of another number of at most 53 binary digits. -/
theorem eq_of_integer_eq {n m : Nat} (short : n ≤ 2 * binade) (even : 2 ∣ m)
    (same : integer m = integer n) : m = n := by
  rcases Nat.lt_or_ge (2 * binade) m with long | short'
  · -- Behind the range, the first even number is a double, and stands between the two.
    have above : integer n ≤ integer ((binade + 1) * 2 ^ 1) := integer_mono (by omega)
    have below : integer ((binade + 1) * 2 ^ 1) ≤ integer m := integer_mono (by omega)
    have outside : (binade + 1) * 2 ^ 1 ≠ n := by omega
    have fits : binade + 1 ≤ 2 * binade := by have := binade_pos; omega
    have between : integer ((binade + 1) * 2 ^ 1) = integer n :=
      Nat.le_antisymm (below.trans_eq same) above
    exact absurd (eq_of_quanta_integer (integer_exact short).2
      (quanta_integer 1 fits le_rfl).2 between) outside
  · exact eq_of_quanta_integer (integer_exact short).2 (integer_exact short').2 same

/-! ## The shortest decimal of a whole number -/

/-- A whole number is rounded in units of the finest grid as it is in quanta. -/
theorem readsBack_integer {rank n : Nat} :
    readsBack rank (n * 10 ^ finestPlaces) = true ↔ integer n = rank := by
  have pos : 0 < 5 ^ finestPlaces := Nat.pow_pos (by decide)
  have trade : n * 10 ^ finestPlaces = n * 2 ^ finestPlaces * 5 ^ finestPlaces := by
    rw [Nat.mul_assoc, ← Nat.mul_pow]
  have ratio := nearest_mul_right (n * 2 ^ finestPlaces) 1 pos
  rw [Nat.one_mul] at ratio
  rw [readsBack_iff, unitsPerQuantum_eq, trade, ratio, integer]

/-- The exact value of a whole number, in units of the finest grid. -/
theorem exactUnits_integer {n : Nat} (short : n ≤ 2 * binade) :
    exactUnits (integer n) = n * 10 ^ finestPlaces := by
  rw [exactUnits, (integer_exact short).2, unitsPerQuantum_eq, Nat.mul_assoc, ← Nat.mul_pow]

theorem integer_ne_zero {n : Nat} (pos : 0 < n) (short : n ≤ 2 * binade) : integer n ≠ 0 := by
  intro zero
  have value := (integer_exact short).2
  rw [zero, quanta, if_pos binade_pos] at value
  have some : 0 < n * 2 ^ finestPlaces := Nat.mul_pos pos (Nat.two_pow_pos _)
  omega

section Shortest

variable {multiplier zeros : Nat} (last : ¬ 10 ∣ multiplier)
  (short : multiplier * 10 ^ zeros ≤ 2 * binade)

include last short

/-- On a grid coarser than the last digit of a whole number, nothing reads back as that number. -/
theorem neighbour?_coarser (exact : Nat) {level : Nat} (coarser : zeros + finestPlaces < level) :
    neighbour? (readsBack (integer (multiplier * 10 ^ zeros))) exact (10 ^ level) = none := by
  obtain ⟨more, rfl⟩ := Nat.exists_eq_add_of_lt coarser
  apply neighbour?_eq_none
  intro other
  apply Bool.eq_false_iff.mpr
  intro passes
  -- It would be another number with more zeros at its end, and thus an even one.
  have grid : other * 10 ^ (zeros + finestPlaces + more + 1) =
      10 * (other * 10 ^ more) * 10 ^ zeros * 10 ^ finestPlaces := by ring
  rw [grid, readsBack_integer] at passes
  have even : 2 ∣ 10 * (other * 10 ^ more) * 10 ^ zeros :=
    Dvd.dvd.mul_right (Dvd.dvd.mul_right (by decide) _) _
  have same := eq_of_integer_eq short even passes
  have digit := Nat.eq_of_mul_eq_mul_right (Nat.pow_pos (by decide)) same
  exact last ⟨other * 10 ^ more, digit.symm⟩

/-- The shortest decimal of a whole number leaves out the zeros at its end, and nothing else. -/
theorem shortest_integer :
    shortest (integer (multiplier * 10 ^ zeros)) = ⟨multiplier, zeros⟩ := by
  have pos : 0 < multiplier := Nat.pos_of_ne_zero fun zero => last (zero ▸ Nat.dvd_zero 10)
  have nonzero := integer_ne_zero (Nat.mul_pos pos (Nat.pow_pos (by decide))) short
  have units : exactUnits (integer (multiplier * 10 ^ zeros)) =
      multiplier * 10 ^ (zeros + finestPlaces) := by
    rw [exactUnits_integer short, Nat.pow_add, Nat.mul_assoc]
  have sound : readsBack (integer (multiplier * 10 ^ zeros))
      (multiplier * 10 ^ (zeros + finestPlaces)) = true := by
    rw [Nat.pow_add, ← Nat.mul_assoc, readsBack_integer]
  have positive : 0 < zeros + finestPlaces := Nat.add_pos_right zeros (Nat.succ_pos 1073)
  have within : zeros + finestPlaces ≤
      (Nat.toDigits 10 (multiplier * 10 ^ (zeros + finestPlaces))).length := by
    rw [toDigits_mul_pow pos, List.length_append, List.length_replicate]
    exact Nat.le_add_left _ _
  have found := neighbour?_of_exact (Nat.pow_pos (by decide)) rfl sound
  have search := coarsest_eq positive within found fun _ => neighbour?_coarser last short _
  simp only [shortest, if_neg nonzero, units, search, Int.natCast_add, Int.add_sub_cancel]

end Shortest

/-! ## The text of a whole number -/

/-- A decimal with no places is its digits and the zeros behind them. -/
theorem Decimal.places_integer (multiplier zeros : Nat) :
    (⟨multiplier, zeros⟩ : Decimal).places =
      (Nat.toDigits 10 multiplier ++ List.replicate zeros '0', []) :=
  if_pos (Int.natCast_nonneg zeros)

/-- The digits of a number are those of its shortest decimal. -/
theorem places_shortest_integer {n : Nat} (short : n ≤ 2 * binade) :
    (shortest (integer n)).places = (Nat.toDigits 10 n, []) := by
  rcases Nat.eq_zero_or_pos n with rfl | pos
  · have zero : integer 0 = 0 := by
      have nothing : nearest (quanta 0) 1 = 0 := nearest_quanta (Nat.zero_le _)
      rw [quanta, if_pos binade_pos] at nothing
      rw [integer, Nat.zero_mul, nothing]
    rw [zero, shortest, if_pos rfl]
    rfl
  · obtain ⟨zeros, multiplier, last, rfl⟩ :=
      Nat.exists_eq_pow_mul_and_not_dvd (Nat.ne_of_gt pos) 10 (by decide)
    have positive : 0 < multiplier := Nat.pos_of_mul_pos_left pos
    rw [Nat.mul_comm] at short ⊢
    rw [shortest_integer last short, Decimal.places_integer, toDigits_mul_pow positive]

/-- A whole number of at most 53 binary digits is a double, and is shown by its digits. -/
theorem exists_integer {n : Nat} (short : n ≤ 2 ^ 53) :
    ∃ x : Float, rank x < infinity ∧ isNegative x = false ∧
      quanta (rank x) = n * 2 ^ finestPlaces ∧ (Value.number x).text = n.repr := by
  have bound : n ≤ 2 * binade := short
  obtain ⟨finite, value⟩ := integer_exact bound
  have same := rank_ofRank (Nat.le_of_lt finite)
  have unsigned := isNegative_ofRank (Nat.le_of_lt finite)
  refine ⟨ofRank (integer n), by rwa [same], unsigned, by rw [same, value], ?_⟩
  have digits := text_number (by rwa [same]) unsigned
  rw [same, places_shortest_integer bound, Source.pointed, List.append_nil] at digits
  exact String.toList_inj.mp (digits.trans String.toList_ofList.symm)

end LoxLang.Number
