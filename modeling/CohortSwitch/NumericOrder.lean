import CohortSwitch.OperatorErrors

/-!
# Numeric operators on integers

`greater_than` and its siblings convert both sides to floats and compare these. Rounding to the
nearest double is monotone (`nearestDouble_mono`), so the comparison never goes the wrong way,
and it is exact on the integers a double holds. Between larger ones it cannot tell neighbours
apart. `numeric_operators_order` says what the four operators return on any two integers in
range: the order of the integers, where those with one double count as equal.

The unit in the last place depends on the number, so rounding is not one monotone function
but one for each binade. Within a binade it is the rounding to integers, scaled. Across a
boundary a power of two lies between the two numbers, and it is a double of either side:
nothing is rounded past it (`nearestDouble_mono_of_pos`). Negative numbers are the mirror
image, since ties go to the even neighbour on both sides of zero.
-/

namespace CohortSwitch

/-! ## The nearest integer -/

/-- **The nearest integer is determined**, and at a tie the even one is it. -/
theorem roundHalfEven_eq {x : ℚ} {n : ℤ} (h : |(n : ℚ) - x| ≤ 1 / 2)
    (heven : |(n : ℚ) - x| = 1 / 2 → n % 2 = 0) : roundHalfEven x = n := by
  have hround := abs_roundHalfEven_sub x
  have htie := even_roundHalfEven (x := x)
  generalize roundHalfEven x = m at *
  obtain ⟨hlow, hhigh⟩ := abs_le.mp h
  obtain ⟨hlow', hhigh'⟩ := abs_le.mp hround
  by_contra hne
  -- two different candidates are one apart, and both half way
  rcases lt_or_gt_of_ne hne with hlt | hgt
  · have hcast : (m : ℚ) + 1 ≤ n := by exact_mod_cast hlt
    have hn := heven (by rw [abs_of_nonneg (by linarith)]; linarith)
    have hm := htie (by rw [abs_of_nonpos (by linarith)]; linarith)
    have hone : (n : ℚ) ≤ m + 1 := by linarith
    have hone' : n ≤ m + 1 := by exact_mod_cast hone
    omega
  · have hcast : (n : ℚ) + 1 ≤ m := by exact_mod_cast hgt
    have hn := heven (by rw [abs_of_nonpos (by linarith)]; linarith)
    have hm := htie (by rw [abs_of_nonneg (by linarith)]; linarith)
    have hone : (m : ℚ) ≤ n + 1 := by linarith
    have hone' : m ≤ n + 1 := by exact_mod_cast hone
    omega

/-- An integer is its own nearest one. -/
theorem roundHalfEven_intCast (n : ℤ) : roundHalfEven n = n := by
  refine roundHalfEven_eq ?_ (fun h => ?_)
  · rw [sub_self, abs_zero]
    norm_num
  · rw [sub_self, abs_zero] at h
    norm_num at h

/-- Rounding commutes with the change of the sign. -/
theorem roundHalfEven_neg (x : ℚ) : roundHalfEven (-x) = -roundHalfEven x := by
  have habs : |((-roundHalfEven x : ℤ) : ℚ) - -x| = |(roundHalfEven x : ℚ) - x| := by
    rw [← abs_neg]
    push_cast
    congr 1
    ring
  refine roundHalfEven_eq (habs ▸ abs_roundHalfEven_sub x) (fun h => ?_)
  have heven := even_roundHalfEven (habs ▸ h)
  omega

/-- **Rounding to the nearest integer is monotone.** -/
theorem roundHalfEven_mono {x y : ℚ} (h : x ≤ y) : roundHalfEven x ≤ roundHalfEven y := by
  obtain ⟨-, hx⟩ := abs_le.mp (abs_roundHalfEven_sub x)
  obtain ⟨hy, -⟩ := abs_le.mp (abs_roundHalfEven_sub y)
  by_contra hlt
  have hcast : (roundHalfEven y : ℚ) + 1 ≤ roundHalfEven x := by
    exact_mod_cast (by omega : roundHalfEven y + 1 ≤ roundHalfEven x)
  have hsame : x = y := by linarith
  subst hsame
  exact hlt le_rfl

/-! ## The nearest double -/

/-- The unit in the last place of the double nearest to a number. -/
def ulp (q : ℚ) : ℚ := 2 ^ (max (Int.log 2 |q|) (-1022) - 52)

/-- **The nearest double**, were there no largest one. -/
def nearestDouble (q : ℚ) : ℚ := roundHalfEven (q / ulp q) * ulp q

/-- The unit is positive. -/
theorem ulp_pos (q : ℚ) : 0 < ulp q := zpow_pos two_pos _

/-- Within the range the nearest double is the one that is stored. -/
theorem roundDouble_of_finite {q r : ℚ} (h : roundDouble q = .finite r) : r = nearestDouble q := by
  unfold roundDouble at h
  split at h
  · rename_i hzero
    cases h
    unfold nearestDouble
    rw [hzero, zero_div, show roundHalfEven 0 = 0 from roundHalfEven_intCast 0, Int.cast_zero,
      zero_mul]
  · dsimp only at h
    split at h
    · cases h
      rfl
    · cases h

/-- Rounding to the nearest double does so, too. -/
theorem nearestDouble_neg (q : ℚ) : nearestDouble (-q) = -nearestDouble q := by
  unfold nearestDouble ulp
  rw [abs_neg, neg_div, roundHalfEven_neg]
  push_cast
  ring

/-- Nothing is rounded past zero. -/
theorem nearestDouble_nonneg {q : ℚ} (h : 0 ≤ q) : 0 ≤ nearestDouble q := by
  have hround := roundHalfEven_mono (div_nonneg h (ulp_pos q).le)
  rw [show roundHalfEven 0 = 0 from roundHalfEven_intCast 0] at hround
  exact mul_nonneg (by exact_mod_cast hround) (ulp_pos q).le

/-- A number of `ulp q`s is rounded to itself. -/
theorem nearestDouble_of_mul {q : ℚ} {n : ℤ} (h : q = n * ulp q) : nearestDouble q = q := by
  unfold nearestDouble
  rw [div_eq_of_eq_mul (ulp_pos q).ne' h, roundHalfEven_intCast]
  exact h.symm

/-- Above zero, rounding is monotone. -/
theorem nearestDouble_mono_of_pos {x y : ℚ} (hx : 0 < x) (h : x ≤ y) :
    nearestDouble x ≤ nearestDouble y := by
  have hy : 0 < y := hx.trans_le h
  have hlog : Int.log 2 |x| ≤ Int.log 2 |y| := by
    rw [abs_of_pos hx, abs_of_pos hy]
    exact Int.log_mono_right hx h
  have hlow : (2 : ℚ) ^ Int.log 2 |y| ≤ y := by
    have hself := Int.zpow_log_le_self (b := 2) one_lt_two hy
    rw [abs_of_pos hy]
    exact_mod_cast hself
  have hhigh : x < (2 : ℚ) ^ (Int.log 2 |x| + 1) := by
    have hself := Int.lt_zpow_succ_log_self (b := 2) one_lt_two x
    rw [abs_of_pos hx]
    exact_mod_cast hself
  unfold nearestDouble
  by_cases hexponent : max (Int.log 2 |x|) (-1022) = max (Int.log 2 |y|) (-1022)
  · -- in one binade the integers are rounded
    have hulp : ulp x = ulp y := by
      unfold ulp
      rw [hexponent]
    rw [hulp]
    have hround := roundHalfEven_mono (div_le_div_of_nonneg_right h (ulp_pos y).le)
    exact mul_le_mul_of_nonneg_right (by exact_mod_cast hround) (ulp_pos y).le
  · -- otherwise the power of two between the two binades is not passed
    have hbelow : x / ulp x ≤ ((2 ^ 53 : ℤ) : ℚ) := by
      rw [div_le_iff₀ (ulp_pos x)]
      calc x ≤ 2 ^ (Int.log 2 |x| + 1) := hhigh.le
        _ ≤ 2 ^ (53 + (max (Int.log 2 |x|) (-1022) - 52)) :=
            zpow_le_zpow_right₀ one_le_two (by omega)
        _ = ((2 ^ 53 : ℤ) : ℚ) * ulp x := by
            rw [zpow_add₀ two_ne_zero]
            norm_num [ulp]
    have habove : ((2 ^ 52 : ℤ) : ℚ) ≤ y / ulp y := by
      rw [le_div_iff₀ (ulp_pos y)]
      calc ((2 ^ 52 : ℤ) : ℚ) * ulp y = 2 ^ (52 + (max (Int.log 2 |y|) (-1022) - 52)) := by
            rw [zpow_add₀ two_ne_zero]
            norm_num [ulp]
        _ ≤ 2 ^ Int.log 2 |y| := zpow_le_zpow_right₀ one_le_two (by omega)
        _ ≤ y := hlow
    have hbelow' := roundHalfEven_mono hbelow
    have habove' := roundHalfEven_mono habove
    rw [roundHalfEven_intCast] at hbelow' habove'
    have hunits : (2 : ℚ) * ulp x ≤ ulp y := by
      unfold ulp
      rw [← zpow_one_add₀ two_ne_zero]
      exact zpow_le_zpow_right₀ one_le_two (by omega)
    calc (roundHalfEven (x / ulp x) : ℚ) * ulp x ≤ ((2 ^ 53 : ℤ) : ℚ) * ulp x :=
          mul_le_mul_of_nonneg_right (by exact_mod_cast hbelow') (ulp_pos x).le
      _ = ((2 ^ 52 : ℤ) : ℚ) * (2 * ulp x) := by
          push_cast
          ring
      _ ≤ ((2 ^ 52 : ℤ) : ℚ) * ulp y := mul_le_mul_of_nonneg_left hunits (by norm_num)
      _ ≤ roundHalfEven (y / ulp y) * ulp y :=
          mul_le_mul_of_nonneg_right (by exact_mod_cast habove') (ulp_pos y).le

/-- **Rounding to the nearest double is monotone.** -/
theorem nearestDouble_mono {x y : ℚ} (h : x ≤ y) : nearestDouble x ≤ nearestDouble y := by
  rcases lt_or_ge 0 x with hx | hx
  · exact nearestDouble_mono_of_pos hx h
  have hzero : nearestDouble x ≤ 0 := by
    have hneg := nearestDouble_nonneg (neg_nonneg.mpr hx)
    rw [nearestDouble_neg] at hneg
    linarith
  rcases lt_or_ge y 0 with hy | hy
  · have hneg := nearestDouble_mono_of_pos (neg_pos.mpr hy) (neg_le_neg h)
    rw [nearestDouble_neg, nearestDouble_neg] at hneg
    linarith
  · exact hzero.trans (nearestDouble_nonneg hy)

/-- **A double holds every integer of 53 bits.** -/
theorem nearestDouble_intCast {n : ℤ} (h : n.natAbs ≤ 2 ^ 53) : nearestDouble n = n := by
  by_cases hzero : n = 0
  · subst hzero
    exact nearestDouble_of_mul (n := 0) (by simp)
  have habs : |(n : ℚ)| = (n.natAbs : ℚ) := by
    rw [Nat.cast_natAbs, Int.cast_abs]
  have hone : 1 ≤ n.natAbs := Int.natAbs_pos.mpr hzero
  have hpos : (0 : ℚ) < |(n : ℚ)| := abs_pos.mpr (Int.cast_ne_zero.mpr hzero)
  have hlow : 0 ≤ Int.log 2 |(n : ℚ)| := by
    rw [← Int.zpow_le_iff_le_log one_lt_two hpos, habs]
    exact_mod_cast hone
  have hself := Int.zpow_log_le_self (b := 2) one_lt_two hpos
  have hhigh : Int.log 2 |(n : ℚ)| ≤ 53 := by
    have hle : (2 : ℚ) ^ Int.log 2 |(n : ℚ)| ≤ 2 ^ (53 : ℤ) := by
      refine (le_of_eq_of_le (by norm_cast) hself).trans ?_
      rw [habs]
      exact_mod_cast h
    exact (zpow_le_zpow_iff_right₀ one_lt_two).mp hle
  have hulp : ulp n = 2 ^ (Int.log 2 |(n : ℚ)| - 52) := by
    unfold ulp
    rw [max_eq_left (by omega)]
  generalize Int.log 2 |(n : ℚ)| = e at *
  rcases hhigh.lt_or_eq with hlt | rfl
  · -- the unit is a fraction of one
    refine nearestDouble_of_mul (n := n * 2 ^ (52 - e).toNat) ?_
    have hunit : ((2 : ℚ) ^ (52 - e).toNat) * ulp n = 1 := by
      rw [hulp, ← zpow_natCast, Int.toNat_of_nonneg (by omega), ← zpow_add₀ two_ne_zero]
      norm_num
    push_cast
    rw [mul_assoc, hunit, mul_one]
  · -- only the power of two itself is left, and the unit is two
    have hbound : 2 ^ 53 ≤ n.natAbs := by
      rw [habs] at hself
      exact_mod_cast hself
    have htwo : ulp n = 2 := by
      rw [hulp]
      norm_num
    rcases Int.natAbs_eq n with hn | hn
    · refine nearestDouble_of_mul (n := 2 ^ 52) ?_
      rw [htwo, hn, le_antisymm h hbound]
      norm_num
    · refine nearestDouble_of_mul (n := -2 ^ 52) ?_
      rw [htwo, hn, le_antisymm h hbound]
      norm_num

/-! ## The operators -/

/-- Two powers of two together, where a greater one is above both. -/
theorem two_pow_add_le {m n k : ℕ} (hle : m ≤ n) (hlt : n < k) : 2 ^ n + 2 ^ m ≤ 2 ^ k :=
  calc 2 ^ n + 2 ^ m ≤ 2 ^ n + 2 ^ n :=
        Nat.add_le_add_left (Nat.pow_le_pow_right two_pos hle) _
    _ = 2 ^ (n + 1) := by rw [pow_succ, mul_two]
    _ ≤ 2 ^ k := Nat.pow_le_pow_right two_pos hlt

/-- What is below a power of two is below a greater one. -/
theorem lt_two_pow_of_lt {m n k : ℕ} (h : k < 2 ^ m) (hle : m ≤ n) : k < 2 ^ n :=
  h.trans_le (Nat.pow_le_pow_right two_pos hle)

/-- The double of an integer in range. -/
theorem toFloat_intCast {i : ℤ} (h : i.natAbs < 2 ^ 1023) :
    toFloat (.int i) = .ok (.finite (nearestDouble i)) := by
  have hbound : i.natAbs < floatBound := by
    have hsum : 2 ^ 1023 + 2 ^ 970 ≤ 2 ^ 1024 := two_pow_add_le (by omega) (by omega)
    unfold floatBound
    exact h.trans_le (Nat.le_sub_of_add_le hsum)
  rcases toFloat_int i with ⟨-, f, hf⟩ | ⟨hlarge, -⟩
  · by_cases hfinite : ∃ q, roundDouble i = .finite q
    · obtain ⟨q, hq⟩ := hfinite
      rw [toFloat_of_finite hq, roundDouble_of_finite hq]
    · rw [toFloat_of_not_finite hfinite] at hf
      cases hf
  · exact absurd hbound hlarge

/-- Two integers in range are compared as their doubles are. -/
theorem numericCompare_int (operation : PyFloat → PyFloat → Bool) {a b : ℤ}
    (ha : a.natAbs < 2 ^ 1023) (hb : b.natAbs < 2 ^ 1023) :
    numericCompare operation (some (.int a)) (.int b)
      = .ok (operation (.finite (nearestDouble a)) (.finite (nearestDouble b))) := by
  simp only [numericCompare, toFloat_intCast ha, toFloat_intCast hb]
  rfl

/-- Doubles are ordered as their integers are, unless they are the same. -/
theorem nearestDouble_lt_iff {a b : ℤ} :
    nearestDouble a < nearestDouble b ↔ a < b ∧ nearestDouble a ≠ nearestDouble b := by
  constructor
  · intro hlt
    refine ⟨?_, hlt.ne⟩
    by_contra hge
    exact absurd (nearestDouble_mono (Int.cast_le.mpr (not_lt.mp hge))) (not_le.mpr hlt)
  · rintro ⟨hlt, hne⟩
    exact (nearestDouble_mono (Int.cast_le.mpr hlt.le)).lt_of_ne hne

/-- The same, where they may be. -/
theorem nearestDouble_le_iff {a b : ℤ} :
    nearestDouble a ≤ nearestDouble b ↔ a ≤ b ∨ nearestDouble a = nearestDouble b := by
  rw [← not_lt, nearestDouble_lt_iff, not_and_or, not_lt, not_not, eq_comm]

/-- **Numeric operators respect the order of integers**, where those with one double count as
equal; an integer of 53 bits is its own double. -/
theorem numeric_operators_order [Packaging] {a b : ℤ} (ha : a.natAbs < 2 ^ 1023)
    (hb : b.natAbs < 2 ^ 1023) :
    conditionMatches "greater_than" (some (.int a)) (.int b)
        = .ok (decide (b < a ∧ nearestDouble b ≠ nearestDouble a))
      ∧ conditionMatches "greater_or_equal" (some (.int a)) (.int b)
        = .ok (decide (b ≤ a ∨ nearestDouble b = nearestDouble a))
      ∧ conditionMatches "less_than" (some (.int a)) (.int b)
        = .ok (decide (a < b ∧ nearestDouble a ≠ nearestDouble b))
      ∧ conditionMatches "less_or_equal" (some (.int a)) (.int b)
        = .ok (decide (a ≤ b ∨ nearestDouble a = nearestDouble b))
      ∧ (a.natAbs ≤ 2 ^ 53 → nearestDouble a = a)
      ∧ (b.natAbs ≤ 2 ^ 53 → nearestDouble b = b) := by
  refine ⟨?_, ?_, ?_, ?_, nearestDouble_intCast, nearestDouble_intCast⟩
  · refine (numericCompare_int _ ha hb).trans (congrArg Except.ok ?_)
    exact decide_eq_decide.mpr nearestDouble_lt_iff
  · refine (numericCompare_int _ ha hb).trans (congrArg Except.ok ?_)
    exact decide_eq_decide.mpr nearestDouble_le_iff
  · refine (numericCompare_int _ ha hb).trans (congrArg Except.ok ?_)
    exact decide_eq_decide.mpr nearestDouble_lt_iff
  · refine (numericCompare_int _ ha hb).trans (congrArg Except.ok ?_)
    exact decide_eq_decide.mpr nearestDouble_le_iff

theorem numeric_operators_order_sample :
    @conditionMatches .refusing "greater_than" (some (.int 18)) (.int 17) = .ok true := by
  have h18 : (18 : ℤ).natAbs < 2 ^ 1023 :=
    lt_two_pow_of_lt (by decide : 18 < 2 ^ 5) (by omega)
  have h17 : (17 : ℤ).natAbs < 2 ^ 1023 :=
    lt_two_pow_of_lt (by decide : 17 < 2 ^ 5) (by omega)
  obtain ⟨hgreater, -, -, -, hleft, hright⟩ := @numeric_operators_order .refusing 18 17 h18 h17
  rw [hgreater, hleft (by decide), hright (by decide)]
  norm_num

/-- **Neighbours past 53 bits are not told apart**, and the greater one is not greater. -/
theorem numeric_operators_blur : (2 ^ 53 : ℤ) < 2 ^ 53 + 1
    ∧ @conditionMatches .refusing "greater_than" (some (.int (2 ^ 53 + 1))) (.int (2 ^ 53))
      = .ok false := by
  have hsame : nearestDouble ((2 ^ 53 + 1 : ℤ) : ℚ) = nearestDouble ((2 ^ 53 : ℤ) : ℚ) := by
    decide +kernel
  have hlarge : (2 ^ 53 + 1 : ℤ).natAbs < 2 ^ 1023 :=
    lt_two_pow_of_lt (by decide : (2 ^ 53 + 1 : ℤ).natAbs < 2 ^ 54) (by omega)
  have hsmall : (2 ^ 53 : ℤ).natAbs < 2 ^ 1023 :=
    lt_two_pow_of_lt (by decide : (2 ^ 53 : ℤ).natAbs < 2 ^ 54) (by omega)
  refine ⟨by omega, (numericCompare_int _ hlarge hsmall).trans (congrArg Except.ok ?_)⟩
  exact decide_eq_false (by rw [hsame]; exact lt_irrefl _)

end CohortSwitch
