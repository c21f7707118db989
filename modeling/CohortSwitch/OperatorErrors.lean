import Mathlib.Tactic.Linarith
import Mathlib.Tactic.NormNum
import CohortSwitch.Operators
import CohortSwitch.Schemas

/-!
# When an operator raises

An attribute is whatever JSON value a caller sends, and so is the value a rule
stores. Most operators return on any two values. Three kinds may raise instead:
membership in a string asks for a string, and membership in an object hashes
what it looks up; a numeric comparison converts both sides to floats, and the
overflow of an integer is not among the errors it catches; a version comparison
catches the parser's refusal and nothing else the parser may raise.

`Comparable` is the condition, kind by kind, on the two values alone: `Searchable`,
`Measurable` and `Versionable`. `conditionMatches_returns_iff` puts the kinds together.

## The range of a float

An integer is too large for a float from `2 ^ 1024 - 2 ^ 970` on, half a unit in
the last place past the largest double (`roundDouble_eq_finite_iff`). The rounding
function says it in units of the last place: below the last binade everything is finite
(`finite_below`), past it nothing is (`not_finite_above`), and within it the number has 53
bits in these units, so the question is whether it is rounded to `2 ^ 53`. That happens
from half a unit below on, since ties go to the even neighbour and the largest integer
below is odd.

The order of the two conversions is seen: the second value is converted only once the
first is a number, so an integer past the range is harmless behind something that is no
number at all.
-/

namespace CohortSwitch

/-! ## The range of a float -/

/-- **The nearest integer is within one half.** -/
theorem abs_roundHalfEven_sub (x : ℚ) : |(roundHalfEven x : ℚ) - x| ≤ 1 / 2 := by
  have hle := Int.floor_le x
  have hlt := Int.lt_floor_add_one x
  unfold roundHalfEven
  dsimp only
  split
  · rw [abs_le]
    constructor <;> linarith
  · split
    · push_cast
      rw [abs_le]
      constructor <;> linarith
    · have hhalf : x - ⌊x⌋ = 1 / 2 := by linarith
      have hmod : ⌊x⌋ % 2 = 0 ∨ ⌊x⌋ % 2 = 1 := Int.emod_two_eq_zero_or_one _
      rcases hmod with hmod | hmod
      · rw [hmod, abs_le]
        push_cast
        constructor <;> linarith
      · rw [hmod, abs_le]
        push_cast
        constructor <;> linarith

/-- Half way between two integers the even one is taken. -/
theorem even_roundHalfEven {x : ℚ} (h : |(roundHalfEven x : ℚ) - x| = 1 / 2) :
    roundHalfEven x % 2 = 0 := by
  have hle := Int.floor_le x
  have hlt := Int.lt_floor_add_one x
  unfold roundHalfEven at h ⊢
  dsimp only at h ⊢
  split at h
  · rename_i hbelow
    rw [abs_of_nonpos (by linarith)] at h
    linarith
  · rename_i hbelow
    split at h
    · rename_i habove
      push_cast at h
      rw [abs_of_nonneg (by linarith)] at h
      linarith
    · rename_i habove
      rw [if_neg hbelow, if_neg habove]
      omega

/-- Nothing that is less than one half past an integer is rounded past it. -/
theorem abs_roundHalfEven_le {x : ℚ} {n : ℤ} (h : |x| < n + 1 / 2) : |roundHalfEven x| ≤ n := by
  have hround := abs_le.mp (abs_roundHalfEven_sub x)
  obtain ⟨hlow, hhigh⟩ := abs_lt.mp h
  rw [abs_le]
  constructor
  · by_contra hlt
    have hcast : (roundHalfEven x : ℚ) ≤ -n - 1 := by
      exact_mod_cast (by omega : roundHalfEven x ≤ -n - 1)
    linarith [hround.1]
  · by_contra hlt
    have hcast : (n : ℚ) + 1 ≤ roundHalfEven x := by
      exact_mod_cast (by omega : n + 1 ≤ roundHalfEven x)
    linarith [hround.2]

/-- What is at least an integer is rounded to no less. -/
theorem le_abs_roundHalfEven {x : ℚ} {n : ℤ} (h : (n : ℚ) ≤ |x|) : n ≤ |roundHalfEven x| := by
  have hround := abs_le.mp (abs_roundHalfEven_sub x)
  by_contra hlt
  obtain ⟨hlow, hhigh⟩ := abs_le.mp (by omega : |roundHalfEven x| ≤ n - 1)
  have hlow' : -((n : ℚ) - 1) ≤ roundHalfEven x := by exact_mod_cast hlow
  have hhigh' : (roundHalfEven x : ℚ) ≤ n - 1 := by exact_mod_cast hhigh
  rcases le_abs.mp h with hx | hx
  · linarith [hround.1]
  · linarith [hround.2]

/-- From one half past an odd integer on, the next integer is reached. -/
theorem lt_abs_roundHalfEven {x : ℚ} {n : ℤ} (hodd : n % 2 = 1) (h : (n : ℚ) + 1 / 2 ≤ |x|) :
    n < |roundHalfEven x| := by
  have hround := abs_le.mp (abs_roundHalfEven_sub x)
  by_contra hlt
  obtain ⟨hlow, hhigh⟩ := abs_le.mp (by omega : |roundHalfEven x| ≤ n)
  have hlow' : -(n : ℚ) ≤ roundHalfEven x := by exact_mod_cast hlow
  have hhigh' : (roundHalfEven x : ℚ) ≤ n := by exact_mod_cast hhigh
  -- only the tie itself is left, and there the result would be odd
  rcases le_abs.mp h with hx | hx
  · have heq : (roundHalfEven x : ℚ) = n := by linarith [hround.1]
    have htie : |(roundHalfEven x : ℚ) - x| = 1 / 2 := by
      rw [abs_of_nonpos (by linarith)]
      linarith [hround.1]
    have heven := even_roundHalfEven htie
    have hint : roundHalfEven x = n := by exact_mod_cast heq
    omega
  · have heq : (roundHalfEven x : ℚ) = -n := by linarith [hround.2]
    have htie : |(roundHalfEven x : ℚ) - x| = 1 / 2 := by
      rw [abs_of_nonneg (by linarith)]
      linarith [hround.2]
    have heven := even_roundHalfEven htie
    have hint : roundHalfEven x = -n := by exact_mod_cast heq
    omega

/-- The power of two below which a float is finite, less half a unit in the last
place. -/
def floatBound : ℕ := 2 ^ 1024 - 2 ^ 970

/-- The bound of the doubles, half by half. -/
theorem two_pow_1024 : (2 : ℚ) ^ 1024 = 2 ^ 54 * 2 ^ 970 := by
  rw [← pow_add]

theorem two_zpow_971 : (2 : ℚ) ^ (971 : ℤ) = 2 * 2 ^ 970 := by
  rw [← pow_succ', ← zpow_natCast]
  rfl

/-- The bound as a rational number. -/
theorem floatBound_cast : (floatBound : ℚ) = (2 ^ 54 - 1) * 2 ^ 970 := by
  have hle : 2 ^ 970 ≤ 2 ^ 1024 := pow_le_pow_right₀ one_le_two (by omega)
  unfold floatBound
  rw [Nat.cast_sub hle, Nat.cast_pow, Nat.cast_pow, Nat.cast_ofNat, two_pow_1024, sub_mul,
    one_mul]

/-- The result of rounding is finite below the power of two. -/
theorem roundDouble_finite_iff_abs {q : ℚ} (hne : q ≠ 0) :
    (∃ r, roundDouble q = .finite r)
      ↔ (|roundHalfEven (q / 2 ^ (max (Int.log 2 |q|) (-1022) - 52))| : ℚ)
        * 2 ^ (max (Int.log 2 |q|) (-1022) - 52) < 2 ^ 1024 := by
  have hulp : (0 : ℚ) < 2 ^ (max (Int.log 2 |q|) (-1022) - 52) := zpow_pos two_pos _
  unfold roundDouble
  rw [if_neg hne]
  dsimp only
  rw [abs_mul, abs_of_pos hulp]
  split
  · rename_i hlt
    exact iff_of_true ⟨_, rfl⟩ hlt
  · rename_i hge
    exact iff_of_false (fun ⟨_, h⟩ => (by cases h)) hge

/-! The number in units in the last place has 53 bits, and so has the integer it is
rounded to. -/

section Binades

variable {q : ℚ} {exponent : ℤ}

/-- Its absolute value is scaled alike. -/
theorem abs_scaled (q : ℚ) (exponent : ℤ) :
    |q / 2 ^ (exponent - 52)| = |q| / 2 ^ (exponent - 52) := by
  rw [abs_div, abs_of_pos (zpow_pos two_pos (exponent - 52) : (0 : ℚ) < _)]

theorem le_scaled (hlow : (2 : ℚ) ^ exponent ≤ |q|) :
    ((2 ^ 52 : ℤ) : ℚ) ≤ |q / 2 ^ (exponent - 52)| := by
  rw [abs_scaled, le_div_iff₀ (zpow_pos two_pos _)]
  calc ((2 ^ 52 : ℤ) : ℚ) * 2 ^ (exponent - 52) = 2 ^ exponent := by
        rw [show ((2 ^ 52 : ℤ) : ℚ) = 2 ^ (52 : ℤ) by norm_num, ← zpow_add₀ two_ne_zero]
        congr 1
        omega
    _ ≤ |q| := hlow

theorem scaled_lt (hhigh : |q| < (2 : ℚ) ^ (exponent + 1)) :
    |q / 2 ^ (exponent - 52)| < ((2 ^ 53 : ℤ) : ℚ) := by
  rw [abs_scaled, div_lt_iff₀ (zpow_pos two_pos _)]
  calc |q| < 2 ^ (exponent + 1) := hhigh
    _ = ((2 ^ 53 : ℤ) : ℚ) * 2 ^ (exponent - 52) := by
        rw [show ((2 ^ 53 : ℤ) : ℚ) = 2 ^ (53 : ℤ) by norm_num, ← zpow_add₀ two_ne_zero]
        congr 1
        omega

/-- **Below the last binade everything is finite.** -/
theorem finite_below (hexponent : exponent < 1023) (hhigh : |q| < (2 : ℚ) ^ (exponent + 1)) :
    (|roundHalfEven (q / 2 ^ (exponent - 52))| : ℚ) * 2 ^ (exponent - 52) < 2 ^ 1024
      ∧ |q| < floatBound := by
  have hulp : (0 : ℚ) < 2 ^ (exponent - 52) := zpow_pos two_pos _
  have hulpLe : (2 : ℚ) ^ (exponent - 52) ≤ 2 ^ 970 := by
    rw [← zpow_natCast]
    exact zpow_le_zpow_right₀ one_le_two (by push_cast; omega)
  have hscaled := scaled_lt hhigh
  have hbelow := abs_roundHalfEven_le (n := 2 ^ 53) (lt_trans hscaled (by linarith))
  have hbelow' : (|roundHalfEven (q / 2 ^ (exponent - 52))| : ℚ) ≤ ((2 ^ 53 : ℤ) : ℚ) := by
    exact_mod_cast hbelow
  have hrounded := mul_le_mul hbelow' hulpLe hulp.le (by norm_num)
  rw [abs_scaled, div_lt_iff₀ hulp] at hscaled
  have hexact := mul_le_mul_of_nonneg_left hulpLe (by norm_num : (0 : ℚ) ≤ ((2 ^ 53 : ℤ) : ℚ))
  have hunit : (0 : ℚ) < 2 ^ 970 := pow_pos two_pos _
  rw [floatBound_cast, two_pow_1024]
  push_cast at hrounded hscaled hexact
  generalize (2 : ℚ) ^ 970 = unit at *
  exact ⟨by linarith, by linarith⟩

/-- **Past the last binade nothing is.** -/
theorem not_finite_above (hexponent : 1023 < exponent) (hlow : (2 : ℚ) ^ exponent ≤ |q|) :
    ¬ (|roundHalfEven (q / 2 ^ (exponent - 52))| : ℚ) * 2 ^ (exponent - 52) < 2 ^ 1024
      ∧ ¬ |q| < floatBound := by
  have hulpGe : (4 : ℚ) * 2 ^ 970 ≤ 2 ^ (exponent - 52) := by
    have hfour : (4 : ℚ) = 2 ^ 2 := by norm_num
    have hpower : (4 : ℚ) * 2 ^ 970 = 2 ^ ((972 : ℕ) : ℤ) := by
      rw [hfour, ← pow_add, zpow_natCast]
    rw [hpower]
    exact zpow_le_zpow_right₀ one_le_two (by push_cast; omega)
  have hscaled := le_scaled hlow
  have habove : ((2 ^ 52 : ℤ) : ℚ) ≤ |roundHalfEven (q / 2 ^ (exponent - 52))| := by
    exact_mod_cast le_abs_roundHalfEven hscaled
  have hrounded := mul_le_mul habove hulpGe (by positivity) (by positivity)
  rw [abs_scaled, le_div_iff₀ (zpow_pos two_pos _)] at hscaled
  have hexact := mul_le_mul_of_nonneg_left hulpGe (by norm_num : (0 : ℚ) ≤ ((2 ^ 52 : ℤ) : ℚ))
  have hunit : (0 : ℚ) < 2 ^ 970 := pow_pos two_pos _
  rw [floatBound_cast, two_pow_1024]
  push_cast at hrounded hscaled hexact
  generalize (2 : ℚ) ^ 970 = unit at *
  exact ⟨by linarith, by linarith⟩

/-- **In the last binade** the bound is half a unit past the largest double. -/
theorem finite_last_iff (hhigh : |q| < (2 : ℚ) ^ ((1023 : ℤ) + 1)) :
    (|roundHalfEven (q / 2 ^ ((1023 : ℤ) - 52))| : ℚ) * 2 ^ ((1023 : ℤ) - 52) < 2 ^ 1024
      ↔ |q| < floatBound := by
  have hscaled := scaled_lt hhigh
  have habs := abs_scaled q 1023
  rw [show (1023 : ℤ) - 52 = 971 from rfl, two_zpow_971] at *
  rw [habs] at hscaled
  have hunit : (0 : ℚ) < 2 ^ 970 := pow_pos two_pos _
  rw [floatBound_cast, two_pow_1024]
  generalize (2 : ℚ) ^ 970 = unit at *
  have hulp : (0 : ℚ) < 2 * unit := by linarith
  constructor
  · intro hlt
    by_contra hge
    have hodd := lt_abs_roundHalfEven (x := q / (2 * unit)) (n := 2 ^ 53 - 1) (by norm_num) (by
      rw [habs, le_div_iff₀ hulp]
      push_cast
      linarith)
    have hodd' : ((2 ^ 53 : ℤ) : ℚ) ≤ |roundHalfEven (q / (2 * unit))| := by
      exact_mod_cast (by omega : (2 ^ 53 : ℤ) ≤ |roundHalfEven (q / (2 * unit))|)
    have := mul_le_mul_of_nonneg_right hodd' hulp.le
    push_cast at this
    linarith
  · intro hlt
    have hround := abs_roundHalfEven_le (x := q / (2 * unit)) (n := 2 ^ 53 - 1) (by
      rw [habs, div_lt_iff₀ hulp]
      push_cast
      linarith)
    have hround' : (|roundHalfEven (q / (2 * unit))| : ℚ) ≤ ((2 ^ 53 - 1 : ℤ) : ℚ) := by
      exact_mod_cast hround
    have := mul_le_mul_of_nonneg_right hround' hulp.le
    push_cast at this
    linarith

end Binades

/-- **Which rational numbers are rounded to a finite double.** -/
theorem roundDouble_eq_finite_iff {q : ℚ} (hq : 1 ≤ |q|) :
    (∃ r, roundDouble q = .finite r) ↔ |q| < floatBound := by
  have hpos : (0 : ℚ) < |q| := lt_of_lt_of_le one_pos hq
  have hlog : (0 : ℤ) ≤ Int.log 2 |q| := by
    rw [← Int.zpow_le_iff_le_log one_lt_two hpos]
    simpa using hq
  have hlow : (2 : ℚ) ^ Int.log 2 |q| ≤ |q| := by
    exact_mod_cast Int.zpow_log_le_self (b := 2) one_lt_two hpos
  have hhigh : |q| < (2 : ℚ) ^ (Int.log 2 |q| + 1) := by
    exact_mod_cast Int.lt_zpow_succ_log_self (b := 2) one_lt_two |q|
  rw [roundDouble_finite_iff_abs (abs_pos.mp hpos), max_eq_left (by omega)]
  generalize Int.log 2 |q| = exponent at *
  rcases lt_trichotomy exponent 1023 with hsmall | rfl | hlarge
  · exact iff_of_true (finite_below hsmall hhigh).1 (finite_below hsmall hhigh).2
  · exact finite_last_iff hhigh
  · exact iff_of_false (not_finite_above hlarge hlow).1 (not_finite_above hlarge hlow).2

/-! ## What each kind of operator needs -/

/-- A value is no integer past the range of a float. -/
def Json.InFloatRange (value : Json) : Prop :=
  ∀ i, value.int? = some i → i.natAbs < floatBound

/-- `element in container` has an answer: a string is searched for a string, and an
object for something hashable. -/
def Json.Searchable (element container : Json) : Prop :=
  match container with
  | .str _ => element.str?.isSome = true
  | .obj _ => element.hashable = true
  | _ => True

/-- Two values can be compared as numbers: neither integer is past the range of a
float, where the second is only looked at once the first is a number. -/
def Json.Measurable (actual expected : Json) : Prop :=
  actual.isBool = true ∨ expected.isBool = true
    ∨ actual.InFloatRange ∧ ((∃ f, toFloat actual = .ok f) → expected.InFloatRange)

/-- Two texts can be compared as versions: the parser raises nothing but its own
refusal, where it looks at the second text only once the first is a version. -/
def Json.Versionable [Packaging] (actual expected : Json) : Prop :=
  ∀ a e, actual.str? = some a → expected.str? = some e →
    (∀ error, Packaging.parse a = .error error → ∃ m, error = .invalidVersion m)
      ∧ ((∃ version, Packaging.parse a = .ok version) →
        ∀ error, Packaging.parse e = .error error → ∃ m, error = .invalidVersion m)

/-- **Two values an operator can be asked about.** A missing attribute can always
be. -/
def Comparable [Packaging] (operator : String) (actual : Option Json) (expected : Json) : Prop :=
  ∀ a, actual = some a →
    (operator ∈ ["in", "not_in"] → a.Searchable expected)
    ∧ (operator = "contains" → expected.Searchable a)
    ∧ (operator ∈ ["greater_than", "greater_or_equal", "less_than", "less_or_equal"] →
      a.Measurable expected)
    ∧ (operator ∈ ["semver_equal", "semver_greater", "semver_less"] → a.Versionable expected)

/-- A computation returns. -/
def ReturnsBool (x : Except PyError Bool) : Prop := ∃ b, x = .ok b

/-- What is returned is returned. -/
theorem returnsBool_ok (b : Bool) : ReturnsBool (.ok b) := ⟨b, rfl⟩

/-- An exception is not. -/
theorem not_returnsBool_error (e : PyError) : ¬ ReturnsBool (.error e) := fun ⟨_, h⟩ => (by cases h)

/-- A result that is mapped is returned all the same. -/
theorem returns_map {x : Except PyError Bool} (f : Bool → Bool) :
    ReturnsBool (x.map f) ↔ ReturnsBool x := by
  cases x with
  | ok b => exact iff_of_true (returnsBool_ok _) (returnsBool_ok b)
  | error e => exact iff_of_false (not_returnsBool_error e) (not_returnsBool_error e)

/-- **Membership.** -/
theorem returns_isIn_iff (element container : Json) :
    ReturnsBool (if container.isContainer then element.isIn container else .ok false)
      ↔ element.Searchable container := by
  cases container with
  | str t =>
    show ReturnsBool (element.isIn (.str t)) ↔ element.str?.isSome = true
    unfold Json.isIn
    cases element.str? with
    | none => exact iff_of_false (not_returnsBool_error _) Bool.false_ne_true
    | some s => exact iff_of_true (returnsBool_ok _) rfl
  | arr ys => exact iff_of_true (returnsBool_ok _) trivial
  | obj gs =>
    show ReturnsBool (element.isIn (.obj gs)) ↔ element.hashable = true
    unfold Json.isIn
    cases hs : element.str? with
    | some s =>
      refine iff_of_true (returnsBool_ok _) ?_
      cases element <;> first | rfl | cases hs
    | none =>
      dsimp only
      split
      · rename_i h
        exact iff_of_true (returnsBool_ok _) h
      · rename_i h
        exact iff_of_false (not_returnsBool_error _) h
  | _ => exact iff_of_true (returnsBool_ok _) trivial

/-- An integer in range is converted. -/
theorem toFloat_of_finite {i : ℤ} {q : ℚ} (h : roundDouble i = .finite q) :
    toFloat (.int i) = .ok (.finite q) := by
  unfold toFloat
  dsimp only
  rw [h]

/-- And one past it overflows. -/
theorem toFloat_of_not_finite {i : ℤ} (h : ¬ ∃ q, roundDouble i = .finite q) :
    toFloat (.int i) = .error (.overflowError "int too large to convert to float") := by
  unfold toFloat
  cases hround : roundDouble i with
  | finite q => exact absurd ⟨q, hround⟩ h
  | _ =>
    dsimp only
    rw [hround]

/-- **The conversion of an integer overflows** from the bound on. -/
theorem toFloat_int (i : ℤ) :
    (i.natAbs < floatBound ∧ ∃ f, toFloat (.int i) = .ok f)
      ∨ ¬ i.natAbs < floatBound ∧ ∃ m, toFloat (.int i) = .error (.overflowError m) := by
  have hfinite : (∃ r, roundDouble i = .finite r) ↔ i.natAbs < floatBound := by
    by_cases hzero : i = 0
    · subst hzero
      refine iff_of_true ⟨0, if_pos Int.cast_zero⟩ ?_
      exact Nat.sub_pos_of_lt (pow_lt_pow_right₀ one_lt_two (by omega))
    · have habs : |(i : ℚ)| = (i.natAbs : ℚ) := by
        rw [Nat.cast_natAbs, Int.cast_abs]
      have hone : 1 ≤ |(i : ℚ)| := by
        rw [habs]
        exact_mod_cast Int.natAbs_pos.mpr hzero
      rw [roundDouble_eq_finite_iff hone, habs, Nat.cast_lt]
  rw [← hfinite]
  by_cases h : ∃ q, roundDouble i = .finite q
  · obtain ⟨q, hq⟩ := h
    exact .inl ⟨⟨q, hq⟩, _, toFloat_of_finite hq⟩
  · exact .inr ⟨h, _, toFloat_of_not_finite h⟩

/-- **What a conversion to a float raises**: a type or a value error, or an overflow
where an integer is past the range. -/
theorem toFloat_outcome (value : Json) :
    (value.InFloatRange ∧ ((∃ f, toFloat value = .ok f)
        ∨ (∃ m, toFloat value = .error (.typeError m))
        ∨ ∃ m, toFloat value = .error (.valueError m)))
      ∨ ¬ value.InFloatRange ∧ ∃ m, toFloat value = .error (.overflowError m) := by
  cases value with
  | int i =>
    rcases toFloat_int i with ⟨hlt, hok⟩ | ⟨hge, herror⟩
    · exact Or.inl ⟨fun j hj => (Option.some.inj hj) ▸ hlt, Or.inl hok⟩
    · exact Or.inr ⟨fun h => hge (h i rfl), herror⟩
  | str s =>
    refine Or.inl ⟨fun _ h => (by cases h), ?_⟩
    show (∃ f, floatOfText s = .ok f) ∨ _ ∨ ∃ m, floatOfText s = .error (.valueError m)
    unfold floatOfText
    dsimp only
    split
    · exact Or.inl ⟨_, rfl⟩
    · exact Or.inr (Or.inr ⟨_, rfl⟩)
  | bool b => exact Or.inl ⟨fun _ h => (by cases h), Or.inl ⟨_, rfl⟩⟩
  | float q => exact Or.inl ⟨fun _ h => (by cases h), Or.inl ⟨_, rfl⟩⟩
  | _ => exact Or.inl ⟨fun _ h => (by cases h), Or.inr (Or.inl ⟨_, rfl⟩)⟩

/-- **Numeric comparison.** -/
theorem returns_numericCompare_iff (operation : PyFloat → PyFloat → Bool) (a expected : Json) :
    ReturnsBool (numericCompare operation (some a) expected) ↔ a.Measurable expected := by
  unfold numericCompare Json.Measurable
  dsimp only
  by_cases hbool : (a.isBool || expected.isBool) = true
  · rw [if_pos hbool]
    exact iff_of_true (returnsBool_ok _) ((Bool.or_eq_true _ _).mp hbool |>.imp id Or.inl)
  · rw [if_neg hbool]
    rw [Bool.or_eq_true, not_or] at hbool
    rw [or_iff_right hbool.1, or_iff_right hbool.2]
    rcases toFloat_outcome a with ⟨hrange, ⟨f, hf⟩ | ⟨m, hm⟩ | ⟨m, hm⟩⟩ | ⟨hover, m, hm⟩
    · rw [hf]
      rcases toFloat_outcome expected with ⟨hrange', ⟨g, hg⟩ | ⟨m, hm⟩ | ⟨m, hm⟩⟩ | ⟨hover, m, hm⟩
      · rw [hg]
        exact iff_of_true (returnsBool_ok _) ⟨hrange, fun _ => hrange'⟩
      · rw [hm]
        exact iff_of_true (returnsBool_ok _) ⟨hrange, fun _ => hrange'⟩
      · rw [hm]
        exact iff_of_true (returnsBool_ok _) ⟨hrange, fun _ => hrange'⟩
      · rw [hm]
        exact iff_of_false (not_returnsBool_error _) (fun h => hover (h.2 ⟨f, rfl⟩))
    · rw [hm]
      exact iff_of_true (returnsBool_ok _) ⟨hrange, fun ⟨_, h⟩ => (by cases h)⟩
    · rw [hm]
      exact iff_of_true (returnsBool_ok _) ⟨hrange, fun ⟨_, h⟩ => (by cases h)⟩
    · rw [hm]
      exact iff_of_false (not_returnsBool_error _) (fun h => hover h.1)

section Versions

variable [Packaging]

/-- A comparison whose first text is refused. -/
theorem returns_of_left {operation : Packaging.Version → Packaging.Version → Bool}
    {a expected : Json} {left right : String} (ha : a.str? = some left)
    (he : expected.str? = some right) {error : PyError}
    (hleft : Packaging.parse left = .error error) :
    ReturnsBool (semverCompare operation (some a) expected)
      ↔ ∃ m, error = .invalidVersion m := by
  unfold semverCompare
  rw [Option.bind_some, ha, he]
  dsimp only
  rw [hleft]
  cases error with
  | invalidVersion m => exact iff_of_true (returnsBool_ok _) ⟨m, rfl⟩
  | _ =>
    refine iff_of_false (not_returnsBool_error _) ?_
    rintro ⟨_, h⟩
    cases h

/-- A comparison whose second text is refused. -/
theorem returns_of_right {operation : Packaging.Version → Packaging.Version → Bool}
    {a expected : Json} {left right : String} (ha : a.str? = some left)
    (he : expected.str? = some right) {version : Packaging.Version}
    (hleft : Packaging.parse left = .ok version) {error : PyError}
    (hright : Packaging.parse right = .error error) :
    ReturnsBool (semverCompare operation (some a) expected)
      ↔ ∃ m, error = .invalidVersion m := by
  unfold semverCompare
  rw [Option.bind_some, ha, he]
  dsimp only
  rw [hleft, hright]
  cases error with
  | invalidVersion m => exact iff_of_true (returnsBool_ok _) ⟨m, rfl⟩
  | _ =>
    refine iff_of_false (not_returnsBool_error _) ?_
    rintro ⟨_, h⟩
    cases h

/-- **Comparison of versions.** -/
theorem returns_semverCompare_iff (operation : Packaging.Version → Packaging.Version → Bool)
    (a expected : Json) :
    ReturnsBool (semverCompare operation (some a) expected) ↔ a.Versionable expected := by
  unfold Json.Versionable
  cases ha : a.str? with
  | none =>
    refine iff_of_true ?_ (fun _ _ h => (by cases h))
    unfold semverCompare
    rw [Option.bind_some, ha]
    exact returnsBool_ok _
  | some left =>
    cases he : expected.str? with
    | none =>
      refine iff_of_true ?_ (fun _ _ _ h => (by cases h))
      unfold semverCompare
      rw [Option.bind_some, ha, he]
      exact returnsBool_ok _
    | some right =>
      -- both are texts, so the condition is about these two
      have hpair : ∀ P : String → String → Prop,
          (∀ a e, some left = some a → some right = some e → P a e) ↔ P left right := by
        refine fun P => ⟨fun h => h left right rfl rfl, fun h a e ha hb => ?_⟩
        cases ha
        cases hb
        exact h
      rw [hpair (fun a e => (∀ error, Packaging.parse a = .error error →
          ∃ m, error = .invalidVersion m) ∧ ((∃ version, Packaging.parse a = .ok version) →
        ∀ error, Packaging.parse e = .error error → ∃ m, error = .invalidVersion m))]
      -- the second text is parsed only once the first one was
      cases hleft : Packaging.parse left with
      | error error =>
        refine (returns_of_left ha he hleft).trans ⟨fun h => ⟨fun _ heq => ?_, ?_⟩,
          fun h => h.1 error rfl⟩
        · cases heq
          exact h
        · rintro ⟨_, heq⟩
          cases heq
      | ok version =>
        cases hright : Packaging.parse right with
        | error error =>
          refine (returns_of_right ha he hleft hright).trans
            ⟨fun h => ⟨fun _ heq => (by cases heq), fun _ _ heq => ?_⟩,
              fun h => h.2 ⟨version, rfl⟩ error rfl⟩
          cases heq
          exact h
        | ok other =>
          refine iff_of_true ?_ ⟨fun _ heq => (by cases heq), fun _ _ heq => (by cases heq)⟩
          unfold semverCompare
          rw [Option.bind_some, ha, he]
          dsimp only
          rw [hleft, hright]
          exact returnsBool_ok _

end Versions

/-! ## All operators -/

section Operators

variable [Packaging] {operator : String} {a expected : Json}

/-- The operators that ask nothing of their operands. -/
theorem comparable_of_other (h : operator ∉ ["in", "not_in", "contains", "greater_than",
    "greater_or_equal", "less_than", "less_or_equal", "semver_equal", "semver_greater",
    "semver_less"]) : Comparable operator (some a) expected := by
  simp only [List.mem_cons, List.not_mem_nil, or_false, not_or] at h
  intro b _
  simp [h]

/-- What `in` and `not_in` ask. -/
theorem comparable_membership_iff (h : operator ∈ ["in", "not_in"]) :
    Comparable operator (some a) expected ↔ a.Searchable expected := by
  simp only [List.mem_cons, List.not_mem_nil, or_false] at h
  rcases h with rfl | rfl <;> simp [Comparable]

/-- What `contains` asks. -/
theorem comparable_contains_iff :
    Comparable "contains" (some a) expected ↔ expected.Searchable a := by
  simp [Comparable]

/-- What the numeric comparisons ask. -/
theorem comparable_numeric_iff
    (h : operator ∈ ["greater_than", "greater_or_equal", "less_than", "less_or_equal"]) :
    Comparable operator (some a) expected ↔ a.Measurable expected := by
  simp only [List.mem_cons, List.not_mem_nil, or_false] at h
  rcases h with rfl | rfl | rfl | rfl <;> simp [Comparable]

/-- What the version comparisons ask. -/
theorem comparable_version_iff (h : operator ∈ ["semver_equal", "semver_greater", "semver_less"]) :
    Comparable operator (some a) expected ↔ a.Versionable expected := by
  simp only [List.mem_cons, List.not_mem_nil, or_false] at h
  rcases h with rfl | rfl | rfl <;> simp [Comparable]

/-- A missing attribute is answered by every operator. -/
theorem returns_missing (h : operator ∈ conditionOperators) (expected : Json) :
    ReturnsBool (conditionMatches operator none expected) := by
  simp only [conditionOperators, List.mem_cons, List.not_mem_nil, or_false] at h
  rcases h with rfl | rfl | rfl | rfl | rfl | rfl | rfl | rfl | rfl | rfl | rfl | rfl | rfl
    | rfl | rfl | rfl <;> exact returnsBool_ok _

/-- **An operator raises exactly on operands it cannot compare.** -/
theorem conditionMatches_returns_iff (operator : String) (h : operator ∈ conditionOperators)
    (actual : Option Json) (expected : Json) :
    ReturnsBool (conditionMatches operator actual expected)
      ↔ Comparable operator actual expected := by
  cases actual with
  | none => exact iff_of_true (returns_missing h expected) (fun _ ha => (by cases ha))
  | some a =>
    simp only [conditionOperators, List.mem_cons, List.not_mem_nil, or_false] at h
    rcases h with rfl | rfl | rfl | rfl | rfl | rfl | rfl | rfl | rfl | rfl | rfl | rfl | rfl
      | rfl | rfl | rfl
    · exact iff_of_true (returnsBool_ok _) (comparable_of_other (by decide))
    · exact iff_of_true (returnsBool_ok _) (comparable_of_other (by decide))
    · -- `in` and `not_in` ask whether the attribute is in the value
      exact (returns_isIn_iff a expected).trans (comparable_membership_iff (by decide)).symm
    · refine Iff.trans ?_ (comparable_membership_iff (by decide)).symm
      rw [← returns_isIn_iff a expected]
      show ReturnsBool (if expected.isContainer then (a.isIn expected).map (fun b => !b)
        else .ok false) ↔ _
      split
      · exact returns_map _
      · exact Iff.rfl
    · -- `contains` asks the other way round
      exact (returns_isIn_iff expected a).trans comparable_contains_iff.symm
    · refine iff_of_true ?_ (comparable_of_other (by decide))
      show ReturnsBool (startsWith (some a) expected)
      unfold startsWith
      split <;> exact returnsBool_ok _
    · refine iff_of_true ?_ (comparable_of_other (by decide))
      show ReturnsBool (endsWith (some a) expected)
      unfold endsWith
      split <;> exact returnsBool_ok _
    · exact iff_of_true (returnsBool_ok _) (comparable_of_other (by decide))
    · exact iff_of_true (returnsBool_ok _) (comparable_of_other (by decide))
    · exact (returns_numericCompare_iff _ a expected).trans
        (comparable_numeric_iff (by decide)).symm
    · exact (returns_numericCompare_iff _ a expected).trans
        (comparable_numeric_iff (by decide)).symm
    · exact (returns_numericCompare_iff _ a expected).trans
        (comparable_numeric_iff (by decide)).symm
    · exact (returns_numericCompare_iff _ a expected).trans
        (comparable_numeric_iff (by decide)).symm
    · exact (returns_semverCompare_iff _ a expected).trans (comparable_version_iff (by decide)).symm
    · exact (returns_semverCompare_iff _ a expected).trans (comparable_version_iff (by decide)).symm
    · exact (returns_semverCompare_iff _ a expected).trans (comparable_version_iff (by decide)).symm

end Operators

theorem conditionMatches_returns_iff_sample :
    ReturnsBool (@conditionMatches .refusing "less_than" (some (.int 17)) (.int 18))
      ↔ @Comparable .refusing "less_than" (some (.int 17)) (.int 18) :=
  @conditionMatches_returns_iff .refusing "less_than" (by decide) _ _

/-- **An operator raises**: searching a text for a number is a type error. -/
theorem conditionMatches_raises : ¬ ∀ operator ∈ conditionOperators,
    ∀ (actual : Option Json) (expected : Json),
      ReturnsBool (@conditionMatches .refusing operator actual expected) := by
  intro h
  refine not_returnsBool_error (.typeError "'in <string>' requires string as left operand") ?_
  exact h "contains" (by decide) (some (.str "abc")) (.int 5)

end CohortSwitch
