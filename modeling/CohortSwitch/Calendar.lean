import Mathlib

/-!
# Calendar dates

The proleptic Gregorian calendar, in days since the first of January of the year 1.
`civilDate` reads the year off the cycles of 400, 100, 4 and 1 years and the month
off the lengths of the months, `CivilDate.toDay` counts back. The last day of a
leap year is the one day its cycle does not divide evenly, which is why two of the
quotients stop at 3.

The two directions are inverse by way of the cycles: `exists_cycles` gives the four
quotients and the day that is left, with the bounds that a leap day makes delicate, and
what remains is arithmetic (`daysBeforeYear_add`). The months are a list of lengths
that is walked through, so nothing is said of a single month.

`padded` and `takeDigits` write and read a number in a fixed number of digits.
-/

namespace CohortSwitch

/-! ## Dates -/

/-- A date of the calendar; months and days count from one. -/
structure CivilDate where
  year : ℕ
  month : ℕ
  day : ℕ
deriving DecidableEq, Repr

/-- `calendar.isleap`. -/
def isLeapYear (year : ℕ) : Bool := year % 4 = 0 ∧ (year % 100 ≠ 0 ∨ year % 400 = 0)

/-- The days before the first of January of a year. -/
def daysBeforeYear (year : ℕ) : ℕ :=
  365 * (year - 1) + (year - 1) / 4 - (year - 1) / 100 + (year - 1) / 400

/-- The lengths of the months. -/
def monthLengths (leap : Bool) : List ℕ :=
  [31, if leap then 29 else 28, 31, 30, 31, 30, 31, 31, 30, 31, 30, 31]

/-- The month and the day of a day of the year. -/
def monthAndDay : List ℕ → ℕ → ℕ × ℕ
  | [], n => (1, n + 1)
  | length :: lengths, n =>
    if n < length then (1, n + 1)
    else ((monthAndDay lengths (n - length)).1 + 1, (monthAndDay lengths (n - length)).2)

/-- The year of a day, and the day of the year it is. -/
def yearAndDay (n : ℕ) : ℕ × ℕ :=
  let inCycle := n % 146097
  let centuries := min (inCycle / 36524) 3
  let inCentury := inCycle - 36524 * centuries
  let inLeapCycle := inCentury % 1461
  let years := min (inLeapCycle / 365) 3
  (400 * (n / 146097) + 100 * centuries + 4 * (inCentury / 1461) + years + 1,
    inLeapCycle - 365 * years)

/-- **The date of a day.** -/
def civilDate (n : ℕ) : CivilDate :=
  let inYear := yearAndDay n
  let inMonth := monthAndDay (monthLengths (isLeapYear inYear.1)) inYear.2
  ⟨inYear.1, inMonth.1, inMonth.2⟩

/-- **The day of a date.** -/
def CivilDate.toDay (date : CivilDate) : ℕ :=
  daysBeforeYear date.year
    + (((monthLengths (isLeapYear date.year)).take (date.month - 1)).sum + (date.day - 1))

/-- Months and days count from one. -/
theorem monthAndDay_pos (lengths : List ℕ) (n : ℕ) :
    1 ≤ (monthAndDay lengths n).1 ∧ 1 ≤ (monthAndDay lengths n).2 := by
  induction lengths generalizing n with
  | nil => exact ⟨Nat.le_refl 1, Nat.succ_pos n⟩
  | cons length lengths ih =>
    unfold monthAndDay
    split
    · exact ⟨Nat.le_refl 1, Nat.succ_pos n⟩
    · exact ⟨Nat.succ_pos _, (ih (n - length)).2⟩

/-- A day of the year is the days of the months before it and those before it in its
month. -/
theorem sum_monthAndDay (lengths : List ℕ) (n : ℕ) :
    (lengths.take ((monthAndDay lengths n).1 - 1)).sum + ((monthAndDay lengths n).2 - 1) = n := by
  induction lengths generalizing n with
  | nil =>
    show (List.take 0 []).sum + (n + 1 - 1) = n
    simp
  | cons length lengths ih =>
    unfold monthAndDay
    split
    · show (List.take 0 _).sum + (n + 1 - 1) = n
      simp
    · rename_i hlength
      have hpos := (monthAndDay_pos lengths (n - length)).1
      have hrest := ih (n - length)
      show (List.take ((monthAndDay lengths (n - length)).1 + 1 - 1) (length :: lengths)).sum
        + ((monthAndDay lengths (n - length)).2 - 1) = n
      obtain ⟨month, hmonth⟩ := Nat.exists_eq_add_of_le' hpos
      rw [hmonth] at hrest ⊢
      rw [Nat.add_sub_cancel, List.take_succ_cons, List.sum_cons]
      rw [Nat.add_sub_cancel] at hrest
      omega

/-- A day of the year is a day of one of the months. -/
theorem monthAndDay_le (lengths : List ℕ) (n : ℕ) (h : n < lengths.sum) :
    (monthAndDay lengths n).1 ≤ lengths.length
      ∧ ∃ length ∈ lengths, (monthAndDay lengths n).2 ≤ length := by
  induction lengths generalizing n with
  | nil => exact absurd h (Nat.not_lt_zero n)
  | cons length lengths ih =>
    rw [List.sum_cons] at h
    unfold monthAndDay
    split
    · rename_i hlength
      exact ⟨Nat.succ_pos _, length, List.mem_cons_self, hlength⟩
    · rename_i hlength
      obtain ⟨hmonth, other, hother, hday⟩ := ih (n - length) (by omega)
      exact ⟨Nat.succ_le_succ hmonth, other, List.mem_cons_of_mem _ hother, hday⟩

/-- **The cycles of a day**: of 400, of 100, of 4 and of 1 years. The day after 365 whole
days of a year is there in the last year of a cycle only. -/
theorem exists_cycles (n : ℕ) : ∃ a b c d, (yearAndDay n).1 = 400 * a + 100 * b + 4 * c + d + 1
    ∧ n = 146097 * a + 36524 * b + 1461 * c + 365 * d + (yearAndDay n).2
    ∧ b ≤ 3 ∧ c ≤ 24 ∧ d ≤ 3 ∧ (yearAndDay n).2 ≤ 365
    ∧ ((yearAndDay n).2 = 365 → d = 3 ∧ (c = 24 → b = 3)) := by
  let inCycle := n % 146097
  let centuries := min (inCycle / 36524) 3
  let inCentury := inCycle - 36524 * centuries
  let years := min (inCentury % 1461 / 365) 3
  refine ⟨n / 146097, centuries, inCentury / 1461, years, rfl, ?_⟩
  have hday : (yearAndDay n).2 = inCentury % 1461 - 365 * years := rfl
  rw [hday]
  omega

/-- The days before its year and the day of the year make a day. -/
theorem daysBeforeYear_add (n : ℕ) :
    daysBeforeYear (yearAndDay n).1 + (yearAndDay n).2 = n := by
  obtain ⟨a, b, c, d, hyear, hn, hb, hc, hd, -, -⟩ := exists_cycles n
  unfold daysBeforeYear
  rw [hyear]
  omega

/-- The months make a year. -/
theorem sum_monthLengths (leap : Bool) :
    (monthLengths leap).sum = if leap then 366 else 365 := by
  cases leap <;> rfl

/-- Only a leap year has a day 365. -/
theorem yearAndDay_lt (n : ℕ) :
    (yearAndDay n).2 < (monthLengths (isLeapYear (yearAndDay n).1)).sum := by
  obtain ⟨a, b, c, d, hyear, -, hb, hc, hd, hle, hlast⟩ := exists_cycles n
  rw [sum_monthLengths]
  split
  · omega
  · rename_i hleap
    unfold isLeapYear at hleap
    have hleap := of_decide_eq_false (eq_false_of_ne_true hleap)
    rw [hyear] at hleap
    omega

/-- **Counting back gives the day.** -/
theorem toDay_civilDate (n : ℕ) : (civilDate n).toDay = n := by
  have hmonth := sum_monthAndDay (monthLengths (isLeapYear (yearAndDay n).1)) (yearAndDay n).2
  have hyear := daysBeforeYear_add n
  show daysBeforeYear (yearAndDay n).1 + _ = n
  unfold civilDate
  dsimp only
  rw [hmonth]
  exact hyear

/-- The months and days of dates have two digits. -/
theorem civilDate_lt (n : ℕ) : (civilDate n).month < 10 ^ 2 ∧ (civilDate n).day < 10 ^ 2 := by
  obtain ⟨hmonth, length, hlength, hday⟩ := monthAndDay_le _ _ (yearAndDay_lt n)
  have hall : ∀ leap, ∀ length ∈ monthLengths leap, length ≤ 31 := by decide
  have hle := hall _ length hlength
  have hcount : ∀ leap, (monthLengths leap).length = 12 := by decide
  rw [hcount] at hmonth
  unfold civilDate
  dsimp only
  omega

/-! ## Digits -/

/-- `'%0*d' % (width, n)` of a number that fits. -/
def padded : ℕ → ℕ → List Char
  | 0, _ => []
  | width + 1, n => padded width (n / 10) ++ [Nat.digitChar (n % 10)]

/-- The number some digits stand for. -/
def digitsValue (digits : List Char) : ℕ :=
  digits.foldl (fun n c => 10 * n + (c.toNat - 48)) 0

/-- A number off the front of a text. -/
def takeDigits (width : ℕ) (text : List Char) : ℕ × List Char :=
  (digitsValue (text.take width), text.drop width)

/-- A padded number has as many digits as were asked for. -/
@[simp] theorem length_padded (width n : ℕ) : (padded width n).length = width := by
  induction width generalizing n with
  | zero => rfl
  | succ width ih =>
    unfold padded
    rw [List.length_append, ih]
    rfl

/-- And they stand for the number. -/
theorem digitsValue_padded (width n : ℕ) (h : n < 10 ^ width) :
    digitsValue (padded width n) = n := by
  induction width generalizing n with
  | zero =>
    rw [Nat.pow_zero, Nat.lt_one_iff] at h
    rw [h]
    rfl
  | succ width ih =>
    have hdigit : ∀ d < 10, (Nat.digitChar d).toNat - 48 = d := by decide
    have hrest : n / 10 < 10 ^ width := by
      rw [Nat.pow_succ] at h
      omega
    unfold padded digitsValue
    rw [List.foldl_append]
    show 10 * digitsValue (padded width (n / 10)) + _ = n
    rw [ih _ hrest, hdigit _ (Nat.mod_lt n (by decide))]
    omega

/-- **A padded number is read back.** -/
theorem takeDigits_padded {width n : ℕ} (h : n < 10 ^ width) (rest : List Char) :
    takeDigits width (padded width n ++ rest) = (n, rest) := by
  unfold takeDigits
  rw [List.take_left' (length_padded width n), List.drop_left' (length_padded width n),
    digitsValue_padded width n h]

/-- They are digits. -/
theorem isDigit_of_mem_padded {width n : ℕ} {c : Char} (h : c ∈ padded width n) :
    c.isDigit = true := by
  induction width generalizing n with
  | zero => exact absurd h List.not_mem_nil
  | succ width ih =>
    have hdigit : ∀ d < 10, (Nat.digitChar d).isDigit = true := by decide
    unfold padded at h
    rcases List.mem_append.mp h with h | h
    · exact ih h
    · rw [List.mem_singleton.mp h]
      exact hdigit _ (Nat.mod_lt n (by decide))

end CohortSwitch
