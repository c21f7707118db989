import CohortSwitch.Calendar
import CohortSwitch.Python
import CohortSwitch.TextReplacement

/-!
# The texts of moments

A moment is written as a date, a time of day, its microseconds where there are any,
and the zone: `isoformat` of an aware datetime in UTC ends with `+00:00`, the JSON of
a model ends with `Z`. Reading back takes the fields by their places.

Both texts begin with the same characters, and only the zone differs, so what is said of
reading a moment is said for any zone that follows (`readMoment_append`). The client
replaces the `Z` by the offset before it reads; since no other character of a moment is
a `Z`, that gives the text `isoformat` would have written (`replace_jsonMoment`).
-/

namespace CohortSwitch

/-- What the texts of a moment begin with. -/
def momentText (t : Instant) : List Char :=
  let date := civilDate (t.val / 86400000000)
  let second := t.val / 1000000 % 86400
  padded 4 date.year ++ '-' :: (padded 2 date.month ++ '-' :: (padded 2 date.day
    ++ 'T' :: (padded 2 (second / 3600) ++ ':' :: (padded 2 (second / 60 % 60)
    ++ ':' :: (padded 2 (second % 60)
    ++ if t.val % 1000000 = 0 then [] else '.' :: padded 6 (t.val % 1000000))))))

/-- The zone of UTC as `isoformat` writes it. -/
def utcOffset : List Char := ['+', '0', '0', ':', '0', '0']

/-- `value.isoformat()` of a datetime in UTC. -/
def isoformat (t : Instant) : String := String.ofList (momentText t ++ utcOffset)

/-- A datetime in UTC as `model_dump(mode="json")` writes it. -/
def jsonMoment (t : Instant) : String := String.ofList (momentText t ++ ['Z'])

/-- The microseconds after the seconds, where there are any. -/
def readFraction (text : List Char) : ℕ :=
  if text.head? = some '.' then (takeDigits 6 text.tail).1 else 0

/-- The number of microseconds that a text names. -/
def readMoment (text : List Char) : ℕ :=
  let year := takeDigits 4 text
  let month := takeDigits 2 year.2.tail
  let day := takeDigits 2 month.2.tail
  let hour := takeDigits 2 day.2.tail
  let minute := takeDigits 2 hour.2.tail
  let second := takeDigits 2 minute.2.tail
  ((CivilDate.mk year.1 month.1 day.1).toDay * 86400 + hour.1 * 3600 + minute.1 * 60 + second.1)
    * 1000000 + readFraction second.2

/-- `datetime.fromisoformat` on the texts `isoformat` writes of datetimes in UTC. It
refuses any other text here. -/
def fromisoformat (text : String) : Except PyError Instant :=
  if h : readMoment text.toList < datetimeSpan then
    if isoformat ⟨readMoment text.toList, h⟩ = text then .ok ⟨readMoment text.toList, h⟩
    else .error (.valueError ("Invalid isoformat string: " ++ text))
  else .error (.valueError ("Invalid isoformat string: " ++ text))

/-! ## Reading back -/

/-- The years of datetimes have four digits. -/
theorem civilDate_year_lt (t : Instant) : (civilDate (t.val / 86400000000)).year < 10 ^ 4 := by
  have hspan : t.val < 315537897600000000 := t.isLt
  obtain ⟨a, b, c, d, hyear, hday, hb, hc, hd, -, -⟩ := exists_cycles (t.val / 86400000000)
  show (yearAndDay (t.val / 86400000000)).1 < 10 ^ 4
  omega

/-- The microseconds are read back. -/
theorem readFraction_append (micro : ℕ) (hmicro : micro < 10 ^ 6) {zone : List Char}
    (hzone : zone.head? ≠ some '.') :
    readFraction ((if micro = 0 then [] else '.' :: padded 6 micro) ++ zone) = micro := by
  unfold readFraction
  by_cases hwhole : micro = 0
  · rw [if_pos hwhole, List.nil_append, if_neg hzone, hwhole]
  · rw [if_neg hwhole, List.cons_append, List.head?_cons, if_pos rfl, List.tail_cons,
      takeDigits_padded hmicro]

/-- **A moment is read back from its text**, whatever zone follows. -/
theorem readMoment_append (t : Instant) {zone : List Char} (hzone : zone.head? ≠ some '.') :
    readMoment (momentText t ++ zone) = t.val := by
  have hyear := civilDate_year_lt t
  obtain ⟨hmonth, hday⟩ := civilDate_lt (t.val / 86400000000)
  have hhour : t.val / 1000000 % 86400 / 3600 < 10 ^ 2 := by omega
  have hminute : t.val / 1000000 % 86400 / 60 % 60 < 10 ^ 2 := by omega
  have hsecond : t.val / 1000000 % 86400 % 60 < 10 ^ 2 := by omega
  have hmicro : t.val % 1000000 < 10 ^ 6 := Nat.mod_lt _ (by decide)
  have hdays : (CivilDate.mk (civilDate (t.val / 86400000000)).year
    (civilDate (t.val / 86400000000)).month (civilDate (t.val / 86400000000)).day).toDay
      = t.val / 86400000000 := toDay_civilDate (t.val / 86400000000)
  unfold readMoment momentText
  simp only [List.append_assoc, List.cons_append, takeDigits_padded hyear,
    takeDigits_padded hmonth, takeDigits_padded hday, takeDigits_padded hhour,
    takeDigits_padded hminute, takeDigits_padded hsecond, List.tail_cons, hdays,
    readFraction_append _ hmicro hzone]
  omega

/-- And so is a moment that `isoformat` wrote. -/
theorem readMoment_isoformat (t : Instant) : readMoment (isoformat t).toList = t.val := by
  unfold isoformat
  rw [String.toList_ofList]
  exact readMoment_append t (by decide)

/-- **`fromisoformat` inverts `isoformat`.** -/
theorem fromisoformat_isoformat (t : Instant) : fromisoformat (isoformat t) = .ok t := by
  have hread := readMoment_isoformat t
  have hlt : readMoment (isoformat t).toList < datetimeSpan := hread ▸ t.isLt
  have hself : (⟨readMoment (isoformat t).toList, hlt⟩ : Instant) = t := Fin.ext hread
  unfold fromisoformat
  rw [dif_pos hlt, hself, if_pos rfl]

/-! ## The two zones -/

/-- The digits and the marks of a moment are no letter of a zone. -/
theorem not_mem_momentText (t : Instant) : 'Z' ∉ momentText t := by
  have hdigit : ∀ width n, 'Z' ∉ padded width n := fun width n h =>
    absurd (isDigit_of_mem_padded h) (by decide)
  unfold momentText
  simp only [List.mem_append, List.mem_cons, hdigit, false_or]
  split <;> simp [hdigit]

/-- **The text of a model's JSON in the form that `isoformat` writes.** -/
theorem replace_jsonMoment (t : Instant) : (jsonMoment t).replace "Z" "+00:00" = isoformat t := by
  have hkeep : (momentText t).flatMap (fun d => if d = 'Z' then utcOffset else [d])
      = momentText t := by
    conv_rhs => rw [← List.flatMap_singleton' (momentText t)]
    exact List.flatMap_congr
      (fun d hd => if_neg (ne_of_mem_of_not_mem hd (not_mem_momentText t)))
  have htext := toList_replace (jsonMoment t) "+00:00" 'Z'
  apply String.toList_injective
  refine htext.trans ?_
  show (jsonMoment t).toList.flatMap (fun d => if d = 'Z' then utcOffset else [d]) = _
  unfold jsonMoment isoformat
  rw [String.toList_ofList, String.toList_ofList, List.flatMap_append, hkeep]
  rfl

example : isoformat ⟨63839709045678901, by decide⟩ = "2024-01-01T12:30:45.678901+00:00" := by
  decide +kernel

end CohortSwitch
