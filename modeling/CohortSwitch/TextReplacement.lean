import Mathlib.Data.List.Basic

/-!
# Replacing a character

`text.replace(old, new)` where `old` is one character puts the new text in place of
each occurrence and leaves the other characters where they are. The search goes
through the text in steps, each of which matches or rejects a part of it, so the
proof is an induction over the steps: what comes of the text from a position on is what
the characters from there on become (`toList_foldl_steps`).

The steps are those of the pattern search of the library, which is written for patterns
of any length and only promises that a rejected part begins no match. For a
single character this says that the part does not contain it
(`not_mem_of_not_matchesAt`), and the whole is a map over the characters
(`toList_replace`).
-/

namespace CohortSwitch

open String.Slice.Pattern String.Slice.Pattern.Model

variable {s : String.Slice} {c : Char}

/-- One character is some text. -/
theorem singleton_ne_empty (c : Char) : String.singleton c ≠ "" := by
  intro h
  have hlist := congrArg String.toList h
  simp at hlist

/-- A rejected part has no occurrence of the character. -/
theorem not_mem_of_not_matchesAt {start stop : s.Pos}
    (hno : ∀ pos, start ≤ pos → pos < stop → ¬ MatchesAt (String.singleton c) pos)
    {before part after : String} (hstart : start.Splits before (part ++ after))
    (hstop : stop.Splits (before ++ part) after) : c ∉ part.toList := by
  intro hmem
  obtain ⟨front, back, hpart⟩ := List.append_of_mem hmem
  have htext : part = String.ofList front ++ (String.singleton c ++ String.ofList back) := by
    apply String.toList_injective
    simp [hpart]
  have hcopy : s.copy = (before ++ String.ofList front)
      ++ (String.singleton c ++ (String.ofList back ++ after)) := by
    rw [hstart.eq_append, htext]
    simp [String.append_assoc]
  -- the occurrence is a position of the part, where the pattern matches
  have hpos := String.Slice.Pos.splits_ofEqAppend hcopy
  refine hno _ ?_ ?_ (ForwardStringSearcher.matchesAt_iff_splits.mpr ⟨_, _, hpos⟩)
  · refine (hstart.le_iff_exists_eq_append hpos).mpr ⟨String.ofList front, rfl, ?_⟩
    rw [htext]
    simp [String.append_assoc]
  · refine (hpos.lt_iff_exists_eq_append hstop).mpr
      ⟨String.singleton c ++ String.ofList back, ?_, ?_, ?_⟩
    · intro h
      have hlist := congrArg String.toList h
      simp at hlist
    · rw [htext]
      simp [String.append_assoc]
    · simp [String.append_assoc]

/-- The steps of a search from a position on. -/
theorem toList_foldl_steps (new : String) {pos : s.Pos} {steps : List (SearchStep s)}
    (h : IsValidSearchFrom (String.singleton c) pos steps) (sofar before after : String)
    (hsplits : pos.Splits before after) :
    (steps.foldl (fun
      | sofar, .matched .. => sofar ++ new.toSlice
      | sofar, .rejected start stop => sofar ++ s.slice! start stop) sofar).toList
      = sofar.toList ++ after.toList.flatMap (fun d => if d = c then new.toList else [d]) := by
  induction h generalizing sofar before after with
  | endPos =>
    have hend := String.Slice.splits_endPos s
    obtain rfl := hsplits.eq_right hend
    simp
  | @matched steps start stop hmatch _ ih =>
    obtain ⟨front, back, hfront, hback⟩ :=
      ForwardStringSearcher.isLongestMatchAt_iff_splits.mp hmatch
    obtain rfl := hsplits.eq_right hfront
    rw [List.foldl_cons, ih _ _ _ hback]
    simp
  | @mismatched steps start stop hlt hno _ ih =>
    have hstop := stop.splits
    obtain ⟨part, -, hbefore, rfl⟩ := (hsplits.lt_iff_exists_eq_append hstop).mp hlt
    rw [hbefore] at hstop
    obtain ⟨hle, hcopy⟩ := String.Slice.copy_slice_eq_iff_splits.mpr ⟨_, _, hsplits, hstop⟩
    have hnot := not_mem_of_not_matchesAt hno hsplits hstop
    have hflat : part.toList.flatMap (fun d => if d = c then new.toList else [d])
        = part.toList := by
      conv_rhs => rw [← List.flatMap_singleton' part.toList]
      exact List.flatMap_congr (fun d hd => if_neg (ne_of_mem_of_not_mem hd hnot))
    rw [List.foldl_cons, ih _ _ _ hstop]
    show (sofar ++ s.slice! start stop).toList ++ _ = _
    rw [← String.Slice.slice_eq_slice! (h := hle)]
    simp [hcopy, hflat]

/-- **What replacing a character gives.** -/
theorem toList_replace (text new : String) (c : Char) :
    (text.replace (String.singleton c) new).toList
      = text.toList.flatMap (fun d => if d = c then new.toList else [d]) := by
  have hlawful := ForwardStringSearcher.lawfulToForwardSearcherModel (singleton_ne_empty c)
  have hsteps := hlawful.isValidSearchFrom_toList text.toSlice
  have hfold := toList_foldl_steps new hsteps "" "" text (by simp)
  unfold String.replace String.Slice.replace
  rw [← Std.Iter.foldl_toList]
  exact hfold

end CohortSwitch
