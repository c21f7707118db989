import Mathlib.Data.Int.Basic
import Mathlib.Data.List.Basic

/-!
# Texts of numbers and separators

The decimal text of an integer is digits, with a minus before them where it is
negative. So it contains no separator, and it determines the integer. What stands
after the last of several separators is determined by the whole text, and so is what
stands before the first character of another kind, and a list of codes of which none
is the start of another.

These are the facts behind every key that is put together from parts: of a cache, of a
counter, of a channel. A text that is put together determines its parts where something
tells where one ends, a separator that none of them contains or a code that is read from
left to right. The statements are about lists of any type and know nothing of which key
they are used for.
-/

namespace CohortSwitch

/-- What stands after the last of several separators. -/
theorem eq_of_append_cons {α : Type} {a : α} {xs xs' ys ys' : List α}
    (h : xs ++ a :: ys = xs' ++ a :: ys') (hy : a ∉ ys) (hy' : a ∉ ys') : xs = xs' ∧ ys = ys' := by
  rcases List.append_eq_append_iff.mp h with ⟨zs, hxs, htail⟩ | ⟨zs, hxs, htail⟩
  · cases zs with
    | nil => exact ⟨by rw [hxs, List.append_nil], (List.cons.inj htail).2⟩
    | cons z zs =>
      rw [(List.cons.inj htail).2] at hy
      exact absurd (List.mem_append_right _ List.mem_cons_self) hy
  · cases zs with
    | nil => exact ⟨by rw [hxs, List.append_nil], ((List.cons.inj htail).2).symm⟩
    | cons z zs =>
      rw [(List.cons.inj htail).2] at hy'
      exact absurd (List.mem_append_right _ List.mem_cons_self) hy'

/-- What stands before the first element of another kind. -/
theorem eq_of_append_of_forall {α : Type} {p : α → Prop} {xs xs' ys ys' : List α}
    (h : xs ++ ys = xs' ++ ys') (hx : ∀ x ∈ xs, p x) (hx' : ∀ x ∈ xs', p x)
    (hy : ∀ y ∈ ys.head?, ¬ p y) (hy' : ∀ y ∈ ys'.head?, ¬ p y) : xs = xs' ∧ ys = ys' := by
  rcases List.append_eq_append_iff.mp h with ⟨zs, hxs, htail⟩ | ⟨zs, hxs, htail⟩
  · cases zs with
    | nil => exact ⟨by rw [hxs, List.append_nil], htail⟩
    | cons z zs =>
      rw [htail] at hy
      exact absurd (hx' z (hxs ▸ List.mem_append_right _ List.mem_cons_self)) (hy z rfl)
  · cases zs with
    | nil => exact ⟨by rw [hxs, List.append_nil], htail.symm⟩
    | cons z zs =>
      rw [htail] at hy'
      exact absurd (hx z (hxs ▸ List.mem_append_right _ List.mem_cons_self)) (hy' z rfl)

/-- **A list of codes up to its terminator**, where a code is determined by any text
that starts with it and none starts with the terminator. -/
theorem eq_of_flatMap_append_cons {α β : Type} {code : α → List β} {stop : β}
    (hcode : ∀ a a' rest rest', code a ++ rest = code a' ++ rest' → a = a' ∧ rest = rest')
    (hstop : ∀ a rest rest', code a ++ rest ≠ stop :: rest') {xs xs' : List α}
    {rest rest' : List β}
    (h : xs.flatMap code ++ stop :: rest = xs'.flatMap code ++ stop :: rest') :
    xs = xs' ∧ rest = rest' := by
  induction xs generalizing xs' with
  | nil =>
    cases xs' with
    | nil => exact ⟨rfl, (List.cons.inj h).2⟩
    | cons x' xs' =>
      rw [List.flatMap_cons, List.append_assoc] at h
      exact absurd h.symm (hstop _ _ _)
  | cons x xs ih =>
    cases xs' with
    | nil =>
      rw [List.flatMap_cons, List.append_assoc] at h
      exact absurd h (hstop _ _ _)
    | cons x' xs' =>
      rw [List.flatMap_cons, List.flatMap_cons, List.append_assoc, List.append_assoc] at h
      obtain ⟨hx, htail⟩ := hcode _ _ _ _ h
      obtain ⟨hxs, hrest⟩ := ih htail
      exact ⟨by rw [hx, hxs], hrest⟩

/-- Different numbers have different digits. -/
theorem toDigits_injective : Function.Injective (Nat.toDigits 10) := by
  intro n m h
  have hnumber := congrArg (fun digits => Nat.ofDigitChars 10 digits 0) h
  simpa only [Nat.ofDigitChars_toDigits (b := 10) (by decide) (by decide)] using hnumber

/-- The digits are digits. -/
theorem isDigit_of_mem {n : ℕ} {c : Char} (h : c ∈ Nat.toDigits 10 n) : c.isDigit = true :=
  Nat.isDigit_of_mem_toDigits (by decide) (by decide) h

/-- The decimal text of an integer. -/
theorem toList_toString_int (i : ℤ) : (toString i).toList
    = if 0 ≤ i then Nat.toDigits 10 i.natAbs else '-' :: Nat.toDigits 10 i.natAbs := by
  cases i with
  | ofNat n => exact Nat.toList_repr
  | negSucc n =>
    show ("-" ++ Nat.repr (n + 1)).toList = _
    rw [String.toList_append, Nat.toList_repr]
    rfl

/-- What the text of an integer is made of. -/
theorem mem_toString_int {i : ℤ} {c : Char} (h : c ∈ (toString i).toList) :
    c = '-' ∨ c.isDigit = true := by
  rw [toList_toString_int] at h
  split at h
  · exact Or.inr (isDigit_of_mem h)
  · exact (List.mem_cons.mp h).imp id isDigit_of_mem

/-- **Different integers have different texts.** -/
theorem toString_int_injective : Function.Injective (toString : ℤ → String) := by
  intro i j h
  have hlist := congrArg String.toList h
  rw [toList_toString_int, toList_toString_int] at hlist
  have hminus : ∀ n, '-' ∉ Nat.toDigits 10 n := fun n hm => by
    have := isDigit_of_mem hm
    revert this
    decide
  by_cases hi : 0 ≤ i
  · by_cases hj : 0 ≤ j
    · rw [if_pos hi, if_pos hj] at hlist
      have := toDigits_injective hlist
      omega
    · rw [if_pos hi, if_neg hj] at hlist
      exact absurd (hlist ▸ List.mem_cons_self) (hminus i.natAbs)
  · by_cases hj : 0 ≤ j
    · rw [if_neg hi, if_pos hj] at hlist
      exact absurd (hlist ▸ List.mem_cons_self) (hminus j.natAbs)
    · rw [if_neg hi, if_neg hj] at hlist
      have := toDigits_injective (List.cons.inj hlist).2
      omega

end CohortSwitch
