import Mathlib.Data.List.Perm.Basic
import CohortSwitch.Python

/-!
# Lists up to order and up to a relation

A query returns the rows of a table in some order, and a JSON column returns a
value up to the order of its keys. `PermBy R` puts the two together: one list
is an arrangement of the other in which corresponding items are related by
`R`. It is the composition `List.Perm ∘r List.Forall₂ R`, and Mathlib's
`List.perm_comp_forall₂` lets the two factors trade places.

That exchange is the whole idea. Arrangements compose on either side
(`PermBy.perm_right`), relations compose (`PermBy.trans`), and a map may be
moved into the relation (`PermBy.map_left`, `PermBy.map_right`), so a list of
rows that was stored, read back, filtered and mapped is related to the list it
came from by one `PermBy`, whose relation says what happened to an item.

## What does not look at the order

What a computation reads off such a pair of lists is the same when it does not
look at the order: a conjunction over the items (`PermBy.all_eq`), the texts
read off them up to order (`PermBy.map_perm`), a comprehension up to order
(`exists_mapM_of_permBy`), and a sort by a key that is distinct on the items
(`PermBy.forall₂_sortedBy`). The last is the one that forgets the arrangement:
after it the two lists correspond place by place.

A code (`arrange`) picks one of the orders, so that an execution can be handed
the order in which the database gives a table back.
-/

namespace CohortSwitch

variable {α β γ : Type}

/-- **An arrangement with related items**: some arrangement of the first list is related to the
second, place by place. With equality it is `List.Perm`, and without arranging it is
`List.Forall₂`. -/
def PermBy (R : α → β → Prop) (xs : List α) (ys : List β) : Prop :=
  ∃ zs, xs.Perm zs ∧ List.Forall₂ R zs ys

namespace PermBy

variable {R : α → β → Prop} {xs : List α} {ys : List β}

/-- Lists that are related place by place need no arrangement. -/
theorem of_forall₂ (h : List.Forall₂ R xs ys) : PermBy R xs ys :=
  ⟨xs, .refl xs, h⟩

/-- An arrangement is one for every reflexive relation. -/
theorem of_perm {R : α → α → Prop} (hR : ∀ x, R x x) {xs ys : List α} (h : xs.Perm ys) :
    PermBy R xs ys :=
  ⟨ys, h, List.forall₂_same.mpr (fun x _ => hR x)⟩

/-- A weaker relation holds of the same arrangement. -/
theorem mono {S : α → β → Prop} (hRS : ∀ x y, R x y → S x y) (h : PermBy R xs ys) :
    PermBy S xs ys := by
  obtain ⟨zs, hp, hz⟩ := h
  exact ⟨zs, hp, hz.imp hRS⟩

/-- Only pairs of items of the two lists are related. -/
theorem mono_mem {S : α → β → Prop} (h : PermBy R xs ys)
    (hRS : ∀ x ∈ xs, ∀ y ∈ ys, R x y → S x y) : PermBy S xs ys := by
  obtain ⟨zs, hp, hz⟩ := h
  have hRS' : ∀ x ∈ zs, ∀ y ∈ ys, R x y → S x y :=
    fun x hx => hRS x (hp.mem_iff.mpr hx)
  refine ⟨zs, hp, ?_⟩
  clear hp hRS
  induction hz with
  | nil => exact .nil
  | cons hxy _ ih =>
    refine .cons (hRS' _ List.mem_cons_self _ List.mem_cons_self hxy) (ih ?_)
    exact fun x hx y hy => hRS' x (List.mem_cons_of_mem _ hx) y (List.mem_cons_of_mem _ hy)

/-- An arrangement of the second list goes into the one of the first. -/
theorem perm_right {ys' : List β} (h : PermBy R xs ys) (hp : ys.Perm ys') :
    PermBy R xs ys' := by
  obtain ⟨zs, hz, hr⟩ := h
  -- the arrangement of the right list is carried to the left one
  obtain ⟨ws, hw, hw'⟩ := List.perm_comp_forall₂ hp.symm hr.flip
  exact ⟨ws, hz.trans hw'.symm, hw.flip⟩

/-- **Arrangements compose**, and so do their relations. -/
theorem trans {S : β → γ → Prop} {zs : List γ} (h : PermBy R xs ys) (h' : PermBy S ys zs) :
    PermBy (fun x z => ∃ y, R x y ∧ S y z) xs zs := by
  obtain ⟨ws, hp, hs⟩ := h'
  obtain ⟨vs, hv, hr⟩ := h.perm_right hp
  refine ⟨vs, hv, ?_⟩
  clear h hp hv
  induction hr generalizing zs with
  | nil => cases hs; exact .nil
  | cons hxy _ ih =>
    cases hs with
    | cons hyz hs => exact .cons ⟨_, hxy, hyz⟩ (ih hs)

/-- A map of the first list moves into the relation. -/
theorem map_left {f : γ → α} {cs : List γ} :
    PermBy R (cs.map f) ys ↔ PermBy (fun c y => R (f c) y) cs ys := by
  constructor
  · rintro ⟨zs, hp, hr⟩
    have hmap : List.Forall₂ (fun a c => a = f c) (cs.map f) cs :=
      List.forall₂_map_left_iff.mpr (List.forall₂_same.mpr (fun _ _ => rfl))
    obtain ⟨cs', hc, hcp⟩ := List.perm_comp_forall₂ hp.symm hmap
    have hz : zs = cs'.map f := by
      rw [← List.forall₂_eq_eq_eq, List.forall₂_map_right_iff]
      exact hc
    subst hz
    exact ⟨cs', hcp.symm, List.forall₂_map_left_iff.mp hr⟩
  · rintro ⟨cs', hp, hr⟩
    exact ⟨cs'.map f, hp.map f, List.forall₂_map_left_iff.mpr hr⟩

/-- So does a map of the second. -/
theorem map_right {f : γ → β} {cs : List γ} :
    PermBy R xs (cs.map f) ↔ PermBy (fun x c => R x (f c)) xs cs := by
  constructor
  · rintro ⟨zs, hp, hr⟩
    exact ⟨zs, hp, List.forall₂_map_right_iff.mp hr⟩
  · rintro ⟨zs, hp, hr⟩
    exact ⟨zs, hp, List.forall₂_map_right_iff.mpr hr⟩

/-- Each item of the second list comes from one of the first. -/
theorem exists_left (h : PermBy R xs ys) {y : β} (hy : y ∈ ys) : ∃ x ∈ xs, R x y := by
  obtain ⟨zs, hp, hr⟩ := h
  induction hr generalizing xs with
  | nil => cases hy
  | cons hxy _ ih =>
    rcases List.mem_cons.mp hy with rfl | hy
    · exact ⟨_, hp.mem_iff.mpr List.mem_cons_self, hxy⟩
    · obtain ⟨x, hx, hxy⟩ := ih hy (.refl _)
      exact ⟨x, hp.mem_iff.mpr (List.mem_cons_of_mem _ hx), hxy⟩

/-- Each item of the first list has one in the second. -/
theorem exists_right (h : PermBy R xs ys) {x : α} (hx : x ∈ xs) : ∃ y ∈ ys, R x y := by
  obtain ⟨zs, hp, hr⟩ := h
  have hz : x ∈ zs := hp.mem_iff.mp hx
  clear hp hx
  induction hr with
  | nil => cases hz
  | cons hxy _ ih =>
    rcases List.mem_cons.mp hz with rfl | hz
    · exact ⟨_, List.mem_cons_self, hxy⟩
    · obtain ⟨y, hy, hxy⟩ := ih hz
      exact ⟨y, List.mem_cons_of_mem _ hy, hxy⟩

theorem nil_iff (h : PermBy R xs ys) : xs = [] ↔ ys = [] := by
  obtain ⟨zs, hp, hr⟩ := h
  have hlen := hp.length_eq.trans hr.length_eq
  constructor
  · rintro rfl
    exact List.length_eq_zero_iff.mp hlen.symm
  · rintro rfl
    exact List.length_eq_zero_iff.mp hlen

/-- **Conjunctions do not look at the order.** -/
theorem all_eq {p : α → Bool} {q : β → Bool} (hpq : ∀ x y, R x y → p x = q y)
    (h : PermBy R xs ys) : xs.all p = ys.all q := by
  obtain ⟨zs, hp, hr⟩ := h
  rw [hp.all_eq]
  clear hp
  induction hr with
  | nil => rfl
  | cons hxy _ ih => rw [List.all_cons, List.all_cons, hpq _ _ hxy, ih]

/-- **Texts read off related items are the same up to order.** -/
theorem map_perm {f : α → γ} {g : β → γ} (hfg : ∀ x y, R x y → f x = g y)
    (h : PermBy R xs ys) : (xs.map f).Perm (ys.map g) := by
  obtain ⟨zs, hp, hr⟩ := h
  refine (hp.map f).trans (.of_eq ?_)
  clear hp
  induction hr with
  | nil => rfl
  | cons hxy _ ih => rw [List.map_cons, List.map_cons, hfg _ _ hxy, ih]

end PermBy

/-- A comprehension over rows that stand for `xs` gives `xs` up to order. -/
theorem exists_mapM_of_permBy {ε : Type} {f : β → Except ε γ} {R : α → β → Prop}
    {S : α → γ → Prop} {xs : List α} {ys : List β} (h : PermBy R xs ys)
    (hf : ∀ x ∈ xs, ∀ y, R x y → ∃ z, f y = .ok z ∧ S x z) :
    ∃ zs, ys.mapM f = .ok zs ∧ PermBy S xs zs := by
  obtain ⟨ws, hp, hr⟩ := h
  have hf' : ∀ x ∈ ws, ∀ y, R x y → ∃ z, f y = .ok z ∧ S x z :=
    fun x hx => hf x (hp.mem_iff.mpr hx)
  suffices hgen : ∃ zs, ys.mapM f = .ok zs ∧ List.Forall₂ S ws zs by
    obtain ⟨zs, hz, hs⟩ := hgen
    exact ⟨zs, hz, ws, hp, hs⟩
  clear hp hf
  induction hr with
  | nil => exact ⟨[], rfl, .nil⟩
  | cons hxy _ ih =>
    obtain ⟨z, hz, hs⟩ := hf' _ List.mem_cons_self _ hxy
    obtain ⟨zs, hzs, hss⟩ := ih (fun x hx => hf' x (List.mem_cons_of_mem _ hx))
    refine ⟨z :: zs, ?_, .cons hs hss⟩
    rw [List.mapM_cons]
    exact bind_eq_ok.mpr ⟨z, hz, bind_eq_ok.mpr ⟨zs, hzs, rfl⟩⟩

section Sorting

variable {κ : Type} [LinearOrder κ] {key : α → κ} {key' : β → κ} {R : α → β → Prop}

/-- Inserting related items keeps sorted lists related. -/
theorem forall₂_orderedInsert (hkey : ∀ x y, R x y → key x = key' y) {x : α} {y : β}
    (hxy : R x y) {xs : List α} {ys : List β} (h : List.Forall₂ R xs ys) :
    List.Forall₂ R (xs.orderedInsert (fun a b => key a ≤ key b) x)
      (ys.orderedInsert (fun a b => key' a ≤ key' b) y) := by
  induction h with
  | nil => exact .cons hxy .nil
  | cons hab hrest ih =>
    rename_i a b as bs
    rw [List.orderedInsert_cons, List.orderedInsert_cons]
    by_cases hle : key x ≤ key a
    · rw [if_pos hle, if_pos (by rwa [← hkey x y hxy, ← hkey a b hab])]
      exact .cons hxy (.cons hab hrest)
    · rw [if_neg hle, if_neg (by rwa [← hkey x y hxy, ← hkey a b hab])]
      exact .cons hab ih

/-- Sorting by keys that agree keeps lists related place by place. -/
theorem forall₂_sortedBy (hkey : ∀ x y, R x y → key x = key' y) {xs : List α} {ys : List β}
    (h : List.Forall₂ R xs ys) : List.Forall₂ R (sortedBy key xs) (sortedBy key' ys) := by
  induction h with
  | nil => exact .nil
  | cons hxy _ ih => exact forall₂_orderedInsert hkey hxy ih

/-- **With distinct keys the sort undoes the arrangement**: the sorted lists are related item by
item, whatever order either list came in. -/
theorem PermBy.forall₂_sortedBy {xs : List α} {ys : List β} (h : PermBy R xs ys)
    (hkey : ∀ x y, R x y → key x = key' y) (hnd : (xs.map key).Nodup) :
    List.Forall₂ R (sortedBy key xs) (sortedBy key' ys) := by
  obtain ⟨zs, hp, hr⟩ := h
  rw [sortedBy_eq_of_perm key hp hnd]
  exact CohortSwitch.forall₂_sortedBy hkey hr

end Sorting

/-! ## An order that is chosen -/

/-- A rearrangement of a list, by a code that says where each item goes. A code that is too
short leaves the rest where it is, and a place is taken modulo the length, so every list of
numbers is one. -/
def arrange : List ℕ → List α → List α
  | _, [] => []
  | [], x :: xs => x :: xs
  | n :: code, x :: xs => (arrange code xs).insertIdx (n % (xs.length + 1)) x

/-- Nothing is lost or repeated on the way. -/
theorem arrange_perm (code : List ℕ) (xs : List α) : (arrange code xs).Perm xs := by
  induction xs generalizing code with
  | nil =>
    cases code <;> exact .refl _
  | cons x xs ih =>
    cases code with
    | nil => exact .refl _
    | cons n code =>
      have hlen : (arrange code xs).length = xs.length := (ih code).length_eq
      have hle : n % (xs.length + 1) ≤ (arrange code xs).length := by
        rw [hlen]
        exact Nat.lt_succ_iff.mp (Nat.mod_lt n (Nat.succ_pos _))
      exact (List.perm_insertIdx x (arrange code xs) hle).trans ((ih code).cons x)

end CohortSwitch
