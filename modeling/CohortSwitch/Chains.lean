import Mathlib.Logic.Relation

/-!
# Disjoint chains

A relation whose links form disjoint chains without a cycle: everything has at
most one successor and at most one predecessor, and nobody succeeds itself. A
new link from an end of a chain to something that is not linked yet extends
the chain, and that is the only way such a relation grows here.

Mathlib has the parts (`Relator.RightUnique`, `Relator.LeftUnique`,
`Relation.TransGen`); what is added is how they survive an extension
(`Chains.extend`), and that two items with a common successor are comparable
(`Chains.comparable`), so two chains that meet are one. Nothing is assumed of the
type: any records with a pointer to the next one form such chains, if each of them
is pointed to once.
-/

namespace CohortSwitch

open Relation

variable {α : Type}

/-- **The links form disjoint chains**: no forks, no joins, no cycles. Each item is then in one
chain, which it shares with all that it leads to and all that lead to it. -/
structure Chains (link : α → α → Prop) : Prop where
  /-- At most one successor. -/
  functional : Relator.RightUnique link
  /-- At most one predecessor. -/
  injective : Relator.LeftUnique link
  /-- Nothing comes after itself. -/
  acyclic : ∀ a, ¬ TransGen link a a

namespace Chains

variable {link : α → α → Prop}

/-- No links at all are no chains at all. -/
theorem of_none (h : ∀ a b, ¬ link a b) : Chains link where
  functional := fun a b _ hab => absurd hab (h a b)
  injective := fun a _ c hac => absurd hac (h a c)
  acyclic := by
    intro a ha
    obtain ⟨b, hab, -⟩ := TransGen.head'_iff.mp ha
    exact h a b hab

/-- Chains do not depend on how their links are given. -/
theorem congr (h : Chains link) {link' : α → α → Prop} (hlink : ∀ a b, link' a b ↔ link a b) :
    Chains link' := by
  rwa [show link' = link from funext₂ (fun a b => propext (hlink a b))]

/-- What leads into something without a predecessor is a link that was added. The induction is
on how one gets there. -/
theorem transGen_of_extend {x y : α} (hin : ∀ a, ¬ link a y) (hout : ∀ b, ¬ link y b)
    {a b : α} (h : TransGen (fun a b => link a b ∨ (a = x ∧ b = y)) a b) :
    b = y ∨ TransGen link a b := by
  induction h with
  | single hab =>
    rcases hab with hab | ⟨-, rfl⟩
    · exact Or.inr (.single hab)
    · exact Or.inl rfl
  | @tail b c _ hbc ih =>
    rcases hbc with hbc | ⟨-, rfl⟩
    · rcases ih with rfl | ih
      · exact absurd hbc (hout c)
      · exact Or.inr (ih.tail hbc)
    · exact Or.inl rfl

/-- **A link from the end of a chain to something new** extends the chain. -/
theorem extend (h : Chains link) {x y : α} (hend : ∀ b, ¬ link x b) (hin : ∀ a, ¬ link a y)
    (hout : ∀ b, ¬ link y b) (hne : x ≠ y) :
    Chains (fun a b => link a b ∨ (a = x ∧ b = y)) where
  functional := by
    rintro a b c (hab | ⟨rfl, rfl⟩) (hac | ⟨hax, rfl⟩)
    · exact h.functional hab hac
    · exact absurd hab (hax ▸ hend b)
    · exact absurd hac (hend c)
    · rfl
  injective := by
    rintro a b c (hac | ⟨rfl, rfl⟩) (hbc | ⟨rfl, hcy⟩)
    · exact h.injective hac hbc
    · exact absurd hac (hcy ▸ hin a)
    · exact absurd hbc (hin b)
    · rfl
  acyclic := by
    intro a ha
    rcases transGen_of_extend hin hout ha with rfl | ha'
    · -- the new item has no successor, old or new
      obtain ⟨b, hb, -⟩ := TransGen.head'_iff.mp ha
      rcases hb with hb | ⟨hax, -⟩
      · exact hout b hb
      · exact hne hax.symm
    · exact h.acyclic a ha'

/-- **Two items with a common successor are on one chain**, so that chains do
not meet. -/
theorem comparable (h : Chains link) {a b c : α} (ha : ReflTransGen link a c)
    (hb : ReflTransGen link b c) : ReflTransGen link a b ∨ ReflTransGen link b a := by
  have hback : Relator.RightUnique (Function.swap link) :=
    fun c a b hac hbc => h.injective hac hbc
  have htotal := ReflTransGen.total_of_right_unique hback (reflTransGen_swap.mpr ha)
    (reflTransGen_swap.mpr hb)
  exact htotal.symm.imp reflTransGen_swap.mp reflTransGen_swap.mp

end Chains

end CohortSwitch
