import Mathlib.Order.Interval.Finset.Nat
import CohortSwitch.RoundTrip

/-!
# The shares of a rollout

`rolloutAllocations` turns percentages into exclusive boundaries, and
`rolloutVariation` serves a bucket by the first boundary past it. Between the
two, the buckets are cut into consecutive intervals, one for each input and as
long as its basis points: the loop is followed from any boundary on
(`card_servedFrom`), with the buckets below that boundary left aside.

The count goes by induction on the inputs, and the boundary moves with it. Below the
first boundary only the first variation is served (`serves_cons_of_lt`), from it on the
rest of the rollout decides (`serves_cons_of_le`): the buckets of a variation are a
disjoint union, and each part has the size of one input. A variation that is named
several times gets the sum.

The stored rows of a rollout come back in any order. Their boundaries are
distinct, so sorting by boundary gives the allocations again
(`allocations_of_rows`), and `rollout_shares` counts their buckets.
-/

namespace CohortSwitch

/-! ## The loop over the inputs -/

/-- What the inputs of a rollout add up to. -/
def totalBasisPoints (inputs : List RolloutInput) : ℕ :=
  (inputs.map RolloutInput.percentageBasisPoints).sum

/-- What the inputs of one variation add up to. -/
def basisPointsOf (inputs : List RolloutInput) (variation : String) : ℕ :=
  totalBasisPoints (inputs.filter (fun item => item.variation = variation))

@[simp] theorem totalBasisPoints_nil : totalBasisPoints [] = 0 := rfl

/-- One input more. -/
@[simp] theorem totalBasisPoints_cons (item : RolloutInput) (rest : List RolloutInput) :
    totalBasisPoints (item :: rest) = item.percentageBasisPoints + totalBasisPoints rest := rfl

@[simp] theorem basisPointsOf_nil (variation : String) : basisPointsOf [] variation = 0 := rfl

/-- One input more of a variation, or of another one. -/
theorem basisPointsOf_cons (item : RolloutInput) (rest : List RolloutInput)
    (variation : String) : basisPointsOf (item :: rest) variation
      = (if item.variation = variation then item.percentageBasisPoints else 0)
        + basisPointsOf rest variation := by
  unfold basisPointsOf
  by_cases h : item.variation = variation
  · rw [List.filter_cons_of_pos (by simpa using h), if_pos h, totalBasisPoints_cons]
  · rw [List.filter_cons_of_neg (by simpa using h), if_neg h, Nat.zero_add]

/-- The inputs that a rollout with a total can have are not empty. -/
theorem ne_nil_of_total {inputs : List RolloutInput} (h : 0 < totalBasisPoints inputs) :
    inputs ≠ [] := by
  rintro rfl
  exact lt_irrefl 0 h

/-- An allocation has the boundary it was created with. -/
theorem endBucket_of_create {variation : String} {endBucket : ℕ} {allocation : RolloutAllocation}
    (h : RolloutAllocation.create variation endBucket = .ok allocation) :
    allocation.endBucket = endBucket := by
  unfold RolloutAllocation.create at h
  split at h
  · cases h
    rfl
  · cases h

/-- And the variation. -/
theorem variation_of_create {variation : String} {endBucket : ℕ} {allocation : RolloutAllocation}
    (h : RolloutAllocation.create variation endBucket = .ok allocation) :
    allocation.variation = variation := by
  unfold RolloutAllocation.create at h
  split at h
  · cases h
    rfl
  · cases h

/-- An input moves the boundary up. -/
theorem allocationsFrom_cons {boundary : ℕ} {item : RolloutInput} {rest : List RolloutInput}
    (h : boundary + item.percentageBasisPoints ≤ 10000) :
    ∃ allocation : RolloutAllocation, allocation.variation = item.variation
      ∧ allocation.endBucket = boundary + item.percentageBasisPoints
      ∧ allocationsFrom boundary (item :: rest)
        = (allocationsFrom (boundary + item.percentageBasisPoints) rest).map
          (fun allocations => allocation :: allocations) := by
  have hrange : 0 < boundary + item.percentageBasisPoints
      ∧ boundary + item.percentageBasisPoints ≤ 10000 :=
    ⟨Nat.add_pos_right boundary item.percentageRange.1, h⟩
  refine ⟨⟨item.variation, boundary + item.percentageBasisPoints, hrange⟩, rfl, rfl, ?_⟩
  rw [allocationsFrom, RolloutAllocation.create, dif_pos hrange]
  show (allocationsFrom _ rest >>= _) = _
  cases allocationsFrom (boundary + item.percentageBasisPoints) rest <;> rfl

/-- **The loop returns while the boundary stays a bucket.** -/
theorem exists_allocationsFrom {boundary : ℕ} {inputs : List RolloutInput}
    (h : boundary + totalBasisPoints inputs ≤ 10000) :
    ∃ allocations, allocationsFrom boundary inputs = .ok allocations := by
  induction inputs generalizing boundary with
  | nil => exact ⟨[], rfl⟩
  | cons item rest ih =>
    rw [totalBasisPoints_cons, ← Nat.add_assoc] at h
    obtain ⟨allocation, -, -, hcons⟩ := @allocationsFrom_cons boundary item rest
      (le_trans (Nat.le_add_right _ _) h)
    obtain ⟨allocations, hrest⟩ := ih h
    exact ⟨allocation :: allocations, by rw [hcons, hrest]; rfl⟩

/-- **The loop raises past the last bucket**: the boundary that leaves the range is
refused by the model of an allocation. -/
theorem allocationsFrom_error {boundary : ℕ} {inputs : List RolloutInput}
    (hboundary : boundary ≤ 10000) (h : 10000 < boundary + totalBasisPoints inputs) :
    allocationsFrom boundary inputs = .error (.validationError "end_bucket range") := by
  induction inputs generalizing boundary with
  | nil => exact absurd h (not_lt_of_ge hboundary)
  | cons item rest ih =>
    rw [totalBasisPoints_cons, ← Nat.add_assoc] at h
    by_cases hle : boundary + item.percentageBasisPoints ≤ 10000
    · obtain ⟨allocation, -, -, hcons⟩ := @allocationsFrom_cons boundary item rest hle
      rw [hcons, ih hle h]
      rfl
    · rw [allocationsFrom, RolloutAllocation.create, dif_neg (fun hrange => hle hrange.2)]
      rfl

/-- What the loop returns ends, at every allocation, past where it started. -/
theorem lt_endBucket_of_allocationsFrom {boundary : ℕ} {inputs : List RolloutInput}
    {allocations : List RolloutAllocation} (h : allocationsFrom boundary inputs = .ok allocations) :
    (allocations.map RolloutAllocation.endBucket).Pairwise (· < ·)
      ∧ ∀ allocation ∈ allocations, boundary < allocation.endBucket := by
  induction inputs generalizing boundary allocations with
  | nil =>
    cases h
    exact ⟨List.Pairwise.nil, fun _ hm => absurd hm List.not_mem_nil⟩
  | cons item rest ih =>
    obtain ⟨allocation, hcreate, h⟩ := bind_eq_ok.mp h
    obtain ⟨others, hothers, h⟩ := bind_eq_ok.mp h
    obtain rfl := pure_eq_ok.mp h
    obtain ⟨hpairs, hpast⟩ := ih hothers
    have hend := endBucket_of_create hcreate
    have hpositive := item.percentageRange.1
    refine ⟨List.pairwise_cons.mpr ⟨fun e he => ?_, hpairs⟩, fun a ha => ?_⟩
    · obtain ⟨other, hother, rfl⟩ := List.mem_map.mp he
      rw [hend]
      exact hpast other hother
    · rcases List.mem_cons.mp ha with rfl | ha
      · omega
      · have := hpast a ha
        omega

/-- The allocations of a rollout that is accepted. -/
theorem allocationsFrom_of_rolloutAllocations {inputs : List RolloutInput}
    {allocations : List RolloutAllocation} (h : rolloutAllocations inputs = .ok allocations) :
    allocationsFrom 0 inputs = .ok allocations
      ∧ (inputs = [] ∨ totalBasisPoints inputs = 10000) := by
  obtain ⟨found, hfound, h⟩ := bind_eq_ok.mp h
  obtain ⟨htotal, h⟩ := raiseIf_bind_eq_ok.mp h
  obtain rfl := pure_eq_ok.mp h
  refine ⟨hfound, or_iff_not_imp_left.mpr (fun hne => ?_)⟩
  by_contra hother
  exact htotal ⟨hne, hother⟩

/-- The number of actions sees of a list only whether it is empty. -/
theorem isEmpty_of_rolloutAllocations {inputs : List RolloutInput}
    {allocations : List RolloutAllocation} (h : rolloutAllocations inputs = .ok allocations) :
    allocations.isEmpty = inputs.isEmpty := by
  obtain ⟨hloop, -⟩ := allocationsFrom_of_rolloutAllocations h
  cases inputs with
  | nil =>
    cases hloop
    rfl
  | cons item rest =>
    obtain ⟨allocation, -, hloop⟩ := bind_eq_ok.mp hloop
    obtain ⟨others, -, hloop⟩ := bind_eq_ok.mp hloop
    cases hloop
    rfl

/-- A list that is gone through item by item stays empty or not. -/
theorem isEmpty_of_mapM {ε α β : Type} {f : α → Except ε β} {xs : List α} {ys : List β}
    (h : xs.mapM f = .ok ys) : ys.isEmpty = xs.isEmpty := by
  have hpairs := mapM_eq_ok.mp h
  cases hpairs <;> rfl

/-- **Inputs that add up to the number of buckets are accepted.** -/
theorem exists_rolloutAllocations {inputs : List RolloutInput}
    (h : totalBasisPoints inputs = 10000) :
    ∃ allocations, rolloutAllocations inputs = .ok allocations := by
  obtain ⟨allocations, hloop⟩ := @exists_allocationsFrom 0 inputs (by rw [h])
  refine ⟨allocations, bind_eq_ok.mpr ⟨allocations, hloop, ?_⟩⟩
  exact raiseIf_bind_eq_ok.mpr ⟨fun hbad => hbad.2 h, rfl⟩

/-! ## Counting the buckets -/

/-- A rollout serves a variation on a bucket. -/
def Serves (rollout : List RolloutAllocation) (variation : String) (bucket : ℕ) : Prop :=
  rolloutVariation rollout bucket = .ok variation

instance (rollout : List RolloutAllocation) (variation : String) (bucket : ℕ) :
    Decidable (Serves rollout variation bucket) :=
  decidable_of_iff ((rolloutVariation rollout bucket).toOption = some variation)
    ⟨eq_ok_of_toOption, fun h => (congrArg Except.toOption h).trans rfl⟩

/-- The buckets a rollout serves a variation on. -/
def bucketsOf (rollout : List RolloutAllocation) (variation : String) : Finset ℕ :=
  (Finset.range BUCKET_COUNT).filter (Serves rollout variation)

/-- Below the first boundary only the first variation is served. -/
theorem serves_cons_of_lt {first : RolloutAllocation} {others : List RolloutAllocation}
    {variation : String} {bucket : ℕ} (h : bucket < first.endBucket) :
    Serves (first :: others) variation bucket ↔ first.variation = variation := by
  unfold Serves
  rw [show rolloutVariation (first :: others) bucket = .ok first.variation from if_pos h]
  exact ⟨Except.ok.inj, congrArg Except.ok⟩

/-- From the first boundary on the rest of the rollout decides. -/
theorem serves_cons_of_le {first : RolloutAllocation} {others : List RolloutAllocation}
    {variation : String} {bucket : ℕ} (h : first.endBucket ≤ bucket) :
    Serves (first :: others) variation bucket ↔ Serves others variation bucket := by
  unfold Serves
  rw [show rolloutVariation (first :: others) bucket = rolloutVariation others bucket from
    if_neg (not_lt_of_ge h)]

/-- The buckets of the first allocation, counted from a boundary. -/
theorem card_served_first {boundary : ℕ} {first : RolloutAllocation}
    {others : List RolloutAllocation} (variation : String) :
    ((Finset.Ico boundary first.endBucket).filter (Serves (first :: others) variation)).card
      = if first.variation = variation then first.endBucket - boundary else 0 := by
  rw [Finset.filter_congr (fun b hb => serves_cons_of_lt (Finset.mem_Ico.mp hb).2)]
  split
  · rename_i hv
    rw [Finset.filter_true_of_mem (fun _ _ => hv), Nat.card_Ico]
  · rename_i hv
    rw [Finset.filter_false_of_mem (fun _ _ => hv), Finset.card_empty]

section Counting

variable {boundary : ℕ} {inputs : List RolloutInput} {allocations : List RolloutAllocation}

/-- **From a boundary on, every bucket up to the total is served.** -/
theorem exists_servedFrom (h : allocationsFrom boundary inputs = .ok allocations) {bucket : ℕ}
    (hlt : bucket < boundary + totalBasisPoints inputs) (hne : inputs ≠ []) :
    ∃ variation, Serves allocations variation bucket := by
  induction inputs generalizing boundary allocations with
  | nil => exact absurd rfl hne
  | cons item rest ih =>
    obtain ⟨allocation, hcreate, h⟩ := bind_eq_ok.mp h
    obtain ⟨others, hothers, h⟩ := bind_eq_ok.mp h
    obtain rfl := pure_eq_ok.mp h
    by_cases hfirst : bucket < allocation.endBucket
    · exact ⟨allocation.variation, (serves_cons_of_lt hfirst).mpr rfl⟩
    · rw [totalBasisPoints_cons, ← Nat.add_assoc] at hlt
      have hrest : rest ≠ [] := by
        rintro rfl
        rw [endBucket_of_create hcreate] at hfirst
        exact hfirst hlt
      obtain ⟨variation, hserves⟩ := ih hothers hlt hrest
      exact ⟨variation, (serves_cons_of_le (not_lt.mp hfirst)).mpr hserves⟩

/-- **From a boundary on, a variation is served on as many buckets as its inputs
say.** The first input takes the interval up to its own boundary, and there no
later one is reached. -/
theorem card_servedFrom (h : allocationsFrom boundary inputs = .ok allocations)
    (variation : String) :
    ((Finset.Ico boundary (boundary + totalBasisPoints inputs)).filter
      (Serves allocations variation)).card = basisPointsOf inputs variation := by
  induction inputs generalizing boundary allocations with
  | nil =>
    rw [totalBasisPoints_nil, Nat.add_zero, Finset.Ico_self]
    rfl
  | cons item rest ih =>
    obtain ⟨allocation, hcreate, h⟩ := bind_eq_ok.mp h
    obtain ⟨others, hothers, h⟩ := bind_eq_ok.mp h
    obtain rfl := pure_eq_ok.mp h
    have hend := endBucket_of_create hcreate
    have hvariation := variation_of_create hcreate
    have hsplit : Finset.Ico boundary (boundary + totalBasisPoints (item :: rest))
        = Finset.Ico boundary allocation.endBucket
          ∪ Finset.Ico allocation.endBucket
            (boundary + item.percentageBasisPoints + totalBasisPoints rest) := by
      rw [totalBasisPoints_cons, ← Nat.add_assoc, hend]
      exact (Finset.Ico_union_Ico_eq_Ico (Nat.le_add_right _ _) (Nat.le_add_right _ _)).symm
    have hdisjoint := Finset.Ico_disjoint_Ico_consecutive boundary allocation.endBucket
      (boundary + item.percentageBasisPoints + totalBasisPoints rest)
    have hrest := ih hothers
    rw [← hend] at hrest
    rw [hsplit, Finset.filter_union,
      Finset.card_union_of_disjoint (Finset.disjoint_filter_filter hdisjoint),
      card_served_first, basisPointsOf_cons, hvariation, hend, Nat.add_sub_cancel_left, ← hend]
    congr 1
    rw [Finset.filter_congr (fun b hb => serves_cons_of_le (Finset.mem_Ico.mp hb).1)]
    exact hrest

end Counting

/-! ## From stored rows -/

/-- **Sorting the rows of a rollout by boundary gives its allocations again**, in
whatever order the rows are read. -/
theorem allocations_of_rows {boundary : ℕ} {inputs : List RolloutInput}
    {allocations : List RolloutAllocation} (h : allocationsFrom boundary inputs = .ok allocations)
    {parent : Parent} {rows : List RolloutAllocationRow}
    (hrows : rows.Perm (allocations.map (dbAllocation parent))) :
    (sortedBy RolloutAllocationRow.endBucket rows).mapM engineAllocation = .ok allocations := by
  have hends : (allocations.map (dbAllocation parent)).map RolloutAllocationRow.endBucket
      = allocations.map RolloutAllocation.endBucket := by
    rw [List.map_map]
    rfl
  obtain ⟨hpairs, -⟩ := lt_endBucket_of_allocationsFrom h
  have hnodup : (rows.map RolloutAllocationRow.endBucket).Nodup := by
    rw [(hrows.map RolloutAllocationRow.endBucket).nodup_iff, hends]
    exact hpairs.imp (fun hab => ne_of_lt hab)
  have hsorted : sortedBy RolloutAllocationRow.endBucket rows
      = allocations.map (dbAllocation parent) := by
    rw [sortedBy_eq_of_perm RolloutAllocationRow.endBucket hrows hnodup]
    refine sortedBy_eq_self _ (List.pairwise_map.mp ?_)
    rw [hends]
    exact hpairs.imp (fun hab => le_of_lt hab)
  rw [hsorted, mapM_eq_ok, List.forall₂_map_left_iff]
  refine List.forall₂_same.mpr (fun allocation _ => ?_)
  exact dif_pos allocation.endBucketRange

/-- **The shares of a rollout are exact.** Inputs that add up to the number of
buckets are accepted, the rows of their allocations compile to them again in
whatever order they are read, every bucket is served, and each variation is
served on as many buckets as the basis points that are listed for it. -/
theorem rollout_shares (inputs : List RolloutInput) (hsum : totalBasisPoints inputs = 10000) :
    ∃ allocations, rolloutAllocations inputs = .ok allocations
      ∧ (∀ (parent : Parent) (rows : List RolloutAllocationRow),
        rows.Perm (allocations.map (dbAllocation parent)) →
        (sortedBy RolloutAllocationRow.endBucket rows).mapM engineAllocation = .ok allocations)
      ∧ (∀ bucket < BUCKET_COUNT, ∃ variation, Serves allocations variation bucket)
      ∧ ∀ variation,
        (bucketsOf allocations variation).card = basisPointsOf inputs variation := by
  obtain ⟨allocations, hallocations⟩ := exists_rolloutAllocations hsum
  obtain ⟨hloop, -⟩ := allocationsFrom_of_rolloutAllocations hallocations
  have hbound : 0 + totalBasisPoints inputs = BUCKET_COUNT := by rw [hsum]; rfl
  refine ⟨allocations, hallocations, fun _ _ => allocations_of_rows hloop,
    fun bucket hbucket => ?_, fun variation => ?_⟩
  · exact exists_servedFrom hloop (hbound ▸ hbucket) (ne_nil_of_total (by rw [hsum]; decide))
  · have hcard := card_servedFrom hloop variation
    rw [hbound, ← Finset.range_eq_Ico] at hcard
    exact hcard

/-- The shares of the sample are in range. -/
theorem half_range : 0 < 5000 ∧ 5000 ≤ 10000 := by decide

/-- Three shares, two of them of one variation. -/
def sharedRollout : List RolloutInput :=
  [⟨"on", 2500, by decide⟩, ⟨"off", 5000, half_range⟩, ⟨"on", 2500, by decide⟩]

theorem rollout_shares_sample :
    ∃ allocations, rolloutAllocations sharedRollout = .ok allocations
      ∧ (∀ (parent : Parent) (rows : List RolloutAllocationRow),
        rows.Perm (allocations.map (dbAllocation parent)) →
        (sortedBy RolloutAllocationRow.endBucket rows).mapM engineAllocation = .ok allocations)
      ∧ (∀ bucket < BUCKET_COUNT, ∃ variation, Serves allocations variation bucket)
      ∧ ∀ variation,
        (bucketsOf allocations variation).card = basisPointsOf sharedRollout variation :=
  rollout_shares sharedRollout rfl

end CohortSwitch
