import CohortSwitch.Rollback

/-!
# Growing a rollout

The bucket of a subject is a hash of the project, the environment, the key of
the flag, the subject and the salt. No writer changes any of the other four
over the life of a configuration, so a subject keeps its bucket from version
to version. The first allocation of a rollout ends at its own percentage: when
a later version starts with the same variation and no smaller percentage, every
subject in the first allocation stays (`rollout_grows`).

That is what growth keeps, and no more. A rollout may name the variation again
further on, and the subjects of that second share are not covered:
`rollout_shrinks` grows the first share and loses one of them. Where the variation
is named only once, everyone whom the flag sends to it is in the first share, and
everyone stays (`KeepsShare.once`).

The two versions are any two that are stored for one configuration in a reachable
state. What they have in common is `ConfigurationFields.SameFlag`, which
`CohortSwitch.Rollback` derives for stored snapshots; the rest is about two
configurations and no run.
-/

namespace CohortSwitch

/-! ## The first share -/

/-- A rollout starts with an allocation of a share to a variation. -/
def Starts (rollout : List RolloutAllocation) (variation : String) (share : ℕ) : Prop :=
  rollout.head?.map (fun first => (first.variation, first.endBucket)) = some (variation, share)

instance (rollout : List RolloutAllocation) (variation : String) (share : ℕ) :
    Decidable (Starts rollout variation share) :=
  inferInstanceAs (Decidable (_ = _))

/-- **The first share is the percentage of the first item of the payload.** -/
theorem starts_iff_of_inputs {inputs : List RolloutInput} {rollout : List RolloutAllocation}
    (h : rolloutAllocations inputs = .ok rollout) (variation : String) (share : ℕ) :
    Starts rollout variation share
      ↔ inputs.head?.map (fun item => (item.variation, item.percentageBasisPoints))
        = some (variation, share) := by
  obtain ⟨allocations, hallocations, h⟩ := bind_eq_ok.mp h
  obtain ⟨-, -, h⟩ := bind_eq_ok.mp h
  obtain rfl := pure_eq_ok.mp h
  unfold Starts
  cases inputs with
  | nil =>
    cases hallocations
    rfl
  | cons item rest =>
    obtain ⟨first, hfirst, hallocations⟩ := bind_eq_ok.mp hallocations
    obtain ⟨others, -, hallocations⟩ := bind_eq_ok.mp hallocations
    obtain rfl := pure_eq_ok.mp hallocations
    unfold RolloutAllocation.create at hfirst
    split at hfirst
    · cases hfirst
      show some (item.variation, 0 + item.percentageBasisPoints) = _ ↔ _
      rw [Nat.zero_add]
      rfl
    · cases hfirst

section Share

variable {rollout : List RolloutAllocation} {variation : String} {share bucket : ℕ}

/-- The buckets below the first share get the first variation. -/
theorem rolloutVariation_of_starts (h : Starts rollout variation share) (hlt : bucket < share) :
    rolloutVariation rollout bucket = .ok variation := by
  obtain ⟨first, hfirst, heq⟩ := Option.map_eq_some_iff.mp h
  obtain ⟨rest, rfl⟩ := List.head?_eq_some_iff.mp hfirst
  cases heq
  exact if_pos hlt

/-- What is served is named by some allocation. -/
theorem mem_of_rolloutVariation (h : rolloutVariation rollout bucket = .ok variation) :
    variation ∈ rollout.map RolloutAllocation.variation := by
  induction rollout with
  | nil => cases h
  | cons first rest ih =>
    unfold rolloutVariation at h
    split at h
    · cases h
      exact List.mem_cons_self
    · exact List.mem_cons_of_mem _ (ih h)

/-- **Where the first variation is not named again, only the buckets below the
first share get it.** -/
theorem lt_share_of_rolloutVariation (h : Starts rollout variation share)
    (honce : variation ∉ rollout.tail.map RolloutAllocation.variation)
    (hv : rolloutVariation rollout bucket = .ok variation) : bucket < share := by
  obtain ⟨first, hfirst, heq⟩ := Option.map_eq_some_iff.mp h
  obtain ⟨rest, rfl⟩ := List.head?_eq_some_iff.mp hfirst
  cases heq
  by_contra hge
  rw [show rolloutVariation (first :: rest) bucket = rolloutVariation rest bucket from
    if_neg hge] at hv
  exact honce (mem_of_rolloutVariation hv)

end Share

/-! ## Any two versions -/

/-- The flag-level rollout of a configuration sends a subject to a variation. -/
def Sends (config : FlagConfiguration) (context : EvaluationContext) (variation : String) :
    Prop :=
  ∃ bucket, getBucket config context = .ok bucket
    ∧ rolloutVariation config.rollout bucket = .ok variation

/-- The first allocation of a rollout holds a subject. -/
def InFirstShare (config : FlagConfiguration) (context : EvaluationContext) (share : ℕ) : Prop :=
  ∃ bucket, getBucket config context = .ok bucket ∧ bucket < share

/-- **What one version of a flag keeps of another**: the buckets of all
subjects, and the subjects of the first share while it does not shrink. -/
structure KeepsShare (c d : FlagConfiguration) : Prop where
  buckets : ∀ context, getBucket c context = getBucket d context
  first : ∀ variation p q, Starts c.rollout variation p → Starts d.rollout variation q → p ≤ q →
    ∀ context, InFirstShare c context p → Sends c context variation ∧ Sends d context variation
  once : ∀ variation p q, Starts c.rollout variation p → Starts d.rollout variation q → p ≤ q →
    variation ∉ c.rollout.tail.map RolloutAllocation.variation →
    ∀ context, Sends c context variation → Sends d context variation

/-- Two configurations of one flag put a subject into the same bucket. -/
theorem ConfigurationFields.SameFlag.getBucket_eq {c d : FlagConfiguration}
    (h : c.toConfigurationFields.SameFlag d.toConfigurationFields) (context : EvaluationContext) :
    getBucket c context = getBucket d context := by
  unfold getBucket
  rw [h.projectId, h.environmentId, h.flagKey, h.salt]

/-- **Two configurations of one flag keep the first share.** -/
theorem ConfigurationFields.SameFlag.keepsShare {c d : FlagConfiguration}
    (h : c.toConfigurationFields.SameFlag d.toConfigurationFields) : KeepsShare c d := by
  have hfirst : ∀ variation p q, Starts c.rollout variation p → Starts d.rollout variation q →
      p ≤ q → ∀ context, InFirstShare c context p →
        Sends c context variation ∧ Sends d context variation := by
    rintro variation p q hp hq hle context ⟨bucket, hb, hlt⟩
    have hb' : getBucket d context = .ok bucket := (h.getBucket_eq context).symm.trans hb
    exact ⟨⟨bucket, hb, rolloutVariation_of_starts hp hlt⟩,
      ⟨bucket, hb', rolloutVariation_of_starts hq (lt_of_lt_of_le hlt hle)⟩⟩
  refine ⟨h.getBucket_eq, hfirst, ?_⟩
  rintro variation p q hp hq hle honce context ⟨bucket, hb, hv⟩
  have hlt := lt_share_of_rolloutVariation hp honce hv
  exact (hfirst variation p q hp hq hle context ⟨bucket, hb, hlt⟩).2

/-- **A rollout grows monotonically over the life of a flag.** Between any two
versions of a configuration every subject keeps its bucket, and the subjects
of the first share stay where the share does not shrink. -/
theorem rollout_grows {actions : List (Action Choice Request)} {w : ServiceWorld}
    (hrun : service.run initial actions = some w) {i j : FlagVersionRow}
    (hi : i ∈ w.committed.versions) (hj : j ∈ w.committed.versions)
    (hconfig : i.configId = j.configId) :
    ∃ c d : FlagConfiguration, i.snapshot = c.toConfigurationFields
      ∧ j.snapshot = d.toConfigurationFields ∧ KeepsShare c d := by
  have hs := (good_of_run hrun).invariant.consistent
  obtain ⟨c, hc⟩ := recorded_of_run hrun i hi
  obtain ⟨d, hd⟩ := recorded_of_run hrun j hj
  exact ⟨c, d, hc.snapshot, hd.snapshot, (hc.sameFlag hs hd hconfig).keepsShare⟩

/-! ## A second share of the same variation -/

/-- The sample content with a rollout. -/
def rolledContent (rollout : List RolloutInput) : FlagContent :=
  { sampleContent with rollout }

/-- A tenth to each of the two variations, and the rest to the first again. -/
def interleavedRollout : List RolloutInput :=
  [⟨"on", 1000, by decide⟩, ⟨"off", 1000, by decide⟩, ⟨"on", 8000, by decide⟩]

/-- A fifth to the first variation. -/
def grownRollout : List RolloutInput :=
  [⟨"on", 2000, by decide⟩, ⟨"off", 8000, by decide⟩]

/-- A flag with the first of the two rollouts, updated to the second. -/
def rolloutUpdate : List (Action Choice Request) :=
  sampleTenant
  ++ alone 3 40 12 (.createFeatureFlag sampleUser none ⟨20⟩
    { sampleCreate "banner" isFlagKey_banner with
      toFlagContent := rolledContent interleavedRollout })
  ++ alone 4 50 15 (.replaceFlagConfiguration sampleUser none ⟨40⟩
    (sampleUpdate (rolledContent grownRollout) 1 Nat.one_pos))

/-- A subject of the second share of `on`. -/
def secondShareSubject : EvaluationContext := ⟨"1", ⟨[], List.nodup_nil⟩⟩

/-- The two stored versions, and where they send the subject `1`. -/
theorem exists_rolloutUpdate : ∃ w i j, service.run initial rolloutUpdate = some w
    ∧ i ∈ w.committed.versions ∧ j ∈ w.committed.versions ∧ i.configId = j.configId
    ∧ i.version = 1 ∧ j.version = 2
    ∧ Starts i.snapshot.rollout "on" 1000 ∧ Starts j.snapshot.rollout "on" 2000
    ∧ (stableBucket i.snapshot.projectId i.snapshot.environmentId i.snapshot.flagKey "1"
      i.snapshot.salt).toOption = some 6310
    ∧ (rolloutVariation i.snapshot.rollout 6310).toOption = some "on"
    ∧ (rolloutVariation j.snapshot.rollout 6310).toOption = some "off" := by
  have hfacts : (service.run initial rolloutUpdate).any (fun w =>
      w.committed.versions.any (fun i => w.committed.versions.any (fun j =>
        decide (i.configId = j.configId ∧ i.version = 1 ∧ j.version = 2
          ∧ Starts i.snapshot.rollout "on" 1000 ∧ Starts j.snapshot.rollout "on" 2000
          ∧ (stableBucket i.snapshot.projectId i.snapshot.environmentId i.snapshot.flagKey "1"
            i.snapshot.salt).toOption = some 6310
          ∧ (rolloutVariation i.snapshot.rollout 6310).toOption = some "on"
          ∧ (rolloutVariation j.snapshot.rollout 6310).toOption = some "off")))) = true := by
    decide +kernel
  obtain ⟨w, hrun, hfacts⟩ := (Option.any_eq_true _ _).mp hfacts
  obtain ⟨i, hi, hfacts⟩ := List.any_eq_true.mp hfacts
  obtain ⟨j, hj, hfacts⟩ := List.any_eq_true.mp hfacts
  obtain ⟨hconfig, hrest⟩ := of_decide_eq_true hfacts
  exact ⟨w, i, j, hrun, hi, hj, hconfig, hrest⟩

theorem rollout_grows_update : ∃ w i j, service.run initial rolloutUpdate = some w
    ∧ i ∈ w.committed.versions ∧ j ∈ w.committed.versions ∧ i.version = 1 ∧ j.version = 2
    ∧ ∃ c d : FlagConfiguration, i.snapshot = c.toConfigurationFields
      ∧ j.snapshot = d.toConfigurationFields ∧ KeepsShare c d := by
  obtain ⟨w, i, j, hrun, hi, hj, hconfig, hone, htwo, -⟩ := exists_rolloutUpdate
  exact ⟨w, i, j, hrun, hi, hj, hone, htwo, rollout_grows hrun hi hj hconfig⟩

/-- **A subject that a growing share loses**: the first share of `on` grows
from a tenth to a fifth, and a subject of its second share leaves. -/
theorem rollout_shrinks : ∃ w i j, service.run initial rolloutUpdate = some w
    ∧ i ∈ w.committed.versions ∧ j ∈ w.committed.versions ∧ i.configId = j.configId
    ∧ ∃ c d : FlagConfiguration, i.snapshot = c.toConfigurationFields
      ∧ j.snapshot = d.toConfigurationFields
      ∧ Starts c.rollout "on" 1000 ∧ Starts d.rollout "on" 2000
      ∧ ∃ context, Sends c context "on" ∧ ¬ Sends d context "on" := by
  obtain ⟨w, i, j, hrun, hi, hj, hconfig, -, -, hstarts, hstarts', hbucket, hon, hoff⟩ :=
    exists_rolloutUpdate
  have hs := (good_of_run hrun).invariant.consistent
  obtain ⟨c, hc⟩ := recorded_of_run hrun i hi
  obtain ⟨d, hd⟩ := recorded_of_run hrun j hj
  have hsame := hc.sameFlag hs hd hconfig
  rw [hc.snapshot] at hstarts hbucket hon
  rw [hd.snapshot] at hstarts' hoff
  have hb : getBucket c secondShareSubject = .ok 6310 := eq_ok_of_toOption hbucket
  refine ⟨w, i, j, hrun, hi, hj, hconfig, c, d, hc.snapshot, hd.snapshot, hstarts, hstarts',
    secondShareSubject, ⟨6310, hb, eq_ok_of_toOption hon⟩, ?_⟩
  rintro ⟨bucket, hb', hv⟩
  rw [← hsame.getBucket_eq, hb] at hb'
  cases hb'
  rw [eq_ok_of_toOption hoff] at hv
  exact absurd (Except.ok.inj hv) (by decide)

end CohortSwitch
