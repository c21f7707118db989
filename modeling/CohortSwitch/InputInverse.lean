import CohortSwitch.Shares

/-!
# Inputs and configurations are inverse

What `buildConfiguration` makes of a payload can be read back as inputs and
built again. `CohortSwitch.RoundTrip` shows that whatever comes back is what was
there; here nothing on the way can fail, since the parts of a configuration that
was built stay inside what the input models accept: a percentage is the distance
of two boundaries, a condition keeps its operator, a stage keeps its instant and
a variation its key.

The values of the variations are those the union took, and a stage is in UTC, so
the inputs that are read back need not be the payload. Rollouts are, and
`inputs_inverse` says it of both directions.

`ConfigurationFields.Readable` collects what the input models ask of a configuration
beyond its own validators: the engine would evaluate a rule with a negative priority or
an operator it does not know, but no payload could describe it. What was built is
readable (`Built.readable`), and what is readable can be read back and builds the same
again (`ConfigurationFields.Readable.readBack`).
-/

namespace CohortSwitch

/-! ## Rollouts -/

/-- **A percentage comes back as it was**: the distance of two boundaries. -/
theorem rolloutInputsFrom_allocationsFrom {boundary : ℕ} {inputs : List RolloutInput}
    {allocations : List RolloutAllocation} (h : allocationsFrom boundary inputs = .ok allocations) :
    rolloutInputsFrom boundary allocations = .ok inputs := by
  induction inputs generalizing boundary allocations with
  | nil =>
    cases h
    rfl
  | cons item rest ih =>
    obtain ⟨allocation, hcreate, h⟩ := bind_eq_ok.mp h
    obtain ⟨others, hothers, h⟩ := bind_eq_ok.mp h
    obtain rfl := pure_eq_ok.mp h
    have hend := endBucket_of_create hcreate
    have hdistance : ((allocation.endBucket : ℤ) - boundary).toNat
        = item.percentageBasisPoints := by omega
    have hitem : RolloutInput.create allocation.variation
        ((allocation.endBucket : ℤ) - boundary) = .ok item := by
      unfold RolloutInput.create
      rw [dif_pos (by rw [hdistance]; exact item.percentageRange)]
      cases item
      simp only [hdistance, variation_of_create hcreate]
    rw [← hend] at hothers
    exact bind_eq_ok.mpr ⟨item, hitem, bind_eq_ok.mpr ⟨rest, ih hothers, rfl⟩⟩

/-- **Percentages come back as they were.** -/
theorem rolloutInputs_rolloutAllocations {inputs : List RolloutInput}
    {allocations : List RolloutAllocation} (h : rolloutAllocations inputs = .ok allocations) :
    rolloutInputs allocations = .ok inputs :=
  rolloutInputsFrom_allocationsFrom (allocationsFrom_of_rolloutAllocations h).1

/-- Increasing boundaries are distances from one another, and the distances lead
back to the boundaries. -/
theorem exists_rolloutInputsFrom {previous : ℕ} {rollout : List RolloutAllocation}
    (hpairs : (rollout.map RolloutAllocation.endBucket).Pairwise (· < ·))
    (hpast : ∀ allocation ∈ rollout, previous < allocation.endBucket) :
    ∃ inputs, rolloutInputsFrom previous rollout = .ok inputs
      ∧ allocationsFrom previous inputs = .ok rollout
      ∧ previous + totalBasisPoints inputs
        = (rollout.map RolloutAllocation.endBucket).getLastD previous := by
  induction rollout generalizing previous with
  | nil => exact ⟨[], rfl, rfl, rfl⟩
  | cons first rest ih =>
    rw [List.map_cons, List.pairwise_cons] at hpairs
    have hfirst := hpast first List.mem_cons_self
    obtain ⟨inputs, hinputs, hback, htotal⟩ := ih hpairs.2
      (fun other hother => hpairs.1 _ (List.mem_map_of_mem hother))
    have hle := first.endBucketRange.2
    have hrange : 0 < ((first.endBucket : ℤ) - previous).toNat
        ∧ ((first.endBucket : ℤ) - previous).toNat ≤ 10000 := by omega
    have hend : previous + ((first.endBucket : ℤ) - previous).toNat = first.endBucket := by omega
    refine ⟨⟨first.variation, ((first.endBucket : ℤ) - previous).toNat, hrange⟩ :: inputs,
      bind_eq_ok.mpr ⟨_, dif_pos hrange, bind_eq_ok.mpr ⟨inputs, hinputs, rfl⟩⟩, ?_, ?_⟩
    · rw [allocationsFrom]
      simp only [hend]
      exact bind_eq_ok.mpr ⟨first, dif_pos first.endBucketRange,
        bind_eq_ok.mpr ⟨rest, hback, rfl⟩⟩
    · rw [totalBasisPoints_cons, ← Nat.add_assoc]
      simp only [hend]
      rw [htotal, List.map_cons]
      cases rest with
      | nil => rfl
      | cons other others => rfl

/-- **A boundary list that increases and ends at the number of buckets comes back as
it was.** -/
theorem rolloutAllocations_of_valid {rollout : List RolloutAllocation}
    (hvalid : ValidRollout rollout) : ∃ inputs, rolloutInputs rollout = .ok inputs
      ∧ rolloutAllocations inputs = .ok rollout := by
  rcases hvalid with rfl | ⟨hpairs, hlast⟩
  · exact ⟨[], rfl, rfl⟩
  · obtain ⟨inputs, hinputs, hback, htotal⟩ := exists_rolloutInputsFrom hpairs
      (fun allocation _ => allocation.endBucketRange.1)
    refine ⟨inputs, hinputs, bind_eq_ok.mpr ⟨rollout, hback, raiseIf_bind_eq_ok.mpr ⟨?_, rfl⟩⟩⟩
    rintro ⟨-, hother⟩
    rw [Nat.zero_add, List.getLastD_eq_getLast?, hlast] at htotal
    exact hother htotal

/-! ## Rules and variations -/

/-- The input of a stage, which is the stage in UTC. -/
theorem exists_stageInput (stage : ProgressiveStage) :
    ∃ input, stageInput stage = .ok input ∧ stageOfInput input = .ok stage :=
  ⟨⟨stage.percentageBasisPoints, stage.variation, stage.fallbackVariation,
      Datetime.ofInstant stage.activateAt, stage.percentageRange, rfl⟩,
    dif_pos ⟨stage.percentageRange, rfl⟩, stage.create_self⟩

/-- Item by item there is something to go on with. -/
theorem exists_mapM {α β ε : Type} {f : α → Except ε β} {P : α → β → Prop} {xs : List α}
    (h : ∀ x ∈ xs, ∃ y, f x = .ok y ∧ P x y) :
    ∃ ys, xs.mapM f = .ok ys ∧ List.Forall₂ P xs ys := by
  induction xs with
  | nil => exact ⟨[], rfl, .nil⟩
  | cons x xs ih =>
    obtain ⟨y, hy, hP⟩ := h x List.mem_cons_self
    obtain ⟨ys, hys, hPs⟩ := ih (fun x' hx' => h x' (List.mem_cons_of_mem x hx'))
    refine ⟨y :: ys, ?_, .cons hP hPs⟩
    rw [List.mapM_cons]
    exact bind_eq_ok.mpr ⟨y, hy, bind_eq_ok.mpr ⟨ys, hys, rfl⟩⟩

/-- **A rule that its input model takes can be read back and built again.** -/
theorem exists_ruleInput {rule : TargetingRule}
    (hname : 1 ≤ rule.name.length ∧ rule.name.length ≤ 200) (hpriority : 0 ≤ rule.priority)
    (hoperators : ∀ condition ∈ rule.conditions, condition.operator ∈ conditionOperators)
    (hvalid : ValidRollout rule.rollout) :
    ∃ again, ruleInput rule = .ok again ∧ RuleBuilt again rule := by
  have heach : ∀ condition ∈ rule.conditions, ∃ input, conditionInput condition = .ok input
      ∧ conditionOfInput input = .ok condition := fun condition hcondition =>
    ⟨⟨condition.attributeName, condition.operator, condition.value, condition.attributeLength,
      hoperators condition hcondition⟩, dif_pos ⟨condition.attributeLength,
      hoperators condition hcondition⟩, dif_pos condition.attributeLength⟩
  obtain ⟨conditions, hconditions, hconditionsBack⟩ := exists_mapM heach
  obtain ⟨rollout, hrollout, hrolloutBack⟩ := rolloutAllocations_of_valid hvalid
  obtain ⟨stages, hstages, hstagesBack⟩ := exists_mapM
    (fun stage (_ : stage ∈ rule.progressiveStages) => exists_stageInput stage)
  have hcount : actionCount rule.variation rollout stages = 1 := by
    have hone := rule.requireAction
    unfold actionCount at hone ⊢
    rw [isEmpty_of_mapM hstages, ← isEmpty_of_rolloutAllocations hrolloutBack]
    exact hone
  refine ⟨⟨rule.name, rule.priority, conditions, rule.variation, rollout, stages, hname,
    hpriority, hcount⟩, ?_, rfl, rfl, rfl, hconditionsBack.flip, hrolloutBack, hstagesBack.flip⟩
  refine bind_eq_ok.mpr ⟨_, hconditions, bind_eq_ok.mpr ⟨_, hrollout,
    bind_eq_ok.mpr ⟨_, hstages, ?_⟩⟩⟩
  exact dif_pos ⟨hname, hpriority, hcount⟩

/-- Variations with proper keys can be read back. -/
theorem exists_variationInputs {variations : Dict Json}
    (h : ∀ key ∈ variations.keys, isVariationKey key = true) :
    ∃ inputs, variationInputs variations = .ok inputs
      ∧ inputs.map (fun item => (item.key, item.value)) = variations.items := by
  have heach : ∀ item ∈ variations.items,
      ∃ input, VariationInput.create item.1 item.2 = .ok input ∧ True :=
    fun item hitem => ⟨_, dif_pos (h item.1 (List.mem_map_of_mem hitem)), trivial⟩
  obtain ⟨inputs, hinputs, -⟩ := exists_mapM heach
  exact ⟨inputs, hinputs, map_variationInputs hinputs⟩

/-! ## Whole configurations -/

/-- **Inputs that were read back from a configuration.** -/
structure ReadBack (c : FlagConfiguration) (again : FlagContent) : Prop where
  /-- What has no conversion is the same. -/
  enabled : again.enabled = c.enabled
  defaultVariation : again.defaultVariation = c.defaultVariation
  /-- The rest is what the conversions of the collections give. -/
  variations : variationInputs c.variations = .ok again.variations
  rules : c.rules.mapM ruleInput = .ok again.rules
  rollout : rolloutInputs c.rollout = .ok again.rollout
  progressiveStages : c.progressiveStages.mapM stageInput = .ok again.progressiveStages

/-- **What the input models ask of a configuration** beyond its own validators. Every
configuration that was built from a payload is readable, since the models have checked the
payload before. -/
structure ConfigurationFields.Readable (c : ConfigurationFields) : Prop where
  /-- The keys of variations are keys of the API. -/
  keys : ∀ key ∈ c.variations.keys, isVariationKey key = true
  /-- Rules have names. -/
  names : ∀ rule ∈ c.rules, 1 ≤ rule.name.length ∧ rule.name.length ≤ 200
  /-- Priorities are not negative. -/
  priorities : ∀ rule ∈ c.rules, 0 ≤ rule.priority
  /-- The operators are known. -/
  operators : ∀ rule ∈ c.rules, ∀ condition ∈ rule.conditions,
    condition.operator ∈ conditionOperators
  /-- No two rules have one priority. -/
  distinct : (c.rules.map TargetingRule.priority).Nodup
  /-- The flag has a rollout or stages, and not both. -/
  oneAction : c.rollout = [] ∨ c.progressiveStages = []

/-- The scalars of a configuration are those of a flag in an environment. -/
structure ConfigurationFields.BelongsTo (c : ConfigurationFields) (projectId : UUID)
    (environment : EnvironmentRow) (flag : FeatureFlagRow) : Prop where
  projectId : c.projectId = projectId.str
  environmentId : c.environmentId = environment.id.str
  environmentKey : c.environmentKey = environment.key
  flagId : c.flagId = flag.id.str
  flagKey : c.flagKey = flag.key
  flagType : c.flagType = flag.flagType

section Again

variable {projectId : UUID} {environment : EnvironmentRow} {flag : FeatureFlagRow}
  {content : FlagContent} {version : ℕ} {salt : String} {c : FlagConfiguration}

/-- **What was built is readable.** -/
theorem Built.readable {c : ConfigurationFields}
    (h : Built projectId environment flag content version salt c) : c.Readable := by
  have hrule : ∀ rule ∈ c.rules, ∃ input ∈ content.rules, RuleBuilt input rule :=
    fun rule hrule => (PermBy.of_forall₂ h.rules).exists_left hrule
  refine ⟨fun key hkey => ?_, fun rule hmem => ?_, fun rule hmem => ?_,
    fun rule hmem condition hcondition => ?_, h.priorities, ?_⟩
  · obtain ⟨item, hitem, rfl⟩ := List.mem_map.mp hkey
    rw [h.variations] at hitem
    obtain ⟨variation, -, rfl⟩ := List.mem_map.mp hitem
    exact variation.keyPattern
  · obtain ⟨input, -, hbuilt⟩ := hrule rule hmem
    exact hbuilt.name ▸ input.nameLength
  · obtain ⟨input, -, hbuilt⟩ := hrule rule hmem
    exact hbuilt.priority ▸ input.priorityRange
  · obtain ⟨input, -, hbuilt⟩ := hrule rule hmem
    obtain ⟨item, -, hitem⟩ := (PermBy.of_forall₂ hbuilt.conditions).exists_left hcondition
    unfold conditionOfInput Condition.create at hitem
    split at hitem
    · cases hitem
      exact item.operatorKnown
    · cases hitem
  · refine h.oneAction.imp (fun hnone => ?_) (fun hnone => ?_)
    · have hempty := isEmpty_of_rolloutAllocations h.rollout
      rw [hnone] at hempty
      exact List.isEmpty_iff.mp hempty
    · have hempty := isEmpty_of_mapM (mapM_eq_ok.mpr h.progressiveStages)
      rw [hnone] at hempty
      exact List.isEmpty_iff.mp hempty

/-- And it belongs to its flag. -/
theorem Built.belongsTo {c : ConfigurationFields}
    (h : Built projectId environment flag content version salt c) :
    c.BelongsTo projectId environment flag :=
  ⟨h.projectId, h.environmentId, h.environmentKey, h.flagId, h.flagKey, h.flagType⟩

/-- **What is readable can be read back, and builds the same again.** -/
theorem ConfigurationFields.Readable.readBack (h : c.toConfigurationFields.Readable)
    (hscalars : c.toConfigurationFields.BelongsTo projectId environment flag) :
    ∃ again, ReadBack c again ∧ Built projectId environment flag again c.configVersion c.salt
      c.toConfigurationFields := by
  obtain ⟨variations, hvariations, hitems⟩ := exists_variationInputs h.keys
  have heach : ∀ rule ∈ c.rules, ∃ again, ruleInput rule = .ok again ∧ RuleBuilt again rule :=
    fun rule hrule => exists_ruleInput (h.names rule hrule) (h.priorities rule hrule)
      (h.operators rule hrule) (c.valid.ruleRolloutsValid rule hrule)
  obtain ⟨rules, hrules, hrulesBack⟩ := exists_mapM heach
  obtain ⟨rollout, hrollout, hrolloutBack⟩ := rolloutAllocations_of_valid c.valid.rolloutValid
  obtain ⟨stages, hstages, hstagesBack⟩ := exists_mapM
    (fun stage (_ : stage ∈ c.progressiveStages) => exists_stageInput stage)
  have hkeys : variations.map VariationInput.key = c.variations.keys := by
    have hmap := congrArg (List.map Prod.fst) hitems
    rw [List.map_map] at hmap
    exact hmap
  have hnonempty : variations ≠ [] := by
    intro hnil
    rw [hnil, List.map_nil] at hkeys
    exact List.not_mem_nil (hkeys ▸ c.valid.defaultKnown)
  refine ⟨⟨c.enabled, c.defaultVariation, variations, rules, rollout, stages, hnonempty⟩,
    ⟨rfl, rfl, hvariations, hrules, hrollout, hstages⟩, hscalars.projectId,
    hscalars.environmentId, hscalars.environmentKey, hscalars.flagId, hscalars.flagKey,
    hscalars.flagType, rfl, rfl, ?_, rfl, rfl, hrulesBack.flip, hrolloutBack, hstagesBack.flip,
    hkeys ▸ c.variations.nodup, ?_, ?_⟩
  · -- the values went through the union once, and it takes them as they are
    have hcoerced : c.variations.items.map (fun item => (item.1, coerceFlagValue item.2))
        = c.variations.items := by
      refine (List.map_congr_left (fun item hitem => ?_)).trans (List.map_id _)
      show (item.1, coerceFlagValue item.2) = item
      rw [coerceFlagValue_of_hasType (c.valid.typed item hitem)]
    rw [← hcoerced, ← hitems, List.map_map]
    rfl
  · rw [← map_priority_of_built hrulesBack.flip]
    exact h.distinct
  · refine h.oneAction.imp (fun hnone => ?_) (fun hnone => ?_)
    · have hempty := isEmpty_of_rolloutAllocations hrolloutBack
      rw [hnone] at hempty
      exact List.isEmpty_iff.mp hempty.symm
    · have hempty := isEmpty_of_mapM hstages
      rw [hnone] at hempty
      exact List.isEmpty_iff.mp hempty

/-- **What was built can be read back, and builds the same again.** -/
theorem exists_readBack
    (h : Built projectId environment flag content version salt c.toConfigurationFields) :
    ∃ again, ReadBack c again
      ∧ Built projectId environment flag again version salt c.toConfigurationFields := by
  have hback := h.readable.readBack h.belongsTo
  rwa [h.configVersion, h.salt] at hback

/-- The payload of a configuration that can be read back. -/
theorem ReadBack.update {again : FlagContent} (h : ReadBack c again) (environmentId : UUID)
    {expectedVersion : ℕ} (hversion : 1 ≤ expectedVersion) :
    ∃ payload, updateFromConfiguration c environmentId expectedVersion = .ok payload
      ∧ payload.toFlagContent = again := by
  obtain ⟨henabled, hdefault, hvariations, hrules, hrollout, hstages⟩ := h
  cases again with
  | mk enabled defaultVariation variations rules rollout stages hnonempty =>
    dsimp only at henabled hdefault hvariations hrules hrollout hstages
    subst henabled hdefault
    refine ⟨_, bind_eq_ok.mpr ⟨_, hvariations, bind_eq_ok.mpr ⟨_, hrules,
      bind_eq_ok.mpr ⟨_, hrollout, bind_eq_ok.mpr ⟨_, hstages,
        dif_pos ⟨hversion, hnonempty⟩⟩⟩⟩⟩, rfl⟩

/-- The response of a configuration that can be read back. -/
theorem ReadBack.response {again : FlagContent} (h : ReadBack c again) (row : FeatureFlagRow) :
    ∃ r, CohortSwitch.response row c = .ok r ∧ r.enabled = again.enabled
      ∧ r.defaultVariation = again.defaultVariation ∧ r.variations = again.variations
      ∧ r.rules = again.rules ∧ r.rollout = again.rollout
      ∧ r.progressiveStages = again.progressiveStages :=
  ⟨_, bind_eq_ok.mpr ⟨_, h.variations, bind_eq_ok.mpr ⟨_, h.rules,
      bind_eq_ok.mpr ⟨_, h.rollout, bind_eq_ok.mpr ⟨_, h.progressiveStages, rfl⟩⟩⟩⟩,
    h.enabled.symm, h.defaultVariation.symm, rfl, rfl, rfl, rfl⟩

end Again

/-- **Inputs and compiled configurations are inverse.** A configuration that was
built comes back from the payload that describes it and from the response that
shows it; a rollout that is accepted comes back from its allocations, and
boundaries that increase up to the number of buckets from their distances. -/
theorem inputs_inverse :
    (∀ (projectId : UUID) (environment : EnvironmentRow) (flag : FeatureFlagRow)
        (content : FlagContent) (version : ℕ) (salt : String) (c : FlagConfiguration),
      buildConfiguration projectId environment flag content version salt = .ok c →
      (∀ (environmentId : UUID) (expectedVersion : ℕ), 1 ≤ expectedVersion →
        ∃ payload, updateFromConfiguration c environmentId expectedVersion = .ok payload
          ∧ buildConfiguration projectId environment flag payload.toFlagContent version salt
            = .ok c)
      ∧ ∀ row : FeatureFlagRow, ∃ r again, response row c = .ok r
        ∧ again.enabled = r.enabled ∧ again.defaultVariation = r.defaultVariation
        ∧ again.variations = r.variations ∧ again.rules = r.rules ∧ again.rollout = r.rollout
        ∧ again.progressiveStages = r.progressiveStages
        ∧ buildConfiguration projectId environment flag again version salt = .ok c)
    ∧ (∀ (inputs : List RolloutInput) (allocations : List RolloutAllocation),
      rolloutAllocations inputs = .ok allocations → rolloutInputs allocations = .ok inputs)
    ∧ ∀ rollout : List RolloutAllocation, rollout ≠ [] →
      (rollout.map RolloutAllocation.endBucket).Pairwise (· < ·) →
      (rollout.map RolloutAllocation.endBucket).getLast? = some 10000 →
      ∃ inputs, rolloutInputs rollout = .ok inputs ∧ rolloutAllocations inputs = .ok rollout := by
  refine ⟨fun projectId environment flag content version salt c hbuild => ?_,
    fun _ _ => rolloutInputs_rolloutAllocations,
    fun rollout _ hpairs hlast => rolloutAllocations_of_valid (Or.inr ⟨hpairs, hlast⟩)⟩
  obtain ⟨again, hback, hbuilt⟩ := exists_readBack (buildConfiguration_eq_ok_iff.mp hbuild)
  have hagain := buildConfiguration_eq_ok_iff.mpr hbuilt
  constructor
  · intro environmentId expectedVersion hversion
    obtain ⟨payload, hpayload, heq⟩ := hback.update environmentId hversion
    refine ⟨payload, hpayload, ?_⟩
    rw [heq]
    exact hagain
  · intro row
    obtain ⟨r, hr, henabled, hdefault, hvariations, hrules, hrollout, hstages⟩ :=
      hback.response row
    exact ⟨r, again, hr, henabled.symm, hdefault.symm, hvariations.symm, hrules.symm,
      hrollout.symm, hstages.symm, hagain⟩

/-- The two variations the shares are of. -/
def sharedVariations : List VariationInput :=
  [⟨"on", .bool true, isVariationKey_on⟩, ⟨"off", .bool false, isVariationKey_off⟩]

/-- There are some. -/
theorem sharedVariations_ne_nil : sharedVariations ≠ [] := List.cons_ne_nil _ _

/-- Two variations of a boolean flag, and a rollout of three shares. -/
def sharedContent : FlagContent :=
  ⟨true, "off", sharedVariations, [], sharedRollout, [], sharedVariations_ne_nil⟩

theorem inputs_inverse_sample :
    (∃ c, buildConfiguration ⟨20⟩ ⟨⟨30⟩, ⟨20⟩, "production", "Production", 1⟩
        ⟨⟨40⟩, ⟨20⟩, "new_checkout", "Checkout", "", .boolean, none⟩ sharedContent 1 "salt" = .ok c
      ∧ ∃ payload, updateFromConfiguration c ⟨30⟩ 1 = .ok payload
        ∧ buildConfiguration ⟨20⟩ ⟨⟨30⟩, ⟨20⟩, "production", "Production", 1⟩
          ⟨⟨40⟩, ⟨20⟩, "new_checkout", "Checkout", "", .boolean, none⟩ payload.toFlagContent 1
            "salt" = .ok c)
      ∧ ∃ allocations, rolloutAllocations sharedRollout = .ok allocations
        ∧ rolloutInputs allocations = .ok sharedRollout := by
  constructor
  · have hsome : (buildConfiguration ⟨20⟩ ⟨⟨30⟩, ⟨20⟩, "production", "Production", 1⟩
        ⟨⟨40⟩, ⟨20⟩, "new_checkout", "Checkout", "", .boolean, none⟩ sharedContent 1
          "salt").toOption.isSome = true := by decide +kernel
    obtain ⟨c, hc⟩ := Option.isSome_iff_exists.mp hsome
    have hbuild := eq_ok_of_toOption hc
    exact ⟨c, hbuild, (inputs_inverse.1 _ _ _ _ _ _ _ hbuild).1 ⟨30⟩ 1 le_rfl⟩
  · obtain ⟨allocations, hallocations⟩ := @exists_rolloutAllocations sharedRollout rfl
    exact ⟨allocations, hallocations, inputs_inverse.2.1 _ _ hallocations⟩

end CohortSwitch
