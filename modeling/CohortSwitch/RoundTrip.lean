import CohortSwitch.RowOrder

/-!
# From a configuration to inputs and back

A rollback turns a stored configuration into a payload and builds a new
configuration from it. Each part comes back as it was: boundaries become
percentages and percentages boundaries, rules and stages become inputs and are
read again, and the values of the variations pass the union unchanged because
the stored configuration was valid.

The two directions are loops over the same lists, one carrying the boundary
before and the other the sum so far, so the induction of
`allocationsFrom_rolloutInputsFrom` carries both. The other parts are item by
item: `eq_of_forall₂` turns two steps that lead back into two lists that are
equal.

`restored_of_built` puts the parts together: what is built serves what was
stored. `SameContent` is what an update can change of a configuration, in the
same order; the version is a new one, and the salt is the flag's own.
-/

namespace CohortSwitch

/-! ## Part by part -/

/-- Two steps that lead back, item by item. -/
theorem eq_of_forall₂ {α β : Type} {R : α → β → Prop} {S : β → α → Prop}
    {xs zs : List α} {ys : List β} (hxy : List.Forall₂ R xs ys) (hyz : List.Forall₂ S ys zs)
    (h : ∀ x y z, R x y → S y z → z = x) : zs = xs := by
  induction hxy generalizing zs with
  | nil => cases hyz; rfl
  | cons hr _ ih =>
    cases hyz with
    | cons hs hrest => rw [h _ _ _ hr hs, ih hrest]

/-- A percentage is the distance from the boundary before. -/
theorem allocationsFrom_rolloutInputsFrom {rollout allocations : List RolloutAllocation}
    {inputs : List RolloutInput} {previous : ℕ}
    (h : rolloutInputsFrom previous rollout = .ok inputs)
    (h' : allocationsFrom previous inputs = .ok allocations) : allocations = rollout := by
  induction rollout generalizing previous inputs allocations with
  | nil =>
    cases h
    cases h'
    rfl
  | cons item rest ih =>
    obtain ⟨value, hvalue, h⟩ := bind_eq_ok.mp h
    obtain ⟨values, hvalues, h⟩ := bind_eq_ok.mp h
    cases h
    obtain ⟨allocation, hallocation, h'⟩ := bind_eq_ok.mp h'
    obtain ⟨others, hothers, h'⟩ := bind_eq_ok.mp h'
    cases h'
    unfold RolloutInput.create at hvalue
    split at hvalue
    · rename_i hrange
      cases hvalue
      have hend : previous + ((item.endBucket : ℤ) - previous).toNat = item.endBucket := by omega
      change RolloutAllocation.create item.variation (previous
        + ((item.endBucket : ℤ) - previous).toNat) = .ok allocation at hallocation
      change allocationsFrom (previous + ((item.endBucket : ℤ) - previous).toNat) values
        = .ok others at hothers
      rw [hend] at hallocation hothers
      unfold RolloutAllocation.create at hallocation
      rw [dif_pos item.endBucketRange] at hallocation
      rw [ih hvalues hothers, ← Except.ok.inj hallocation]
    · cases hvalue

/-- **A rollout comes back as it was**, once it is valid: the last boundary is the number of
buckets, which the way back asks for. -/
theorem rolloutAllocations_rolloutInputs {rollout allocations : List RolloutAllocation}
    {inputs : List RolloutInput} (h : rolloutInputs rollout = .ok inputs)
    (h' : rolloutAllocations inputs = .ok allocations) : allocations = rollout := by
  obtain ⟨found, hfound, h'⟩ := bind_eq_ok.mp h'
  obtain ⟨-, h'⟩ := raiseIf_bind_eq_ok.mp h'
  cases h'
  exact allocationsFrom_rolloutInputsFrom h hfound

/-- **A stage comes back as it was.** Its instant is in UTC already. -/
theorem stageOfInput_stageInput {stage restored : ProgressiveStage} {input : ProgressiveStageInput}
    (h : stageInput stage = .ok input) (h' : stageOfInput input = .ok restored) :
    restored = stage := by
  unfold stageInput ProgressiveStageInput.create at h
  split at h
  · cases h
    exact Except.ok.inj (h'.symm.trans stage.create_self)
  · cases h

/-- **A condition comes back as it was.** -/
theorem conditionOfInput_conditionInput {condition restored : Condition} {input : ConditionInput}
    (h : conditionInput condition = .ok input) (h' : conditionOfInput input = .ok restored) :
    restored = condition := by
  unfold conditionInput ConditionInput.create at h
  split at h
  · cases h
    exact Except.ok.inj (h'.symm.trans (dif_pos condition.attributeLength))
  · cases h

/-- **A rule comes back as it was.** -/
theorem ruleOfInput_ruleInput {rule restored : TargetingRule} {input : RuleInput}
    (h : ruleInput rule = .ok input) (h' : RuleBuilt input restored) : restored = rule := by
  obtain ⟨conditions, hconditions, h⟩ := bind_eq_ok.mp h
  obtain ⟨rollout, hrollout, h⟩ := bind_eq_ok.mp h
  obtain ⟨stages, hstages, h⟩ := bind_eq_ok.mp h
  unfold RuleInput.create at h
  split at h
  · cases h
    have hc := eq_of_forall₂ (mapM_eq_ok.mp hconditions) h'.conditions
      (fun _ _ _ => conditionOfInput_conditionInput)
    have hs := eq_of_forall₂ (mapM_eq_ok.mp hstages) h'.progressiveStages
      (fun _ _ _ => stageOfInput_stageInput)
    have hr := rolloutAllocations_rolloutInputs hrollout h'.rollout
    have hname : restored.name = rule.name := h'.name
    have hpriority : restored.priority = rule.priority := h'.priority
    have hvariation : restored.variation = rule.variation := h'.variation
    cases restored
    cases rule
    simp only at hc hr hs hname hpriority hvariation
    subst hc hr hs hname hpriority hvariation
    rfl
  · cases h

/-- The inputs of the variations hold their items. -/
theorem map_variationInputs {variations : Dict Json} {inputs : List VariationInput}
    (h : variationInputs variations = .ok inputs) :
    inputs.map (fun item => (item.key, item.value)) = variations.items := by
  have hitems := mapM_eq_ok.mp h
  rw [← List.forall₂_eq_eq_eq, List.forall₂_map_left_iff]
  refine List.Forall₂.flip (hitems.imp (fun item input hinput => ?_))
  unfold VariationInput.create at hinput
  split at hinput
  · cases hinput
    rfl
  · cases hinput

/-! ## The whole configuration -/

/-- **The same content**: all that an update can change of a configuration, in
the same order. -/
structure SameContent (c d : ConfigurationFields) : Prop where
  enabled : c.enabled = d.enabled
  defaultVariation : c.defaultVariation = d.defaultVariation
  variations : c.variations.items = d.variations.items
  rules : c.rules = d.rules
  rollout : c.rollout = d.rollout
  progressiveStages : c.progressiveStages = d.progressiveStages

/-- **A configuration comes back from its own payload.** What the service builds from the
payload of a valid configuration has the content of that configuration. -/
theorem restored_of_built {old : FlagConfiguration} {environmentId : UUID} {expectedVersion : ℕ}
    {payload : FlagUpdate} (h : updateFromConfiguration old environmentId expectedVersion
      = .ok payload) {projectId : UUID} {environment : EnvironmentRow} {flag : FeatureFlagRow}
    {version : ℕ} {salt : String} {c : ConfigurationFields}
    (hbuilt : Built projectId environment flag payload.toFlagContent version salt c) :
    SameContent old.toConfigurationFields c := by
  obtain ⟨variations, hvariations, h⟩ := bind_eq_ok.mp h
  obtain ⟨rules, hrules, h⟩ := bind_eq_ok.mp h
  obtain ⟨rollout, hrollout, h⟩ := bind_eq_ok.mp h
  obtain ⟨stages, hstages, h⟩ := bind_eq_ok.mp h
  unfold FlagUpdate.create at h
  split at h
  · cases h
    refine ⟨hbuilt.enabled.symm, hbuilt.defaultVariation.symm, ?_, ?_, ?_, ?_⟩
    · have hitems : c.variations.items
          = (variations.map (fun item => (item.key, item.value))).map
            (fun item => (item.1, coerceFlagValue item.2)) := by
        rw [List.map_map]
        exact hbuilt.variations
      rw [hitems, map_variationInputs hvariations]
      -- a valid value is no float, so the union takes it as it is
      refine ((List.map_congr_left (fun item hi => ?_)).trans (List.map_id _)).symm
      show (item.1, coerceFlagValue item.2) = item
      rw [coerceFlagValue_of_hasType (old.valid.typed item hi)]
    · exact (eq_of_forall₂ (mapM_eq_ok.mp hrules) hbuilt.rules
        (fun _ _ _ => ruleOfInput_ruleInput)).symm
    · exact (rolloutAllocations_rolloutInputs hrollout hbuilt.rollout).symm
    · exact (eq_of_forall₂ (mapM_eq_ok.mp hstages) hbuilt.progressiveStages
        (fun _ _ _ => stageOfInput_stageInput)).symm
  · cases h

end CohortSwitch
