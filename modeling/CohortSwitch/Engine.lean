import CohortSwitch.Hashing
import CohortSwitch.Models

/-!
# The evaluation engine

`evaluateFlag` decides which variation a subject gets. The kill switch comes
first; then the rules run by ascending priority, and the first rule whose
conditions all hold acts; then the flag's own stages, its rollout, and the
default variation. Every exit goes through `evaluationResult`, which looks the
variation up in the configuration.

Time is an argument: a stage is active from its timestamp on, and the engine
reads the clock once for a request. So evaluation is a function of the
configuration, the context and the instant, and the theorems about it quantify
over all three.

## Nothing fails but a condition

No exit of a validated configuration can fail: the validators collected every
variation the exits name, a rollout covers every bucket
(`exists_rolloutVariation`), and a stage is selected from any non-empty list
(`exists_progressiveVariation`). Each exit has its own lemma
(`rule_variation_known`, `rule_stages_select`, `rule_rollout_selects`,
`flag_stages_select`, `flag_rollout_selects`), because what makes the selection
known is a different part of the validation each time.

What is left to raise is a condition, and `evaluateFlag_sound` says exactly
that. `RaisedByCondition` names the condition and the rule, so an exception is
never blamed on the engine itself; the operators say which conditions raise.
-/

namespace CohortSwitch

variable [Packaging]

/-! ## The engine -/

/-- `_result`: the outcome with the value stored for the variation. -/
def evaluationResult (config : FlagConfiguration) (variation : String) (reason : Reason)
    (matchedRule : Option String) (evaluatedAt : Instant) :
    Except PyError EvaluationResult :=
  match config.variations.get? variation with
  | some value => .ok ⟨config.flagKey, value, variation, reason, matchedRule,
      config.configVersion, evaluatedAt⟩
  | none => .error (.keyError variation)

/-- `_rollout_variation`: the first allocation whose boundary is past the
bucket. -/
def rolloutVariation : List RolloutAllocation → ℕ → Except PyError String
  | [], _ => .error (.valueError "Invalid rollout: no allocation contains the bucket")
  | allocation :: rest, bucket =>
    if bucket < allocation.endBucket then .ok allocation.variation
    else rolloutVariation rest bucket

/-- `_progressive_variation`: the latest stage that is active, or the fallback
of the first stage before any is. `max` and `min` keep the first of several
stages with the same timestamp. -/
def progressiveVariation (stages : List ProgressiveStage) (bucket : ℕ) (now : Instant) :
    Except PyError String :=
  let active := stages.filter (fun stage => stage.activateAt ≤ now)
  match active.argmax ProgressiveStage.activateAt with
  | none => match stages.argmin ProgressiveStage.activateAt with
    | some first => .ok first.fallbackVariation
    | none => .error (.valueError "min() iterable argument is empty")
  | some current =>
    if bucket < current.percentageBasisPoints then .ok current.variation
    else .ok current.fallbackVariation

/-- `get_bucket`. The source computes it at most once; it is a function of the configuration and
the subject, so computing it again changes nothing. -/
def getBucket (config : FlagConfiguration) (context : EvaluationContext) : Except PyError ℕ :=
  stableBucket config.projectId config.environmentId config.flagKey context.subjectKey
    config.salt

/-- One condition on the attribute it names. -/
def Condition.holds (context : EvaluationContext) (condition : Condition) :
    Except PyError Bool :=
  conditionMatches condition.operator (context.attributes.get? condition.attributeName)
    condition.value

/-- `all(…)` over the conditions of a rule, which stops at the first one that
does not hold. -/
def conditionsHold (context : EvaluationContext) : List Condition → Except PyError Bool
  | [] => .ok true
  | condition :: rest => do
    let holds ← condition.holds context
    if holds then conditionsHold context rest else pure false

/-- What a rule whose conditions hold does: its variation, else its stages, else its rollout. -/
def ruleAction (config : FlagConfiguration) (context : EvaluationContext) (now : Instant)
    (rule : TargetingRule) : Except PyError EvaluationResult :=
  if isTruthy rule.variation then
    evaluationResult config (rule.variation.getD "") .targetingMatch (some rule.name) now
  else if !rule.progressiveStages.isEmpty then do
    let bucket ← getBucket config context
    let variation ← progressiveVariation rule.progressiveStages bucket now
    evaluationResult config variation .progressiveRollout (some rule.name) now
  else do
    let bucket ← getBucket config context
    let variation ← rolloutVariation rule.rollout bucket
    evaluationResult config variation .percentageRollout (some rule.name) now

/-- What the flag does when no rule acts: its stages, else its rollout, else the default. -/
def flagAction (config : FlagConfiguration) (context : EvaluationContext) (now : Instant) :
    Except PyError EvaluationResult :=
  if !config.progressiveStages.isEmpty then do
    let bucket ← getBucket config context
    let variation ← progressiveVariation config.progressiveStages bucket now
    evaluationResult config variation .progressiveRollout none now
  else if !config.rollout.isEmpty then do
    let bucket ← getBucket config context
    let variation ← rolloutVariation config.rollout bucket
    evaluationResult config variation .percentageRollout none now
  else
    evaluationResult config config.defaultVariation .default none now

/-- The loop over the rules, which comes sorted by priority. The first rule whose conditions
hold returns from it. -/
def evaluateRules (config : FlagConfiguration) (context : EvaluationContext) (now : Instant) :
    List TargetingRule → Except PyError EvaluationResult
  | [] => flagAction config context now
  | rule :: rest => do
    let holds ← conditionsHold context rule.conditions
    if holds then ruleAction config context now rule
    else evaluateRules config context now rest

/-- **Which variation does the subject get?** A disabled flag serves its default to everyone. -/
def evaluateFlag (config : FlagConfiguration) (context : EvaluationContext) (now : Instant) :
    Except PyError EvaluationResult :=
  if !config.enabled then
    evaluationResult config config.defaultVariation .flagDisabled none now
  else
    evaluateRules config context now (sortedBy TargetingRule.priority config.rules)

/-! ## The selections cannot fail -/

omit [Packaging] in
/-- A list of allocations that ends past the bucket serves it, with a
variation of the list. -/
theorem exists_rolloutVariation_of_lt {rollout : List RolloutAllocation} {bucket : ℕ}
    (h : ∃ allocation ∈ rollout, bucket < allocation.endBucket) :
    ∃ allocation ∈ rollout, rolloutVariation rollout bucket = .ok allocation.variation := by
  induction rollout with
  | nil =>
    obtain ⟨_, hm, _⟩ := h
    cases hm
  | cons first rest ih =>
    by_cases hlt : bucket < first.endBucket
    · exact ⟨first, List.mem_cons_self, if_pos hlt⟩
    · obtain ⟨last, hm, hl⟩ := h
      have hrest : last ∈ rest := by
        rcases List.mem_cons.mp hm with rfl | hm
        · exact absurd hl hlt
        · exact hm
      obtain ⟨found, hf, hv⟩ := ih ⟨last, hrest, hl⟩
      exact ⟨found, List.mem_cons_of_mem _ hf, (if_neg hlt).trans hv⟩

omit [Packaging] in
/-- **A valid rollout serves every bucket.** -/
theorem exists_rolloutVariation {rollout : List RolloutAllocation} {bucket : ℕ}
    (hvalid : ValidRollout rollout) (hne : rollout ≠ []) (hb : bucket < BUCKET_COUNT) :
    ∃ allocation ∈ rollout, rolloutVariation rollout bucket = .ok allocation.variation := by
  obtain ⟨-, hlast⟩ := hvalid.resolve_left hne
  have hmem := List.mem_of_getLast? hlast
  obtain ⟨last, hl, he⟩ := List.mem_map.mp hmem
  exact exists_rolloutVariation_of_lt ⟨last, hl, he ▸ hb⟩

/-- The stage that counts now: the latest active one. -/
def latestActive (stages : List ProgressiveStage) (now : Instant) : Option ProgressiveStage :=
  (stages.filter (fun stage => stage.activateAt ≤ now)).argmax ProgressiveStage.activateAt

/-- What a stage serves to a bucket. -/
def ProgressiveStage.serves (stage : ProgressiveStage) (bucket : ℕ) : String :=
  if bucket < stage.percentageBasisPoints then stage.variation else stage.fallbackVariation

omit [Packaging] in
/-- The latest active stage decides. -/
theorem progressiveVariation_of_active {stages : List ProgressiveStage} {now : Instant}
    {current : ProgressiveStage} (h : latestActive stages now = some current) (bucket : ℕ) :
    progressiveVariation stages bucket now = .ok (current.serves bucket) := by
  unfold latestActive at h
  unfold progressiveVariation ProgressiveStage.serves
  dsimp only
  rw [h]
  exact (apply_ite Except.ok _ _ _).symm

omit [Packaging] in
/-- Before any stage is active the first stage's fallback is served. -/
theorem progressiveVariation_of_inactive {stages : List ProgressiveStage} {now : Instant}
    {first : ProgressiveStage} (h : latestActive stages now = none)
    (hmin : stages.argmin ProgressiveStage.activateAt = some first) (bucket : ℕ) :
    progressiveVariation stages bucket now = .ok first.fallbackVariation := by
  unfold latestActive at h
  unfold progressiveVariation
  dsimp only
  rw [h, hmin]

omit [Packaging] in
/-- **A stage is selected from any non-empty list.** -/
theorem exists_progressiveVariation {stages : List ProgressiveStage} (hne : stages ≠ [])
    (bucket : ℕ) (now : Instant) :
    ∃ variation ∈ stageReferences stages,
      progressiveVariation stages bucket now = .ok variation := by
  have href : ∀ stage ∈ stages, stage.variation ∈ stageReferences stages
      ∧ stage.fallbackVariation ∈ stageReferences stages := fun stage hs =>
    ⟨List.mem_flatMap.mpr ⟨stage, hs, by simp⟩, List.mem_flatMap.mpr ⟨stage, hs, by simp⟩⟩
  cases hact : latestActive stages now with
  | none =>
    cases hmin : stages.argmin ProgressiveStage.activateAt with
    | none => exact absurd (List.argmin_eq_none.mp hmin) hne
    | some first =>
      exact ⟨first.fallbackVariation, (href first (List.argmin_mem hmin)).2,
        progressiveVariation_of_inactive hact hmin bucket⟩
  | some current =>
    have hc : current ∈ stages := List.mem_of_mem_filter (List.argmax_mem hact)
    refine ⟨current.serves bucket, ?_, progressiveVariation_of_active hact bucket⟩
    unfold ProgressiveStage.serves
    split
    · exact (href current hc).1
    · exact (href current hc).2

/-! ## Soundness -/

/-- **An outcome the configuration promises**: the variation is one of its keys, the value is
the one stored there, and it has the type of the flag. -/
def SoundResult (config : FlagConfiguration) (result : EvaluationResult) : Prop :=
  config.variations.get? result.variation = some result.value
    ∧ hasType config.flagType result.value = true

omit [Packaging] in
/-- The result for a variation the configuration knows. -/
theorem exists_evaluationResult {config : FlagConfiguration} {variation : String}
    (h : variation ∈ config.variations.keys) (reason : Reason) (matchedRule : Option String)
    (now : Instant) :
    ∃ result, evaluationResult config variation reason matchedRule now = .ok result
      ∧ SoundResult config result := by
  obtain ⟨value, hv⟩ := Dict.exists_get?_of_mem_keys h
  have htype := config.valid.typed _ (Dict.mem_items_iff.mpr hv)
  unfold evaluationResult
  rw [hv]
  exact ⟨_, rfl, hv, htype⟩

omit [Packaging] in
/-- A bucketed exit: once the bucket exists and the selection gives a known
variation, the exit has a sound result. -/
theorem exists_bucketed {config : FlagConfiguration} {context : EvaluationContext}
    {select : ℕ → Except PyError String}
    (hbucket : ∃ bucket, getBucket config context = .ok bucket)
    (hselect : ∀ bucket < BUCKET_COUNT, ∃ variation ∈ config.variations.keys,
      select bucket = .ok variation)
    (reason : Reason) (matchedRule : Option String) (now : Instant) :
    ∃ result, (do
        let bucket ← getBucket config context
        let variation ← select bucket
        evaluationResult config variation reason matchedRule now) = .ok result
      ∧ SoundResult config result := by
  obtain ⟨bucket, hb⟩ := hbucket
  obtain ⟨variation, hk, hs⟩ := hselect bucket (stableBucket_lt hb)
  obtain ⟨result, hr, hsound⟩ := exists_evaluationResult hk reason matchedRule now
  exact ⟨result, bind_eq_ok.mpr ⟨bucket, hb, bind_eq_ok.mpr ⟨variation, hs, hr⟩⟩, hsound⟩

section Selects

variable {config : FlagConfiguration} {rule : TargetingRule} {bucket : ℕ}

omit [Packaging] in
/-- The configuration knows every variation its rules name. -/
theorem rule_references_known (hrule : rule ∈ config.rules) :
    ∀ name ∈ rule.references, name ∈ config.variations.keys := by
  intro name hn
  refine config.valid.referencesKnown name ?_
  unfold ConfigurationFields.references
  simp only [List.mem_append, List.mem_flatMap]
  exact Or.inl (Or.inr ⟨rule, hrule, hn⟩)

omit [Packaging] in
/-- The variation of a rule is known. -/
theorem rule_variation_known (hrule : rule ∈ config.rules) (hv : isTruthy rule.variation = true) :
    rule.variation.getD "" ∈ config.variations.keys := by
  refine rule_references_known hrule _ ?_
  unfold TargetingRule.references
  rw [if_pos hv]
  cases hvar : rule.variation with
  | none =>
    rw [hvar] at hv
    cases hv
  | some name => simp

omit [Packaging] in
/-- The stages of a rule select a known variation. -/
theorem rule_stages_select (hrule : rule ∈ config.rules) (hs : rule.progressiveStages ≠ [])
    (now : Instant) : ∃ variation ∈ config.variations.keys,
      progressiveVariation rule.progressiveStages bucket now = .ok variation := by
  obtain ⟨variation, hm, hok⟩ := exists_progressiveVariation hs bucket now
  refine ⟨variation, rule_references_known hrule variation ?_, hok⟩
  unfold TargetingRule.references
  exact List.mem_append_right _ hm

omit [Packaging] in
/-- A rule without a variation and without stages has a rollout, since exactly
one action is defined, and it selects a known variation. -/
theorem rule_rollout_selects (hrule : rule ∈ config.rules) (hv : ¬ isTruthy rule.variation = true)
    (hs : rule.progressiveStages = []) (hb : bucket < BUCKET_COUNT) :
    ∃ variation ∈ config.variations.keys,
      rolloutVariation rule.rollout bucket = .ok variation := by
  have hne : rule.rollout ≠ [] := by
    intro hr
    have hone := rule.requireAction
    simp [actionCount, hv, hs, hr] at hone
  obtain ⟨allocation, ha, hok⟩ :=
    exists_rolloutVariation (config.valid.ruleRolloutsValid rule hrule) hne hb
  refine ⟨allocation.variation, rule_references_known hrule _ ?_, hok⟩
  unfold TargetingRule.references
  simp only [List.mem_append]
  exact Or.inl (Or.inr (List.mem_map_of_mem ha))

omit [Packaging] in
/-- The stages of the flag select a known variation. -/
theorem flag_stages_select (hs : config.progressiveStages ≠ []) (now : Instant) :
    ∃ variation ∈ config.variations.keys,
      progressiveVariation config.progressiveStages bucket now = .ok variation := by
  obtain ⟨variation, hm, hok⟩ := exists_progressiveVariation hs bucket now
  refine ⟨variation, config.valid.referencesKnown variation ?_, hok⟩
  unfold ConfigurationFields.references
  exact List.mem_append_right _ hm

omit [Packaging] in
/-- The rollout of the flag selects a known variation. -/
theorem flag_rollout_selects (hr : config.rollout ≠ []) (hb : bucket < BUCKET_COUNT) :
    ∃ variation ∈ config.variations.keys,
      rolloutVariation config.rollout bucket = .ok variation := by
  obtain ⟨allocation, ha, hok⟩ := exists_rolloutVariation config.valid.rolloutValid hr hb
  refine ⟨allocation.variation, config.valid.referencesKnown _ ?_, hok⟩
  unfold ConfigurationFields.references
  simp only [List.mem_append]
  exact Or.inl (Or.inl (List.mem_map_of_mem ha))

end Selects

omit [Packaging] in
/-- The action of a rule of the configuration has a sound result. -/
theorem exists_ruleAction {config : FlagConfiguration} {context : EvaluationContext}
    (hbucket : ∃ bucket, getBucket config context = .ok bucket) {rule : TargetingRule}
    (hrule : rule ∈ config.rules) (now : Instant) :
    ∃ result, ruleAction config context now rule = .ok result
      ∧ SoundResult config result := by
  unfold ruleAction
  by_cases hv : isTruthy rule.variation = true
  · rw [if_pos hv]
    exact exists_evaluationResult (rule_variation_known hrule hv) _ _ _
  · rw [if_neg hv]
    by_cases hs : rule.progressiveStages = []
    · rw [if_neg (by simp [hs])]
      exact exists_bucketed hbucket (fun _ => rule_rollout_selects hrule hv hs) _ _ _
    · rw [if_pos (by simp [hs])]
      exact exists_bucketed hbucket (fun _ _ => rule_stages_select hrule hs now) _ _ _

omit [Packaging] in
/-- The action of the flag has a sound result. -/
theorem exists_flagAction {config : FlagConfiguration} {context : EvaluationContext}
    (hbucket : ∃ bucket, getBucket config context = .ok bucket) (now : Instant) :
    ∃ result, flagAction config context now = .ok result ∧ SoundResult config result := by
  unfold flagAction
  by_cases hs : config.progressiveStages = []
  · rw [if_neg (by simp [hs])]
    by_cases hr : config.rollout = []
    · rw [if_neg (by simp [hr])]
      exact exists_evaluationResult config.valid.defaultKnown _ _ _
    · rw [if_pos (by simp [hr])]
      exact exists_bucketed hbucket (fun _ => flag_rollout_selects hr) _ _ _
  · rw [if_pos (by simp [hs])]
    exact exists_bucketed hbucket (fun _ _ => flag_stages_select hs now) _ _ _

/-- **An exception of a condition**: some condition of some rule raises it on this context. -/
def RaisedByCondition (config : FlagConfiguration) (context : EvaluationContext)
    (error : PyError) : Prop :=
  ∃ rule ∈ config.rules, ∃ condition ∈ rule.conditions, condition.holds context = .error error

/-- Conditions either have a truth value or one of them raises. A conjunction stops early, so a
condition after a false one never raises. -/
theorem conditionsHold_cases (context : EvaluationContext) (conditions : List Condition) :
    (∃ holds, conditionsHold context conditions = .ok holds)
      ∨ ∃ error, conditionsHold context conditions = .error error
        ∧ ∃ condition ∈ conditions, condition.holds context = .error error := by
  induction conditions with
  | nil => exact Or.inl ⟨true, rfl⟩
  | cons condition rest ih =>
    unfold conditionsHold
    cases hc : condition.holds context with
    | error e => exact Or.inr ⟨e, rfl, condition, List.mem_cons_self, hc⟩
    | ok holds =>
      cases holds with
      | false => exact Or.inl ⟨false, rfl⟩
      | true =>
        rcases ih with ⟨holds, hh⟩ | ⟨e, he, c, hm, hce⟩
        · exact Or.inl ⟨holds, hh⟩
        · exact Or.inr ⟨e, he, c, List.mem_cons_of_mem _ hm, hce⟩

/-- The loop over rules of the configuration raises only what a condition
raises, and what it returns is sound. -/
theorem evaluateRules_sound {config : FlagConfiguration} {context : EvaluationContext}
    (hbucket : ∃ bucket, getBucket config context = .ok bucket) (now : Instant)
    {rules : List TargetingRule} (hrules : ∀ rule ∈ rules, rule ∈ config.rules) :
    (∃ error, evaluateRules config context now rules = .error error
        ∧ RaisedByCondition config context error)
      ∨ ∃ result, evaluateRules config context now rules = .ok result
        ∧ SoundResult config result := by
  induction rules with
  | nil => exact Or.inr (exists_flagAction hbucket now)
  | cons rule rest ih =>
    have hrule := hrules rule List.mem_cons_self
    unfold evaluateRules
    rcases conditionsHold_cases context rule.conditions with
      ⟨holds, hh⟩ | ⟨e, he, condition, hm, hc⟩
    · rw [hh]
      cases holds with
      | true => exact Or.inr (exists_ruleAction hbucket hrule now)
      | false => exact ih (fun r hr => hrules r (List.mem_cons_of_mem _ hr))
    · rw [he]
      exact Or.inl ⟨e, rfl, rule, hrule, condition, hm, hc⟩

/-- **Evaluation is sound for every validated configuration.** When the five
texts of the hash input fit its four-byte lengths, evaluation raises only what
a condition raised, and otherwise returns a variation of the configuration
with the value stored there, which has the flag's declared type. -/
theorem evaluateFlag_sound (config : FlagConfiguration) (context : EvaluationContext)
    (now : Instant)
    (hproject : FitsHash config.projectId) (henvironment : FitsHash config.environmentId)
    (hkey : FitsHash config.flagKey) (hsubject : FitsHash context.subjectKey)
    (hsalt : FitsHash config.salt) :
    (∃ error, evaluateFlag config context now = .error error
        ∧ RaisedByCondition config context error)
      ∨ ∃ result, evaluateFlag config context now = .ok result
        ∧ SoundResult config result := by
  have hbucket : ∃ bucket, getBucket config context = .ok bucket :=
    exists_stableBucket hproject henvironment hkey hsubject hsalt
  unfold evaluateFlag
  by_cases hen : config.enabled = true
  · rw [if_neg (by simp [hen])]
    exact evaluateRules_sound hbucket now (fun rule hr => (mem_sortedBy _).mp hr)
  · rw [if_pos (by simp [hen])]
    exact Or.inr (exists_evaluationResult config.valid.defaultKnown _ _ _)

omit [Packaging] in
theorem country_length : 1 ≤ "country".length ∧ "country".length ≤ 200 := by decide

omit [Packaging] in
theorem sampleVariations_nodup :
    ([("enabled", Json.bool true), ("disabled", .bool false)].map Prod.fst).Nodup := by decide

/-- A configuration with one rule that starts a rollout. -/
def sampleConfiguration : FlagConfiguration where
  projectId := "project"
  environmentId := "production"
  environmentKey := "production"
  flagId := "flag"
  flagKey := "new_checkout"
  flagType := .boolean
  enabled := true
  defaultVariation := "disabled"
  variations := ⟨[("enabled", .bool true), ("disabled", .bool false)], sampleVariations_nodup⟩
  configVersion := 17
  salt := "stable-salt"
  rules := [{
    name := "kazakhstan"
    priority := 0
    conditions := [⟨"country", "equals", .str "KZ", country_length⟩]
    variation := none
    rollout := [⟨"enabled", 5000, by decide⟩, ⟨"disabled", 10000, by decide⟩]
    progressiveStages := []
    requireAction := rfl }]
  rollout := []
  progressiveStages := []
  accepted := rfl

/-- A subject the rule of `sampleConfiguration` matches. -/
def sampleContext : EvaluationContext :=
  ⟨"user_42", ⟨[("country", .str "KZ")], by decide⟩⟩

omit [Packaging] in
theorem evaluateFlag_sound_sample :
    (∃ error, @evaluateFlag .refusing sampleConfiguration sampleContext 0 = .error error
        ∧ @RaisedByCondition .refusing sampleConfiguration sampleContext error)
      ∨ ∃ result, @evaluateFlag .refusing sampleConfiguration sampleContext 0 = .ok result
        ∧ SoundResult sampleConfiguration result :=
  @evaluateFlag_sound .refusing sampleConfiguration sampleContext 0
    (by decide) (by decide) (by decide) (by decide) (by decide)

end CohortSwitch
