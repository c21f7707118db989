import CohortSwitch.Engine
import CohortSwitch.Schemas

/-!
# Flags between the API, the engine and the tables

The service keeps one version of a flag in three forms. The API takes and
returns inputs (`FlagContent`), the engine evaluates a `FlagConfiguration`, and
the database holds normalized rows. The functions here are the conversions:
`buildConfiguration` from inputs to a configuration, `updateFromConfiguration`
and `response` back to inputs, `persistChildren` from a configuration to rows,
and `compileConfiguration` from loaded rows to a configuration.

Two cycles go through them. A write builds a configuration from its payload,
stores its rows and its snapshot, and answers with the inputs it reads back off
the configuration. A read loads the rows, compiles them, and evaluates or
exports the result. That the cycles close, and up to what, is the subject of the
modules after this one.

## Loaded graphs

A loaded configuration is an object graph: the ORM reads the row of the
configuration and then one collection per relation, each in whatever order the
database returns it. `Loads` says which graphs the tables may give. No
relationship of the models declares an order, so a graph is any arrangement of
the rows, and compiling sorts what it sorts itself.

## What a built configuration holds

`buildConfiguration` is a long block with several ways to fail, and its callers
need one thing of it: what the result holds. `Built` lists that, field by field,
and `buildConfiguration_eq_ok_iff` is the only place where the block is taken
apart. In the same spirit `ruleOfInput_eq_ok_iff` speaks for the rules.
-/

namespace CohortSwitch

/-! ## Rows -/

/-- A project, the unit flags belong to. -/
structure ProjectRow where
  id : UUID
  organizationId : UUID
  name : String
  slug : String

/-- An environment of a project. Its revision counts the changes of its flags. -/
structure EnvironmentRow where
  id : UUID
  projectId : UUID
  key : String
  name : String
  /-- Goes up with each change of a flag of the environment. -/
  revision : ℕ

/-- A flag of a project: what it is in every environment. -/
structure FeatureFlagRow where
  id : UUID
  projectId : UUID
  key : String
  name : String
  description : String
  flagType : FlagType
  /-- When the flag was archived, if it was. -/
  archivedAt : Option Instant

/-- A flag in one environment. The children hold the rest of its current version. -/
structure FlagConfigRow where
  id : UUID
  flagId : UUID
  environmentId : UUID
  enabled : Bool
  defaultVariationKey : String
  /-- The version whose children the tables hold. -/
  currentVersion : ℕ
  /-- Chosen at random when the flag is created, and kept. -/
  salt : String

/-- One variation of a configuration. -/
structure FlagVariationRow where
  configId : UUID
  key : String
  value : Json

/-- One rule of a configuration. -/
structure TargetingRuleRow where
  id : UUID
  configId : UUID
  name : String
  priority : ℤ
  enabled : Bool
  serveVariationKey : Option String

/-- One condition of a rule. -/
structure RuleConditionRow where
  ruleId : UUID
  attributeName : String
  operator : String
  value : Json

/-- What a rollout or a stage belongs to. The check constraints
`one_rollout_parent` and `one_stage_parent` ask for exactly one of the two
columns. -/
inductive Parent where
  | config (configId : UUID)
  | rule (ruleId : UUID)
deriving DecidableEq

/-- One share of a rollout, of a configuration or of a rule. -/
structure RolloutAllocationRow where
  parent : Parent
  variationKey : String
  endBucket : ℕ

/-- One stage, of a configuration or of a rule. -/
structure ProgressiveStageRow where
  parent : Parent
  variationKey : String
  fallbackVariationKey : String
  percentageBasisPoints : ℕ
  activateAt : Instant

/-- **The child tables**: what a configuration has besides its own row. -/
structure ChildTables where
  variations : List FlagVariationRow
  rules : List TargetingRuleRow
  conditions : List RuleConditionRow
  rollouts : List RolloutAllocationRow
  progressiveStages : List ProgressiveStageRow

/-! ## Loaded configurations -/

/-- A rule with its loaded collections. -/
structure LoadedRule where
  row : TargetingRuleRow
  conditions : List RuleConditionRow
  rollouts : List RolloutAllocationRow
  progressiveStages : List ProgressiveStageRow

/-- **A configuration with its loaded collections.** -/
structure LoadedConfig where
  row : FlagConfigRow
  flag : FeatureFlagRow
  environment : EnvironmentRow
  variations : List FlagVariationRow
  rollouts : List RolloutAllocationRow
  progressiveStages : List ProgressiveStageRow
  rules : List LoadedRule

/-- **A rule as the tables may give it**: no relationship declares an order, so
each collection is some arrangement of its rows. -/
structure LoadsRule (tables : ChildTables) (rule : LoadedRule) : Prop where
  conditions : rule.conditions.Perm
    (tables.conditions.filter (fun row => row.ruleId = rule.row.id))
  rollouts : rule.rollouts.Perm
    (tables.rollouts.filter (fun row => row.parent = .rule rule.row.id))
  progressiveStages : rule.progressiveStages.Perm
    (tables.progressiveStages.filter (fun row => row.parent = .rule rule.row.id))

/-- **A configuration as the tables may give it.** -/
structure Loads (tables : ChildTables) (config : LoadedConfig) : Prop where
  variations : config.variations.Perm
    (tables.variations.filter (fun row => row.configId = config.row.id))
  rollouts : config.rollouts.Perm
    (tables.rollouts.filter (fun row => row.parent = .config config.row.id))
  progressiveStages : config.progressiveStages.Perm
    (tables.progressiveStages.filter (fun row => row.parent = .config config.row.id))
  rules : (config.rules.map LoadedRule.row).Perm
    (tables.rules.filter (fun row => row.configId = config.row.id))
  children : ∀ rule ∈ config.rules, LoadsRule tables rule

/-! ## From rows to a configuration -/

/-- `_engine_stage`. -/
def engineStage (stage : ProgressiveStageRow) : Except PyError ProgressiveStage :=
  ProgressiveStage.create stage.percentageBasisPoints stage.variationKey
    stage.fallbackVariationKey (Datetime.ofInstant stage.activateAt)

/-- The allocation of one row. -/
def engineAllocation (item : RolloutAllocationRow) : Except PyError RolloutAllocation :=
  RolloutAllocation.create item.variationKey item.endBucket

/-- The condition of one row. -/
def engineCondition (row : RuleConditionRow) : Except PyError Condition :=
  Condition.create row.attributeName row.operator row.value

/-- One rule of `compile_configuration`. -/
def compileRule (rule : LoadedRule) : Except PyError TargetingRule := do
  let conditions ← rule.conditions.mapM engineCondition
  let rollout ←
    (sortedBy RolloutAllocationRow.endBucket rule.rollouts).mapM engineAllocation
  let progressiveStages ← rule.progressiveStages.mapM engineStage
  TargetingRule.create rule.row.name rule.row.priority conditions rule.row.serveVariationKey
    rollout progressiveStages

/-- **`compile_configuration`**: rules by priority and rollouts by boundary,
stages and conditions in the order they were loaded. -/
def compileConfiguration (config : LoadedConfig) : Except PyError FlagConfiguration := do
  let rules ← ((sortedBy (fun rule => rule.row.priority) config.rules).filter
    (fun rule => rule.row.enabled)).mapM compileRule
  let rollout ←
    (sortedBy RolloutAllocationRow.endBucket config.rollouts).mapM engineAllocation
  let progressiveStages ← config.progressiveStages.mapM engineStage
  FlagConfiguration.create {
    projectId := config.flag.projectId.str
    environmentId := config.row.environmentId.str
    environmentKey := config.environment.key
    flagId := config.row.flagId.str
    flagKey := config.flag.key
    flagType := config.flag.flagType
    enabled := config.row.enabled
    defaultVariation := config.row.defaultVariationKey
    variations := Dict.ofPairs (config.variations.map (fun item => (item.key, item.value)))
    configVersion := config.row.currentVersion
    salt := config.row.salt
    rules, rollout, progressiveStages }

/-! ## From inputs to a configuration -/

/-- The loop of `_rollout_allocations`, from a boundary on. -/
def allocationsFrom (boundary : ℕ) : List RolloutInput → Except PyError (List RolloutAllocation)
  | [] => .ok []
  | item :: rest => do
    let allocation ←
      RolloutAllocation.create item.variation (boundary + item.percentageBasisPoints)
    let allocations ← allocationsFrom (boundary + item.percentageBasisPoints) rest
    pure (allocation :: allocations)

/-- `_rollout_allocations`: percentages become exclusive boundaries, and the last one has to be
the number of buckets. A rollout that is empty stays so. -/
def rolloutAllocations (inputs : List RolloutInput) :
    Except PyError (List RolloutAllocation) := do
  let allocations ← allocationsFrom 0 inputs
  raiseIf (inputs ≠ [] ∧ (inputs.map RolloutInput.percentageBasisPoints).sum ≠ 10000)
    (.apiError 422 "invalid_rollout"
      "Rollout percentages must add up to exactly 10000 basis points." [])
  pure allocations

/-- `EngineProgressiveStage.model_validate(item.model_dump())`. -/
def stageOfInput (item : ProgressiveStageInput) : Except PyError ProgressiveStage :=
  ProgressiveStage.create item.percentageBasisPoints item.variation item.fallbackVariation
    item.activateAt

/-- `Condition.model_validate(item.model_dump())`. -/
def conditionOfInput (item : ConditionInput) : Except PyError Condition :=
  Condition.create item.attributeName item.operator item.value

/-- One rule of `_build_configuration`. -/
def ruleOfInput (rule : RuleInput) : Except PyError TargetingRule := do
  let conditions ← rule.conditions.mapM conditionOfInput
  let rollout ← rolloutAllocations rule.rollout
  let progressiveStages ← rule.progressiveStages.mapM stageOfInput
  TargetingRule.create rule.name rule.priority conditions rule.variation rollout
    progressiveStages

/-- `except ValueError`: such an exception becomes the service's own error. -/
def invalidFlagConfiguration {α : Type} : Except PyError α → Except PyError α
  | .ok a => .ok a
  | .error e =>
    if e.isValueError then .error (.apiError 422 "invalid_flag_configuration" e.text [])
    else .error e

/-- **`_build_configuration`**: the configuration a payload describes. What is
wrong with the rules raises as it is; what is wrong with the flag's own
rollout and stages, and what the validators refuse, becomes a 422. -/
def buildConfiguration (projectId : UUID) (environment : EnvironmentRow)
    (flag : FeatureFlagRow) (content : FlagContent) (version : ℕ) (salt : String) :
    Except PyError FlagConfiguration := do
  raiseIf (¬ (content.variations.map VariationInput.key).Nodup)
    (.apiError 422 "duplicate_variation" "Variation keys must be unique." [])
  raiseIf (¬ (content.rules.map RuleInput.priority).Nodup)
    (.apiError 422 "duplicate_rule_priority" "Rule priorities must be unique." [])
  raiseIf (content.rollout ≠ [] ∧ content.progressiveStages ≠ [])
    (.apiError 422 "invalid_flag_action" "Use rollout or progressive stages, not both." [])
  let rules ← content.rules.mapM ruleOfInput
  invalidFlagConfiguration (do
    let rollout ← rolloutAllocations content.rollout
    let progressiveStages ← content.progressiveStages.mapM stageOfInput
    FlagConfiguration.create {
      projectId := projectId.str
      environmentId := environment.id.str
      environmentKey := environment.key
      flagId := flag.id.str
      flagKey := flag.key
      flagType := flag.flagType
      enabled := content.enabled
      defaultVariation := content.defaultVariation
      variations := Dict.ofPairs (content.variations.map (fun item => (item.key, item.value)))
      configVersion := version
      salt := salt
      rules, rollout, progressiveStages })

/-! ## From a configuration to inputs -/

/-- The loop of `_rollout_inputs`, after a boundary. -/
def rolloutInputsFrom (previous : ℕ) : List RolloutAllocation → Except PyError (List RolloutInput)
  | [] => .ok []
  | item :: rest => do
    let value ← RolloutInput.create item.variation ((item.endBucket : ℤ) - previous)
    let values ← rolloutInputsFrom item.endBucket rest
    pure (value :: values)

/-- `_rollout_inputs`: boundaries become percentages. -/
def rolloutInputs (rollout : List RolloutAllocation) : Except PyError (List RolloutInput) :=
  rolloutInputsFrom 0 rollout

/-- The input of one stage. -/
def stageInput (stage : ProgressiveStage) : Except PyError ProgressiveStageInput :=
  ProgressiveStageInput.create stage.percentageBasisPoints stage.variation
    stage.fallbackVariation (Datetime.ofInstant stage.activateAt)

/-- The input of one condition. -/
def conditionInput (item : Condition) : Except PyError ConditionInput :=
  ConditionInput.create item.attributeName item.operator item.value

/-- `_rule_input`. -/
def ruleInput (rule : TargetingRule) : Except PyError RuleInput := do
  let conditions ← rule.conditions.mapM conditionInput
  let rollout ← rolloutInputs rule.rollout
  let progressiveStages ← rule.progressiveStages.mapM stageInput
  RuleInput.create rule.name rule.priority conditions rule.variation rollout progressiveStages

/-- The inputs of the variations. -/
def variationInputs (variations : Dict Json) : Except PyError (List VariationInput) :=
  variations.items.mapM (fun item => VariationInput.create item.1 item.2)

/-- **`_update_from_configuration`**: the payload that describes a
configuration. -/
def updateFromConfiguration (config : FlagConfiguration) (environmentId : UUID)
    (expectedVersion : ℕ) : Except PyError FlagUpdate := do
  let variations ← variationInputs config.variations
  let rules ← config.rules.mapM ruleInput
  let rollout ← rolloutInputs config.rollout
  let progressiveStages ← config.progressiveStages.mapM stageInput
  FlagUpdate.create environmentId expectedVersion config.enabled config.defaultVariation
    variations rules rollout progressiveStages

/-- `FlagResponse`: a flag as the API returns it, in one environment. -/
structure FlagResponse where
  id : UUID
  projectId : UUID
  environmentId : String
  key : String
  name : String
  description : String
  flagType : FlagType
  enabled : Bool
  defaultVariation : String
  currentVersion : ℕ
  archivedAt : Option Instant
  variations : List VariationInput
  rules : List RuleInput
  rollout : List RolloutInput
  progressiveStages : List ProgressiveStageInput

/-- `_response`. The environment's id stays the text it is parsed from. -/
def response (flag : FeatureFlagRow) (config : FlagConfiguration) :
    Except PyError FlagResponse := do
  let variations ← variationInputs config.variations
  let rules ← config.rules.mapM ruleInput
  let rollout ← rolloutInputs config.rollout
  let progressiveStages ← config.progressiveStages.mapM stageInput
  pure {
    id := flag.id
    projectId := flag.projectId
    environmentId := config.environmentId
    key := flag.key
    name := flag.name
    description := flag.description
    flagType := config.flagType
    enabled := config.enabled
    defaultVariation := config.defaultVariation
    currentVersion := config.configVersion
    archivedAt := flag.archivedAt
    variations, rules, rollout, progressiveStages }

/-- `append_rule_update`: the payload of the loaded configuration with one
more rule at its end. -/
def appendRuleUpdate (config : LoadedConfig) (rule : RuleInput) (expectedVersion : ℕ) :
    Except PyError FlagUpdate := do
  let compiled ← compileConfiguration config
  let payload ← updateFromConfiguration compiled config.row.environmentId expectedVersion
  pure { payload with rules := payload.rules ++ [rule] }

/-! ## From a configuration to rows -/

/-- The row of one variation. -/
def dbVariation (configId : UUID) (item : String × Json) : FlagVariationRow :=
  ⟨configId, item.1, item.2⟩

/-- `_db_stage`. -/
def dbStage (parent : Parent) (stage : ProgressiveStage) : ProgressiveStageRow :=
  ⟨parent, stage.variation, stage.fallbackVariation, stage.percentageBasisPoints,
    stage.activateAt⟩

/-- The row of one allocation. -/
def dbAllocation (parent : Parent) (allocation : RolloutAllocation) : RolloutAllocationRow :=
  ⟨parent, allocation.variation, allocation.endBucket⟩

/-- The row of one condition. -/
def dbCondition (ruleId : UUID) (condition : Condition) : RuleConditionRow :=
  ⟨ruleId, condition.attributeName, condition.operator, condition.value⟩

/-- The row of one rule. -/
def dbRule (configId ruleId : UUID) (rule : TargetingRule) : TargetingRuleRow :=
  ⟨ruleId, configId, rule.name, rule.priority, true, rule.variation⟩

/-- The rules of a configuration with the ids of their rows. -/
def identified (ruleIds : ℕ → UUID) (rules : List TargetingRule) :
    List (UUID × TargetingRule) :=
  rules.zipIdx.map (fun item => (ruleIds item.2, item.1))

/-- **`_persist_children`**: the rows of a configuration. -/
def persistChildren (ruleIds : ℕ → UUID) (configId : UUID) (compiled : FlagConfiguration) :
    ChildTables where
  variations := compiled.variations.items.map (dbVariation configId)
  rules := (identified ruleIds compiled.rules).map (fun item => dbRule configId item.1 item.2)
  conditions := (identified ruleIds compiled.rules).flatMap
    (fun item => item.2.conditions.map (dbCondition item.1))
  rollouts := compiled.rollout.map (dbAllocation (.config configId))
    ++ (identified ruleIds compiled.rules).flatMap
      (fun item => item.2.rollout.map (dbAllocation (.rule item.1)))
  progressiveStages := compiled.progressiveStages.map (dbStage (.config configId))
    ++ (identified ruleIds compiled.rules).flatMap
      (fun item => item.2.progressiveStages.map (dbStage (.rule item.1)))

/-! ## What a built configuration holds -/

/-- What a rule built from an input holds. Conditions and stages keep their order. -/
structure RuleBuilt (input : RuleInput) (rule : TargetingRule) : Prop where
  name : rule.name = input.name
  priority : rule.priority = input.priority
  variation : rule.variation = input.variation
  conditions : List.Forall₂ (fun item condition => conditionOfInput item = .ok condition)
    input.conditions rule.conditions
  rollout : rolloutAllocations input.rollout = .ok rule.rollout
  progressiveStages : List.Forall₂ (fun item stage => stageOfInput item = .ok stage)
    input.progressiveStages rule.progressiveStages

/-- A rule is built exactly from an input that describes it. -/
theorem ruleOfInput_eq_ok_iff {input : RuleInput} {rule : TargetingRule} :
    ruleOfInput input = .ok rule ↔ RuleBuilt input rule := by
  unfold ruleOfInput
  constructor
  · intro h
    obtain ⟨conditions, hc, h⟩ := bind_eq_ok.mp h
    obtain ⟨rollout, hr, h⟩ := bind_eq_ok.mp h
    obtain ⟨stages, hs, h⟩ := bind_eq_ok.mp h
    unfold TargetingRule.create at h
    split at h
    · cases h
      exact ⟨rfl, rfl, rfl, mapM_eq_ok.mp hc, hr, mapM_eq_ok.mp hs⟩
    · cases h
  · intro h
    refine bind_eq_ok.mpr ⟨_, mapM_eq_ok.mpr h.conditions, ?_⟩
    refine bind_eq_ok.mpr ⟨_, h.rollout, bind_eq_ok.mpr ⟨_, mapM_eq_ok.mpr h.progressiveStages, ?_⟩⟩
    rw [← h.name, ← h.priority, ← h.variation]
    exact dif_pos rule.requireAction

/-- **What a configuration built from a payload holds.** The last three fields are checks that
leave no trace in the result: a payload that repeats a key or a priority, or that has two
actions, builds nothing. -/
structure Built (projectId : UUID) (environment : EnvironmentRow) (flag : FeatureFlagRow)
    (content : FlagContent) (version : ℕ) (salt : String) (c : ConfigurationFields) :
    Prop where
  projectId : c.projectId = projectId.str
  environmentId : c.environmentId = environment.id.str
  environmentKey : c.environmentKey = environment.key
  flagId : c.flagId = flag.id.str
  flagKey : c.flagKey = flag.key
  flagType : c.flagType = flag.flagType
  enabled : c.enabled = content.enabled
  defaultVariation : c.defaultVariation = content.defaultVariation
  variations : c.variations.items
    = content.variations.map (fun item => (item.key, coerceFlagValue item.value))
  configVersion : c.configVersion = version
  salt : c.salt = salt
  rules : List.Forall₂ RuleBuilt content.rules c.rules
  rollout : rolloutAllocations content.rollout = .ok c.rollout
  progressiveStages : List.Forall₂ (fun item stage => stageOfInput item = .ok stage)
    content.progressiveStages c.progressiveStages
  keysNodup : (content.variations.map VariationInput.key).Nodup
  prioritiesNodup : (content.rules.map RuleInput.priority).Nodup
  oneAction : content.rollout = [] ∨ content.progressiveStages = []

/-- The handler lets results through. -/
theorem invalidFlagConfiguration_eq_ok {α : Type} {x : Except PyError α} {a : α} :
    invalidFlagConfiguration x = .ok a ↔ x = .ok a := by
  unfold invalidFlagConfiguration
  cases x with
  | ok b => exact Iff.rfl
  | error e =>
    dsimp only
    split <;> exact ⟨fun h => (by cases h), fun h => (by cases h)⟩

/-- The items of the variations of a payload. -/
theorem items_ofInputs {variations : List VariationInput}
    (h : (variations.map VariationInput.key).Nodup) :
    (Dict.ofPairs (variations.map (fun item => (item.key, item.value)))).items
      = variations.map (fun item => (item.key, item.value)) :=
  Dict.items_ofPairs (by rwa [List.map_map])

/-- **`_build_configuration` returns what the payload describes.** -/
theorem buildConfiguration_eq_ok_iff {projectId : UUID} {environment : EnvironmentRow}
    {flag : FeatureFlagRow} {content : FlagContent} {version : ℕ} {salt : String}
    {c : FlagConfiguration} :
    buildConfiguration projectId environment flag content version salt = .ok c
      ↔ Built projectId environment flag content version salt c.toConfigurationFields := by
  have hrules : ∀ rules, content.rules.mapM ruleOfInput = .ok rules
      ↔ List.Forall₂ RuleBuilt content.rules rules := by
    intro rules
    rw [mapM_eq_ok]
    simp only [ruleOfInput_eq_ok_iff]
  unfold buildConfiguration
  -- the three checks in the order of the source
  rw [raiseIf_bind_eq_ok, raiseIf_bind_eq_ok, raiseIf_bind_eq_ok, bind_eq_ok, not_not, not_not]
  constructor
  · rintro ⟨hkeys, hprio, hone, rules, hr, h⟩
    rw [invalidFlagConfiguration_eq_ok] at h
    obtain ⟨rollout, hro, h⟩ := bind_eq_ok.mp h
    obtain ⟨stages, hst, h⟩ := bind_eq_ok.mp h
    have hfields := FlagConfiguration.create_eq_ok_iff.mp h
    rw [hfields]
    refine ⟨rfl, rfl, rfl, rfl, rfl, rfl, rfl, rfl, ?_, rfl, rfl, (hrules rules).mp hr, hro,
      mapM_eq_ok.mp hst, hkeys, hprio, ?_⟩
    · show List.map _ (Dict.ofPairs _).items = _
      rw [items_ofInputs hkeys, List.map_map]
      rfl
    · exact or_iff_not_imp_left.mpr (fun hne => not_not.mp (fun hs => hone ⟨hne, hs⟩))
  · intro h
    refine ⟨h.keysNodup, h.prioritiesNodup, ?_, c.rules, (hrules _).mpr h.rules, ?_⟩
    · rintro ⟨hr, hs⟩
      exact h.oneAction.elim hr hs
    rw [invalidFlagConfiguration_eq_ok]
    refine bind_eq_ok.mpr ⟨_, h.rollout, bind_eq_ok.mpr ⟨_, mapM_eq_ok.mpr h.progressiveStages, ?_⟩⟩
    rw [FlagConfiguration.create_eq_ok_iff]
    have hvar : c.variations = Dict.mapValues coerceFlagValue
        (Dict.ofPairs (content.variations.map (fun item => (item.key, item.value)))) := by
      refine Dict.ext ?_
      show _ = List.map _ (Dict.ofPairs _).items
      rw [items_ofInputs h.keysNodup, List.map_map, h.variations]
      rfl
    unfold ConfigurationFields.coerced
    rw [← hvar, ← h.projectId, ← h.environmentId, ← h.environmentKey, ← h.flagId, ← h.flagKey,
      ← h.flagType, ← h.enabled, ← h.defaultVariation, ← h.configVersion, ← h.salt]

/-- Building a rule keeps its priority. -/
theorem map_priority_of_built {inputs : List RuleInput} {rules : List TargetingRule}
    (h : List.Forall₂ RuleBuilt inputs rules) :
    rules.map TargetingRule.priority = inputs.map RuleInput.priority := by
  induction h with
  | nil => rfl
  | cons hr _ ih => rw [List.map_cons, List.map_cons, hr.priority, ih]

/-- The rules of a built configuration have distinct priorities, so that sorting them is a
matter of the rules alone. -/
theorem Built.priorities {projectId : UUID} {environment : EnvironmentRow}
    {flag : FeatureFlagRow} {content : FlagContent} {version : ℕ} {salt : String}
    {c : ConfigurationFields} (h : Built projectId environment flag content version salt c) :
    (c.rules.map TargetingRule.priority).Nodup := by
  rw [map_priority_of_built h.rules]
  exact h.prioritiesNodup

end CohortSwitch
