import CohortSwitch.Models

/-!
# The inputs of the management API

The request models of the flag endpoints. As in `CohortSwitch.Models` each
structure carries the constraint its model validates, so a payload that exists
is one the schema accepted; `create` is the constructor the service itself
calls when it turns a compiled configuration back into a payload.

`FlagContent` is what the payloads of a creation and of an update share: the
part that becomes a configuration. The other fields of a payload say which flag
is meant and which version the caller has seen; `expectedVersion` is what an
update is compared with, and the bound on it is the schema's own.

A percentage of the API is one of basis points, ten thousand in all, where the
engine counts buckets: a rollout names the share of each variation, and the
boundaries are sums of shares. A stage names an instant with an offset, since
the validator refuses a naive one.

The payloads of organizations, projects, environments and keys come last. They
carry no configuration; what matters of them is which tenant they name.
-/

namespace CohortSwitch

/-- The pattern `^[a-zA-Z0-9][a-zA-Z0-9_-]{0,99}$`. -/
def isVariationKey (key : String) : Bool :=
  match key.toList with
  | [] => false
  | c :: rest => (c.isAlpha || c.isDigit) && rest.length ≤ 99
      && rest.all (fun d => d.isAlpha || d.isDigit || d == '_' || d == '-')

theorem isVariationKey_on : isVariationKey "on" = true := by decide

theorem isVariationKey_off : isVariationKey "off" = true := by decide

/-- One variation of a payload. -/
structure VariationInput where
  key : String
  value : Json
  keyPattern : isVariationKey key = true

def VariationInput.create (key : String) (value : Json) : Except PyError VariationInput :=
  if h : isVariationKey key = true then .ok ⟨key, value, h⟩
  else .error (.validationError "String should match pattern")

/-- The operators a condition may name. -/
def conditionOperators : List String :=
  ["equals", "not_equals", "in", "not_in", "contains", "starts_with", "ends_with", "exists",
    "not_exists", "greater_than", "greater_or_equal", "less_than", "less_or_equal",
    "semver_equal", "semver_greater", "semver_less"]

/-- One condition of a payload. An operator that the engine does not know is refused here. -/
structure ConditionInput where
  attributeName : String
  operator : String
  value : Json
  attributeLength : 1 ≤ attributeName.length ∧ attributeName.length ≤ 200
  operatorKnown : operator ∈ conditionOperators

def ConditionInput.create (attributeName operator : String) (value : Json) :
    Except PyError ConditionInput :=
  if h : (1 ≤ attributeName.length ∧ attributeName.length ≤ 200)
      ∧ operator ∈ conditionOperators then
    .ok ⟨attributeName, operator, value, h.1, h.2⟩
  else .error (.validationError "condition")

/-- One share of a payload. -/
structure RolloutInput where
  variation : String
  percentageBasisPoints : ℕ
  percentageRange : 0 < percentageBasisPoints ∧ percentageBasisPoints ≤ 10000

def RolloutInput.create (variation : String) (percentageBasisPoints : ℤ) :
    Except PyError RolloutInput :=
  if h : 0 < percentageBasisPoints.toNat ∧ percentageBasisPoints.toNat ≤ 10000 then
    .ok ⟨variation, percentageBasisPoints.toNat, h⟩
  else .error (.validationError "percentage_basis_points range")

/-- One stage of a payload. -/
structure ProgressiveStageInput where
  percentageBasisPoints : ℕ
  variation : String
  fallbackVariation : String
  activateAt : Datetime
  percentageRange : percentageBasisPoints ≤ 10000
  /-- A naive instant is refused. -/
  timezoneAware : activateAt.utcoffset.isSome = true

def ProgressiveStageInput.create (percentageBasisPoints : ℕ)
    (variation fallbackVariation : String) (activateAt : Datetime) :
    Except PyError ProgressiveStageInput :=
  if h : percentageBasisPoints ≤ 10000 ∧ activateAt.utcoffset.isSome = true then
    .ok ⟨percentageBasisPoints, variation, fallbackVariation, activateAt, h.1, h.2⟩
  else .error (.validationError "activate_at must be timezone-aware")

/-- One rule of a payload. -/
structure RuleInput where
  name : String
  priority : ℤ
  conditions : List ConditionInput
  variation : Option String
  rollout : List RolloutInput
  progressiveStages : List ProgressiveStageInput
  nameLength : 1 ≤ name.length ∧ name.length ≤ 200
  priorityRange : 0 ≤ priority
  /-- Exactly one of a variation, a rollout and stages. -/
  requireSingleAction : actionCount variation rollout progressiveStages = 1

def RuleInput.create (name : String) (priority : ℤ) (conditions : List ConditionInput)
    (variation : Option String) (rollout : List RolloutInput)
    (progressiveStages : List ProgressiveStageInput) : Except PyError RuleInput :=
  if h : (1 ≤ name.length ∧ name.length ≤ 200) ∧ 0 ≤ priority
      ∧ actionCount variation rollout progressiveStages = 1 then
    .ok ⟨name, priority, conditions, variation, rollout, progressiveStages, h.1, h.2.1, h.2.2⟩
  else .error (.validationError
    "A rule must define one of variation, rollout, or progressive_stages")

/-- **What a payload says about the configuration of a flag.** Whether the parts fit together is
not checked here but by the validators of the configuration. -/
structure FlagContent where
  enabled : Bool
  defaultVariation : String
  variations : List VariationInput
  rules : List RuleInput
  rollout : List RolloutInput
  progressiveStages : List ProgressiveStageInput
  variationsNonempty : variations ≠ []

/-- The pattern `^[a-z][a-z0-9_]{1,118}[a-z0-9]$`. -/
def isFlagKey (key : String) : Bool :=
  match key.toList with
  | [] => false
  | c :: rest =>
    c.isLower && 2 ≤ rest.length && rest.length ≤ 119
      && rest.dropLast.all (fun d => d.isLower || d.isDigit || d == '_')
      && rest.getLast?.any (fun d => d.isLower || d.isDigit)

/-- A new flag, with the content of its first version. -/
structure FlagCreate extends FlagContent where
  environmentId : UUID
  key : String
  name : String
  description : String
  flagType : FlagType
  keyPattern : isFlagKey key = true
  nameLength : 1 ≤ name.length ∧ name.length ≤ 200
  descriptionLength : description.length ≤ 4000

/-- A new version of a flag, in one environment. A name and a description are those of the flag
itself. -/
structure FlagUpdate extends FlagContent where
  environmentId : UUID
  /-- The version the caller has seen. Another one makes the update a conflict. -/
  expectedVersion : ℕ
  name : Option String
  description : Option String
  expectedVersionRange : 1 ≤ expectedVersion
  nameLength : ∀ n, name = some n → 1 ≤ n.length ∧ n.length ≤ 200
  descriptionLength : ∀ d, description = some d → d.length ≤ 4000

theorem FlagUpdate.variations_ne_nil (payload : FlagUpdate) : payload.variations ≠ [] :=
  payload.variationsNonempty

/-- No name is in order. -/
theorem nameLength_none : ∀ n : String, none = some n → 1 ≤ n.length ∧ n.length ≤ 200 := nofun

/-- No description is in order. -/
theorem descriptionLength_none : ∀ d : String, none = some d → d.length ≤ 4000 := nofun

/-- The constructor call of the service, which names no new name and no new
description. -/
def FlagUpdate.create (environmentId : UUID) (expectedVersion : ℕ) (enabled : Bool)
    (defaultVariation : String) (variations : List VariationInput) (rules : List RuleInput)
    (rollout : List RolloutInput) (progressiveStages : List ProgressiveStageInput) :
    Except PyError FlagUpdate :=
  if h : 1 ≤ expectedVersion ∧ variations ≠ [] then
    .ok {
      enabled, defaultVariation, variations, rules, rollout, progressiveStages
      variationsNonempty := h.2
      environmentId, expectedVersion
      name := none
      description := none
      expectedVersionRange := h.1
      nameLength := nameLength_none
      descriptionLength := descriptionLength_none }
  else .error (.validationError "FlagUpdate")

/-- A rule to be added to a flag. -/
structure RuleCreate where
  environmentId : UUID
  expectedVersion : ℕ
  rule : RuleInput
  expectedVersionRange : 1 ≤ expectedVersion

/-- A version to go back to is named in the path; the payload says from which version. -/
structure RollbackRequest where
  environmentId : UUID
  expectedVersion : ℕ
  expectedVersionRange : 1 ≤ expectedVersion

/-- A change for later. Its own payload is any object. -/
structure ScheduledChangeCreate where
  environmentId : UUID
  expectedVersion : ℕ
  changeType : String
  payload : Dict Json
  activateAt : Instant
  expectedVersionRange : 1 ≤ expectedVersion
  changeTypeKnown : changeType ∈ ["enable", "disable", "rollout_percentage", "variation"]

/-! ## Organizations, projects, environments and keys -/

/-- The pattern `^[a-z0-9][a-z0-9-]{1,98}[a-z0-9]$`. -/
def isSlug (slug : String) : Bool :=
  match slug.toList with
  | [] => false
  | c :: rest =>
    (c.isLower || c.isDigit) && 2 ≤ rest.length && rest.length ≤ 99
      && rest.dropLast.all (fun d => d.isLower || d.isDigit || d == '-')
      && rest.getLast?.any (fun d => d.isLower || d.isDigit)

/-- The pattern `^[a-z][a-z0-9_-]{1,62}[a-z0-9]$`. -/
def isEnvironmentKey (key : String) : Bool :=
  match key.toList with
  | [] => false
  | c :: rest =>
    c.isLower && 2 ≤ rest.length && rest.length ≤ 63
      && rest.dropLast.all (fun d => d.isLower || d.isDigit || d == '_' || d == '-')
      && rest.getLast?.any (fun d => d.isLower || d.isDigit)

/-- A new tenant. -/
structure OrganizationCreate where
  name : String
  slug : String
  nameLength : 1 ≤ name.length ∧ name.length ≤ 200
  slugPattern : isSlug slug = true

/-- A new project of an organization. -/
structure ProjectCreate where
  organizationId : UUID
  name : String
  slug : String
  nameLength : 1 ≤ name.length ∧ name.length ≤ 200
  slugPattern : isSlug slug = true

/-- A new environment; its project is named in the path. -/
structure EnvironmentCreate where
  key : String
  name : String
  keyPattern : isEnvironmentKey key = true
  nameLength : 1 ≤ name.length ∧ name.length ≤ 200

/-- A new key. A key of no environment is a management key. -/
structure APIKeyCreate where
  name : String
  organizationId : UUID
  projectId : Option UUID
  environmentId : Option UUID
  /-- What the key may be used for. -/
  scopes : List String
  nameLength : 1 ≤ name.length ∧ name.length ≤ 200
  scopesKnown : ∀ scope ∈ scopes,
    scope ∈ ["flags:read", "flags:write", "evaluate", "audit:read"]

end CohortSwitch
