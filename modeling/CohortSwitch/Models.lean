import Mathlib.Data.List.Dedup
import Mathlib.Data.String.Basic
import CohortSwitch.Operators

/-!
# The configurations the engine evaluates

A `FlagConfiguration` is the compiled form of one version of a flag in one
environment: the engine evaluates it, the cache stores it, and a version
snapshot is one. Each model here is a structure whose last field states that
its validators accepted it, so a value that exists was accepted; the
constructors `create` run the validators and raise a `validationError` when
one refuses.

## What the validators accept

`ConfigurationFields.validateConfiguration` is the model validator of the
configuration, check by check in the order of the source. Nobody below unfolds
it. `validateConfiguration_eq_ok_iff` turns it once into the record
`ConfigurationFields.Valid`: the default variation is a key, every value has
the declared type, every variation a rule, a rollout or a stage names is a key,
and the boundaries of each rollout increase strictly and end at the number of
buckets. The engine needs exactly these to leave no subject without a
variation.

## Values through the union

Pydantic takes a variation value through a union of types before the validators
see it, and a float that equals a boolean or an integer of 64 bits becomes
that. `coerceFlagValue` is that step, and `FlagConfiguration.create` takes it
first. Values that already have the flag's type pass unchanged
(`ConfigurationFields.coerced_eq_self`), so a configuration that was accepted
once is accepted again as it is: from there on a snapshot that is parsed anew is
the configuration that was written.
-/

namespace CohortSwitch

/-- The declared type of a flag's values. Every variation of a flag has it. -/
inductive FlagType where
  | boolean
  | string
  | integer
  | json
deriving DecidableEq, Repr

def FlagType.value : FlagType → String
  | .boolean => "BOOLEAN"
  | .string => "STRING"
  | .integer => "INTEGER"
  | .json => "JSON"

/-- Why an evaluation gave what it gave, one constructor for each exit of the engine. -/
inductive Reason where
  | flagDisabled
  | targetingMatch
  | percentageRollout
  | progressiveRollout
  | default
deriving DecidableEq, Repr

/-- Who is evaluated: the subject and its attributes. -/
structure EvaluationContext where
  /-- What is hashed into a bucket. -/
  subjectKey : String
  /-- What conditions look at. -/
  attributes : Dict Json

/-- **What an evaluation returns**: the value, where it comes from, and the version that was
asked. -/
structure EvaluationResult where
  flagKey : String
  value : Json
  variation : String
  reason : Reason
  /-- The name of the rule that acted, if one did. -/
  matchedRule : Option String
  /-- The version of the configuration that decided. -/
  configVersion : ℕ
  evaluatedAt : Instant

/-! ## The parts of a configuration -/

/-- One condition of a rule. The bound is on characters, as pydantic counts them. -/
structure Condition where
  attributeName : String
  operator : String
  value : Json
  attributeLength : 1 ≤ attributeName.length ∧ attributeName.length ≤ 200

/-- The constructor of a condition. -/
def Condition.create (attributeName operator : String) (value : Json) :
    Except PyError Condition :=
  if h : 1 ≤ attributeName.length ∧ attributeName.length ≤ 200 then
    .ok ⟨attributeName, operator, value, h⟩
  else .error (.validationError "attribute length")

/-- One share of a rollout: the buckets below the boundary that no earlier
share took. -/
structure RolloutAllocation where
  variation : String
  /-- The first bucket past the share. -/
  endBucket : ℕ
  endBucketRange : 0 < endBucket ∧ endBucket ≤ 10000
deriving DecidableEq

/-- The constructor of an allocation. -/
def RolloutAllocation.create (variation : String) (endBucket : ℕ) :
    Except PyError RolloutAllocation :=
  if h : 0 < endBucket ∧ endBucket ≤ 10000 then .ok ⟨variation, endBucket, h⟩
  else .error (.validationError "end_bucket range")

/-- One stage of a progressive rollout: from `activateAt` on, the buckets below its percentage
get its variation and the others its fallback. -/
structure ProgressiveStage where
  /-- How many buckets get the variation. -/
  percentageBasisPoints : ℕ
  variation : String
  /-- What the other buckets get, and all of them before any stage is active. -/
  fallbackVariation : String
  /-- When it starts. -/
  activateAt : Instant
  percentageRange : percentageBasisPoints ≤ 10000
deriving DecidableEq

/-- The constructor of a stage; the validator of `activate_at` refuses a naive
datetime and converts an aware one to UTC. -/
def ProgressiveStage.create (percentageBasisPoints : ℕ)
    (variation fallbackVariation : String) (activateAt : Datetime) :
    Except PyError ProgressiveStage :=
  if h : percentageBasisPoints ≤ 10000 then
    if activateAt.utcoffset.isNone then
      .error (.validationError "activate_at must be timezone-aware")
    else do
      let instant ← activateAt.astimezoneUTC
      pure ⟨percentageBasisPoints, variation, fallbackVariation, instant, h⟩
  else .error (.validationError "percentage_basis_points range")

/-- A stage is what its own values construct. -/
theorem ProgressiveStage.create_self (stage : ProgressiveStage) :
    ProgressiveStage.create stage.percentageBasisPoints stage.variation stage.fallbackVariation
      (Datetime.ofInstant stage.activateAt) = .ok stage := by
  unfold ProgressiveStage.create
  rw [dif_pos stage.percentageRange, if_neg (fun h => (by cases h)),
    Datetime.astimezoneUTC_ofInstant]
  rfl

/-- `bool(text)` of an optional text. -/
def isTruthy (text : Option String) : Bool :=
  match text with
  | some s => s ≠ ""
  | none => false

/-- How many actions a rule defines: a variation, a rollout, stages. An empty text and an empty
list define none. -/
def actionCount {α β : Type} (variation : Option String) (rollout : List α)
    (stages : List β) : ℕ :=
  (isTruthy variation).toNat + (!rollout.isEmpty).toNat + (!stages.isEmpty).toNat

/-- **A targeting rule**: when all its conditions hold it serves a variation, starts its rollout
or starts its stages, and it defines exactly one of these. The fields carry what the validators
of the model have checked. -/
structure TargetingRule where
  name : String
  /-- Rules run by ascending priority. -/
  priority : ℤ
  conditions : List Condition
  variation : Option String
  rollout : List RolloutAllocation
  progressiveStages : List ProgressiveStage
  /-- Exactly one of the three actions is defined. -/
  requireAction : actionCount variation rollout progressiveStages = 1

/-- The constructor of a rule, which refuses a rule with no action or with several. -/
def TargetingRule.create (name : String) (priority : ℤ) (conditions : List Condition)
    (variation : Option String) (rollout : List RolloutAllocation)
    (progressiveStages : List ProgressiveStage) : Except PyError TargetingRule :=
  if h : actionCount variation rollout progressiveStages = 1 then
    .ok ⟨name, priority, conditions, variation, rollout, progressiveStages, h⟩
  else .error (.validationError "A rule must define exactly one action")

/-! ## The configuration and its validators -/

/-- The fields of a configuration, before its validators ran. They are a record of their own so
that the validator can be stated on them. -/
structure ConfigurationFields where
  projectId : String
  environmentId : String
  environmentKey : String
  flagId : String
  flagKey : String
  flagType : FlagType
  enabled : Bool
  defaultVariation : String
  variations : Dict Json
  /-- The version of the flag this is. -/
  configVersion : ℕ
  /-- The part of the hash input that is the flag's own. -/
  salt : String
  rules : List TargetingRule
  /-- The shares of the flag, where no rule acts and it has no stages. -/
  rollout : List RolloutAllocation
  progressiveStages : List ProgressiveStage

/-- The type check of one variation value, on Python's exact types: a boolean is no integer
here, although it is an instance of one. -/
def hasType : FlagType → Json → Bool
  | .boolean, .bool _ => true
  | .string, .str _ => true
  | .integer, .int _ => true
  | .json, .obj _ | .json, .arr _ | .json, .null => true
  | _, _ => false

/-- `_validate_value`. -/
def validateValue (flagType : FlagType) (value : Json) (variation : String) :
    Except PyError Unit :=
  if hasType flagType value then .ok ()
  else .error (.valueError ("variation " ++ variation ++ " has the wrong value type for "
    ++ flagType.value))

/-- `_validate_rollout`: `sorted(set(boundaries))` is the list itself exactly
when it increases strictly. -/
def validateRollout (rollout : List RolloutAllocation) : Except PyError Unit :=
  if rollout.isEmpty then .ok ()
  else
    let boundaries := rollout.map RolloutAllocation.endBucket
    if boundaries ≠ sortedBy id boundaries.dedup ∨ boundaries.getLast? ≠ some 10000 then
      .error (.valueError "rollout boundaries must increase and end at 10000")
    else .ok ()

/-- The variations a list of stages names. -/
def stageReferences (stages : List ProgressiveStage) : List String :=
  stages.flatMap (fun stage => [stage.variation, stage.fallbackVariation])

/-- The variations a rule names. -/
def TargetingRule.references (rule : TargetingRule) : List String :=
  (if isTruthy rule.variation then rule.variation.toList else [])
    ++ rule.rollout.map RolloutAllocation.variation
    ++ stageReferences rule.progressiveStages

/-- The variations a configuration names, besides its default. -/
def ConfigurationFields.references (c : ConfigurationFields) : List String :=
  c.rollout.map RolloutAllocation.variation
    ++ c.rules.flatMap TargetingRule.references
    ++ stageReferences c.progressiveStages

/-- **The model validator of a configuration.** The bound on `config_version`
is the field's own. -/
def ConfigurationFields.validateConfiguration (c : ConfigurationFields) :
    Except PyError Unit := do
  raiseIf (c.configVersion < 1) (.valueError "config_version")
  raiseIf (c.defaultVariation ∉ c.variations.keys)
    (.valueError "default variation is missing")
  c.variations.items.forM (fun item => validateValue c.flagType item.2 item.1)
  let missing := sortedBy id
    (c.references.dedup.filter (fun name => name ∉ c.variations.keys))
  raiseIf (missing ≠ [])
    (.valueError ("unknown variations referenced: " ++ ", ".intercalate missing))
  validateRollout c.rollout
  c.rules.forM (fun rule => validateRollout rule.rollout)

/-- **A flag configuration its validators accepted.** No other one can be built, so the engine
is only ever asked about valid ones; what is read back from a table or from the cache goes
through the same constructor. -/
structure FlagConfiguration extends ConfigurationFields where
  accepted : toConfigurationFields.validateConfiguration = .ok ()

/-! ## What the validators accept -/

/-- **The boundaries of a rollout**: none at all, or a strictly increasing
list that ends at the number of buckets. -/
def ValidRollout (rollout : List RolloutAllocation) : Prop :=
  rollout = [] ∨ ((rollout.map RolloutAllocation.endBucket).Pairwise (· < ·)
    ∧ (rollout.map RolloutAllocation.endBucket).getLast? = some 10000)

/-- A list is its own `sorted(set(…))` exactly when it increases strictly. -/
theorem eq_sortedBy_dedup_iff {xs : List ℕ} :
    xs = sortedBy id xs.dedup ↔ xs.Pairwise (· < ·) := by
  constructor
  · intro h
    have hle : xs.Pairwise (fun a b => id a ≤ id b) := h ▸ sortedBy_pairwise id xs.dedup
    have hne : xs.Nodup := by
      rw [h]
      exact (sortedBy_perm id xs.dedup).nodup_iff.mpr (List.nodup_dedup xs)
    exact hle.imp₂ (fun _ _ hab hn => lt_of_le_of_ne hab hn) hne
  · intro h
    have hnd : xs.Nodup := h.imp (fun hab => ne_of_lt hab)
    rw [List.dedup_eq_self.mpr hnd]
    exact (sortedBy_eq_self id (h.imp (fun hab => le_of_lt hab))).symm

/-- **What `_validate_rollout` accepts.** -/
theorem validateRollout_eq_ok_iff {rollout : List RolloutAllocation} :
    validateRollout rollout = .ok () ↔ ValidRollout rollout := by
  unfold validateRollout ValidRollout
  by_cases hr : rollout = []
  · simp [hr]
  · have he : ¬ rollout.isEmpty = true := by simpa using hr
    rw [if_neg he, ← eq_sortedBy_dedup_iff]
    simp only [hr, false_or]
    split
    · rename_i h
      refine ⟨fun hx => (by cases hx), fun hx => ?_⟩
      exact absurd h (not_or.mpr ⟨fun hn => hn hx.1, fun hn => hn hx.2⟩)
    · rename_i h
      rw [not_or, not_not, not_not] at h
      exact ⟨fun _ => h, fun _ => rfl⟩

/-- **What the model validator of a configuration accepts.** Every variation that is named is
known, all values have the type of the flag, and each rollout ends at the number of buckets. -/
structure ConfigurationFields.Valid (c : ConfigurationFields) : Prop where
  /-- Versions count from one. -/
  version : 1 ≤ c.configVersion
  /-- The default is a variation. -/
  defaultKnown : c.defaultVariation ∈ c.variations.keys
  /-- Every value has the declared type. -/
  typed : ∀ item ∈ c.variations.items, hasType c.flagType item.2 = true
  /-- Every variation that is named exists. -/
  referencesKnown : ∀ name ∈ c.references, name ∈ c.variations.keys
  /-- The rollout of the flag is in order. -/
  rolloutValid : ValidRollout c.rollout
  /-- And so is that of each rule. -/
  ruleRolloutsValid : ∀ rule ∈ c.rules, ValidRollout rule.rollout

/-- A value passes exactly when it has the type. -/
theorem validateValue_eq_ok_iff {flagType : FlagType} {value : Json} {variation : String} :
    validateValue flagType value variation = .ok () ↔ hasType flagType value = true := by
  unfold validateValue
  split
  · rename_i h
    exact ⟨fun _ => h, fun _ => rfl⟩
  · rename_i h
    exact ⟨fun hx => (by cases hx), fun hx => absurd hx h⟩

/-- **The validator accepts the valid configurations.** Its checks are taken in turn, so each
field of `Valid` is one of them. -/
theorem validateConfiguration_eq_ok_iff {c : ConfigurationFields} :
    c.validateConfiguration = .ok () ↔ c.Valid := by
  have hmissing : sortedBy id (c.references.dedup.filter (fun name => name ∉ c.variations.keys))
      = [] ↔ ∀ name ∈ c.references, name ∈ c.variations.keys := by
    rw [← List.length_eq_zero_iff, (sortedBy_perm id _).length_eq, List.length_eq_zero_iff,
      List.filter_eq_nil_iff]
    simp [List.mem_dedup]
  unfold ConfigurationFields.validateConfiguration
  rw [raiseIf_bind_eq_ok, raiseIf_bind_eq_ok, bind_eq_ok]
  constructor
  · rintro ⟨hv, hd, _, ht, h⟩
    obtain ⟨hm, h⟩ := raiseIf_bind_eq_ok.mp h
    obtain ⟨_, hr, h⟩ := bind_eq_ok.mp h
    exact {
      version := not_lt.mp hv
      defaultKnown := not_not.mp hd
      typed := fun item hi => validateValue_eq_ok_iff.mp (forM_eq_ok.mp ht item hi)
      referencesKnown := hmissing.mp (not_not.mp hm)
      rolloutValid := validateRollout_eq_ok_iff.mp hr
      ruleRolloutsValid := fun rule hrule =>
        validateRollout_eq_ok_iff.mp (forM_eq_ok.mp h rule hrule) }
  · intro h
    refine ⟨not_lt.mpr h.version, not_not.mpr h.defaultKnown, (),
      forM_eq_ok.mpr (fun item hi => validateValue_eq_ok_iff.mpr (h.typed item hi)), ?_⟩
    refine raiseIf_bind_eq_ok.mpr ⟨not_not.mpr (hmissing.mpr h.referencesKnown), ?_⟩
    refine bind_eq_ok.mpr ⟨(), validateRollout_eq_ok_iff.mpr h.rolloutValid, ?_⟩
    exact forM_eq_ok.mpr
      (fun rule hrule => validateRollout_eq_ok_iff.mpr (h.ruleRolloutsValid rule hrule))

/-- What exists is valid. -/
theorem FlagConfiguration.valid (c : FlagConfiguration) : c.toConfigurationFields.Valid :=
  validateConfiguration_eq_ok_iff.mp c.accepted

/-- A configuration is its fields: the proof that it was accepted adds nothing. -/
@[ext] theorem FlagConfiguration.ext {c d : FlagConfiguration}
    (h : c.toConfigurationFields = d.toConfigurationFields) : c = d := by
  cases c
  cases d
  cases h
  rfl

/-! ## Constructing a configuration -/

/-- A variation value as the union `bool | str | int | dict | list | None`
takes it: a value of one of these types stays what it is, and a float becomes
the boolean or the integer of 64 bits it equals. A float that equals neither
is refused; it stays a float here, which no flag type accepts. -/
def coerceFlagValue : Json → Json
  | .float q =>
    if q = 0 then .bool false
    else if q = 1 then .bool true
    else if q.den = 1 ∧ -(2 ^ 63) < q.num ∧ q.num < 2 ^ 63 then .int q.num
    else .float q
  | value => value

/-- A value that is no float is taken as it is. -/
theorem coerceFlagValue_of_hasType {flagType : FlagType} {value : Json}
    (h : hasType flagType value = true) : coerceFlagValue value = value := by
  cases value with
  | float q => cases flagType <;> cases h
  | _ => rfl

/-- The fields of a configuration once the variation values went through
the union. -/
def ConfigurationFields.coerced (c : ConfigurationFields) : ConfigurationFields :=
  { c with variations := c.variations.mapValues coerceFlagValue }

/-- The constructor of a configuration: the variation values are taken through
the union, then the validators run, and what they raise becomes the model's
`ValidationError`. -/
def FlagConfiguration.create (c : ConfigurationFields) : Except PyError FlagConfiguration :=
  match h : c.coerced.validateConfiguration with
  | .ok () => .ok ⟨c.coerced, h⟩
  | .error e => .error (.validationError e.text)

/-- What the constructor returns has the coerced fields, and they are valid. -/
theorem FlagConfiguration.create_eq_ok_iff {c : ConfigurationFields} {d : FlagConfiguration} :
    FlagConfiguration.create c = .ok d ↔ d.toConfigurationFields = c.coerced := by
  unfold FlagConfiguration.create
  split
  · rename_i h
    constructor
    · intro hx
      cases hx
      rfl
    · intro hx
      exact congrArg Except.ok (FlagConfiguration.ext hx.symm)
  · rename_i e h
    constructor
    · intro hx
      cases hx
    · intro hx
      have hd := d.accepted
      rw [hx, h] at hd
      cases hd

/-- Values that have the flag's type pass the union unchanged. -/
theorem ConfigurationFields.coerced_eq_self {c : ConfigurationFields}
    (h : ∀ item ∈ c.variations.items, hasType c.flagType item.2 = true) : c.coerced = c := by
  have hvar : c.variations.mapValues coerceFlagValue = c.variations :=
    Dict.mapValues_eq_self (fun item hi => coerceFlagValue_of_hasType (h item hi))
  unfold ConfigurationFields.coerced
  rw [hvar]

/-- **Valid fields have a configuration.** -/
theorem FlagConfiguration.create_of_valid {c : ConfigurationFields} (h : c.Valid) :
    FlagConfiguration.create c = .ok ⟨c, validateConfiguration_eq_ok_iff.mpr h⟩ :=
  create_eq_ok_iff.mpr (ConfigurationFields.coerced_eq_self h.typed).symm

end CohortSwitch
