import CohortSwitch.AtomicRead
import CohortSwitch.Rollback
import CohortSwitch.Timestamps

/-!
# The documents of configurations

A version keeps its configuration as a JSON document, and so does the cache; an export
consists of such documents. `modelDump` writes one, with a key for each field, and
`modelValidate` reads one: what a model requires has to be there, what it has a default
for may be absent, other keys are ignored.

PostgreSQL stores the keys of an object in an order of its own. Reading a document back
gives the configuration that was written with its variations in that order, and the
objects within values too (`versions_read_back`); lists keep theirs. So what is
read back evaluates to the same outcome for every context, also where a condition
raises (`evaluateFlag_readBack`).

What pydantic makes of a number in a text, say, is its own affair: `Scalars` has what it
makes of the values the documents contain. Where several fields are refused the error
here is that of the first.

## Reading in another order

`Reordered` relates a document to what comes back of it. A field is looked up by its name,
so it is found in whatever order the fields stand (`SameFields.exists_lookup`), with its
value in some form; a list is read item by item (`exists_readList`). With these two
every model is read field by field, from the conditions up to the configuration
(`ConfigurationFields.exists_read`).

What is read back is a rearrangement of what was written in the sense of `Rearranged`, with
the rules and their conditions in their order. The order of the rules matters here as it does
not for rows of tables, since the conditions of a rule are evaluated in turn and one of
them may raise.
-/

namespace CohortSwitch

/-! ## Values with their keys in another order -/

namespace Json

variable {a b : Json}

/-- A value without parts, or nothing. -/
def leaf? : Json → Option Json
  | .arr _ | .obj _ => none
  | value => some value

/-- A value without parts has no other form. -/
theorem Reordered.eq_of_leaf (h : Reordered a b) (hleaf : a.leaf? = some a) : b = a := by
  have hsame := h.eq_of_shallow leaf? (fun _ _ => rfl) (fun _ _ => rfl)
  rw [hleaf] at hsame
  cases b <;> cases hsame <;> rfl

/-- Every item is a form of itself. -/
theorem Reordered.forall₂_refl (xs : List Json) : List.Forall₂ Reordered xs xs :=
  List.forall₂_same.mpr (fun x _ => .refl x)

/-- **A list keeps its order.** -/
theorem Reordered.arr_cases {xs : List Json} (h : Reordered (.arr xs) b) :
    ∃ ys, b = .arr ys ∧ List.Forall₂ Reordered xs ys := by
  generalize hx : Json.arr xs = a at h
  induction h generalizing xs with
  | refl => exact ⟨xs, hx.symm, forall₂_refl xs⟩
  | trans _ _ ih ih' =>
    obtain ⟨ys, rfl, hys⟩ := ih hx
    obtain ⟨zs, rfl, hzs⟩ := ih' rfl
    refine ⟨zs, rfl, List.forall₂_iff_get.mpr ⟨hys.length_eq.trans hzs.length_eq, ?_⟩⟩
    intro i hx hz
    have hy : i < ys.length := hys.length_eq ▸ hx
    exact .trans (hys.get hx hy) (hzs.get hy hz)
  | keys => cases hx
  | item front back hitem =>
    cases hx
    exact ⟨_, rfl, List.rel_append (forall₂_refl front) (.cons hitem (forall₂_refl back))⟩
  | field => cases hx

/-- **An object has its fields in some order.** -/
theorem Reordered.obj_cases {fs : List (String × Json)} (h : Reordered (.obj fs) b) :
    ∃ gs, b = .obj gs ∧ PermBy (fun f g => f.1 = g.1 ∧ Reordered f.2 g.2) fs gs := by
  have hrefl : ∀ f : String × Json, f.1 = f.1 ∧ Reordered f.2 f.2 := fun f => ⟨rfl, .refl f.2⟩
  generalize hx : Json.obj fs = a at h
  induction h generalizing fs with
  | refl => exact ⟨fs, hx.symm, .of_perm hrefl (.refl fs)⟩
  | trans _ _ ih ih' =>
    obtain ⟨gs, rfl, hgs⟩ := ih hx
    obtain ⟨ks, rfl, hks⟩ := ih' rfl
    refine ⟨ks, rfl, (hgs.trans hks).mono (fun f k hfk => ?_)⟩
    obtain ⟨g, ⟨hfg, hfirst⟩, hgk, hlater⟩ := hfk
    exact ⟨hfg.trans hgk, hfirst.trans hlater⟩
  | keys hnodup hperm =>
    cases hx
    exact ⟨_, rfl, .of_perm hrefl hperm⟩
  | item => cases hx
  | field key front back hfield =>
    cases hx
    refine ⟨_, rfl, .of_forall₂ (List.rel_append (List.forall₂_same.mpr (fun f _ => hrefl f)) ?_)⟩
    exact .cons ⟨rfl, hfield⟩ (List.forall₂_same.mpr (fun f _ => hrefl f))

/-- The fields of an object, and those of a form of it. -/
structure SameFields (fs gs : List (String × Json)) : Prop where
  /-- No field is there twice. -/
  nodup : (fs.map Prod.fst).Nodup
  /-- The fields correspond by their names. -/
  fields : PermBy (fun f g => f.1 = g.1 ∧ Reordered f.2 g.2) fs gs

/-- The fields of an object are those of any form of it. -/
theorem Reordered.exists_fields {fs : List (String × Json)} (h : Reordered (.obj fs) b)
    (hnodup : (fs.map Prod.fst).Nodup) : ∃ gs, b = .obj gs ∧ SameFields fs gs := by
  obtain ⟨gs, hgs, hfields⟩ := h.obj_cases
  exact ⟨gs, hgs, hnodup, hfields⟩

/-- **A field of an object is there in every order**, with its value in some form. -/
theorem SameFields.exists_lookup {fs gs : List (String × Json)} (h : SameFields fs gs)
    (key : String) {value : Json} (hvalue : fs.lookup key = some value) :
    ∃ value', gs.lookup key = some value' ∧ Reordered value value' := by
  obtain ⟨g, hg, hkey, hreordered⟩ := h.fields.exists_right (mem_of_lookup_eq_some hvalue)
  have hkeys : (gs.map Prod.fst).Nodup :=
    (h.fields.map_perm (fun _ _ hfg => hfg.1)).nodup_iff.mp h.nodup
  refine ⟨g.2, lookup_eq_some_of_mem hkeys ?_, hreordered⟩
  have hself : (key, g.2) = g := Prod.ext hkey rfl
  rwa [hself]

end Json

/-! ## Reading -/

/-- **What pydantic makes of a value for a field of type `int`, `bool` or `datetime`.** -/
structure Scalars where
  int : Json → Except PyError ℤ
  bool : Json → Except PyError Bool
  datetime : Json → Except PyError Datetime
  int_int : ∀ i, int (.int i) = .ok i
  bool_bool : ∀ b, bool (.bool b) = .ok b
  datetime_jsonMoment : ∀ t, datetime (.str (jsonMoment t)) = .ok (.ofInstant t)

/-- The fields of a model. -/
def readModel : Json → Except PyError (List (String × Json))
  | .obj fields => .ok fields
  | _ => .error (.validationError "Input should be a valid dictionary")

/-- A field without a default. -/
def required (fields : List (String × Json)) (name : String) : Except PyError Json :=
  match fields.lookup name with
  | some value => .ok value
  | none => .error (.validationError "Field required")

/-- A field of type `str`. -/
def readStr : Json → Except PyError String
  | .str text => .ok text
  | _ => .error (.validationError "Input should be a valid string")

/-- A field of type `str | None`. -/
def readOptionalStr : Json → Except PyError (Option String)
  | .null => .ok none
  | value => (readStr value).map some

/-- A field of type `list`. -/
def readList {α : Type} (read : Json → Except PyError α) : Json → Except PyError (List α)
  | .arr values => values.mapM read
  | _ => .error (.validationError "Input should be a valid list")

/-- A field of type `int` that is not negative. -/
def Scalars.nat (scalars : Scalars) (value : Json) : Except PyError ℕ := do
  let i ← scalars.int value
  if 0 ≤ i then pure i.toNat
  else .error (.validationError "Input should be greater than or equal to 0")

/-- A field of type `FlagType`. -/
def readFlagType (value : Json) : Except PyError FlagType := do
  let text ← readStr value
  match [FlagType.boolean, .string, .integer, .json].find? (fun flagType => flagType.value = text)
  with
  | some flagType => pure flagType
  | none => .error (.validationError "Input should be 'BOOLEAN', 'STRING', 'INTEGER' or 'JSON'")

/-- A field of type `dict[str, FlagValue]`. -/
def readDict : Json → Except PyError (Dict Json)
  | .obj fields => .ok (.ofPairs fields)
  | _ => .error (.validationError "Input should be a valid dictionary")

/-- A field with the default `None`. -/
def optional (fields : List (String × Json)) (name : String) : Json :=
  (fields.lookup name).getD .null

/-- A field with an empty list as its default. -/
def listed (fields : List (String × Json)) (name : String) : Json :=
  (fields.lookup name).getD (.arr [])

/-! ## The models -/

/-- A condition as a document. -/
def Condition.modelDump (condition : Condition) : Json :=
  .obj [("attribute", .str condition.attributeName), ("operator", .str condition.operator),
    ("value", condition.value)]

/-- A condition read. -/
def Condition.modelValidate (value : Json) : Except PyError Condition := do
  let fields ← readModel value
  let attributeName ← required fields "attribute" >>= readStr
  let operator ← required fields "operator" >>= readStr
  Condition.create attributeName operator (optional fields "value")

/-- An allocation as a document. -/
def RolloutAllocation.modelDump (allocation : RolloutAllocation) : Json :=
  .obj [("variation", .str allocation.variation), ("end_bucket", .int allocation.endBucket)]

/-- An allocation read. -/
def RolloutAllocation.modelValidate (scalars : Scalars) (value : Json) :
    Except PyError RolloutAllocation := do
  let fields ← readModel value
  let variation ← required fields "variation" >>= readStr
  let endBucket ← required fields "end_bucket" >>= scalars.nat
  RolloutAllocation.create variation endBucket

/-- A stage as a document. -/
def ProgressiveStage.modelDump (stage : ProgressiveStage) : Json :=
  .obj [("percentage_basis_points", .int stage.percentageBasisPoints),
    ("variation", .str stage.variation), ("fallback_variation", .str stage.fallbackVariation),
    ("activate_at", .str (jsonMoment stage.activateAt))]

/-- A stage read. -/
def ProgressiveStage.modelValidate (scalars : Scalars) (value : Json) :
    Except PyError ProgressiveStage := do
  let fields ← readModel value
  let percentageBasisPoints ← required fields "percentage_basis_points" >>= scalars.nat
  let variation ← required fields "variation" >>= readStr
  let fallbackVariation ← required fields "fallback_variation" >>= readStr
  let activateAt ← required fields "activate_at" >>= scalars.datetime
  ProgressiveStage.create percentageBasisPoints variation fallbackVariation activateAt

/-- A rule as a document. -/
def TargetingRule.modelDump (rule : TargetingRule) : Json :=
  .obj [("name", .str rule.name), ("priority", .int rule.priority),
    ("conditions", .arr (rule.conditions.map Condition.modelDump)),
    ("variation", (rule.variation.map Json.str).getD .null),
    ("rollout", .arr (rule.rollout.map RolloutAllocation.modelDump)),
    ("progressive_stages", .arr (rule.progressiveStages.map ProgressiveStage.modelDump))]

/-- A rule read. -/
def TargetingRule.modelValidate (scalars : Scalars) (value : Json) :
    Except PyError TargetingRule := do
  let fields ← readModel value
  let name ← required fields "name" >>= readStr
  let priority ← required fields "priority" >>= scalars.int
  let conditions ← readList Condition.modelValidate (listed fields "conditions")
  let variation ← readOptionalStr (optional fields "variation")
  let rollout ← readList (RolloutAllocation.modelValidate scalars) (listed fields "rollout")
  let progressiveStages ←
    readList (ProgressiveStage.modelValidate scalars) (listed fields "progressive_stages")
  TargetingRule.create name priority conditions variation rollout progressiveStages

/-- **`model_dump(mode="json")` of a configuration.** -/
def ConfigurationFields.modelDump (c : ConfigurationFields) : Json :=
  .obj [("project_id", .str c.projectId), ("environment_id", .str c.environmentId),
    ("environment_key", .str c.environmentKey), ("flag_id", .str c.flagId),
    ("flag_key", .str c.flagKey), ("flag_type", .str c.flagType.value),
    ("enabled", .bool c.enabled), ("default_variation", .str c.defaultVariation),
    ("variations", .obj c.variations.items), ("config_version", .int c.configVersion),
    ("salt", .str c.salt), ("rules", .arr (c.rules.map TargetingRule.modelDump)),
    ("rollout", .arr (c.rollout.map RolloutAllocation.modelDump)),
    ("progressive_stages", .arr (c.progressiveStages.map ProgressiveStage.modelDump))]

/-- The fields of a configuration, before its own validators run. -/
def ConfigurationFields.read (scalars : Scalars) (value : Json) :
    Except PyError ConfigurationFields := do
  let fields ← readModel value
  let projectId ← required fields "project_id" >>= readStr
  let environmentId ← required fields "environment_id" >>= readStr
  let environmentKey ← required fields "environment_key" >>= readStr
  let flagId ← required fields "flag_id" >>= readStr
  let flagKey ← required fields "flag_key" >>= readStr
  let flagType ← required fields "flag_type" >>= readFlagType
  let enabled ← required fields "enabled" >>= scalars.bool
  let defaultVariation ← required fields "default_variation" >>= readStr
  let variations ← required fields "variations" >>= readDict
  let configVersion ← required fields "config_version" >>= scalars.nat
  let salt ← required fields "salt" >>= readStr
  let rules ← readList (TargetingRule.modelValidate scalars) (listed fields "rules")
  let rollout ← readList (RolloutAllocation.modelValidate scalars) (listed fields "rollout")
  let progressiveStages ←
    readList (ProgressiveStage.modelValidate scalars) (listed fields "progressive_stages")
  pure ⟨projectId, environmentId, environmentKey, flagId, flagKey, flagType, enabled,
    defaultVariation, variations, configVersion, salt, rules, rollout, progressiveStages⟩

/-- **`FlagConfiguration.model_validate`.** -/
def FlagConfiguration.modelValidate (scalars : Scalars) (value : Json) :
    Except PyError FlagConfiguration := do
  let fields ← ConfigurationFields.read scalars value
  FlagConfiguration.create fields

/-! ## Reading back -/

section Fields

variable {fs gs : List (String × Json)}

/-- A field that has no parts is read as it was written. -/
theorem required_of_leaf (h : Json.SameFields fs gs) {α : Type}
    {read : Json → Except PyError α} {name : String} {value : Json} {a : α}
    (hvalue : fs.lookup name = some value) (hleaf : value.leaf? = some value)
    (hread : read value = .ok a) : (required gs name >>= read) = .ok a := by
  obtain ⟨value', hlookup, hreordered⟩ := h.exists_lookup name hvalue
  rw [hreordered.eq_of_leaf hleaf] at hlookup
  refine bind_eq_ok.mpr ⟨value, ?_, hread⟩
  unfold required
  rw [hlookup]

/-- A list is read item by item. -/
theorem exists_readList {α : Type} {dump : α → Json} {read : Json → Except PyError α}
    {S : α → α → Prop} {xs : List α}
    (hread : ∀ x ∈ xs, ∀ value, Json.Reordered (dump x) value → ∃ y, read value = .ok y ∧ S x y)
    {value : Json} (h : Json.Reordered (.arr (xs.map dump)) value) :
    ∃ ys, readList read value = .ok ys ∧ List.Forall₂ S xs ys := by
  obtain ⟨values, rfl, hvalues⟩ := h.arr_cases
  show ∃ ys, values.mapM read = .ok ys ∧ _
  clear h
  induction xs generalizing values with
  | nil =>
    cases hvalues
    exact ⟨[], rfl, .nil⟩
  | cons x xs ih =>
    obtain ⟨first, rest, hfirst, hrest, rfl⟩ := List.forall₂_cons_left_iff.mp hvalues
    obtain ⟨y, hy, hxy⟩ := hread x List.mem_cons_self first hfirst
    obtain ⟨ys, hys, hxys⟩ := ih (fun x' hx' => hread x' (List.mem_cons_of_mem _ hx')) rest hrest
    refine ⟨y :: ys, ?_, .cons hxy hxys⟩
    rw [List.mapM_cons]
    exact bind_eq_ok.mpr ⟨y, hy, bind_eq_ok.mpr ⟨ys, hys, rfl⟩⟩

/-- A field with a list, item by item. -/
theorem exists_listed {α : Type} {dump : α → Json} {read : Json → Except PyError α}
    {S : α → α → Prop} {xs : List α} (h : Json.SameFields fs gs) (name : String)
    (hvalue : fs.lookup name = some (.arr (xs.map dump)))
    (hread : ∀ x ∈ xs, ∀ value, Json.Reordered (dump x) value →
      ∃ y, read value = .ok y ∧ S x y) :
    ∃ ys, readList read (listed gs name) = .ok ys ∧ List.Forall₂ S xs ys := by
  obtain ⟨value', hlookup, hreordered⟩ := h.exists_lookup name hvalue
  unfold listed
  rw [hlookup]
  exact exists_readList hread hreordered

/-- A field with a list of items that are read as they were written. -/
theorem listed_eq {α : Type} {dump : α → Json} {read : Json → Except PyError α} {xs : List α}
    {name : String} (h : Json.SameFields fs gs)
    (hvalue : fs.lookup name = some (.arr (xs.map dump)))
    (hread : ∀ x value, Json.Reordered (dump x) value → read value = .ok x) :
    readList read (listed gs name) = .ok xs := by
  obtain ⟨ys, hys, heq⟩ := exists_listed (S := Eq) h name hvalue
    (fun x _ value hvalue => ⟨x, hread x value hvalue, rfl⟩)
  rw [List.forall₂_eq_eq_eq] at heq
  rw [hys, ← heq]

/-- A number that is not negative is read as it was written. -/
theorem Scalars.nat_of_nat (scalars : Scalars) (n : ℕ) : scalars.nat (.int n) = .ok n := by
  refine bind_eq_ok.mpr ⟨n, scalars.int_int n, ?_⟩
  rw [if_pos (Int.natCast_nonneg n)]
  rfl

/-- And so is a type, -/
theorem readFlagType_value (flagType : FlagType) :
    readFlagType (.str flagType.value) = .ok flagType := by
  cases flagType <;> rfl

end Fields

section Models

variable (scalars : Scalars) {value : Json}

/-- an allocation -/
theorem RolloutAllocation.modelValidate_modelDump (allocation : RolloutAllocation)
    (h : Json.Reordered allocation.modelDump value) :
    RolloutAllocation.modelValidate scalars value = .ok allocation := by
  obtain ⟨gs, rfl, hgs⟩ := h.exists_fields (show ["variation", "end_bucket"].Nodup by decide)
  have hvariation : (required gs "variation" >>= readStr) = .ok allocation.variation :=
    required_of_leaf hgs rfl rfl rfl
  have hendBucket : (required gs "end_bucket" >>= scalars.nat) = .ok allocation.endBucket :=
    required_of_leaf hgs rfl rfl (scalars.nat_of_nat _)
  refine bind_eq_ok.mpr ⟨gs, rfl, bind_eq_ok.mpr ⟨_, hvariation, ?_⟩⟩
  refine bind_eq_ok.mpr ⟨_, hendBucket, ?_⟩
  exact dif_pos allocation.endBucketRange

/-- and a stage. -/
theorem ProgressiveStage.modelValidate_modelDump (stage : ProgressiveStage)
    (h : Json.Reordered stage.modelDump value) :
    ProgressiveStage.modelValidate scalars value = .ok stage := by
  obtain ⟨gs, rfl, hgs⟩ := h.exists_fields (show ["percentage_basis_points", "variation",
    "fallback_variation", "activate_at"].Nodup by decide)
  have hpercentage : (required gs "percentage_basis_points" >>= scalars.nat)
      = .ok stage.percentageBasisPoints :=
    required_of_leaf hgs rfl rfl (scalars.nat_of_nat _)
  have hvariation : (required gs "variation" >>= readStr) = .ok stage.variation :=
    required_of_leaf hgs rfl rfl rfl
  have hfallback : (required gs "fallback_variation" >>= readStr) = .ok stage.fallbackVariation :=
    required_of_leaf hgs rfl rfl rfl
  have hactivate : (required gs "activate_at" >>= scalars.datetime)
      = .ok (Datetime.ofInstant stage.activateAt) :=
    required_of_leaf hgs rfl rfl (scalars.datetime_jsonMoment _)
  refine bind_eq_ok.mpr ⟨gs, rfl, bind_eq_ok.mpr ⟨_, hpercentage, ?_⟩⟩
  refine bind_eq_ok.mpr ⟨_, hvariation, bind_eq_ok.mpr ⟨_, hfallback, ?_⟩⟩
  exact bind_eq_ok.mpr ⟨_, hactivate, stage.create_self⟩

/-- A condition has its value in another form. -/
theorem Condition.exists_modelValidate (condition : Condition)
    (h : Json.Reordered condition.modelDump value) :
    ∃ read, Condition.modelValidate value = .ok read ∧ condition.Same Json.Reordered read := by
  obtain ⟨gs, rfl, hgs⟩ :=
    h.exists_fields (show ["attribute", "operator", "value"].Nodup by decide)
  have hattribute : (required gs "attribute" >>= readStr) = .ok condition.attributeName :=
    required_of_leaf hgs rfl rfl rfl
  have hoperator : (required gs "operator" >>= readStr) = .ok condition.operator :=
    required_of_leaf hgs rfl rfl rfl
  obtain ⟨form, hform, hreordered⟩ := hgs.exists_lookup "value" rfl
  refine ⟨⟨condition.attributeName, condition.operator, form, condition.attributeLength⟩, ?_,
    rfl, rfl, hreordered⟩
  refine bind_eq_ok.mpr ⟨gs, rfl, bind_eq_ok.mpr ⟨_, hattribute, ?_⟩⟩
  refine bind_eq_ok.mpr ⟨_, hoperator, ?_⟩
  unfold optional
  rw [hform]
  exact dif_pos condition.attributeLength

/-- **A rule read back**: its conditions have their values in other forms. -/
structure TargetingRule.ReadBack (rule read : TargetingRule) : Prop
    extends rule.Rearranged Json.Reordered Eq read where
  inOrder : List.Forall₂ (Condition.Same Json.Reordered) rule.conditions read.conditions

/-- A rule is read back. -/
theorem TargetingRule.exists_modelValidate (rule : TargetingRule)
    (h : Json.Reordered rule.modelDump value) :
    ∃ read, TargetingRule.modelValidate scalars value = .ok read ∧ rule.ReadBack read := by
  obtain ⟨gs, rfl, hgs⟩ := h.exists_fields (show ["name", "priority", "conditions", "variation",
    "rollout", "progressive_stages"].Nodup by decide)
  have hname : (required gs "name" >>= readStr) = .ok rule.name := required_of_leaf hgs rfl rfl rfl
  have hpriority : (required gs "priority" >>= scalars.int) = .ok rule.priority :=
    required_of_leaf hgs rfl rfl (scalars.int_int _)
  obtain ⟨conditions, hconditions, hsame⟩ := exists_listed hgs "conditions" rfl
    (fun condition _ _ hvalue => condition.exists_modelValidate hvalue)
  have hvariation : readOptionalStr (optional gs "variation") = .ok rule.variation := by
    obtain ⟨form, hform, hreordered⟩ := hgs.exists_lookup "variation" rfl
    unfold optional
    rw [hform]
    cases hvariation : rule.variation with
    | none =>
      rw [hvariation] at hreordered
      rw [Option.getD_some, hreordered.eq_of_leaf rfl]
      rfl
    | some variation =>
      rw [hvariation] at hreordered
      rw [Option.getD_some, hreordered.eq_of_leaf rfl]
      rfl
  have hrollout : readList (RolloutAllocation.modelValidate scalars) (listed gs "rollout")
      = .ok rule.rollout :=
    listed_eq hgs rfl (fun allocation _ => allocation.modelValidate_modelDump scalars)
  have hstages : readList (ProgressiveStage.modelValidate scalars) (listed gs "progressive_stages")
      = .ok rule.progressiveStages :=
    listed_eq hgs rfl (fun stage _ => stage.modelValidate_modelDump scalars)
  refine ⟨⟨rule.name, rule.priority, conditions, rule.variation, rule.rollout,
    rule.progressiveStages, rule.requireAction⟩, ?_,
    ⟨rfl, rfl, .of_forall₂ hsame, rfl, rfl, rfl⟩, hsame⟩
  refine bind_eq_ok.mpr ⟨gs, rfl, bind_eq_ok.mpr ⟨_, hname, bind_eq_ok.mpr ⟨_, hpriority, ?_⟩⟩⟩
  refine bind_eq_ok.mpr ⟨_, hconditions, bind_eq_ok.mpr ⟨_, hvariation, ?_⟩⟩
  refine bind_eq_ok.mpr ⟨_, hrollout, bind_eq_ok.mpr ⟨_, hstages, ?_⟩⟩
  exact dif_pos rule.requireAction

/-- **A configuration read back**: its variations come in another order, values have other
forms. -/
structure ConfigurationFields.ReadBack (c read : ConfigurationFields) : Prop
    extends c.Rearranged Json.Reordered Eq read where
  inOrder : List.Forall₂ TargetingRule.ReadBack c.rules read.rules

/-- **Reading a document gives back the fields that were written.** -/
theorem ConfigurationFields.exists_read (c : ConfigurationFields)
    (h : Json.Reordered c.modelDump value) :
    ∃ read, ConfigurationFields.read scalars value = .ok read ∧ c.ReadBack read := by
  obtain ⟨gs, rfl, hgs⟩ := h.exists_fields (show ["project_id", "environment_id",
    "environment_key", "flag_id", "flag_key", "flag_type", "enabled", "default_variation",
    "variations", "config_version", "salt", "rules", "rollout", "progressive_stages"].Nodup by
      decide)
  have hprojectId : (required gs "project_id" >>= readStr) = .ok c.projectId :=
    required_of_leaf hgs rfl rfl rfl
  have henvironmentId : (required gs "environment_id" >>= readStr) = .ok c.environmentId :=
    required_of_leaf hgs rfl rfl rfl
  have henvironmentKey : (required gs "environment_key" >>= readStr) = .ok c.environmentKey :=
    required_of_leaf hgs rfl rfl rfl
  have hflagId : (required gs "flag_id" >>= readStr) = .ok c.flagId :=
    required_of_leaf hgs rfl rfl rfl
  have hflagKey : (required gs "flag_key" >>= readStr) = .ok c.flagKey :=
    required_of_leaf hgs rfl rfl rfl
  have hflagType : (required gs "flag_type" >>= readFlagType) = .ok c.flagType :=
    required_of_leaf hgs rfl rfl (readFlagType_value _)
  have henabled : (required gs "enabled" >>= scalars.bool) = .ok c.enabled :=
    required_of_leaf hgs rfl rfl (scalars.bool_bool _)
  have hdefault : (required gs "default_variation" >>= readStr) = .ok c.defaultVariation :=
    required_of_leaf hgs rfl rfl rfl
  -- the variations are an object again, and come in an order of their own
  obtain ⟨form, hform, hreordered⟩ := hgs.exists_lookup "variations" rfl
  obtain ⟨items, rfl, hitems⟩ := hreordered.exists_fields c.variations.nodup
  have hkeys : (items.map Prod.fst).Nodup :=
    (hitems.fields.map_perm (fun _ _ hfg => hfg.1)).nodup_iff.mp hitems.nodup
  have hvariations : (required gs "variations" >>= readDict) = .ok (.ofPairs items) := by
    unfold required
    rw [hform]
    rfl
  have hversion : (required gs "config_version" >>= scalars.nat) = .ok c.configVersion :=
    required_of_leaf hgs rfl rfl (scalars.nat_of_nat _)
  have hsalt : (required gs "salt" >>= readStr) = .ok c.salt := required_of_leaf hgs rfl rfl rfl
  -- the rules come in their order, with values in other forms
  obtain ⟨rules, hrules, hback⟩ := exists_listed hgs "rules" rfl
    (fun rule _ _ hvalue => rule.exists_modelValidate scalars hvalue)
  have hrollout : readList (RolloutAllocation.modelValidate scalars) (listed gs "rollout")
      = .ok c.rollout :=
    listed_eq hgs rfl (fun allocation _ => allocation.modelValidate_modelDump scalars)
  have hstages : readList (ProgressiveStage.modelValidate scalars) (listed gs "progressive_stages")
      = .ok c.progressiveStages :=
    listed_eq hgs rfl (fun stage _ => stage.modelValidate_modelDump scalars)
  refine ⟨{ c with variations := .ofPairs items, rules }, ?_, ?_⟩
  · refine bind_eq_ok.mpr ⟨gs, rfl, bind_eq_ok.mpr ⟨_, hprojectId, ?_⟩⟩
    refine bind_eq_ok.mpr ⟨_, henvironmentId, bind_eq_ok.mpr ⟨_, henvironmentKey, ?_⟩⟩
    refine bind_eq_ok.mpr ⟨_, hflagId, bind_eq_ok.mpr ⟨_, hflagKey, ?_⟩⟩
    refine bind_eq_ok.mpr ⟨_, hflagType, bind_eq_ok.mpr ⟨_, henabled, ?_⟩⟩
    refine bind_eq_ok.mpr ⟨_, hdefault, bind_eq_ok.mpr ⟨_, hvariations, ?_⟩⟩
    refine bind_eq_ok.mpr ⟨_, hversion, bind_eq_ok.mpr ⟨_, hsalt, ?_⟩⟩
    refine bind_eq_ok.mpr ⟨_, hrules, bind_eq_ok.mpr ⟨_, hrollout, ?_⟩⟩
    exact bind_eq_ok.mpr ⟨_, hstages, rfl⟩
  · refine ⟨⟨⟨rfl, rfl, rfl, rfl, rfl, rfl, rfl, rfl, ?_, rfl, ?_, rfl, rfl⟩, rfl⟩, hback⟩
    · rw [Dict.items_ofPairs hkeys]
      exact hitems.fields
    · exact .of_forall₂ (hback.imp (fun _ _ hrule => hrule.toRearranged))

end Models

/-! ## Reading what was written -/

section Written

variable (scalars : Scalars)

theorem RolloutAllocation.modelValidate_self (allocation : RolloutAllocation) :
    RolloutAllocation.modelValidate scalars allocation.modelDump = .ok allocation :=
  allocation.modelValidate_modelDump scalars (.refl _)

theorem ProgressiveStage.modelValidate_self (stage : ProgressiveStage) :
    ProgressiveStage.modelValidate scalars stage.modelDump = .ok stage :=
  stage.modelValidate_modelDump scalars (.refl _)

theorem Condition.modelValidate_self (condition : Condition) :
    Condition.modelValidate condition.modelDump = .ok condition := by
  refine bind_eq_ok.mpr ⟨_, rfl, bind_eq_ok.mpr ⟨_, rfl, bind_eq_ok.mpr ⟨_, rfl, ?_⟩⟩⟩
  exact dif_pos condition.attributeLength

theorem TargetingRule.modelValidate_self (rule : TargetingRule) :
    TargetingRule.modelValidate scalars rule.modelDump = .ok rule := by
  have hvariation : readOptionalStr ((rule.variation.map Json.str).getD .null)
      = .ok rule.variation := by
    cases rule.variation <;> rfl
  refine bind_eq_ok.mpr ⟨_, rfl, bind_eq_ok.mpr ⟨_, rfl, ?_⟩⟩
  refine bind_eq_ok.mpr ⟨_, scalars.int_int _, ?_⟩
  refine bind_eq_ok.mpr ⟨_, mapM_map_eq_ok Condition.modelValidate_self _, ?_⟩
  refine bind_eq_ok.mpr ⟨_, hvariation, ?_⟩
  refine bind_eq_ok.mpr ⟨_, mapM_map_eq_ok (RolloutAllocation.modelValidate_self scalars) _, ?_⟩
  refine bind_eq_ok.mpr ⟨_, mapM_map_eq_ok (ProgressiveStage.modelValidate_self scalars) _, ?_⟩
  exact dif_pos rule.requireAction

theorem ConfigurationFields.read_self (c : ConfigurationFields) :
    ConfigurationFields.read scalars c.modelDump = .ok c := by
  have hvariations : Dict.ofPairs c.variations.items = c.variations :=
    Dict.ext (Dict.items_ofPairs c.variations.nodup)
  refine bind_eq_ok.mpr ⟨_, rfl, bind_eq_ok.mpr ⟨_, rfl, bind_eq_ok.mpr ⟨_, rfl, ?_⟩⟩⟩
  refine bind_eq_ok.mpr ⟨_, rfl, bind_eq_ok.mpr ⟨_, rfl, bind_eq_ok.mpr ⟨_, rfl, ?_⟩⟩⟩
  refine bind_eq_ok.mpr ⟨_, readFlagType_value _, bind_eq_ok.mpr ⟨_, scalars.bool_bool _, ?_⟩⟩
  refine bind_eq_ok.mpr ⟨_, rfl, bind_eq_ok.mpr ⟨_, rfl, ?_⟩⟩
  refine bind_eq_ok.mpr ⟨_, scalars.nat_of_nat _, bind_eq_ok.mpr ⟨_, rfl, ?_⟩⟩
  refine bind_eq_ok.mpr ⟨_, mapM_map_eq_ok (TargetingRule.modelValidate_self scalars) _, ?_⟩
  refine bind_eq_ok.mpr ⟨_, mapM_map_eq_ok (RolloutAllocation.modelValidate_self scalars) _, ?_⟩
  refine bind_eq_ok.mpr ⟨_, mapM_map_eq_ok (ProgressiveStage.modelValidate_self scalars) _, ?_⟩
  rw [hvariations]
  rfl

end Written

/-! ## Evaluating what is read back -/

section Evaluation

variable [Packaging]

/-- Conditions that are read back hold alike, and raise alike. -/
theorem conditionsHold_readBack {rule read : TargetingRule} (h : rule.ReadBack read)
    (context : EvaluationContext) :
    conditionsHold context rule.conditions = conditionsHold context read.conditions := by
  have hall := h.inOrder
  generalize rule.conditions = conditions at hall
  generalize read.conditions = conditions' at hall
  induction hall with
  | nil => rfl
  | cons hsame _ ih =>
    unfold conditionsHold
    rw [hsame.holds_eq (fun _ _ hform => hform), ih]

/-- The loop over the rules, read back in their order. -/
theorem evaluateRules_readBack {c d : FlagConfiguration}
    (h : c.toConfigurationFields.ReadBack d.toConfigurationFields) (context : EvaluationContext)
    (now : Instant) {rules rules' : List TargetingRule}
    (hrules : List.Forall₂ TargetingRule.ReadBack rules rules') :
    SameOutcome Json.Reordered (evaluateRules c context now rules)
      (evaluateRules d context now rules') := by
  have hperm : ∀ stages stages' : List ProgressiveStage, stages = stages' →
      stages.Perm stages' := fun _ _ heq => heq ▸ .refl _
  have hselects : ∀ stages, SelectsAlike Eq c context now stages :=
    fun stages stages' heq _ _ => heq ▸ rfl
  induction hrules with
  | nil => exact flagAction_alike h.toAlike hperm (hselects _)
  | cons hrule _ ih =>
    unfold evaluateRules
    rw [← conditionsHold_readBack hrule]
    refine SameOutcome.bind (fun holds _ => ?_)
    cases holds with
    | true => exact ruleAction_alike h.toAlike hperm hrule.toRearranged (hselects _)
    | false => exact ih

/-- **What is read back evaluates alike**, for every context. -/
theorem evaluateFlag_readBack {c d : FlagConfiguration}
    (h : c.toConfigurationFields.ReadBack d.toConfigurationFields) (context : EvaluationContext)
    (now : Instant) :
    SameOutcome Json.Reordered (evaluateFlag c context now) (evaluateFlag d context now) := by
  unfold evaluateFlag
  rw [← h.enabled, ← h.defaultVariation]
  split
  · exact evaluationResult_alike h.toAlike _ _ _ _
  · exact evaluateRules_readBack h context now
      (forall₂_sortedBy (fun _ _ hrule => hrule.priority) h.inOrder)

end Evaluation

/-! ## The columns and the cache -/

section Stored

variable (scalars : Scalars)

/-- A valid configuration that is read back is valid. -/
theorem FlagConfiguration.exists_modelValidate (c : FlagConfiguration) {stored : Json}
    (h : Json.Reordered c.modelDump stored) :
    ∃ read : FlagConfiguration, FlagConfiguration.modelValidate scalars stored = .ok read
      ∧ c.toConfigurationFields.ReadBack read.toConfigurationFields := by
  obtain ⟨fields, hfields, hback⟩ := c.toConfigurationFields.exists_read scalars h
  have hvalid : fields.Valid :=
    hback.toRearranged.valid (fun _ _ hform => hform) (fun _ _ hstages => .of_eq hstages) c.valid
  exact ⟨⟨fields, validateConfiguration_eq_ok_iff.mpr hvalid⟩,
    bind_eq_ok.mpr ⟨fields, hfields, FlagConfiguration.create_of_valid hvalid⟩, hback⟩

/-- And in its own order it is the one that was written. -/
theorem FlagConfiguration.modelValidate_self (c : FlagConfiguration) :
    FlagConfiguration.modelValidate scalars c.modelDump = .ok c :=
  bind_eq_ok.mpr ⟨_, c.read_self scalars, FlagConfiguration.create_of_valid c.valid⟩

/-- **A JSON column** stores the documents of configurations, in another form, and reads
them back. -/
def documentColumn (form : Json → Json) (h : ∀ document, Json.Reordered document (form document)) :
    JsonColumn where
  read := fun c => match ConfigurationFields.read scalars (form c.modelDump) with
    | .ok fields => fields
    | .error _ => c
  reordered := fun c => by
    obtain ⟨fields, hfields, hback⟩ := c.exists_read scalars (h c.modelDump)
    rw [hfields]
    exact hback.toRearranged

/-- What a rollback makes of a snapshot is what `model_validate` makes of its document. -/
theorem create_documentColumn {form : Json → Json}
    (h : ∀ document, Json.Reordered document (form document)) (c : ConfigurationFields) :
    FlagConfiguration.create ((documentColumn scalars form h).read c)
      = FlagConfiguration.modelValidate scalars (form c.modelDump) := by
  obtain ⟨fields, hfields, -⟩ := c.exists_read scalars (h c.modelDump)
  have hread : (documentColumn scalars form h).read c = fields := by
    unfold documentColumn
    simp only [hfields]
  have hvalidate : FlagConfiguration.modelValidate scalars (form c.modelDump)
      = FlagConfiguration.create fields := by
    unfold FlagConfiguration.modelValidate
    rw [hfields]
    rfl
  rw [hread, hvalidate]

/-- **Every stored version is read back.** Whatever a run stored as a version, reading its
document gives the configuration that was built; and in whatever order the keys of the
document come back, at any depth, reading gives a configuration that differs in the order
of its variations and in the order of keys within values only, and that evaluates to the
same outcome for every context at every moment. -/
theorem versions_read_back [Packaging] {actions : List (Action Choice Request)}
    {w : ServiceWorld} (hrun : service.run initial actions = some w) {version : FlagVersionRow}
    (hversion : version ∈ w.committed.versions) :
    ∃ c : FlagConfiguration, version.snapshot = c.toConfigurationFields
      ∧ FlagConfiguration.modelValidate scalars version.snapshot.modelDump = .ok c
      ∧ ∀ stored, Json.Reordered version.snapshot.modelDump stored →
        ∃ read : FlagConfiguration, FlagConfiguration.modelValidate scalars stored = .ok read
          ∧ c.Rearranged Json.Reordered Eq read.toConfigurationFields
          ∧ ∀ context now, SameOutcome Json.Reordered (evaluateFlag c context now)
            (evaluateFlag read context now) := by
  obtain ⟨c, hc⟩ := recorded_of_run hrun version hversion
  rw [hc.snapshot]
  refine ⟨c, rfl, c.modelValidate_self scalars, fun stored hstored => ?_⟩
  obtain ⟨read, hread, hback⟩ := c.exists_modelValidate scalars hstored
  exact ⟨read, hread, hback.toRearranged, evaluateFlag_readBack hback⟩

end Stored

/-- Numbers, booleans and moments in the forms the documents contain only. -/
def writtenScalars : Scalars where
  int
    | .int i => .ok i
    | _ => .error (.validationError "Input should be a valid integer")
  bool
    | .bool b => .ok b
    | _ => .error (.validationError "Input should be a valid boolean")
  datetime
    | .str text => (fromisoformat (text.replace "Z" "+00:00")).map Datetime.ofInstant
    | _ => .error (.validationError "Input should be a valid datetime")
  int_int := fun _ => rfl
  bool_bool := fun _ => rfl
  datetime_jsonMoment := fun t => by
    show (fromisoformat ((jsonMoment t).replace "Z" "+00:00")).map Datetime.ofInstant = _
    rw [replace_jsonMoment, fromisoformat_isoformat]
    rfl

/-- The fields of an object, the last one first. -/
def Json.lastFirst : Json → Json
  | .obj fields => .obj fields.reverse
  | value => value

/-- The fields of a configuration have distinct names. -/
theorem ConfigurationFields.reordered_lastFirst (c : ConfigurationFields) :
    Json.Reordered c.modelDump c.modelDump.lastFirst :=
  .keys (show ["project_id", "environment_id", "environment_key", "flag_id", "flag_key",
    "flag_type", "enabled", "default_variation", "variations", "config_version", "salt", "rules",
    "rollout", "progressive_stages"].Nodup by decide) (List.reverse_perm _).symm

theorem versions_read_back_sample : ∃ w version c read, service.run initial ruledFlag = some w
    ∧ w.committed.versions = [version] ∧ version.snapshot.rules.length = 1
    ∧ version.snapshot = c.toConfigurationFields
    ∧ FlagConfiguration.modelValidate writtenScalars version.snapshot.modelDump = .ok c
    ∧ FlagConfiguration.modelValidate writtenScalars version.snapshot.modelDump.lastFirst
      = .ok read
    ∧ ∀ context now, SameOutcome Json.Reordered (@evaluateFlag .refusing c context now)
      (@evaluateFlag .refusing read context now) := by
  have hfacts : (service.run initial ruledFlag).any (fun w =>
      decide (w.committed.versions.map (fun version => version.snapshot.rules.length) = [1]))
      = true := by
    decide +kernel
  obtain ⟨w, hrun, hfacts⟩ := (Option.any_eq_true _ _).mp hfacts
  obtain ⟨version, hversions, hrules⟩ := List.map_eq_singleton_iff.mp (of_decide_eq_true hfacts)
  obtain ⟨c, hsnapshot, hself, hback⟩ :=
    @versions_read_back writtenScalars .refusing _ w hrun version
      (hversions ▸ List.mem_singleton.mpr rfl)
  obtain ⟨read, hread, -, halike⟩ := hback _ version.snapshot.reordered_lastFirst
  exact ⟨w, version, c, read, hrun, hversions, hrules, hsnapshot, hself, hread, halike⟩

end CohortSwitch
