import CohortSwitch.Cache
import CohortSwitch.Dictionaries

/-!
# Loading many configurations at once

`load_configurations` drops duplicates, asks Redis for all keys with one MGET, takes
the answers apart by position, reads what is missing with one query over all flags,
and merges what it loaded by the keys of the flags. `load_configuration` does the
work of one key.

Here both read one state. A state holds the rows of each table in the order in which
a SELECT returns them, and Redis answers every read or none (`LoadState`).
`load_configurations_agree` compares the two: the batch returns what the single
loads return, and names the flags that are not found. An exception of another kind,
of an entry that does not validate or of rows that do not compile, comes out of the
batch before it looks for missing flags.

## How the two are compared

Each key gives one of four things: a hit that validates, a hit that does not, a miss that
is stored, and a miss that is not. The loop over the payloads is one step for each key
(`splitStep_spec`), and what it has at the end are the hits and the misses
(`foldlM_splitStep_spec`). The query over the misses finds what the query of each of them
finds, since a key belongs to one row of an environment (`mem_configsOfKeys`), and the
children that are read for all rows at once are taken apart by their parents
(`resultIn_loadAllCollections`).

With that a batch goes one of two ways (`BatchCase`): it stops at the first exception
of a key, or it merges and looks for what is missing. That either of them agrees with the
single loads is then about dictionaries alone.
-/

namespace CohortSwitch

/-! ## The loads -/

/-- The exceptions that a handler turns into a response. -/
def PyError.isApiError : PyError → Bool
  | .apiError _ _ _ _ => true
  | _ => false

/-- The service's own error with status 404. -/
def PyError.IsNotFound (e : PyError) : Prop :=
  ∃ code message details, e = .apiError 404 code message details

/-- **What pydantic does with the text of a configuration**: the values a text holds,
with the types of the model and its parts, and the text of a configuration. None of
this raises the service's own errors. -/
structure ConfigJson where
  /-- What a text holds, or what validating it raises. -/
  parse : List UInt8 → Except PyError ConfigurationFields
  /-- The text of a configuration. -/
  dump : FlagConfiguration → String
  /-- Validation raises no error of the service. -/
  parseRaises : ∀ payload e, parse payload = .error e → e.isApiError = false

/-- `FlagConfiguration.model_validate_json`. -/
def ConfigJson.modelValidateJson (json : ConfigJson) (payload : List UInt8) :
    Except PyError FlagConfiguration := do
  let fields ← json.parse payload
  FlagConfiguration.create fields

/-- **What a load finds**: the database, what Redis holds, and whether it can be
read. -/
structure LoadState where
  /-- The rows, in the order in which they are returned. -/
  db : Database
  /-- What Redis holds under each key. -/
  cache : String → Option (List UInt8)
  /-- Whether Redis answers. -/
  readable : Bool

/-- What a statement sees: the rows come as they stand in their tables. -/
def LoadState.view (state : LoadState) : View Database Row Choice :=
  ⟨state.db, [], ⟨[], fun _ => ⟨0⟩, "", 0, .plain⟩⟩

/-- `redis.get`; a failed read is a miss. -/
def LoadState.get (state : LoadState) (key : String) : Option (List UInt8) :=
  if state.readable then state.cache key else none

/-- `redis.mget`; after a failed read every key is a miss. -/
def LoadState.mget (state : LoadState) (keys : List String) : List (Option (List UInt8)) :=
  if state.readable then keys.map state.cache else List.replicate keys.length none

/-- `if payload`: the payload, where there is one and it is not empty. -/
def truthy (payload : Option (List UInt8)) : Option (List UInt8) :=
  payload.filter (fun bytes => !bytes.isEmpty)

/-- `redis.set(key, value, ex=…)`. -/
structure CacheSet where
  /-- The key of the entry. -/
  key : String
  /-- Its text. -/
  value : String
  /-- Its time to live in seconds. -/
  ex : ℕ

/-- **What a load does**: the entries it sets, and what it returns or raises. A set
that fails is logged and changes nothing else. -/
structure LoadRun (α : Type) where
  /-- The entries that are set, in order. -/
  sets : List CacheSet
  /-- What is returned or raised. -/
  result : Except PyError α

section Loads

variable (json : ConfigJson) (cacheTtlSeconds : ℕ) (state : LoadState)
  (projectId environmentId : UUID)

/-- The entry of a configuration. -/
def cacheEntry (flagKey : String) (config : FlagConfiguration) : CacheSet :=
  ⟨configCacheKey projectId environmentId flagKey, json.dump config, cacheTtlSeconds⟩

/-- `load_configuration`. -/
def loadConfiguration (flagKey : String) : LoadRun FlagConfiguration :=
  match truthy (state.get (configCacheKey projectId environmentId flagKey)) with
  | some payload => ⟨[], json.modelValidateJson payload⟩
  | none =>
    match (getConfigByKey projectId environmentId flagKey).resultIn state.view with
    | .error e => ⟨[], .error e⟩
    | .ok config =>
      ⟨[cacheEntry json cacheTtlSeconds projectId environmentId flagKey config], .ok config⟩

/-- The body of the loop over the cached payloads: a hit is validated, a miss is
remembered. -/
def splitStep (acc : Dict FlagConfiguration × List String)
    (item : String × Option (List UInt8)) :
    Except PyError (Dict FlagConfiguration × List String) :=
  match truthy item.2 with
  | some payload => do
    let config ← json.modelValidateJson payload
    pure (acc.1.insert item.1 config, acc.2)
  | none => pure (acc.1, acc.2 ++ [item.1])

/-- The error that names the flags which were not found. -/
def flagsNotFound (missing : List String) : PyError :=
  .apiError 404 "flags_not_found" "One or more flags were not found."
    [("flags", .arr (missing.map .str))]

/-- The end of `load_configurations`: the requested keys without a configuration. -/
def withoutMissing (uniqueKeys : List String) (configs : Dict FlagConfiguration) :
    Except PyError (Dict FlagConfiguration) :=
  let missing := sortedBy (fun key => key) (uniqueKeys.filter (fun key => key ∉ configs.keys))
  if missing ≠ [] then .error (flagsNotFound missing) else .ok configs

/-- `load_configurations`. -/
def loadConfigurations (flagKeys : List String) : LoadRun (Dict FlagConfiguration) :=
  let uniqueKeys := flagKeys.eraseDups
  let cached := state.mget (uniqueKeys.map (configCacheKey projectId environmentId))
  match (uniqueKeys.zip cached).foldlM (splitStep json) (Dict.empty, []) with
  | .error e => ⟨[], .error e⟩
  | .ok (configs, misses) =>
    if misses ≠ [] then
      match (getConfigsByKeys projectId environmentId misses).resultIn state.view with
      | .error e => ⟨[], .error e⟩
      | .ok items =>
        let loaded := Dict.ofPairs items
        ⟨loaded.items.map (fun item =>
            cacheEntry json cacheTtlSeconds projectId environmentId item.1 item.2),
          withoutMissing uniqueKeys (configs.update loaded)⟩
    else ⟨[], withoutMissing uniqueKeys configs⟩

end Loads

/-! ## Exceptions that are not the service's own -/

/-- A computation that raises none of the service's own errors. -/
def RaisesNoApiError {α : Type} (x : Except PyError α) : Prop :=
  ∀ e, x = .error e → e.isApiError = false

section RaisesNoApiError

variable {α β : Type}

theorem raisesNoApiError_ok (a : α) : RaisesNoApiError (.ok a) := fun _ h => nomatch h

theorem raisesNoApiError_error {e : PyError} (h : e.isApiError = false) :
    RaisesNoApiError (.error e : Except PyError α) := by
  rintro _ ⟨⟩
  exact h

/-- Composition. -/
theorem RaisesNoApiError.bind {x : Except PyError α} {f : α → Except PyError β}
    (hx : RaisesNoApiError x) (hf : ∀ a, RaisesNoApiError (f a)) :
    RaisesNoApiError (x >>= f) := by
  cases x with
  | ok a => exact hf a
  | error e => exact raisesNoApiError_error (hx e rfl)

/-- A loop. -/
theorem raisesNoApiError_mapM {f : α → Except PyError β} (hf : ∀ a, RaisesNoApiError (f a))
    (xs : List α) : RaisesNoApiError (xs.mapM f) := by
  induction xs with
  | nil => exact raisesNoApiError_ok []
  | cons x xs ih =>
    rw [List.mapM_cons]
    exact (hf x).bind (fun b => ih.bind (fun bs => raisesNoApiError_ok (b :: bs)))

theorem raisesNoApiError_create (fields : ConfigurationFields) :
    RaisesNoApiError (FlagConfiguration.create fields) := by
  unfold FlagConfiguration.create
  split
  · exact raisesNoApiError_ok _
  · exact raisesNoApiError_error rfl

theorem raisesNoApiError_engineStage (row : ProgressiveStageRow) :
    RaisesNoApiError (engineStage row) := by
  unfold engineStage ProgressiveStage.create
  rw [Datetime.astimezoneUTC_ofInstant]
  split
  · exact raisesNoApiError_ok _
  · exact raisesNoApiError_error rfl

theorem raisesNoApiError_engineAllocation (row : RolloutAllocationRow) :
    RaisesNoApiError (engineAllocation row) := by
  unfold engineAllocation RolloutAllocation.create
  split
  · exact raisesNoApiError_ok _
  · exact raisesNoApiError_error rfl

theorem raisesNoApiError_engineCondition (row : RuleConditionRow) :
    RaisesNoApiError (engineCondition row) := by
  unfold engineCondition Condition.create
  split
  · exact raisesNoApiError_ok _
  · exact raisesNoApiError_error rfl

theorem raisesNoApiError_compileRule (rule : LoadedRule) :
    RaisesNoApiError (compileRule rule) := by
  refine (raisesNoApiError_mapM raisesNoApiError_engineCondition _).bind (fun conditions => ?_)
  refine (raisesNoApiError_mapM raisesNoApiError_engineAllocation _).bind (fun rollout => ?_)
  refine (raisesNoApiError_mapM raisesNoApiError_engineStage _).bind (fun stages => ?_)
  unfold TargetingRule.create
  split
  · exact raisesNoApiError_ok _
  · exact raisesNoApiError_error rfl

/-- **Rows that do not compile are no error of the service's own.** -/
theorem raisesNoApiError_compileConfiguration (config : LoadedConfig) :
    RaisesNoApiError (compileConfiguration config) := by
  refine (raisesNoApiError_mapM raisesNoApiError_compileRule _).bind (fun rules => ?_)
  refine (raisesNoApiError_mapM raisesNoApiError_engineAllocation _).bind (fun rollout => ?_)
  refine (raisesNoApiError_mapM raisesNoApiError_engineStage _).bind (fun stages => ?_)
  exact raisesNoApiError_create _

theorem raisesNoApiError_modelValidateJson (json : ConfigJson) (payload : List UInt8) :
    RaisesNoApiError (json.modelValidateJson payload) :=
  RaisesNoApiError.bind (json.parseRaises payload) raisesNoApiError_create

theorem not_isNotFound_of_isApiError {e : PyError} (h : e.isApiError = false) :
    ¬ e.IsNotFound := by
  rintro ⟨code, message, details, rfl⟩
  cases h

end RaisesNoApiError

/-! ## What the reads return in one state -/

/-- **A configuration with its children**, as they stand in the tables. -/
def Database.loaded (db : Database)
    (item : FlagConfigRow × FeatureFlagRow × EnvironmentRow) : LoadedConfig where
  row := item.1
  flag := item.2.1
  environment := item.2.2
  variations := db.children.variations.filter (fun row => row.configId = item.1.id)
  rollouts := db.children.rollouts.filter (fun row => row.parent = .config item.1.id)
  progressiveStages :=
    db.children.progressiveStages.filter (fun row => row.parent = .config item.1.id)
  rules := (db.children.rules.filter (fun row => row.configId = item.1.id)).map (fun rule => {
    row := rule
    conditions := db.children.conditions.filter (fun row => row.ruleId = rule.id)
    rollouts := db.children.rollouts.filter (fun row => row.parent = .rule rule.id)
    progressiveStages :=
      db.children.progressiveStages.filter (fun row => row.parent = .rule rule.id) })

section Reads

variable (state : LoadState)

/-- No rows, in whatever order. -/
theorem arrange_nil {α : Type} (xs : List α) : arrange [] xs = xs := by
  cases xs <;> rfl

theorem resultIn_select {α : Type} (query : Database → α) :
    (select query).resultIn state.view = .ok (query state.db) := rfl

theorem resultIn_selectAll {α : Type} (query : Database → List α) :
    (selectAll query).resultIn state.view = .ok (query state.db) :=
  congrArg Except.ok (arrange_nil (query state.db))

/-- A read, and what follows it. -/
theorem resultIn_selectAll_bind {α β : Type} (query : Database → List α) (k : List α → Tx β) :
    (selectAll query >>= k).resultIn state.view = (k (query state.db)).resultIn state.view := by
  rw [Prog.resultIn_bind, resultIn_selectAll]
  rfl

/-- The children of the rules that were listed, taken apart by rule. -/
theorem children_of_rules {α : Type} {rules : List TargetingRuleRow} {rule : TargetingRuleRow}
    (hrule : rule ∈ rules) (rows : List α) {listed own : α → Bool}
    (hown : ∀ row, own row = true → rule.id ∈ rules.map TargetingRuleRow.id → listed row = true) :
    (rows.filter listed).filter own = rows.filter own :=
  filter_filter_of_imp rows (fun row _ h => hown row h (List.mem_map_of_mem hrule))

/-- The collections that are loaded are those of the tables. -/
theorem resultIn_loadCollections (row : FlagConfigRow) (flag : FeatureFlagRow)
    (environment : EnvironmentRow) :
    (loadCollections row flag environment).resultIn state.view
      = .ok (state.db.loaded (row, flag, environment)) := by
  unfold loadCollections
  simp only [resultIn_selectAll_bind]
  refine congrArg Except.ok ?_
  unfold Database.loaded
  refine congrArg (LoadedConfig.mk _ _ _ _ _ _) (List.map_congr_left (fun rule hrule => ?_))
  rw [children_of_rules hrule, children_of_rules hrule, children_of_rules hrule]
  · exact fun item h hlisted => (of_decide_eq_true h : item.parent = _) ▸ decide_eq_true hlisted
  · exact fun item h hlisted => (of_decide_eq_true h : item.parent = _) ▸ decide_eq_true hlisted
  · exact fun item h hlisted => (of_decide_eq_true h : item.ruleId = _) ▸ decide_eq_true hlisted

/-- **Loading many configurations loads each of them.** -/
theorem resultIn_loadAllCollections
    (items : List (FlagConfigRow × FeatureFlagRow × EnvironmentRow)) :
    (loadAllCollections items).resultIn state.view = .ok (items.map state.db.loaded) := by
  unfold loadAllCollections
  simp only [resultIn_selectAll_bind]
  refine congrArg Except.ok (List.map_congr_left (fun item hitem => ?_))
  have hid : item.1.id ∈ items.map (fun item => item.1.id) := List.mem_map_of_mem hitem
  have hrules : ((state.db.children.rules.filter (fun row =>
      row.configId ∈ items.map (fun item => item.1.id))).filter (fun row =>
        row.configId = item.1.id))
      = state.db.children.rules.filter (fun row => row.configId = item.1.id) :=
    filter_filter_of_imp _ (fun row _ h => (of_decide_eq_true h : row.configId = _) ▸
      decide_eq_true hid)
  unfold Database.loaded
  rw [LoadedConfig.mk.injEq]
  refine ⟨rfl, rfl, rfl, filter_filter_of_imp _ (fun row _ h => ?_),
    filter_filter_of_imp _ (fun row _ h => ?_), filter_filter_of_imp _ (fun row _ h => ?_), ?_⟩
  · exact (of_decide_eq_true h : row.configId = _) ▸ decide_eq_true hid
  · exact (of_decide_eq_true h : row.parent = _) ▸ decide_eq_true hid
  · exact (of_decide_eq_true h : row.parent = _) ▸ decide_eq_true hid
  · refine (congrArg (List.map _) hrules).trans (List.map_congr_left (fun rule hrule => ?_))
    -- a rule of this configuration is among those that were listed
    have hlisted : rule ∈ state.db.children.rules.filter (fun row =>
        row.configId ∈ items.map (fun item => item.1.id)) := by
      obtain ⟨hmem, hconfig⟩ := List.mem_filter.mp hrule
      exact List.mem_filter.mpr ⟨hmem, (of_decide_eq_true hconfig : rule.configId = _) ▸
        decide_eq_true hid⟩
    rw [children_of_rules hlisted, children_of_rules hlisted, children_of_rules hlisted]
    · exact fun item h hmem => (of_decide_eq_true h : item.parent = _) ▸ decide_eq_true hmem
    · exact fun item h hmem => (of_decide_eq_true h : item.parent = _) ▸ decide_eq_true hmem
    · exact fun item h hmem => (of_decide_eq_true h : item.ruleId = _) ▸ decide_eq_true hmem

variable (projectId environmentId : UUID)

/-- **What the database gives for one key.** -/
def LoadState.stored (flagKey : String) : Except PyError FlagConfiguration :=
  match state.db.configOfKey projectId environmentId flagKey with
  | none => .error flagNotFound
  | some item => compileConfiguration (state.db.loaded item)

theorem resultIn_getConfigByKey (flagKey : String) :
    (getConfigByKey projectId environmentId flagKey).resultIn state.view
      = state.stored projectId environmentId flagKey := by
  unfold getConfigByKey LoadState.stored
  rw [Prog.resultIn_bind, resultIn_select]
  cases state.db.configOfKey projectId environmentId flagKey with
  | none => rfl
  | some item =>
    show Prog.resultIn state.view (loadCollections _ _ _ >>= _) = _
    rw [Prog.resultIn_bind, resultIn_loadCollections]
    exact Prog.resultIn_attempt state.view _

theorem resultIn_getConfigsByKeys (flagKeys : List String) :
    (getConfigsByKeys projectId environmentId flagKeys).resultIn state.view
      = (state.db.configsOfKeys projectId environmentId flagKeys).mapM (fun item =>
          (compileConfiguration (state.db.loaded item)).map (fun c => (item.2.1.key, c))) := by
  unfold getConfigsByKeys
  rw [resultIn_selectAll_bind, Prog.resultIn_bind, resultIn_loadAllCollections]
  show Prog.resultIn state.view (Prog.attempt _) = _
  rw [Prog.resultIn_attempt, List.mapM_map]
  rfl

end Reads

/-! ## One row for each key -/

section Rows

variable {db : Database} {projectId environmentId : UUID}

/-- **A key belongs to one row**: what the main SELECTs find is determined by the
flag's project and key and by the environment. -/
theorem joined_unique (hs : db.Keys)
    {item item' : FlagConfigRow × FeatureFlagRow × EnvironmentRow}
    (h : item ∈ db.configs.filterMap db.joined) (h' : item' ∈ db.configs.filterMap db.joined)
    (hproject : item.2.1.projectId = item'.2.1.projectId) (hkey : item.2.1.key = item'.2.1.key)
    (henvironment : item.1.environmentId = item'.1.environmentId) : item = item' := by
  obtain ⟨row, hrow, hjoined⟩ := List.mem_filterMap.mp h
  obtain ⟨row', hrow', hjoined'⟩ := List.mem_filterMap.mp h'
  obtain ⟨found, flag, environment⟩ := item
  obtain ⟨found', flag', environment'⟩ := item'
  obtain ⟨rfl, hflag, -⟩ := joined_eq_some.mp hjoined
  obtain ⟨rfl, hflag', -⟩ := joined_eq_some.mp hjoined'
  obtain ⟨hmem, hid⟩ := mem_and_of_find? hflag
  obtain ⟨hmem', hid'⟩ := mem_and_of_find? hflag'
  have hflags : flag = flag' :=
    List.inj_on_of_nodup_map hs.flagKeys hmem hmem' (Prod.ext hproject hkey)
  have hrows : found = found' := List.inj_on_of_nodup_map hs.configPairs hrow hrow'
    (Prod.ext (hid.symm.trans (hflags ▸ hid')) henvironment)
  subst hrows
  exact Option.some.inj (hjoined.symm.trans hjoined')

/-- The query over many keys finds what the query of each key finds. -/
theorem mem_configsOfKeys (hs : db.Keys) {flagKeys : List String}
    {item : FlagConfigRow × FeatureFlagRow × EnvironmentRow} :
    item ∈ db.configsOfKeys projectId environmentId flagKeys
      ↔ item.2.1.key ∈ flagKeys
        ∧ db.configOfKey projectId environmentId item.2.1.key = some item := by
  unfold Database.configsOfKeys
  rw [List.mem_filter, decide_eq_true_eq]
  constructor
  · rintro ⟨hmem, hproject, hkey, hlive, henvironment⟩
    refine ⟨hkey, ?_⟩
    cases hfound : db.configOfKey projectId environmentId item.2.1.key with
    | none =>
      refine absurd ?_ (List.find?_eq_none.mp hfound item hmem)
      exact decide_eq_true ⟨hproject, rfl, hlive, henvironment⟩
    | some found =>
      obtain ⟨hfoundMem, hp, hk, -, he⟩ := mem_and_of_find? hfound
      exact congrArg some (joined_unique hs hfoundMem hmem (hp.trans hproject.symm) hk
        (he.trans henvironment.symm))
  · rintro ⟨hkey, hfound⟩
    obtain ⟨hmem, hproject, -, hlive, henvironment⟩ := mem_and_of_find? hfound
    exact ⟨hmem, hproject, hkey, hlive, henvironment⟩

/-- No configuration is found twice. -/
theorem nodup_joined (hs : db.Keys) : (db.configs.filterMap db.joined).Nodup := by
  refine hs.configIds.of_map.filterMap (fun row row' item h h' => ?_)
  obtain ⟨rfl, -, -⟩ := joined_eq_some.mp h
  obtain ⟨hsame, -, -⟩ := joined_eq_some.mp h'
  exact hsame

/-- No key is found twice. -/
theorem nodup_keys_configsOfKeys (hs : db.Keys) (flagKeys : List String) :
    ((db.configsOfKeys projectId environmentId flagKeys).map (fun item => item.2.1.key)).Nodup := by
  refine List.Nodup.map_on (fun item hitem item' hitem' hkey => ?_) ((nodup_joined hs).filter _)
  obtain ⟨-, hfound⟩ := (mem_configsOfKeys hs).mp hitem
  obtain ⟨-, hfound'⟩ := (mem_configsOfKeys hs).mp hitem'
  rw [hkey, hfound'] at hfound
  exact (Option.some.inj hfound).symm

/-- What the query of a key finds has that key. -/
theorem key_of_configOfKey {flagKey : String}
    {item : FlagConfigRow × FeatureFlagRow × EnvironmentRow}
    (h : db.configOfKey projectId environmentId flagKey = some item) : item.2.1.key = flagKey :=
  (mem_and_of_find? h).2.2.1

end Rows

/-! ## Hits and misses -/

section Split

variable (json : ConfigJson) (state : LoadState) (projectId environmentId : UUID)

/-- **What Redis gives for one key**: nothing, or what its payload validates to. -/
def LoadState.cached (flagKey : String) : Option (Except PyError FlagConfiguration) :=
  (truthy (state.get (configCacheKey projectId environmentId flagKey))).map
    json.modelValidateJson

/-- One MGET gives what the single GETs give. -/
theorem mget_eq_map (keys : List String) : state.mget keys = keys.map state.get := by
  unfold LoadState.mget LoadState.get
  by_cases h : state.readable
  · simp [h]
  · simp [h, List.map_const']

/-- **The keys so far, taken apart**: the configurations are those of the hits, and
the misses are the rest. -/
structure Split (found : String → Option (Except PyError FlagConfiguration))
    (keys : List String) (acc : Dict FlagConfiguration × List String) : Prop where
  /-- A configuration is what a hit validated to. -/
  hits : ∀ key c, acc.1.get? key = some c ↔ key ∈ keys ∧ found key = some (.ok c)
  /-- The misses are the keys that were not found. -/
  misses : ∀ key, key ∈ acc.2 ↔ key ∈ keys ∧ found key = none
  /-- Nothing was found that does not validate. -/
  valid : ∀ key ∈ keys, ∀ e, found key ≠ some (.error e)

/-- What becomes of more keys: they are taken apart too, or one of them has a payload
that does not validate. -/
def Splits (found : String → Option (Except PyError FlagConfiguration))
    (keys rest : List String) : Except PyError (Dict FlagConfiguration × List String) → Prop
  | .ok acc => Split found (keys ++ rest) acc
  | .error e => ∃ key ∈ rest, found key = some (.error e)

variable {json state projectId environmentId}

/-- No keys yet. -/
theorem split_nil (found : String → Option (Except PyError FlagConfiguration)) :
    Split found [] (Dict.empty, []) where
  hits := by simp
  misses := by simp
  valid := by simp

/-- **One more key.** -/
theorem splitStep_spec {keys : List String} {acc : Dict FlagConfiguration × List String}
    (hsplit : Split (state.cached json projectId environmentId) keys acc) (key : String) :
    Splits (state.cached json projectId environmentId) keys [key]
      (splitStep json acc (key, state.get (configCacheKey projectId environmentId key))) := by
  unfold splitStep
  cases hpayload : truthy (state.get (configCacheKey projectId environmentId key)) with
  | none =>
    -- a miss is remembered, and the hits stay
    have hmiss : state.cached json projectId environmentId key = none := by
      rw [LoadState.cached, hpayload]
      rfl
    refine ⟨fun other c => ?_, fun other => ?_, fun other hother e => ?_⟩
    · rw [hsplit.hits, List.mem_append, List.mem_singleton]
      refine ⟨fun h => ⟨.inl h.1, h.2⟩, fun h => ⟨h.1.resolve_right (fun heq => ?_), h.2⟩⟩
      rw [heq, hmiss] at h
      cases h.2
    · rw [List.mem_append, List.mem_append, hsplit.misses, List.mem_singleton]
      refine ⟨fun h => ?_, fun h => ?_⟩
      · rcases h with h | rfl
        · exact ⟨.inl h.1, h.2⟩
        · exact ⟨.inr rfl, hmiss⟩
      · exact h.1.imp (fun hmem => ⟨hmem, h.2⟩) (fun heq => heq)
    · rcases List.mem_append.mp hother with hmem | heq
      · exact hsplit.valid other hmem e
      · rw [List.mem_singleton.mp heq, hmiss]
        simp
  | some payload =>
    have hhit : state.cached json projectId environmentId key
        = some (json.modelValidateJson payload) := by
      rw [LoadState.cached, hpayload]
      rfl
    show Splits _ keys [key] (json.modelValidateJson payload >>= fun config =>
      pure (acc.1.insert key config, acc.2))
    -- a hit is validated, which may raise
    cases hvalidate : json.modelValidateJson payload with
    | error e => exact ⟨key, List.mem_singleton.mpr rfl, hhit.trans (congrArg some hvalidate)⟩
    | ok config =>
      rw [hvalidate] at hhit
      refine ⟨fun other c => ?_, fun other => ?_, fun other hother e => ?_⟩
      · show (acc.1.insert key config).get? other = some c ↔ _
        rw [Dict.get?_insert, List.mem_append, List.mem_singleton]
        by_cases h : other = key
        · rw [if_pos h, h, hhit]
          simp
        · rw [if_neg h, hsplit.hits, or_iff_left h]
      · show other ∈ acc.2 ↔ _
        rw [hsplit.misses, List.mem_append, List.mem_singleton]
        refine ⟨fun h => ⟨.inl h.1, h.2⟩, fun h => ⟨h.1.resolve_right (fun heq => ?_), h.2⟩⟩
        rw [heq, hhit] at h
        cases h.2
      · rcases List.mem_append.mp hother with hmem | heq
        · exact hsplit.valid other hmem e
        · rw [List.mem_singleton.mp heq, hhit]
          simp

/-- **All keys.** -/
theorem foldlM_splitStep_spec (rest : List String) {keys : List String}
    {acc : Dict FlagConfiguration × List String}
    (hsplit : Split (state.cached json projectId environmentId) keys acc) :
    Splits (state.cached json projectId environmentId) keys rest
      ((rest.zip (state.mget (rest.map (configCacheKey projectId environmentId)))).foldlM
        (splitStep json) acc) := by
  rw [mget_eq_map, List.map_map]
  induction rest generalizing keys acc with
  | nil =>
    show Split _ (keys ++ []) acc
    rw [List.append_nil]
    exact hsplit
  | cons key rest ih =>
    have hstep := splitStep_spec hsplit key
    rw [List.map_cons, List.zip_cons_cons, List.foldlM_cons]
    show Splits _ keys (key :: rest) (splitStep json acc
      (key, state.get (configCacheKey projectId environmentId key)) >>= _)
    cases hnext : splitStep json acc
        (key, state.get (configCacheKey projectId environmentId key)) with
    | error e =>
      rw [hnext] at hstep
      obtain ⟨found, hmem, hfound⟩ := hstep
      exact ⟨found, List.mem_singleton.mp hmem ▸ List.mem_cons_self, hfound⟩
    | ok acc' =>
      rw [hnext] at hstep
      have hrest := ih hstep
      show Splits _ keys (key :: rest) ((rest.zip _).foldlM (splitStep json) acc')
      cases hresult : (rest.zip (rest.map
          (state.get ∘ configCacheKey projectId environmentId))).foldlM (splitStep json) acc' with
      | ok last =>
        rw [hresult] at hrest
        show Split _ (keys ++ (key :: rest)) last
        have hkeys : keys ++ [key] ++ rest = keys ++ key :: rest := List.append_assoc ..
        exact hkeys ▸ hrest
      | error e =>
        rw [hresult] at hrest
        obtain ⟨found, hmem, hfound⟩ := hrest
        exact ⟨found, List.mem_cons_of_mem key hmem, hfound⟩

end Split

/-! ## Single loads -/

section Agreement

variable (json : ConfigJson) (cacheTtlSeconds : ℕ) {state : LoadState}
  {projectId environmentId : UUID}

/-- A hit is what its payload validates to. -/
theorem loadConfiguration_of_hit {flagKey : String} {result : Except PyError FlagConfiguration}
    (h : state.cached json projectId environmentId flagKey = some result) :
    loadConfiguration json cacheTtlSeconds state projectId environmentId flagKey
      = ⟨[], result⟩ := by
  unfold LoadState.cached at h
  obtain ⟨payload, hpayload, rfl⟩ := Option.map_eq_some_iff.mp h
  unfold loadConfiguration
  rw [hpayload]

/-- A miss is what the database gives, and it is set. -/
theorem loadConfiguration_of_miss {flagKey : String}
    (h : state.cached json projectId environmentId flagKey = none) :
    loadConfiguration json cacheTtlSeconds state projectId environmentId flagKey
      = ⟨(state.stored projectId environmentId flagKey).toOption.toList.map
          (cacheEntry json cacheTtlSeconds projectId environmentId flagKey),
        state.stored projectId environmentId flagKey⟩ := by
  unfold loadConfiguration
  rw [Option.map_eq_none_iff.mp h, resultIn_getConfigByKey]
  cases state.stored projectId environmentId flagKey with
  | ok c => rfl
  | error e => rfl

/-! ## What the query over the misses gives -/

theorem exists_of_mapM_eq_error {α β : Type} {f : α → Except PyError β} {e : PyError}
    {xs : List α} (h : xs.mapM f = .error e) : ∃ x ∈ xs, f x = .error e := by
  induction xs with
  | nil => cases h
  | cons x xs ih =>
    rw [List.mapM_cons] at h
    cases hx : f x with
    | error e' =>
      rw [hx] at h
      cases h
      exact ⟨x, List.mem_cons_self, hx⟩
    | ok b =>
      rw [hx] at h
      cases hxs : xs.mapM f with
      | error e' =>
        have he : e' = e := by
          simp only [hxs] at h
          cases h
          rfl
        obtain ⟨y, hy, hfy⟩ := ih (hxs.trans (congrArg Except.error he))
        exact ⟨y, List.mem_cons_of_mem x hy, hfy⟩
      | ok bs =>
        simp only [hxs] at h
        cases h

/-- The item of the dictionary for one row. -/
theorem map_compile_eq_ok {config : LoadedConfig} {key : String}
    {item : String × FlagConfiguration}
    (h : (compileConfiguration config).map (fun c => (key, c)) = .ok item) :
    item.1 = key ∧ compileConfiguration config = .ok item.2 := by
  cases hc : compileConfiguration config with
  | error e =>
    rw [hc] at h
    cases h
  | ok c =>
    rw [hc] at h
    cases h
    exact ⟨rfl, rfl⟩

theorem map_compile_eq_error {config : LoadedConfig} {key : String} {e : PyError}
    (h : (compileConfiguration config).map (fun c => (key, c)) = .error e) :
    compileConfiguration config = .error e := by
  cases hc : compileConfiguration config with
  | error e' =>
    rw [hc] at h
    cases h
    rfl
  | ok c =>
    rw [hc] at h
    cases h

/-- A key with a row is what the row compiles to. -/
theorem stored_of_configOfKey {flagKey : String}
    {item : FlagConfigRow × FeatureFlagRow × EnvironmentRow}
    (h : state.db.configOfKey projectId environmentId flagKey = some item) :
    state.stored projectId environmentId flagKey
      = compileConfiguration (state.db.loaded item) := by
  unfold LoadState.stored
  rw [h]

/-- **What the query over many keys returns** is what is stored under each of them. -/
theorem getConfigsByKeys_ok (hs : state.db.Keys) {flagKeys : List String}
    {items : List (String × FlagConfiguration)}
    (h : (getConfigsByKeys projectId environmentId flagKeys).resultIn state.view = .ok items) :
    (∀ key c, (Dict.ofPairs items).get? key = some c
      ↔ key ∈ flagKeys ∧ state.stored projectId environmentId key = .ok c)
    ∧ ∀ key ∈ flagKeys, ∀ e, state.stored projectId environmentId key = .error e →
      e = flagNotFound := by
  rw [resultIn_getConfigsByKeys] at h
  have hall := mapM_eq_ok.mp h
  -- each item carries the key of its row, and no row is found twice
  have hkeys : (state.db.configsOfKeys projectId environmentId flagKeys).map
      (fun item => item.2.1.key) = items.map Prod.fst := by
    refine List.forall₂_eq_eq_eq ▸ List.forall₂_map_left_iff.mpr
      (List.forall₂_map_right_iff.mpr (hall.imp (fun item found hfound => ?_)))
    exact (map_compile_eq_ok hfound).1.symm
  have hnodup : (items.map Prod.fst).Nodup := hkeys ▸ nodup_keys_configsOfKeys hs flagKeys
  refine ⟨fun key c => ?_, fun key hkey e he => ?_⟩
  · rw [← Dict.mem_items_iff, Dict.items_ofPairs hnodup]
    constructor
    · intro hmem
      obtain ⟨item, hitem, hcompile⟩ := (PermBy.of_forall₂ hall).exists_left hmem
      obtain ⟨hsame, hcompile⟩ := map_compile_eq_ok hcompile
      obtain ⟨hkey, hfound⟩ := (mem_configsOfKeys hs).mp hitem
      have hsame : item.2.1.key = key := hsame.symm
      rw [hsame] at hkey hfound
      exact ⟨hkey, (stored_of_configOfKey hfound).trans hcompile⟩
    · rintro ⟨hkey, hstored⟩
      cases hfound : state.db.configOfKey projectId environmentId key with
      | none =>
        rw [LoadState.stored, hfound] at hstored
        cases hstored
      | some item =>
        rw [stored_of_configOfKey hfound] at hstored
        have hsame := key_of_configOfKey hfound
        have hitem : item ∈ state.db.configsOfKeys projectId environmentId flagKeys :=
          (mem_configsOfKeys hs).mpr (hsame.symm ▸ ⟨hkey, hfound⟩)
        obtain ⟨found, hmem, hcompile⟩ := (PermBy.of_forall₂ hall).exists_right hitem
        obtain ⟨hfst, hcompile⟩ := map_compile_eq_ok hcompile
        have hc : found.2 = c := Except.ok.inj (hcompile.symm.trans hstored)
        have hpair : found = (key, c) := Prod.ext (hfst.trans hsame) hc
        exact hpair ▸ hmem
  · cases hfound : state.db.configOfKey projectId environmentId key with
    | none =>
      rw [LoadState.stored, hfound] at he
      cases he
      rfl
    | some item =>
      rw [stored_of_configOfKey hfound] at he
      have hsame := key_of_configOfKey hfound
      have hitem : item ∈ state.db.configsOfKeys projectId environmentId flagKeys :=
        (mem_configsOfKeys hs).mpr (hsame.symm ▸ ⟨hkey, hfound⟩)
      obtain ⟨found, -, hcompile⟩ := (PermBy.of_forall₂ hall).exists_right hitem
      rw [(map_compile_eq_ok hcompile).2] at he
      cases he

/-- What it raises, a row of one of the keys raises. -/
theorem getConfigsByKeys_error (hs : state.db.Keys) {flagKeys : List String} {e : PyError}
    (h : (getConfigsByKeys projectId environmentId flagKeys).resultIn state.view = .error e) :
    e.isApiError = false
      ∧ ∃ key ∈ flagKeys, state.stored projectId environmentId key = .error e := by
  rw [resultIn_getConfigsByKeys] at h
  obtain ⟨item, hitem, hcompile⟩ := exists_of_mapM_eq_error h
  have hcompile := map_compile_eq_error hcompile
  obtain ⟨hkey, hfound⟩ := (mem_configsOfKeys hs).mp hitem
  exact ⟨raisesNoApiError_compileConfiguration _ e hcompile, item.2.1.key, hkey,
    (stored_of_configOfKey hfound).trans hcompile⟩

/-! ## The batch -/

/-- The call raises the service's 404. -/
def LoadRun.RaisesNotFound {α : Type} (run : LoadRun α) : Prop :=
  ∃ e, run.result = .error e ∧ e.IsNotFound

/-- **A batch agrees with the single loads of its keys.** -/
structure BatchAgrees (single : String → LoadRun FlagConfiguration) (flagKeys : List String)
    (batch : LoadRun (Dict FlagConfiguration)) : Prop where
  /-- It returns when they all do, -/
  returns_iff : (∃ configs, batch.result = .ok configs)
    ↔ ∀ key ∈ flagKeys, ∃ c, (single key).result = .ok c
  /-- and then what they return. -/
  returned : ∀ configs, batch.result = .ok configs → ∀ key c,
    configs.get? key = some c ↔ key ∈ flagKeys ∧ (single key).result = .ok c
  /-- It raises a 404 when one of them does and none raises anything else, -/
  notFound_iff : batch.RaisesNotFound ↔ (∃ key ∈ flagKeys, (single key).RaisesNotFound)
    ∧ ∀ key ∈ flagKeys, ∀ e, (single key).result = .error e → e.IsNotFound
  /-- and names the keys of those, in order. -/
  named : ∀ e, batch.result = .error e → e.IsNotFound → ∃ missing, e = flagsNotFound missing
    ∧ missing.Pairwise (· < ·)
    ∧ ∀ key, key ∈ missing ↔ key ∈ flagKeys ∧ (single key).RaisesNotFound
  /-- Any other exception is one of theirs. -/
  raised : ∀ e, batch.result = .error e → ¬ e.IsNotFound →
    ∃ key ∈ flagKeys, (single key).result = .error e
  /-- What it sets, one of them sets. -/
  sets : ∀ entry ∈ batch.sets, ∃ key ∈ flagKeys, (single key).sets = [entry]

/-! ### Missing keys -/

/-- The keys without duplicates. -/
theorem nodup_eraseDups {α : Type} [DecidableEq α] (xs : List α) : xs.eraseDups.Nodup := by
  induction hlength : xs.length using Nat.strong_induction_on generalizing xs with
  | h n ih =>
    cases xs with
    | nil => exact List.nodup_nil
    | cons x xs =>
      have hshorter : (xs.filter (fun y => !y == x)).length < n :=
        (List.length_filter_le _ xs).trans_lt (hlength ▸ Nat.lt_succ_self xs.length)
      rw [List.eraseDups_cons, List.nodup_cons, List.mem_eraseDups]
      exact ⟨by simp, ih _ hshorter _ rfl⟩

/-- Nothing is missing. -/
theorem withoutMissing_eq_ok {keys : List String} {configs configs' : Dict FlagConfiguration} :
    withoutMissing keys configs = .ok configs'
      ↔ configs' = configs ∧ ∀ key ∈ keys, key ∈ configs.keys := by
  have hnil : sortedBy (fun key => key) (keys.filter (fun key => key ∉ configs.keys)) = []
      ↔ ∀ key ∈ keys, key ∈ configs.keys := by
    simp [List.eq_nil_iff_forall_not_mem]
  unfold withoutMissing
  by_cases h : ∀ key ∈ keys, key ∈ configs.keys
  · rw [if_neg (not_not.mpr (hnil.mpr h)), and_iff_left h, Except.ok.injEq]
    exact eq_comm
  · rw [if_pos (hnil.not.mpr h)]
    exact iff_of_false (fun heq => nomatch heq) (fun hand => h hand.2)

/-- What is missing is named, in order. -/
theorem withoutMissing_eq_error {keys : List String} (hkeys : keys.Nodup)
    {configs : Dict FlagConfiguration} {e : PyError}
    (h : withoutMissing keys configs = .error e) :
    ∃ missing, e = flagsNotFound missing ∧ missing ≠ [] ∧ missing.Pairwise (· < ·)
      ∧ ∀ key, key ∈ missing ↔ key ∈ keys ∧ key ∉ configs.keys := by
  unfold withoutMissing at h
  dsimp only at h
  split at h
  · rename_i hne
    cases h
    have hperm := sortedBy_perm (fun key : String => key)
      (keys.filter (fun key => key ∉ configs.keys))
    have hnodup := hperm.nodup_iff.mpr (hkeys.filter _)
    refine ⟨_, rfl, hne, ?_, fun key => ?_⟩
    · refine ((sortedBy_pairwise (fun key : String => key) _).and hnodup).imp ?_
      exact fun hand => lt_of_le_of_ne hand.1 hand.2
    · rw [mem_sortedBy, List.mem_filter, decide_eq_true_eq]
  · cases h

/-! ### What a batch does -/

/-- **The two ways of a batch**: it stops at an exception of a single load, or it
merges what the single loads return and looks for what is missing. -/
inductive BatchCase (single : String → LoadRun FlagConfiguration) (flagKeys : List String)
    (batch : LoadRun (Dict FlagConfiguration)) : Prop
  | stopped (e : PyError) (key : String) (requested : key ∈ flagKeys)
    (raises : (single key).result = .error e) (other : e.isApiError = false)
    (stops : batch = ⟨[], .error e⟩)
  | merged (configs : Dict FlagConfiguration)
    (found : ∀ key c, configs.get? key = some c
      ↔ key ∈ flagKeys ∧ (single key).result = .ok c)
    (missing : ∀ key ∈ flagKeys, ∀ e, (single key).result = .error e → e = flagNotFound)
    (ends : batch.result = withoutMissing flagKeys.eraseDups configs)
    (sets : ∀ entry ∈ batch.sets, ∃ key ∈ flagKeys, (single key).sets = [entry])

variable {single : String → LoadRun FlagConfiguration} {flagKeys : List String}
  {batch : LoadRun (Dict FlagConfiguration)}

/-- A flag without a row is a 404. -/
theorem isNotFound_flagNotFound : flagNotFound.IsNotFound := ⟨_, _, _, rfl⟩

/-- A batch that stops raises what one of the single loads raises. -/
theorem agrees_of_stopped {e : PyError} {key : String} (requested : key ∈ flagKeys)
    (raises : (single key).result = .error e) (other : e.isApiError = false)
    (stops : batch = ⟨[], .error e⟩) : BatchAgrees single flagKeys batch := by
  have hnot := not_isNotFound_of_isApiError other
  have hbatch : batch.result = .error e := congrArg LoadRun.result stops
  refine ⟨iff_of_false ?_ ?_, fun configs hok => ?_, iff_of_false ?_ ?_,
    fun e' he' hfound => ?_, fun e' he' _ => ⟨key, requested, ?_⟩, fun entry hentry => ?_⟩
  · rintro ⟨configs, hok⟩
    rw [hbatch] at hok
    cases hok
  · intro hall
    obtain ⟨c, hok⟩ := hall key requested
    rw [raises] at hok
    cases hok
  · rw [hbatch] at hok
    cases hok
  · rintro ⟨e', he', hfound⟩
    rw [hbatch] at he'
    cases he'
    exact hnot hfound
  · exact fun hand => hnot (hand.2 key requested e raises)
  · rw [hbatch] at he'
    cases he'
    exact absurd hfound hnot
  · cases hbatch.symm.trans he'
    exact raises
  · rw [stops] at hentry
    cases hentry

/-- A batch that merges raises exactly for the flags the single loads raise for. -/
theorem agrees_of_merged {configs : Dict FlagConfiguration}
    (found : ∀ key c, configs.get? key = some c
      ↔ key ∈ flagKeys ∧ (single key).result = .ok c)
    (missing : ∀ key ∈ flagKeys, ∀ e, (single key).result = .error e → e = flagNotFound)
    (ends : batch.result = withoutMissing flagKeys.eraseDups configs)
    (sets : ∀ entry ∈ batch.sets, ∃ key ∈ flagKeys, (single key).sets = [entry]) :
    BatchAgrees single flagKeys batch := by
  -- a single load returns, or it raises the error for one flag
  have hcases : ∀ key ∈ flagKeys, (∃ c, (single key).result = .ok c)
      ∨ (single key).result = .error flagNotFound := by
    intro key hkey
    cases hresult : (single key).result with
    | ok c => exact .inl ⟨c, rfl⟩
    | error e => exact .inr (congrArg Except.error (missing key hkey e hresult))
  have hkeys : ∀ key, key ∈ configs.keys
      ↔ key ∈ flagKeys ∧ ∃ c, (single key).result = .ok c := by
    intro key
    rw [Dict.mem_keys_iff]
    exact (exists_congr (found key)).trans exists_and_left
  have hnotFound : ∀ key, key ∈ flagKeys ∧ key ∉ configs.keys
      ↔ key ∈ flagKeys ∧ (single key).RaisesNotFound := by
    intro key
    refine and_congr_right (fun hkey => ?_)
    rw [hkeys, not_and]
    rcases hcases key hkey with ⟨c, hok⟩ | herror
    · refine iff_of_false (fun h => h hkey ⟨c, hok⟩) ?_
      rintro ⟨e, he, -⟩
      rw [hok] at he
      cases he
    · refine iff_of_true (fun _ ⟨c, hok⟩ => ?_) ⟨_, herror, isNotFound_flagNotFound⟩
      rw [herror] at hok
      cases hok
  have herror : ∀ e, batch.result = .error e → ∃ names, e = flagsNotFound names ∧ names ≠ []
      ∧ names.Pairwise (· < ·)
      ∧ ∀ key, key ∈ names ↔ key ∈ flagKeys ∧ (single key).RaisesNotFound := by
    intro e he
    obtain ⟨names, hnames, hne, hsorted, hmem⟩ :=
      withoutMissing_eq_error (nodup_eraseDups flagKeys) (ends.symm.trans he)
    refine ⟨names, hnames, hne, hsorted, fun key => ?_⟩
    rw [hmem, List.mem_eraseDups, hnotFound]
  have hok : ∀ configs', batch.result = .ok configs'
      ↔ configs' = configs ∧ ∀ key ∈ flagKeys, ∃ c, (single key).result = .ok c := by
    intro configs'
    rw [ends, withoutMissing_eq_ok]
    refine and_congr_right (fun _ => forall_congr' (fun key => ?_))
    rw [List.mem_eraseDups, hkeys]
    exact ⟨fun h hkey => (h hkey).2, fun h hkey => ⟨hkey, h hkey⟩⟩
  refine ⟨⟨?_, ?_⟩, ?_, ⟨?_, ?_⟩, ?_, ?_, sets⟩
  · exact fun ⟨configs', h⟩ => ((hok configs').mp h).2
  · exact fun h => ⟨configs, (hok configs).mpr ⟨rfl, h⟩⟩
  · intro configs' h
    rw [((hok configs').mp h).1]
    exact found
  · rintro ⟨e, he, -⟩
    obtain ⟨names, -, hne, -, hmem⟩ := herror e he
    obtain ⟨key, hkey⟩ := List.exists_mem_of_ne_nil names hne
    exact ⟨⟨key, (hmem key).mp hkey⟩, fun key hkey e he =>
      missing key hkey e he ▸ isNotFound_flagNotFound⟩
  · rintro ⟨⟨key, hkey, e, he, hfound⟩, -⟩
    cases hresult : batch.result with
    | ok configs' =>
      obtain ⟨c, hc⟩ := ((hok configs').mp hresult).2 key hkey
      rw [he] at hc
      cases hc
    | error e' =>
      obtain ⟨names, hnames, -⟩ := herror e' hresult
      exact ⟨e', hresult, hnames ▸ ⟨_, _, _, rfl⟩⟩
  · intro e he _
    obtain ⟨names, hnames, -, hsorted, hmem⟩ := herror e he
    exact ⟨names, hnames, hsorted, hmem⟩
  · intro e he hnot
    obtain ⟨names, hnames, -⟩ := herror e he
    exact absurd (hnames ▸ ⟨_, _, _, rfl⟩) hnot

/-- Either way it agrees with the single loads. -/
theorem BatchCase.agrees (h : BatchCase single flagKeys batch) :
    BatchAgrees single flagKeys batch := by
  cases h with
  | stopped e key requested raises other stops =>
    exact agrees_of_stopped requested raises other stops
  | merged configs found missing ends sets => exact agrees_of_merged found missing ends sets

/-- What the hits and the query give together. -/
theorem Split.merge {keys : List String} {acc : Dict FlagConfiguration × List String}
    (h : Split (state.cached json projectId environmentId) keys acc)
    {loaded : Dict FlagConfiguration} (hloaded : ∀ key c, loaded.get? key = some c
      ↔ key ∈ acc.2 ∧ state.stored projectId environmentId key = .ok c)
    (key : String) (c : FlagConfiguration) :
    (acc.1.update loaded).get? key = some c ↔ key ∈ keys
      ∧ (loadConfiguration json cacheTtlSeconds state projectId environmentId key).result
        = .ok c := by
  rw [Dict.get?_update]
  cases hcached : state.cached json projectId environmentId key with
  | some result =>
    have hnone : loaded.get? key = none := by
      refine Option.eq_none_iff_forall_ne_some.mpr (fun c' hc' => ?_)
      have hmiss := ((h.misses key).mp ((hloaded key c').mp hc').1).2
      rw [hcached] at hmiss
      cases hmiss
    rw [hnone, Option.none_or, h.hits, hcached, loadConfiguration_of_hit json _ hcached,
      Option.some.injEq]
  | none =>
    have hnone : acc.1.get? key = none := by
      refine Option.eq_none_iff_forall_ne_some.mpr (fun c' hc' => ?_)
      have hhit := ((h.hits key c').mp hc').2
      rw [hcached] at hhit
      cases hhit
    rw [hnone, Option.or_none, hloaded, h.misses, and_iff_left hcached,
      loadConfiguration_of_miss json _ hcached]

/-- Only a flag without a row is still missing. -/
theorem Split.missing {keys : List String} {acc : Dict FlagConfiguration × List String}
    (h : Split (state.cached json projectId environmentId) keys acc)
    (hstored : ∀ key ∈ acc.2, ∀ e, state.stored projectId environmentId key = .error e →
      e = flagNotFound) (key : String) (hkey : key ∈ keys) (e : PyError)
    (he : (loadConfiguration json cacheTtlSeconds state projectId environmentId key).result
      = .error e) : e = flagNotFound := by
  cases hcached : state.cached json projectId environmentId key with
  | some result =>
    rw [loadConfiguration_of_hit json _ hcached] at he
    exact absurd (hcached.trans (congrArg some he)) (h.valid key hkey e)
  | none =>
    rw [loadConfiguration_of_miss json _ hcached] at he
    exact hstored key ((h.misses key).mpr ⟨hkey, hcached⟩) e he

variable (flagKeys) in
/-- **A batch goes one of the two ways.** -/
theorem batchCase_loadConfigurations (hs : state.db.Keys) :
    BatchCase (loadConfiguration json cacheTtlSeconds state projectId environmentId) flagKeys
      (loadConfigurations json cacheTtlSeconds state projectId environmentId flagKeys) := by
  have hloop := foldlM_splitStep_spec flagKeys.eraseDups
    (split_nil (state.cached json projectId environmentId))
  unfold loadConfigurations
  dsimp only
  cases hresult : (flagKeys.eraseDups.zip (state.mget (flagKeys.eraseDups.map
      (configCacheKey projectId environmentId)))).foldlM (splitStep json) (Dict.empty, []) with
  | error e =>
    rw [hresult] at hloop
    obtain ⟨key, hkey, hfound⟩ := hloop
    obtain ⟨payload, -, hvalidate⟩ := Option.map_eq_some_iff.mp hfound
    exact .stopped e key (List.mem_eraseDups.mp hkey)
      (congrArg LoadRun.result (loadConfiguration_of_hit json cacheTtlSeconds hfound))
      (raisesNoApiError_modelValidateJson json payload e hvalidate) rfl
  | ok acc =>
    obtain ⟨configs, misses⟩ := acc
    rw [hresult] at hloop
    have hsplit : Split _ flagKeys.eraseDups (configs, misses) := hloop
    dsimp only
    split
    · cases hquery : (getConfigsByKeys projectId environmentId misses).resultIn state.view with
      | error e =>
        obtain ⟨hother, key, hkey, hstored⟩ := getConfigsByKeys_error hs hquery
        obtain ⟨hrequested, hmiss⟩ := (hsplit.misses key).mp hkey
        exact .stopped e key (List.mem_eraseDups.mp hrequested)
          ((congrArg LoadRun.result (loadConfiguration_of_miss json _ hmiss)).trans hstored)
          hother rfl
      | ok items =>
        obtain ⟨hloaded, hstored⟩ := getConfigsByKeys_ok hs hquery
        refine .merged (configs.update (Dict.ofPairs items)) (fun key c => ?_)
          (fun key hkey => hsplit.missing json cacheTtlSeconds hstored key
            (List.mem_eraseDups.mpr hkey)) rfl (fun entry hentry => ?_)
        · rw [hsplit.merge json cacheTtlSeconds hloaded, List.mem_eraseDups]
        · -- what is set is what the query returned, and a single load sets it too
          obtain ⟨item, hitem, rfl⟩ := List.mem_map.mp hentry
          obtain ⟨hkey, hvalue⟩ := (hloaded item.1 item.2).mp (Dict.mem_items_iff.mp hitem)
          obtain ⟨hrequested, hmiss⟩ := (hsplit.misses item.1).mp hkey
          refine ⟨item.1, List.mem_eraseDups.mp hrequested, ?_⟩
          rw [loadConfiguration_of_miss json _ hmiss, hvalue]
          rfl
    · rename_i hempty
      have hempty : misses = [] := not_not.mp hempty
      have hloaded : ∀ key c, (Dict.empty : Dict FlagConfiguration).get? key = some c
          ↔ key ∈ misses ∧ state.stored projectId environmentId key = .ok c := by
        simp [hempty]
      have hstored : ∀ key ∈ misses, ∀ e,
          state.stored projectId environmentId key = .error e → e = flagNotFound := by
        simp [hempty]
      refine .merged configs (fun key c => ?_)
        (fun key hkey => hsplit.missing json cacheTtlSeconds hstored key
          (List.mem_eraseDups.mpr hkey)) rfl (fun entry hentry => nomatch hentry)
      exact (hsplit.merge json cacheTtlSeconds hloaded key c).trans
        (and_congr_left' List.mem_eraseDups)

end Agreement

/-- **Batch loading agrees with single loading**, whatever the database and Redis
hold, whether or not Redis can be read, and however often a key is requested. -/
theorem load_configurations_agree (json : ConfigJson) (cacheTtlSeconds : ℕ) (state : LoadState)
    (hs : state.db.Consistent) (projectId environmentId : UUID) (flagKeys : List String) :
    BatchAgrees (loadConfiguration json cacheTtlSeconds state projectId environmentId) flagKeys
      (loadConfigurations json cacheTtlSeconds state projectId environmentId flagKeys) :=
  (batchCase_loadConfigurations json cacheTtlSeconds flagKeys hs.keys).agrees

/-! ## Two stored flags, one of them cached -/

theorem storedVariations_nodup :
    ([("on", Json.bool true), ("off", .bool false)].map Prod.fst).Nodup := by decide

/-- Two flags of one environment. -/
def bannerAndFooter : Database where
  organizations := [⟨⟨10⟩, "Acme", "acme"⟩]
  memberships := []
  projects := [⟨⟨20⟩, ⟨10⟩, "Shop", "shop"⟩]
  environments := [⟨⟨30⟩, ⟨20⟩, "production", "Production", 2⟩]
  flags := [⟨⟨40⟩, ⟨20⟩, "banner", "Banner", "", .boolean, none⟩,
    ⟨⟨41⟩, ⟨20⟩, "footer", "Footer", "", .boolean, none⟩]
  configs := [⟨⟨50⟩, ⟨40⟩, ⟨30⟩, true, "off", 1, "salt_1"⟩,
    ⟨⟨51⟩, ⟨41⟩, ⟨30⟩, true, "on", 1, "salt_2"⟩]
  children := { ChildTables.empty with
    variations := [⟨⟨50⟩, "on", .bool true⟩, ⟨⟨50⟩, "off", .bool false⟩,
      ⟨⟨51⟩, "on", .bool true⟩, ⟨⟨51⟩, "off", .bool false⟩] }
  versions := []
  changes := []
  audits := []
  apiKeys := []

/-- What the stored configuration of the banner compiles to. -/
def bannerFields : ConfigurationFields where
  projectId := UUID.str ⟨20⟩
  environmentId := UUID.str ⟨30⟩
  environmentKey := "production"
  flagId := UUID.str ⟨40⟩
  flagKey := "banner"
  flagType := .boolean
  enabled := true
  defaultVariation := "off"
  variations := ⟨[("on", .bool true), ("off", .bool false)], storedVariations_nodup⟩
  configVersion := 1
  salt := "salt_1"
  rules := []
  rollout := []
  progressiveStages := []

/-- `model_dump_json` of a flag like these two. -/
def storedText (flagId flagKey defaultVariation salt : String) : String :=
  "\x7b\"project_id\":\"00000000-0000-0000-0000-000000000014\","
  ++ "\"environment_id\":\"00000000-0000-0000-0000-00000000001e\","
  ++ "\"environment_key\":\"production\",\"flag_id\":\"" ++ flagId
  ++ "\",\"flag_key\":\"" ++ flagKey
  ++ "\",\"flag_type\":\"BOOLEAN\",\"enabled\":true,\"default_variation\":\"" ++ defaultVariation
  ++ "\",\"variations\":\x7b\"on\":true,\"off\":false\x7d,\"config_version\":1,\"salt\":\"" ++ salt
  ++ "\",\"rules\":[],\"rollout\":[],\"progressive_stages\":[]\x7d"

/-- What Redis holds for the banner. -/
def bannerPayload : List UInt8 :=
  (storedText "00000000-0000-0000-0000-000000000028" "banner" "off" "salt_1").toUTF8.toList

/-- pydantic at that text, and at texts that are no JSON. -/
def bannerJson : ConfigJson where
  parse := fun payload => if payload = bannerPayload then .ok bannerFields
    else .error (.validationError "Invalid JSON: EOF while parsing an object")
  dump := fun c => storedText c.flagId c.flagKey c.defaultVariation c.salt
  parseRaises := by
    intro payload e h
    split at h <;> cases h
    rfl

/-- Redis can be read and holds the banner only. -/
def bannerCached : LoadState where
  db := bannerAndFooter
  cache := fun key => if key = configCacheKey ⟨20⟩ ⟨30⟩ "banner" then some bannerPayload else none
  readable := true

/-- The batch asks for a hit, a miss that is stored, the hit again, and a flag that does
not exist. -/
theorem load_configurations_agree_sample :
    (bannerCached.cached bannerJson ⟨20⟩ ⟨30⟩ "banner").any (fun hit => hit.toOption.isSome) = true
    ∧ (bannerCached.cached bannerJson ⟨20⟩ ⟨30⟩ "footer").isNone = true
    ∧ (bannerCached.stored ⟨20⟩ ⟨30⟩ "footer").toOption.isSome = true
    ∧ bannerCached.stored ⟨20⟩ ⟨30⟩ "header" = .error flagNotFound
    ∧ BatchAgrees (loadConfiguration bannerJson 60 bannerCached ⟨20⟩ ⟨30⟩)
      ["banner", "footer", "banner", "header"]
      (loadConfigurations bannerJson 60 bannerCached ⟨20⟩ ⟨30⟩
        ["banner", "footer", "banner", "header"]) :=
  ⟨by decide +kernel, by decide +kernel, by decide +kernel, rfl,
    load_configurations_agree bannerJson 60 bannerCached (by decide +kernel) ⟨20⟩ ⟨30⟩ _⟩

/-- pydantic at a text that is no JSON. -/
def refusingJson : ConfigJson where
  parse := fun _ => .error (.validationError "Invalid JSON: EOF while parsing an object")
  dump := fun _ => "\x7b\x7d"
  parseRaises := by
    rintro payload e ⟨⟩
    rfl

/-- Redis holds an opening brace under the key of one flag. -/
def cutOff : LoadState where
  db := .empty
  cache := fun key => if key = configCacheKey ⟨20⟩ ⟨30⟩ "banner" then some [123] else none
  readable := true

/-- A payload that does not validate hides that another flag is not found. -/
theorem missing_flag_not_reported : ¬ ∀ (json : ConfigJson) (cacheTtlSeconds : ℕ)
    (state : LoadState), state.db.Consistent → ∀ (projectId environmentId : UUID)
    (flagKeys : List String),
    (loadConfigurations json cacheTtlSeconds state projectId environmentId flagKeys).RaisesNotFound
      ↔ ∃ key ∈ flagKeys,
        (loadConfiguration json cacheTtlSeconds state projectId environmentId key).RaisesNotFound
    := by
  intro hall
  have hbanner : cutOff.cached refusingJson ⟨20⟩ ⟨30⟩ "banner"
      = some (refusingJson.modelValidateJson [123]) := by
    simp [LoadState.cached, LoadState.get, cutOff, truthy]
  have hfooter : cutOff.cached refusingJson ⟨20⟩ ⟨30⟩ "footer" = none := by
    have hne : configCacheKey ⟨20⟩ ⟨30⟩ "footer" ≠ configCacheKey ⟨20⟩ ⟨30⟩ "banner" := by
      intro h
      have haddress :=
        @configCacheKey_injective ⟨⟨20⟩, ⟨30⟩, "footer"⟩ ⟨⟨20⟩, ⟨30⟩, "banner"⟩ h
      exact absurd (congrArg ConfigAddress.flagKey haddress) (by decide)
    simp [LoadState.cached, LoadState.get, cutOff, truthy, hne]
  have hagrees : BatchAgrees (loadConfiguration refusingJson 60 cutOff ⟨20⟩ ⟨30⟩)
      ["banner", "footer"]
      (loadConfigurations refusingJson 60 cutOff ⟨20⟩ ⟨30⟩ ["banner", "footer"]) :=
    (batchCase_loadConfigurations refusingJson 60 _ (by decide)).agrees
  have hraises := (hall refusingJson 60 cutOff (by decide) ⟨20⟩ ⟨30⟩ ["banner", "footer"]).mpr
    ⟨"footer", by simp, flagNotFound, congrArg LoadRun.result
      (loadConfiguration_of_miss refusingJson 60 hfooter), isNotFound_flagNotFound⟩
  obtain ⟨code, message, details, h⟩ := (hagrees.notFound_iff.mp hraises).2 "banner" (by simp) _
    (congrArg LoadRun.result (loadConfiguration_of_hit refusingJson 60 hbanner))
  cases h

end CohortSwitch
