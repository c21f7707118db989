import CohortSwitch.AtomicRead

/-!
# Reading many configurations

`get_configs_by_keys` and `get_all_environment_configs` take one SELECT for the
rows of several configurations and then one for each relation, over all of
them. What they load of one configuration is what it would load alone, so if
every SELECT finds the same children, each configuration is loaded from these
(`loads_of_listing`).

The rows of a relation come back together, in any order, and are handed out to their
configurations by the foreign key. Filtering the rows of one configuration out of an
arrangement of the rows of all gives an arrangement of its own rows
(`perm_filter_of_perm`), which is all that `Loads` asks for.

A listing reads across commits like a single load does, and more easily, since it takes
as many statements for many configurations. What survives that is what the main SELECT
fixes: which configuration it is and which version (`Database.FindsVersion`). Its
collections were read by other statements, and nothing is said of them there.
-/

namespace CohortSwitch

/-! ## The SELECTs -/

/-- A row belongs to one of the configurations. -/
def Parent.isConfigOf (ids : List UUID) : Parent → Bool
  | .config id => id ∈ ids
  | .rule _ => false

/-- `selectinload` of each relation, over several configurations. -/
def loadAllCollections (items : List (FlagConfigRow × FeatureFlagRow × EnvironmentRow)) :
    Tx (List LoadedConfig) := do
  let ids := items.map (fun item => item.1.id)
  let variations ← selectAll (fun db =>
    db.children.variations.filter (fun item => item.configId ∈ ids))
  let rollouts ← selectAll (fun db =>
    db.children.rollouts.filter (fun item => item.parent.isConfigOf ids))
  let progressiveStages ← selectAll (fun db =>
    db.children.progressiveStages.filter (fun item => item.parent.isConfigOf ids))
  let rules ← selectAll (fun db =>
    db.children.rules.filter (fun item => item.configId ∈ ids))
  let conditions ← selectAll (fun db =>
    db.children.conditions.filter (fun item => item.ruleId ∈ rules.map TargetingRuleRow.id))
  let ruleRollouts ← selectAll (fun db =>
    db.children.rollouts.filter (fun item =>
      item.parent.isRuleOf (rules.map TargetingRuleRow.id)))
  let ruleStages ← selectAll (fun db =>
    db.children.progressiveStages.filter (fun item =>
      item.parent.isRuleOf (rules.map TargetingRuleRow.id)))
  pure (items.map (fun item => {
    row := item.1
    flag := item.2.1
    environment := item.2.2
    variations := variations.filter (fun row => row.configId = item.1.id)
    rollouts := rollouts.filter (fun row => row.parent = .config item.1.id)
    progressiveStages := progressiveStages.filter (fun row => row.parent = .config item.1.id)
    rules := (rules.filter (fun row => row.configId = item.1.id)).map (fun rule => {
      row := rule
      conditions := conditions.filter (fun row => row.ruleId = rule.id)
      rollouts := ruleRollouts.filter (fun row => row.parent = .rule rule.id)
      progressiveStages := ruleStages.filter (fun row => row.parent = .rule rule.id) }) }))

/-- The main SELECT of `get_configs_by_keys`. -/
def Database.configsOfKeys (db : Database) (projectId environmentId : UUID)
    (flagKeys : List String) : List (FlagConfigRow × FeatureFlagRow × EnvironmentRow) :=
  (db.configs.filterMap db.joined).filter (fun item =>
    item.2.1.projectId = projectId ∧ item.2.1.key ∈ flagKeys ∧ item.2.1.archivedAt = none
      ∧ item.1.environmentId = environmentId)

/-- `get_configs_by_keys`: the items of the dictionary it returns. -/
def getConfigsByKeys (projectId environmentId : UUID) (flagKeys : List String) :
    Tx (List (String × FlagConfiguration)) := do
  let items ← selectAll (fun db => db.configsOfKeys projectId environmentId flagKeys)
  let configs ← loadAllCollections items
  Prog.attempt (configs.mapM (fun config =>
    (compileConfiguration config).map (fun c => (config.flag.key, c))))

/-- The main SELECT of `get_all_environment_configs`. -/
def Database.configsOfEnvironment (db : Database) (projectId environmentId : UUID) :
    List (FlagConfigRow × FeatureFlagRow × EnvironmentRow) :=
  (db.configs.filterMap db.joined).filter (fun item =>
    item.2.1.projectId = projectId ∧ item.2.1.archivedAt = none
      ∧ item.1.environmentId = environmentId)

/-- `get_all_environment_configs`. It orders the rows by the keys of the flags,
and how the collation of the database orders texts is left open. -/
def getAllEnvironmentConfigs (projectId environmentId : UUID) : Tx (List FlagConfiguration) := do
  let items ← selectAll (fun db => db.configsOfEnvironment projectId environmentId)
  let configs ← loadAllCollections items
  Prog.attempt (configs.mapM compileConfiguration)

/-! ## What they load -/

/-- A configuration was loaded for the rows of the main SELECT. -/
def LoadedConfig.IsFor (loaded : LoadedConfig)
    (item : FlagConfigRow × FeatureFlagRow × EnvironmentRow) : Prop :=
  loaded.row = item.1 ∧ loaded.flag = item.2.1 ∧ loaded.environment = item.2.2

/-- Rows that pass a filter among those that pass a weaker one. -/
theorem perm_filter_of_perm {α : Type} {p q : α → Bool} {xs ys : List α}
    (h : xs.Perm (ys.filter q)) (hp : ∀ x, p x = true → q x = true) :
    (xs.filter p).Perm (ys.filter p) :=
  (h.filter p).trans (.of_eq (filter_filter_of_imp ys (fun x _ => hp x)))

/-- What the SELECTs over many configurations give for one of them. -/
theorem loads_of_listing {T T₁ T₂ T₃ T₄ T₅ T₆ T₇ : ChildTables} {row : FlagConfigRow}
    {ids : List UUID} (hid : row.id ∈ ids)
    (hsame : ∀ T' ∈ [T₁, T₂, T₃, T₄, T₅, T₆, T₇], T'.of row.id = T.of row.id)
    {flag : FeatureFlagRow} {environment : EnvironmentRow} {variations : List FlagVariationRow}
    {rollouts ruleRollouts : List RolloutAllocationRow}
    {stages ruleStages : List ProgressiveStageRow} {rules : List TargetingRuleRow}
    {conditions : List RuleConditionRow}
    (hvariations : variations.Perm (T₁.variations.filter (fun item => item.configId ∈ ids)))
    (hrollouts : rollouts.Perm (T₂.rollouts.filter (fun item => item.parent.isConfigOf ids)))
    (hstages : stages.Perm
      (T₃.progressiveStages.filter (fun item => item.parent.isConfigOf ids)))
    (hrules : rules.Perm (T₄.rules.filter (fun item => item.configId ∈ ids)))
    (hconditions : conditions.Perm
      (T₅.conditions.filter (fun item => item.ruleId ∈ rules.map TargetingRuleRow.id)))
    (hruleRollouts : ruleRollouts.Perm (T₆.rollouts.filter (fun item =>
      item.parent.isRuleOf (rules.map TargetingRuleRow.id))))
    (hruleStages : ruleStages.Perm (T₇.progressiveStages.filter (fun item =>
      item.parent.isRuleOf (rules.map TargetingRuleRow.id)))) :
    Loads T {
      row, flag, environment
      variations := variations.filter (fun item => item.configId = row.id)
      rollouts := rollouts.filter (fun item => item.parent = .config row.id)
      progressiveStages := stages.filter (fun item => item.parent = .config row.id)
      rules := (rules.filter (fun item => item.configId = row.id)).map (fun rule => {
        row := rule
        conditions := conditions.filter (fun item => item.ruleId = rule.id)
        rollouts := ruleRollouts.filter (fun item => item.parent = .rule rule.id)
        progressiveStages := ruleStages.filter (fun item => item.parent = .rule rule.id) }) } := by
  have hconfigId : ∀ id : UUID, decide (id = row.id) = true → decide (id ∈ ids) = true :=
    fun id h => decide_eq_true (of_decide_eq_true h ▸ hid)
  have hparent : ∀ parent : Parent, decide (parent = .config row.id) = true →
      parent.isConfigOf ids = true := by
    intro parent h
    rw [of_decide_eq_true h]
    exact decide_eq_true hid
  -- the rules of this configuration are among those that were listed
  have hown : ∀ id ∈ (rules.filter (fun item => item.configId = row.id)).map TargetingRuleRow.id,
      id ∈ rules.map TargetingRuleRow.id :=
    fun id h => (List.filter_sublist.map TargetingRuleRow.id).subset h
  have hruleId : ∀ id : UUID,
      decide (id ∈ (rules.filter (fun item => item.configId = row.id)).map TargetingRuleRow.id)
        = true → decide (id ∈ rules.map TargetingRuleRow.id) = true :=
    fun id h => decide_eq_true (hown id (of_decide_eq_true h))
  have hruleParent : ∀ parent : Parent, parent.isRuleOf
      ((rules.filter (fun item => item.configId = row.id)).map TargetingRuleRow.id) = true →
      parent.isRuleOf (rules.map TargetingRuleRow.id) = true := by
    intro parent h
    cases parent with
    | config id => exact h
    | rule id => exact hruleId id h
  have hsplit : ∀ rule ∈ rules.filter (fun item => item.configId = row.id),
      (⟨rule, conditions.filter (fun item => item.ruleId = rule.id),
        ruleRollouts.filter (fun item => item.parent = .rule rule.id),
        ruleStages.filter (fun item => item.parent = .rule rule.id)⟩ : LoadedRule)
      = ⟨rule, (conditions.filter (fun item => item.ruleId ∈
          (rules.filter (fun item => item.configId = row.id)).map TargetingRuleRow.id)).filter
            (fun item => item.ruleId = rule.id),
        (ruleRollouts.filter (fun item => item.parent.isRuleOf
          ((rules.filter (fun item => item.configId = row.id)).map TargetingRuleRow.id))).filter
            (fun item => item.parent = .rule rule.id),
        (ruleStages.filter (fun item => item.parent.isRuleOf
          ((rules.filter (fun item => item.configId = row.id)).map TargetingRuleRow.id))).filter
            (fun item => item.parent = .rule rule.id)⟩ := by
    intro rule hrule
    have hlisted : rule.id ∈
        (rules.filter (fun item => item.configId = row.id)).map TargetingRuleRow.id :=
      List.mem_map_of_mem hrule
    rw [filter_filter_of_imp, filter_filter_of_imp, filter_filter_of_imp]
    all_goals
      intro item _ h
      rw [of_decide_eq_true h]
      exact decide_eq_true hlisted
  rw [List.map_congr_left hsplit]
  exact loads_of_selects hsame
    (perm_filter_of_perm hvariations (fun item => hconfigId item.configId))
    (perm_filter_of_perm hrollouts (fun item => hparent item.parent))
    (perm_filter_of_perm hstages (fun item => hparent item.parent))
    (perm_filter_of_perm hrules (fun item => hconfigId item.configId))
    (perm_filter_of_perm hconditions (fun item => hruleId item.ruleId))
    (perm_filter_of_perm hruleRollouts (fun item => hruleParent item.parent))
    (perm_filter_of_perm hruleStages (fun item => hruleParent item.parent))

/-- The collections of many configurations are the collections of each, where every SELECT finds
the same children. -/
theorem observe_loadAllCollections {β : Type}
    {items : List (FlagConfigRow × FeatureFlagRow × EnvironmentRow)}
    {k : List LoadedConfig → Tx β} {views : List (View Database Row Choice)}
    {result : Except PyError β}
    (h : (loadAllCollections items >>= k).observe views = some result) :
    ∃ configs rest, List.Forall₂ LoadedConfig.IsFor configs items
      ∧ (k configs).observe rest = some result
      ∧ ∀ T : ChildTables, (∀ item ∈ items, ∀ v ∈ views,
          v.state.children.of item.1.id = T.of item.1.id) →
        ∀ loaded ∈ configs, Loads T loaded := by
  unfold loadAllCollections at h
  rw [Prog.bind_assoc] at h
  -- seven SELECTs, each of which sees a state of its own
  obtain ⟨v₁, views₁, rfl, h₁⟩ := observe_read_bind h
  beta_reduce at h₁
  rw [Prog.bind_assoc] at h₁
  obtain ⟨v₂, views₂, rfl, h₂⟩ := observe_read_bind h₁
  beta_reduce at h₂
  rw [Prog.bind_assoc] at h₂
  obtain ⟨v₃, views₃, rfl, h₃⟩ := observe_read_bind h₂
  beta_reduce at h₃
  rw [Prog.bind_assoc] at h₃
  obtain ⟨v₄, views₄, rfl, h₄⟩ := observe_read_bind h₃
  beta_reduce at h₄
  rw [Prog.bind_assoc] at h₄
  obtain ⟨v₅, views₅, rfl, h₅⟩ := observe_read_bind h₄
  beta_reduce at h₅
  rw [Prog.bind_assoc] at h₅
  obtain ⟨v₆, views₆, rfl, h₆⟩ := observe_read_bind h₅
  beta_reduce at h₆
  rw [Prog.bind_assoc] at h₆
  obtain ⟨v₇, views₇, rfl, h₇⟩ := observe_read_bind h₆
  refine ⟨_, views₇, ?_, h₇, ?_⟩
  · exact List.forall₂_map_left_iff.mpr (List.forall₂_same.mpr (fun _ _ => ⟨rfl, rfl, rfl⟩))
  · intro T hsame loaded hloaded
    obtain ⟨item, hitem, rfl⟩ := List.mem_map.mp hloaded
    have hid : item.1.id ∈ items.map (fun item => item.1.id) := List.mem_map_of_mem hitem
    have hstates := hsame item hitem
    simp only [List.forall_mem_cons] at hstates
    obtain ⟨hs₁, hs₂, hs₃, hs₄, hs₅, hs₆, hs₇, -⟩ := hstates
    exact loads_of_listing hid (by
      simp only [List.forall_mem_cons]
      exact ⟨hs₁, hs₂, hs₃, hs₄, hs₅, hs₆, hs₇, fun _ hT => absurd hT List.not_mem_nil⟩)
      (arrange_perm _ _) (arrange_perm _ _) (arrange_perm _ _) (arrange_perm _ _)
      (arrange_perm _ _) (arrange_perm _ _) (arrange_perm _ _)

/-! ## What they return -/

/-- **A configuration has the version of a row**: the row is the one that the main SELECT
of a project, an environment and a key finds in a state. The SELECT fixes what names the
configuration and its number; what its collections hold is read by other statements, and
nothing is said of it here. -/
structure Database.FindsVersion (s : Database) (projectId environmentId : UUID) (flagKey : String)
    (c : FlagConfiguration) (row : FlagConfigRow) (flag : FeatureFlagRow) : Prop where
  /-- The row is stored, with its flag. -/
  config : row ∈ s.configs
  flagRow : flag ∈ s.flags
  flagId : flag.id = row.flagId
  /-- The flag is the one that was asked for, and not archived. -/
  project : flag.projectId = projectId
  key : flag.key = flagKey
  live : flag.archivedAt = none
  /-- The row is the one of the environment that was asked for. -/
  environment : row.environmentId = environmentId
  /-- The configuration carries the three names, -/
  compiledProject : c.projectId = projectId.str
  compiledEnvironment : c.environmentId = environmentId.str
  compiledKey : c.flagKey = flagKey
  /-- and the version of the row. -/
  compiledVersion : c.configVersion = row.currentVersion

/-- A configuration that is compiled from what the main SELECT found. -/
theorem findsVersion_of_compile {s : Database} {projectId environmentId : UUID} {flagKey : String}
    {item : FlagConfigRow × FeatureFlagRow × EnvironmentRow}
    (hitem : item ∈ s.configs.filterMap s.joined) (hproject : item.2.1.projectId = projectId)
    (hkey : item.2.1.key = flagKey) (hlive : item.2.1.archivedAt = none)
    (henvironment : item.1.environmentId = environmentId) {loaded : LoadedConfig}
    (hloaded : loaded.IsFor item) {c : FlagConfiguration}
    (hc : compileConfiguration loaded = .ok c) :
    s.FindsVersion projectId environmentId flagKey c item.1 item.2.1 := by
  obtain ⟨row, flag, environment⟩ := item
  obtain ⟨row', hrow, hjoined⟩ := List.mem_filterMap.mp hitem
  obtain ⟨rfl, hflag, -⟩ := joined_eq_some.mp hjoined
  obtain ⟨hmem, hid⟩ := mem_and_of_find? hflag
  have hdescribes := describes_of_compile hc
  obtain ⟨hr, hf, -⟩ := hloaded
  rw [hr, hf] at hdescribes
  exact ⟨hrow, hmem, hid, hproject, hkey, hlive, henvironment,
    hdescribes.projectId.trans (congrArg _ hproject),
    hdescribes.environmentId.trans (congrArg _ henvironment),
    hdescribes.flagKey.trans hkey, hdescribes.configVersion⟩

/-- A load by a key finds a version. -/
theorem findsVersion_of_getConfigByKey {projectId environmentId : UUID} {flagKey : String}
    {views : List (View Database Row Choice)} {c : FlagConfiguration}
    (h : (getConfigByKey projectId environmentId flagKey).observe views = some (.ok c)) :
    ∃ v ∈ views, ∃ row flag, v.state.FindsVersion projectId environmentId flagKey c row flag := by
  unfold getConfigByKey at h
  obtain ⟨v, rest, rfl, hrest⟩ := observe_read_bind h
  beta_reduce at hrest
  cases hfound : v.state.configOfKey projectId environmentId flagKey with
  | none =>
    rw [hfound] at hrest
    cases rest <;> cases hrest
  | some item =>
    rw [hfound] at hrest
    obtain ⟨row, flag, environment⟩ := item
    obtain ⟨hitem, hproject, hkey, hlive, henvironment⟩ := mem_and_of_find? hfound
    obtain ⟨loaded, rest', hrow, hflag, henv, hcompiled, -⟩ := observe_loadCollections hrest
    exact ⟨v, List.mem_cons_self, row, flag, findsVersion_of_compile hitem hproject hkey hlive
      henvironment ⟨hrow, hflag, henv⟩ (observe_attempt hcompiled)⟩

/-- So does each item of a load by several keys. -/
theorem findsVersion_of_getConfigsByKeys {projectId environmentId : UUID} {flagKeys : List String}
    {views : List (View Database Row Choice)} {loaded : List (String × FlagConfiguration)}
    (h : (getConfigsByKeys projectId environmentId flagKeys).observe views
      = some (.ok loaded)) :
    ∃ v ∈ views, ∀ item ∈ loaded, item.1 ∈ flagKeys ∧ ∃ row flag,
      v.state.FindsVersion projectId environmentId item.1 item.2 row flag := by
  unfold getConfigsByKeys at h
  obtain ⟨v, rest, rfl, hrest⟩ := observe_read_bind h
  obtain ⟨configs, rest', hconfigs, hcompiled, -⟩ := observe_loadAllCollections hrest
  refine ⟨v, List.mem_cons_self, fun found hfound => ?_⟩
  have hall := mapM_eq_ok.mp (observe_attempt hcompiled)
  obtain ⟨config, hconfig, hc⟩ := (PermBy.of_forall₂ hall).exists_left hfound
  obtain ⟨item, hitem, hfor⟩ := (PermBy.of_forall₂ hconfigs).exists_right hconfig
  have hitem := (arrange_perm _ _).subset hitem
  obtain ⟨hjoined, hselected⟩ := List.mem_filter.mp hitem
  obtain ⟨hproject, hkey, hlive, henvironment⟩ := of_decide_eq_true hselected
  cases hcompile : compileConfiguration config with
  | error e =>
    rw [hcompile] at hc
    cases hc
  | ok c =>
    rw [hcompile] at hc
    cases hc
    have hsame : config.flag.key = item.2.1.key := congrArg FeatureFlagRow.key hfor.2.1
    exact ⟨hsame ▸ hkey, item.1, item.2.1, findsVersion_of_compile hjoined hproject
      (congrArg FeatureFlagRow.key hfor.2.1.symm) hlive henvironment hfor hcompile⟩

end CohortSwitch
