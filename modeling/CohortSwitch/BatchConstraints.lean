import CohortSwitch.BatchRounds

/-!
# What the constraints make of a batch

Updates of distinct configurations, each of the current version and with rule
ids nobody has, leave a state that satisfies the constraints
(`consistent_rounds`). The rows keep their keys, since nothing is inserted but
versions, events and children; the children of a configuration are replaced by
those of one version of it, and its next version is a new one.

The constraints are checked at the commit, for all rounds at once. So the argument
is not repeated for each round but made of the whole list: deleting the children of
all configurations leaves those of the others (`clearAll_sublist`), and inserting those
of the updates adds rows whose keys differ among each other and from what was left
(`nodup_append_flatMap`). Only the rules have ids of their own, which the database
chooses, so `FreshRules` asks of the choices that they are new.

So a batch whose rounds were all made is accepted: they are of different
environments, and therefore of different configurations.
-/

namespace CohortSwitch

/-! ## Rows -/

/-- A write that inserts nothing but versions, events and children. -/
def Write.keepsRows : Write → Bool
  | .version _ | .audit _ | .change (.setAppliedAt _ _) => true
  | w => w.isInPlace

/-- The same rows but for what is written in place. -/
structure Database.SameRows (s s' : Database) : Prop extends s.SameIdentities s' where
  /-- Organizations stay as they are. -/
  organizations : s'.organizations = s.organizations
  /-- So do memberships. -/
  memberships : s'.memberships = s.memberships
  /-- So do keys. -/
  apiKeys : s'.apiKeys = s.apiKeys
  /-- Scheduled changes keep what identifies them, and may be marked. -/
  changes : s'.changes.map (fun row => (row.id, row.configId))
    = s.changes.map (fun row => (row.id, row.configId))

/-- One write keeps the rows. -/
theorem sameRows_apply (db : Database) {w : Write} (h : w.keepsRows = true) :
    db.SameRows (db.apply w) := by
  have hself : db.SameRows db := ⟨⟨rfl, rfl, rfl, rfl⟩, rfl, rfl, rfl, rfl⟩
  have hplace : w.isInPlace = true → db.SameRows (db.apply w) := by
    intro hplace
    refine ⟨sameIdentities_apply db hplace, ?_, ?_, ?_, ?_⟩ <;> cases w <;>
      first | rfl | cases hplace
  cases w with
  | version row => exact { hself with }
  | audit row => exact { hself with }
  | change op =>
    cases op with
    | insert row => cases h
    | setAppliedAt id t =>
      refine { hself with changes := ?_ }
      have hcolumns : ∀ row : ScheduledChangeRow,
          (fun row : ScheduledChangeRow => (row.id, row.configId))
            (if row.id = id then { row with appliedAt := some t } else row)
          = (row.id, row.configId) := fun row => by split <;> rfl
      exact map_identity_map hcolumns db.changes
  | _ => exact hplace h

/-- Any number of writes does. -/
theorem sameRows_view {writes : List Write} (h : ∀ w ∈ writes, w.keepsRows = true)
    (db : Database) : db.SameRows (service.view writes db) := by
  induction writes generalizing db with
  | nil => exact ⟨⟨rfl, rfl, rfl, rfl⟩, rfl, rfl, rfl, rfl⟩
  | cons w writes ih =>
    have hfirst := sameRows_apply db (h w List.mem_cons_self)
    have hrest := ih (fun w' hw => h w' (List.mem_cons_of_mem w hw)) (db.apply w)
    exact ⟨⟨hrest.projects.trans hfirst.projects,
      hrest.environments.trans hfirst.environments, hrest.flags.trans hfirst.flags,
      hrest.configs.trans hfirst.configs⟩, hrest.organizations.trans hfirst.organizations,
      hrest.memberships.trans hfirst.memberships, hrest.apiKeys.trans hfirst.apiKeys,
      hrest.changes.trans hfirst.changes⟩

/-- The writes of a round are such writes. -/
theorem keepsRows_roundWrites (rounds : List Round) :
    ∀ w ∈ roundWrites rounds, w.keepsRows = true := by
  intro w hw
  rcases List.mem_append.mp hw with hw | hw
  · have hplace := isInPlace_statements rounds w hw
    cases w <;> first | exact hplace | cases hplace
  · obtain ⟨r, -, hw⟩ := List.mem_flatMap.mp hw
    rcases List.mem_append.mp hw with hw | hw
    · obtain ⟨u, -, hw⟩ := List.mem_flatMap.mp hw
      rcases List.mem_append.mp hw with hw | hw
      · rcases List.mem_append.mp hw with hw | hw
        · rcases List.mem_append.mp hw with hw | hw
          · obtain ⟨name, -, rfl⟩ := List.mem_map.mp hw
            rfl
          · obtain ⟨text, -, rfl⟩ := List.mem_map.mp hw
            rfl
        · simp only [List.mem_cons, List.not_mem_nil, or_false] at hw
          rcases hw with rfl | rfl | rfl <;> rfl
      · rw [List.mem_singleton.mp hw]
        rfl
    · obtain ⟨item, -, rfl⟩ := List.mem_map.mp hw
      rfl

/-- What holds of a column stays true. -/
theorem forall_of_map_eq {α β : Type} {column : α → β} {rows rows' : List α} {P : β → Prop}
    (h : rows'.map column = rows.map column) (hall : ∀ row ∈ rows, P (column row)) :
    ∀ row ∈ rows', P (column row) := by
  rw [← List.forall_mem_map (P := P), h, List.forall_mem_map]
  exact hall

/-! ## Children -/

/-- The rows of children are of the given configurations. -/
structure ChildTables.RefersTo (tables : ChildTables) (ids : List UUID) : Prop where
  /-- The variations. -/
  variations : ∀ row ∈ tables.variations, row.configId ∈ ids
  /-- The rules. -/
  rules : ∀ row ∈ tables.rules, row.configId ∈ ids
  /-- The rollout of the flag itself; those of rules belong to the rules. -/
  rollouts : ∀ row ∈ tables.rollouts, ∀ id, row.parent = .config id → id ∈ ids
  /-- Its stages, too. -/
  progressiveStages : ∀ row ∈ tables.progressiveStages, ∀ id, row.parent = .config id → id ∈ ids

section Children

variable {tables : ChildTables} {ids : List UUID} {us : List Update}

/-- The constraints say so of what is committed. -/
theorem refersTo_of_references {s : Database} (h : s.References) :
    s.children.RefersTo (s.configs.map FlagConfigRow.id) where
  variations := h.variationConfigs
  rules := h.ruleConfigs
  rollouts := by
    intro row hrow id hparent
    have hin := h.rolloutParents row hrow
    rw [hparent] at hin
    exact hin
  progressiveStages := by
    intro row hrow id hparent
    have hin := h.stageParents row hrow
    rw [hparent] at hin
    exact hin

/-- It stays so when children go. -/
theorem ChildTables.RefersTo.clear (h : tables.RefersTo ids) (configId : UUID) :
    (tables.clear configId).RefersTo ids where
  variations := fun row hrow => h.variations row (List.mem_of_mem_filter hrow)
  rules := fun row hrow => h.rules row (List.mem_of_mem_filter hrow)
  rollouts := fun row hrow => h.rollouts row (List.mem_of_mem_filter hrow)
  progressiveStages := fun row hrow => h.progressiveStages row (List.mem_of_mem_filter hrow)

/-- And when children of these configurations come. -/
theorem ChildTables.RefersTo.append (h : tables.RefersTo ids) {configId : UUID}
    (hconfig : configId ∈ ids) (ruleIds : ℕ → UUID) (c : FlagConfiguration) :
    (tables.append (persistChildren ruleIds configId c)).RefersTo ids := by
  have hparent : ∀ parent : Parent, parent.belongsTo configId (newRuleIds ruleIds c) = true →
      ∀ id, parent = .config id → id ∈ ids := by
    rintro parent hbelongs id rfl
    rcases belongsTo_eq_true.mp hbelongs with heq | ⟨_, _, heq⟩
    · exact Parent.config.inj heq ▸ hconfig
    · cases heq
  refine ⟨List.forall_mem_append.mpr ⟨h.variations, fun row hrow => ?_⟩,
    List.forall_mem_append.mpr ⟨h.rules, fun row hrow => ?_⟩,
    List.forall_mem_append.mpr ⟨h.rollouts, fun row hrow => ?_⟩,
    List.forall_mem_append.mpr ⟨h.progressiveStages, fun row hrow => ?_⟩⟩
  · obtain ⟨item, -, rfl⟩ := List.mem_map.mp hrow
    exact hconfig
  · exact (mem_rules_persistChildren hrow).symm ▸ hconfig
  · exact hparent _ (parent_of_mem_rollouts hrow)
  · exact hparent _ (parent_of_mem_stages hrow)

/-- What is left is of configurations that were there. -/
theorem refersTo_clearAll (h : tables.RefersTo ids) (us : List Update) :
    (clearAll us tables).RefersTo ids := by
  unfold clearAll
  induction us generalizing tables with
  | nil => exact h
  | cons u us ih => exact ih (h.clear u.configId)

/-- The children of updates go with their rules and their configurations. -/
theorem inserted_insertAll (hclosed : tables.Closed) (h : tables.RefersTo ids)
    (hconfigs : ∀ u ∈ us, u.configId ∈ ids) :
    (insertAll us tables).Closed ∧ (insertAll us tables).RefersTo ids := by
  unfold insertAll
  induction us generalizing tables with
  | nil => exact ⟨hclosed, h⟩
  | cons u us ih =>
    obtain ⟨hconfig, hconfigs⟩ := List.forall_mem_cons.mp hconfigs
    exact ih (closed_append hclosed) (h.append hconfig u.final.ids u.compiled) hconfigs

/-- Clearing leaves some of the rows, in their order. -/
theorem clearAll_sublist (us : List Update) (tables : ChildTables) :
    (clearAll us tables).variations.Sublist tables.variations
      ∧ (clearAll us tables).rules.Sublist tables.rules := by
  unfold clearAll
  induction us generalizing tables with
  | nil => exact ⟨.refl _, .refl _⟩
  | cons u us ih =>
    obtain ⟨hvariations, hrules⟩ := ih (tables.clear u.configId)
    exact ⟨hvariations.trans List.filter_sublist, hrules.trans List.filter_sublist⟩

/-- **New rows beside old ones**: unique where the new ones are and none of them was there. -/
theorem nodup_append_flatMap {β κ : Type} {key : β → κ} {old : List β} {new : Update → List β}
    (hold : (old.map key).Nodup) (hnew : ∀ u ∈ us, ((new u).map key).Nodup)
    (hapart : us.Pairwise (fun u v => ∀ row ∈ new u, ∀ row' ∈ new v, key row ≠ key row'))
    (hfresh : ∀ u ∈ us, ∀ row ∈ new u, ∀ row' ∈ old, key row ≠ key row') :
    ((old ++ us.flatMap new).map key).Nodup := by
  rw [List.map_append, List.map_flatMap]
  refine List.nodup_append.mpr ⟨hold, List.nodup_flatMap.mpr ⟨hnew, hapart.imp ?_⟩, ?_⟩
  · intro u v hne k hu hv
    obtain ⟨row, hrow, rfl⟩ := List.mem_map.mp hu
    obtain ⟨row', hrow', heq⟩ := List.mem_map.mp hv
    exact hne row hrow row' hrow' heq.symm
  · intro k hk k' hk' heq
    obtain ⟨row', hrow', rfl⟩ := List.mem_map.mp hk
    obtain ⟨u, hu, hmem⟩ := List.mem_flatMap.mp hk'
    obtain ⟨row, hrow, rfl⟩ := List.mem_map.mp hmem
    exact hfresh u hu row hrow row' hrow' heq.symm

/-- Updates of distinct configurations. -/
theorem pairwise_of_distinct (hdistinct : (us.map Update.configId).Nodup) {β : Type}
    (new : Update → List β) (column : β → UUID)
    (hof : ∀ u, ∀ row ∈ new u, column row = u.configId) :
    us.Pairwise (fun u v => ∀ row ∈ new u, ∀ row' ∈ new v, column row ≠ column row') := by
  refine (List.pairwise_map.mp hdistinct).imp (fun {u v} hne row hrow row' hrow' heq => hne ?_)
  rw [← hof u row hrow, ← hof v row' hrow', heq]

end Children

/-! ## The constraints -/

/-- **The rules of some updates have ids of their own.** -/
structure FreshRules (s : Database) (us : List Update) : Prop where
  /-- No rule of an update shares its id with another one of it. -/
  own : ∀ u ∈ us, (newRuleIds u.final.ids u.compiled).Nodup
  /-- Nor with one of another update. -/
  apart : us.Pairwise (fun u v => ∀ id ∈ newRuleIds u.final.ids u.compiled,
    ∀ id' ∈ newRuleIds v.final.ids v.compiled, id ≠ id')
  /-- Nor with one that is stored. -/
  fresh : ∀ u ∈ us, ∀ id ∈ newRuleIds u.final.ids u.compiled,
    id ∉ s.children.rules.map TargetingRuleRow.id

section Constraints

variable {s : Database} {rounds : List Round}

/-- The keys of the variations an update inserts. -/
theorem map_key_children (u : Update) :
    u.children.variations.map (fun row => (row.configId, row.key))
      = u.compiled.variations.keys.map (fun key => (u.configId, key)) := by
  show (List.map _ _).map _ = (List.map _ _).map _
  rw [List.map_map, List.map_map]
  rfl

/-- The keys of the children. -/
theorem childKeys_rounds (hs : s.Settled) (hknown : ∀ u ∈ updatesOf rounds, u.Known s)
    (hdistinct : ((updatesOf rounds).map Update.configId).Nodup)
    (hfresh : FreshRules s (updatesOf rounds)) {tables : ChildTables}
    (htables : tables = insertAll (updatesOf rounds) (clearAll (updatesOf rounds) s.children)) :
    (tables.variations.map (fun row => (row.configId, row.key))).Nodup
      ∧ (tables.rules.map TargetingRuleRow.id).Nodup
      ∧ (tables.rules.map (fun row => (row.configId, row.priority))).Nodup := by
  have hk := hs.consistent.keys
  obtain ⟨-, hlacks, -, -⟩ := clearAll_spec (updatesOf rounds)
    (closed_of_references hs.consistent.references) hk.ruleIds
  -- what is left of the old rows is of configurations that are not updated
  obtain ⟨hvariations, hrules⟩ := clearAll_sublist (updatesOf rounds) s.children
  have hofVariations : ∀ u : Update, ∀ row ∈ u.children.variations, row.configId = u.configId := by
    intro u row hrow
    obtain ⟨item, -, rfl⟩ := List.mem_map.mp hrow
    rfl
  have hofRules : ∀ u : Update, ∀ row ∈ u.children.rules, row.configId = u.configId :=
    fun u row hrow => mem_rules_persistChildren hrow
  have hids : ∀ u : Update, u.children.rules.map TargetingRuleRow.id
      = newRuleIds u.final.ids u.compiled := fun u => map_id_persistChildren _ _ _
  rw [htables, variations_insertAll, rules_insertAll]
  refine ⟨nodup_append_flatMap (hk.variationKeys.sublist (hvariations.map _)) (fun u hu => ?_)
      ((pairwise_of_distinct hdistinct _ _ hofVariations).imp ?_)
      (fun u hu row hrow row' hrow' => ?_),
    nodup_append_flatMap (hk.ruleIds.sublist (hrules.map _)) (fun u hu => ?_)
      (hfresh.apart.imp ?_) (fun u hu row hrow row' hrow' heq => ?_),
    nodup_append_flatMap (hk.rulePriorities.sublist (hrules.map _)) (fun u hu => ?_)
      ((pairwise_of_distinct hdistinct _ _ hofRules).imp ?_) (fun u hu row hrow row' hrow' => ?_)⟩
  · rw [map_key_children]
    exact u.compiled.variations.nodup.map (fun a b h => (Prod.mk.inj h).2)
  · exact fun hne row hrow row' hrow' heq => hne row hrow row' hrow' (Prod.mk.inj heq).1
  · intro heq
    exact (hlacks u hu).variations row' hrow'
      ((Prod.mk.inj heq).1.symm.trans (hofVariations u row hrow))
  · rw [hids]
    exact hfresh.own u hu
  · intro u v hne row hrow row' hrow'
    exact hne _ (hids u ▸ List.mem_map_of_mem hrow) _ (hids v ▸ List.mem_map_of_mem hrow')
  · refine hfresh.fresh u hu _ (hids u ▸ List.mem_map_of_mem hrow) ?_
    rw [heq]
    exact List.mem_map_of_mem (hrules.subset hrow')
  · -- a configuration that was built has no priority twice
    have hpriorities : u.children.rules.map (fun row => (row.configId, row.priority))
        = u.compiled.rules.map (fun rule => (u.configId, rule.priority)) := by
      rw [← map_snd_identified u.final.ids u.compiled.rules, List.map_map]
      show List.map _ (List.map _ _) = _
      rw [List.map_map]
      rfl
    have hbuilt := (buildConfiguration_eq_ok_iff.mp (hknown u hu).built).priorities
    rw [hpriorities]
    have hpairs := hbuilt.map (f := fun priority => (u.configId, priority))
      (fun a b h => (Prod.mk.inj h).2)
    rwa [List.map_map] at hpairs
  · exact fun hne row hrow row' hrow' heq => hne row hrow row' hrow' (Prod.mk.inj heq).1
  · intro heq
    exact (hlacks u hu).rules row' hrow' ((Prod.mk.inj heq).1.symm.trans (hofRules u row hrow))

/-- The next version of a configuration is a new one. -/
theorem versionNumbers_rounds (hs : s.Settled) (hcurrent : ∀ u ∈ updatesOf rounds, u.Current s)
    (hdistinct : ((updatesOf rounds).map Update.configId).Nodup) :
    ((service.view (roundWrites rounds) s).versions.map
      (fun row => (row.configId, row.version))).Nodup := by
  have hnew : (updatesOf rounds).map Update.versionRow
      = (updatesOf rounds).flatMap (fun u => [u.versionRow]) := List.map_eq_flatMap
  rw [versions_rounds, hnew]
  refine nodup_append_flatMap hs.consistent.keys.versionNumbers (fun u _ => ?_)
    ((pairwise_of_distinct hdistinct (fun u => [u.versionRow]) FlagVersionRow.configId ?_).imp ?_)
    (fun u hu row hrow row' hrow' heq => ?_)
  · exact List.nodup_singleton _
  · intro u row hrow
    rw [List.mem_singleton.mp hrow]
    rfl
  · exact fun hne row hrow row' hrow' heq => hne row hrow row' hrow' (Prod.mk.inj heq).1
  · rw [List.mem_singleton.mp hrow] at heq
    obtain ⟨hconfig, hnumber⟩ := Prod.mk.inj heq
    obtain ⟨config, hconfigs, hid, hversion⟩ := hcurrent u hu
    have hle := hs.versions config hconfigs row' hrow' (hconfig.symm.trans hid.symm)
    have hnext : u.payload.expectedVersion + 1 = row'.version := hnumber
    omega

/-- Rows that keep what identifies them keep their keys; children and versions
bring their own. -/
theorem Database.SameRows.keys {v : Database} (h : s.SameRows v) (hk : s.Keys)
    (hchildren : (v.children.variations.map (fun row => (row.configId, row.key))).Nodup
      ∧ (v.children.rules.map TargetingRuleRow.id).Nodup
      ∧ (v.children.rules.map (fun row => (row.configId, row.priority))).Nodup)
    (hversions : (v.versions.map (fun row => (row.configId, row.version))).Nodup) : v.Keys := by
  have henvironmentIds : v.environments.map EnvironmentRow.id
      = s.environments.map EnvironmentRow.id :=
    map_of_identity h.environments EnvironmentRow.Identity.id
  have henvironmentKeys := map_of_identity h.environments (fun i => (i.projectId, i.key))
  have hflagIds : v.flags.map FeatureFlagRow.id = s.flags.map FeatureFlagRow.id :=
    map_of_identity h.flags FeatureFlagRow.Identity.id
  have hflagKeys := map_of_identity h.flags (fun i => (i.projectId, i.key))
  have hconfigIds : v.configs.map FlagConfigRow.id = s.configs.map FlagConfigRow.id :=
    map_of_identity h.configs FlagConfigRow.Identity.id
  have hconfigPairs := map_of_identity h.configs (fun i => (i.flagId, i.environmentId))
  have hchangeIds := map_of_identity h.changes Prod.fst
  exact {
    organizationIds := h.organizations ▸ hk.organizationIds
    organizationSlugs := h.organizations ▸ hk.organizationSlugs
    membershipPairs := h.memberships ▸ hk.membershipPairs
    projectIds := h.projects ▸ hk.projectIds
    projectSlugs := h.projects ▸ hk.projectSlugs
    environmentIds := henvironmentIds ▸ hk.environmentIds
    environmentKeys := henvironmentKeys ▸ hk.environmentKeys
    flagIds := hflagIds ▸ hk.flagIds
    flagKeys := hflagKeys ▸ hk.flagKeys
    configIds := hconfigIds ▸ hk.configIds
    configPairs := hconfigPairs ▸ hk.configPairs
    variationKeys := hchildren.1
    ruleIds := hchildren.2.1
    rulePriorities := hchildren.2.2
    versionNumbers := hversions
    changeIds := hchangeIds ▸ hk.changeIds
    apiKeyIds := h.apiKeys ▸ hk.apiKeyIds
    apiKeyHashes := h.apiKeys ▸ hk.apiKeyHashes }

/-- The children of a configuration or of a rule that is there have a parent. -/
theorem Database.SameRows.hasParent {v : Database} (h : s.SameRows v) {parent : Parent}
    (hconfig : ∀ id, parent = .config id → id ∈ s.configs.map FlagConfigRow.id)
    (hrule : ∀ id, parent = .rule id → id ∈ v.children.rules.map TargetingRuleRow.id) :
    v.HasParent parent := by
  cases parent with
  | config id =>
    have hconfigIds : v.configs.map FlagConfigRow.id = s.configs.map FlagConfigRow.id :=
      map_of_identity h.configs FlagConfigRow.Identity.id
    show id ∈ v.configs.map FlagConfigRow.id
    rw [hconfigIds]
    exact hconfig id rfl
  | rule id => exact hrule id rfl

/-- Rows that keep what identifies them refer to rows that do; so do children and
versions of configurations that are there. -/
theorem Database.SameRows.references {v : Database} (h : s.SameRows v) (hr : s.References)
    (hclosed : v.children.Closed)
    (hrefers : v.children.RefersTo (s.configs.map FlagConfigRow.id))
    (hversions : ∀ row ∈ v.versions, row.configId ∈ s.configs.map FlagConfigRow.id) :
    v.References := by
  have henvironmentIds : v.environments.map EnvironmentRow.id
      = s.environments.map EnvironmentRow.id :=
    map_of_identity h.environments EnvironmentRow.Identity.id
  have hflagIds : v.flags.map FeatureFlagRow.id = s.flags.map FeatureFlagRow.id :=
    map_of_identity h.flags FeatureFlagRow.Identity.id
  have hconfigIds : v.configs.map FlagConfigRow.id = s.configs.map FlagConfigRow.id :=
    map_of_identity h.configs FlagConfigRow.Identity.id
  exact {
    membershipOrganizations := by
      rw [h.memberships, h.organizations]
      exact hr.membershipOrganizations
    projectOrganizations := by
      rw [h.projects, h.organizations]
      exact hr.projectOrganizations
    environmentProjects := by
      rw [h.projects]
      exact forall_of_map_eq (map_of_identity h.environments (fun i => i.projectId))
        hr.environmentProjects
    flagProjects := by
      rw [h.projects]
      exact forall_of_map_eq (map_of_identity h.flags (fun i => i.projectId)) hr.flagProjects
    configFlags := by
      rw [hflagIds]
      exact forall_of_map_eq (map_of_identity h.configs (fun i => i.flagId)) hr.configFlags
    configEnvironments := by
      rw [henvironmentIds]
      exact forall_of_map_eq (map_of_identity h.configs (fun i => i.environmentId))
        hr.configEnvironments
    variationConfigs := hconfigIds ▸ hrefers.variations
    ruleConfigs := hconfigIds ▸ hrefers.rules
    conditionRules := hclosed.conditions
    rolloutParents := fun row hrow => h.hasParent (hrefers.rollouts row hrow)
      (hclosed.rollouts row hrow)
    stageParents := fun row hrow => h.hasParent (hrefers.progressiveStages row hrow)
      (hclosed.progressiveStages row hrow)
    versionConfigs := hconfigIds ▸ hversions
    changeConfigs := by
      rw [hconfigIds]
      exact forall_of_map_eq (map_of_identity h.changes Prod.snd) hr.changeConfigs
    apiKeyOrganizations := by
      rw [h.apiKeys, h.organizations]
      exact hr.apiKeyOrganizations
    apiKeyProjects := by
      rw [h.apiKeys, h.projects]
      exact hr.apiKeyProjects
    apiKeyEnvironments := by
      rw [h.apiKeys, henvironmentIds]
      exact hr.apiKeyEnvironments }

/-- **The constraints accept updates of distinct configurations.** -/
theorem consistent_rounds (hs : s.Settled) (hknown : ∀ u ∈ updatesOf rounds, u.Known s)
    (hcurrent : ∀ u ∈ updatesOf rounds, u.Current s)
    (hdistinct : ((updatesOf rounds).map Update.configId).Nodup)
    (hfresh : FreshRules s (updatesOf rounds)) :
    (service.view (roundWrites rounds) s).Consistent := by
  have hk := hs.consistent.keys
  have hr := hs.consistent.references
  have hrows := sameRows_view (keepsRows_roundWrites rounds) s
  have hchildren : (service.view (roundWrites rounds) s).children = _ := children_rounds
  have hconfigs : ∀ u ∈ updatesOf rounds, u.configId ∈ s.configs.map FlagConfigRow.id := by
    intro u hu
    obtain ⟨row, hrow, hidentity⟩ := List.mem_map.mp (hknown u hu).config
    rw [← show row.id = u.configId from congrArg FlagConfigRow.Identity.id hidentity]
    exact List.mem_map_of_mem hrow
  obtain ⟨hclosed, hrefers⟩ := inserted_insertAll
    (clearAll_spec (updatesOf rounds) (closed_of_references hr) hk.ruleIds).1
    (refersTo_clearAll (refersTo_of_references hr) (updatesOf rounds)) hconfigs
  rw [← hchildren] at hclosed hrefers
  refine ⟨hrows.keys hk (childKeys_rounds hs hknown hdistinct hfresh hchildren)
    (versionNumbers_rounds hs hcurrent hdistinct), hrows.references hr hclosed hrefers ?_⟩
  -- a version that was inserted is one of an update
  rw [versions_rounds]
  refine List.forall_mem_append.mpr ⟨hr.versionConfigs, fun row hrow => ?_⟩
  obtain ⟨u, hu, rfl⟩ := List.mem_map.mp hrow
  exact hconfigs u hu

end Constraints

end CohortSwitch
