import CohortSwitch.LinearHistory
import CohortSwitch.RoundTrip

/-!
# Rolling back

A rollback reads the snapshot of an earlier version, turns it into a payload,
and updates the flag with it. `Recorded` says what every stored snapshot is: a
valid configuration of its flag and environment, with the salt of its row. So
what is built from it serves alike (`alike_of_restores`), and every subject
keeps its bucket.

The snapshot comes back through a JSON column, which may change the order of the keys
of an object. Python's equality does not see that, and no operator does; so the
restored configuration is `Alike` up to `Json.Reordered`, its stages in their order.

## What is served

What is served is compiled from rows, though, and rows have no order. As in
`CohortSwitch.RowOrder` the restored version evaluates like the snapshot for
every order of its rows exactly when the stages that share the decisive
timestamp agree: `rollback_restores_iff`, and `rollback_tiedStages` is a
rollback after which they do not.

The theorem is about every run: the rollback is one of its commits, the state in which
it is looked at is any later one in which its version is still the current one, and
every earlier version is what it was.
-/

namespace CohortSwitch

/-! ## What is stored for a version -/

/-- **A stored snapshot is a configuration** of the flag and the environment of
its row, with the salt of the row. -/
structure Recorded (s : Database) (version : FlagVersionRow) (c : FlagConfiguration) : Prop where
  snapshot : version.snapshot = c.toConfigurationFields
  priorities : (c.rules.map TargetingRule.priority).Nodup
  describes : ∃ row flag environment, s.KnowsJoined row flag environment
    ∧ row.id = version.configId ∧ Describes row flag environment c.toConfigurationFields

section Recording

variable {s s' : Database}

/-- What is known stays known as the tables grow. -/
theorem Database.KnowsJoined.grow {row : FlagConfigRow} {flag : FeatureFlagRow}
    {environment : EnvironmentRow} (h : s.KnowsJoined row flag environment) (hs : s.Grows s') :
    s'.KnowsJoined row flag environment :=
  ⟨hs.configs.subset h.configKnown, hs.flags.subset h.flagKnown,
    hs.environments.subset h.environmentKnown, h.flagId, h.environmentId⟩

/-- So does what is recorded. -/
theorem Recorded.grow {version : FlagVersionRow} {c : FlagConfiguration}
    (h : Recorded s version c) (hs : s.Grows s') : Recorded s' version c where
  snapshot := h.snapshot
  priorities := h.priorities
  describes := by
    obtain ⟨row, flag, environment, hknows, hrest⟩ := h.describes
    exact ⟨row, flag, environment, hknows.grow hs, hrest⟩

/-- The version an update stores is recorded: it was built for the flag and the environment of
its row. -/
theorem recorded_update {u : Update} (hknown : u.Known s) :
    Recorded s u.versionRow u.compiled where
  snapshot := rfl
  priorities := (buildConfiguration_eq_ok_iff.mp hknown.built).priorities
  describes := by
    have hbuilt := buildConfiguration_eq_ok_iff.mp hknown.built
    refine ⟨⟨u.configId, u.flag.id, u.environment.id, u.payload.enabled,
      u.payload.defaultVariation, u.version, u.salt⟩, u.flag, u.environment,
      ⟨hknown.config, hknown.flagKnown, hknown.environmentKnown, rfl, rfl⟩, rfl, ?_⟩
    exact ⟨hbuilt.projectId.trans (congrArg UUID.str hknown.projectId.symm),
      hbuilt.environmentId, hbuilt.environmentKey, hbuilt.flagId, hbuilt.flagKey,
      hbuilt.flagType, hbuilt.enabled, hbuilt.defaultVariation, hbuilt.configVersion, hbuilt.salt⟩

/-- The version a creation stores. -/
theorem recorded_creation {k : Creation} (hknown : k.Known s) :
    Recorded (service.view k.writes s) k.versionRow k.compiled where
  snapshot := rfl
  priorities := (buildConfiguration_eq_ok_iff.mp hknown.built).priorities
  describes := by
    have hbuilt := buildConfiguration_eq_ok_iff.mp hknown.built
    have hgrows := grows_view k.writes s
    have hconfig : k.configRow.identity
        ∈ (service.view k.writes s).configs.map FlagConfigRow.identity := by
      show _ ∈ (s.configs ++ [k.configRow]).map FlagConfigRow.identity
      exact List.mem_map_of_mem (List.mem_append_right _ (List.mem_singleton.mpr rfl))
    have hflag : k.flag.identity
        ∈ (service.view k.writes s).flags.map FeatureFlagRow.identity := by
      show _ ∈ (s.flags ++ [k.flag]).map FeatureFlagRow.identity
      exact List.mem_map_of_mem (List.mem_append_right _ (List.mem_singleton.mpr rfl))
    exact ⟨k.configRow, k.flag, k.environment,
      ⟨hconfig, hflag, hgrows.environments.subset hknown.environmentKnown, rfl, rfl⟩, rfl,
      hbuilt.projectId, hbuilt.environmentId, hbuilt.environmentKey, hbuilt.flagId,
      hbuilt.flagKey, hbuilt.flagType, hbuilt.enabled, hbuilt.defaultVariation,
      hbuilt.configVersion, hbuilt.salt⟩

/-- **Where a stored version comes from**: it was there, or an update or a creation stored
it. -/
theorem Effect.version_origin {effect : Effect} {locks : List Row} (hfits : effect.Fits s locks)
    {version : FlagVersionRow} (hversion : version ∈ (service.view effect.writes s).versions) :
    version ∈ s.versions ∨ (∃ u : Update, u.Known s ∧ version = u.versionRow)
      ∨ ∃ k : Creation, effect = .creation k ∧ k.Known s ∧ version = k.versionRow := by
  have hnone : effect.writes.filterMap Write.version? = [] → version ∈ s.versions := by
    intro hnil
    rwa [view_versions, hnil, List.append_nil] at hversion
  cases effect with
  | rounds rs =>
    change version ∈ (service.view (roundWrites rs) s).versions at hversion
    rw [versions_rounds] at hversion
    refine (List.mem_append.mp hversion).imp_right (fun hnew => Or.inl ?_)
    obtain ⟨u, hu, rfl⟩ := List.mem_map.mp hnew
    exact ⟨u, hfits.known u hu, rfl⟩
  | creation k =>
    change version ∈ s.versions ++ [k.versionRow] at hversion
    exact (List.mem_append.mp hversion).imp_right (fun hnew =>
      Or.inr ⟨k, rfl, hfits, List.mem_singleton.mp hnew⟩)
  | archiving a =>
    exact Or.inl (hnone (filterMap_archiving a (fun _ => rfl) (fun _ _ => rfl) rfl))
  | plain ws => exact Or.inl (hnone (filterMap_plain hfits version?_of_isPlain))

/-- **Every commit records what it stores.** -/
theorem recorded_commit {effect : Effect} {locks : List Row} (hfits : effect.Fits s locks)
    (h : ∀ version ∈ s.versions, ∃ c, Recorded s version c) :
    ∀ version ∈ (service.view effect.writes s).versions,
      ∃ c, Recorded (service.view effect.writes s) version c := by
  intro version hversion
  have hgrows := grows_view effect.writes s
  rcases effect.version_origin hfits hversion with hold | ⟨u, hknown, rfl⟩ | ⟨k, rfl, hknown, rfl⟩
  · obtain ⟨c, hc⟩ := h version hold
    exact ⟨c, hc.grow hgrows⟩
  · exact ⟨u.compiled, (recorded_update hknown).grow hgrows⟩
  · exact ⟨k.compiled, recorded_creation hknown⟩

/-- **Every version of every reachable state is recorded.** -/
theorem recorded_of_run {actions : List (Action Choice Request)} {w : ServiceWorld}
    (hrun : service.run initial actions = some w) :
    ∀ version ∈ w.committed.versions, ∃ c, Recorded w.committed version c :=
  committed_of_good (fun _ _ _ _ hfits _ h => recorded_commit hfits h)
    (World.good_init history_initial) (fun _ h => absurd h List.not_mem_nil) hrun

/-! ## What stays fixed -/

/-- **What is fixed over the versions of a configuration**: the scalars of its
flag and of its environment, and the salt. -/
structure ConfigurationFields.SameFlag (c d : ConfigurationFields) : Prop where
  projectId : c.projectId = d.projectId
  environmentId : c.environmentId = d.environmentId
  environmentKey : c.environmentKey = d.environmentKey
  flagId : c.flagId = d.flagId
  flagKey : c.flagKey = d.flagKey
  flagType : c.flagType = d.flagType
  salt : c.salt = d.salt

/-- What the rows of a configuration determine of it. -/
theorem Describes.sameFlag {row row' : FlagConfigRow} {flag flag' : FeatureFlagRow}
    {environment environment' : EnvironmentRow} {c d : ConfigurationFields}
    (h : Describes row flag environment c) (h' : Describes row' flag' environment' d)
    (hrow : row.identity = row'.identity) (hflag : flag.identity = flag'.identity)
    (henvironment : environment.identity = environment'.identity) : c.SameFlag d where
  projectId := by
    have hid : flag.projectId = flag'.projectId :=
      congrArg FeatureFlagRow.Identity.projectId hflag
    rw [h.projectId, h'.projectId, hid]
  environmentId := by
    have hid : row.environmentId = row'.environmentId :=
      congrArg FlagConfigRow.Identity.environmentId hrow
    rw [h.environmentId, h'.environmentId, hid]
  environmentKey := by
    rw [h.environmentKey, h'.environmentKey]
    exact congrArg EnvironmentRow.Identity.key henvironment
  flagId := by
    have hid : row.flagId = row'.flagId := congrArg FlagConfigRow.Identity.flagId hrow
    rw [h.flagId, h'.flagId, hid]
  flagKey := by
    rw [h.flagKey, h'.flagKey]
    exact congrArg FeatureFlagRow.Identity.key hflag
  flagType := by
    rw [h.flagType, h'.flagType]
    exact congrArg FeatureFlagRow.Identity.flagType hflag
  salt := by
    rw [h.salt, h'.salt]
    exact congrArg FlagConfigRow.Identity.salt hrow

/-- **Two versions of one configuration describe the same flag.** -/
theorem Recorded.sameFlag (hs : s.Consistent) {version version' : FlagVersionRow}
    {c d : FlagConfiguration} (h : Recorded s version c) (h' : Recorded s version' d)
    (hconfig : version.configId = version'.configId) :
    c.toConfigurationFields.SameFlag d.toConfigurationFields := by
  obtain ⟨row, flag, environment, hknows, hid, hdescribes⟩ := h.describes
  obtain ⟨row', flag', environment', hknows', hid', hdescribes'⟩ := h'.describes
  have hrow : row.identity = row'.identity := by
    refine identity_of_id hs hknows.configKnown hknows'.configKnown ?_
    exact hid.trans (hconfig.trans hid'.symm)
  have hflagId : flag.id = flag'.id := by
    rw [← hknows.flagId, ← hknows'.flagId]
    exact congrArg FlagConfigRow.Identity.flagId hrow
  have henvironmentId : environment.id = environment'.id := by
    rw [← hknows.environmentId, ← hknows'.environmentId]
    exact congrArg FlagConfigRow.Identity.environmentId hrow
  obtain ⟨found, hf, heq⟩ := List.mem_map.mp hknows.flagKnown
  obtain ⟨found', hf', heq'⟩ := List.mem_map.mp hknows.environmentKnown
  refine hdescribes.sameFlag hdescribes' hrow ?_ ?_
  · rw [← heq]
    exact flag_identity hs (.refl s) hf hknows'.flagKnown
      ((congrArg FeatureFlagRow.Identity.id heq).trans hflagId)
  · rw [← heq']
    exact environment_identity hs (.refl s) hf' hknows'.environmentKnown
      ((congrArg EnvironmentRow.Identity.id heq').trans henvironmentId)

/-! ## What is restored -/

/-- **What is built from a stored version serves alike.** The payload is that of the snapshot,
and a payload determines what is built. -/
theorem alike_of_restores (hs : s.Consistent) {u : Update} (hknown : u.Known s)
    {version : FlagVersionRow} {c old : FlagConfiguration} (hrecorded : Recorded s version c)
    (hconfig : version.configId = u.configId) {column : JsonColumn}
    (hold : FlagConfiguration.create (column.read version.snapshot) = .ok old)
    (hpayload : updateFromConfiguration old u.environment.id u.payload.expectedVersion
      = .ok u.payload) :
    c.toConfigurationFields.Alike Json.Reordered Eq u.compiled.toConfigurationFields := by
  have hsame := restored_of_built hpayload (buildConfiguration_eq_ok_iff.mp hknown.built)
  have hflag := hrecorded.sameFlag hs (recorded_update hknown) hconfig
  -- the column gives a valid configuration back, so reading it changes nothing more
  have hread : c.toConfigurationFields.Rearranged Json.Reordered Eq old.toConfigurationFields := by
    have hreordered := column.reordered c.toConfigurationFields
    have hvalid := hreordered.valid (fun _ _ h => h) (fun _ _ h => .of_eq h) c.valid
    rw [FlagConfiguration.create_eq_ok_iff, hrecorded.snapshot,
      ConfigurationFields.coerced_eq_self hvalid.typed] at hold
    rw [hold]
    exact hreordered
  exact {
    projectId := hflag.projectId
    environmentId := hflag.environmentId
    environmentKey := hflag.environmentKey
    flagId := hflag.flagId
    flagKey := hflag.flagKey
    flagType := hflag.flagType
    enabled := hread.enabled.trans hsame.enabled
    defaultVariation := hread.defaultVariation.trans hsame.defaultVariation
    variations := hsame.variations ▸ hread.variations
    salt := hflag.salt
    rules := hsame.rules ▸ hread.rules
    rollout := hread.rollout.trans hsame.rollout
    progressiveStages := hread.progressiveStages.trans hsame.progressiveStages }

end Recording

/-! ## What is served -/

/-- **The graphs a configuration may be loaded as.** -/
structure MayLoad (s : Database) (row : FlagConfigRow) (loaded : LoadedConfig) : Prop where
  sameRow : loaded.row = row
  flag : loaded.flag ∈ s.flags ∧ loaded.flag.id = row.flagId
  environment : loaded.environment ∈ s.environments ∧ loaded.environment.id = row.environmentId
  loads : Loads s.children loaded

section Serving

variable {s : Database} {row : FlagConfigRow} {c d : FlagConfiguration}

/-- What the current rows compile to. -/
theorem CurrentStored.compile (h : CurrentStored s row d) {loaded : LoadedConfig}
    (hload : MayLoad s row loaded) : Represents List.Perm d.toConfigurationFields loaded := by
  obtain ⟨saved, hstores⟩ := h.children
  obtain ⟨rfl, ⟨hflag, hflagId⟩, ⟨henvironment, henvironmentId⟩, hloads⟩ := hload
  exact represents_of_loads hstores hloads
    (h.describes _ hflag hflagId _ henvironment henvironmentId)

/-- **Every subject keeps its bucket.** -/
theorem bucket_of_alike (hcurrent : CurrentStored s row d)
    (halike : c.toConfigurationFields.Alike Json.Reordered Eq d.toConfigurationFields)
    {loaded : LoadedConfig} (hload : MayLoad s row loaded) :
    ∃ e, compileConfiguration loaded = .ok e
      ∧ ∀ context, getBucket e context = getBucket c context := by
  obtain ⟨e, he, hrel⟩ := compile_of_represents (fun _ _ h => h) (hcurrent.compile hload)
  refine ⟨e, he, fun context => ?_⟩
  rw [getBucket_alike halike, getBucket_alike hrel.toAlike]

variable [Packaging] {context : EvaluationContext} {now : Instant}

/-- **A configuration that serves alike is served in every order of the rows
exactly when its tied stages agree.** -/
theorem served_iff (hs : s.Consistent) (hrow : row ∈ s.configs)
    (hcurrent : CurrentStored s row d)
    (halike : c.toConfigurationFields.Alike Json.Reordered Eq d.toConfigurationFields)
    (hpriority : (c.rules.map TargetingRule.priority).Nodup)
    (hraise : ∀ error, ¬ RaisedByCondition c context error) :
    (∀ loaded, MayLoad s row loaded → ∃ e, compileConfiguration loaded = .ok e
        ∧ SameOutcome Json.Reordered (evaluateFlag c context now) (evaluateFlag e context now))
      ↔ StageTiesAgree c context now := by
  have hraise' : ∀ error, ¬ RaisedByCondition d context error := fun error h =>
    hraise error (raisedByCondition_alike (fun _ _ h => h) halike h)
  have hnone : ∀ rule ∈ c.rules, RaisesNothing context rule :=
    fun rule hr condition hc error he => hraise error ⟨rule, hr, condition, hc, he⟩
  have hties : StageTiesAgree c context now ↔ StageTiesAgree d context now := by
    unfold StageTiesAgree
    rw [getBucket_alike halike, consultedStages_alike (fun _ _ h => h) halike hpriority hnone]
  have hbase : SameOutcome Json.Reordered (evaluateFlag c context now)
      (evaluateFlag d context now) :=
    evaluateFlag_alike (fun _ _ h => h) (fun _ _ h => .of_eq h) halike hpriority hnone
      (fun _ h _ _ => h ▸ rfl)
  rw [hties]
  constructor
  · intro hall
    by_contra hdisagree
    obtain ⟨flag, hflag, hflagId⟩ := List.mem_map.mp (hs.references.configFlags row hrow)
    obtain ⟨environment, henvironment, henvironmentId⟩ :=
      List.mem_map.mp (hs.references.configEnvironments row hrow)
    obtain ⟨saved, hstores⟩ := hcurrent.children
    have hdescribes := hcurrent.describes _ hflag hflagId _ henvironment henvironmentId
    obtain ⟨stage, hstage⟩ :=
      exists_order_of_not_ties hstores hdescribes hcurrent.priorities hraise' hdisagree
    obtain ⟨e, he, hsame⟩ := hall _ ⟨rfl, ⟨hflag, hflagId⟩, ⟨henvironment, henvironmentId⟩,
      loads_loadBringingFirst hstores flag environment stage⟩
    -- the two evaluations differ in the variation, so in every form of the values
    exact hstage e he (fun _ _ => True) ((hbase.symm (S := fun _ _ => True)
      (fun _ _ _ => trivial)).trans (fun _ _ _ _ _ => trivial) hsame)
  · intro hagree loaded hload
    obtain ⟨e, he, hsame⟩ :=
      sameOutcome_of_ties (hcurrent.compile hload) hcurrent.priorities hraise' hagree
    exact ⟨e, he, hbase.trans (fun _ _ _ h h' => h' ▸ h) hsame⟩

end Serving

/-! ## Every rollback -/

/-- The flag, the environment, the expected version and the target of a
rollback. -/
def Request.rollback? : Request → Option (UUID × UUID × ℕ × ℕ)
  | .rollbackFeatureFlag _ _ flagId targetVersion payload =>
    some (flagId, payload.environmentId, payload.expectedVersion, targetVersion)
  | _ => none

/-- The postcondition of a request, with what a rollback restores. -/
def RestoresTarget (request : Request) (writes : List Write) (locks : List Row) (s : Database)
    (outcome : Outcome) : Prop :=
  Commits writes locks s outcome
    ∧ ∀ flagId environmentId v t, request.rollback? = some (flagId, environmentId, v, t) →
      ∃ u, CommitsUpdate u writes locks s outcome ∧ u.RollsBack flagId environmentId v t

/-- The discipline once more, with a postcondition that also says which version a rollback
restores. -/
theorem service_respects_rollbacks :
    service.Respects discipline History RestoresTarget (fun _ _ _ => True) where
  apply := rfl
  committed := service_respects.committed
  start := by
    intro request s _
    have hensures : (service.program request).Ensures discipline Commits [] [] s :=
      request.ensures s
    cases request with
    | rollbackFeatureFlag principal requestId flagId t payload =>
      refine (ensures_rollbackFeatureFlag principal requestId flagId t payload).mono ?_
      rintro writes locks s' outcome ⟨u, hcommits, hrolls, -⟩
      refine ⟨hcommits.commits, ?_⟩
      rintro _ _ _ _ heq
      cases heq
      exact ⟨u, hcommits, hrolls⟩
    | _ => exact hensures.mono (fun _ _ _ _ h => ⟨h, fun _ _ _ _ heq => (by cases heq)⟩)
  commit := fun request writes locks s s' result log h =>
    service_respects.commit request writes locks s s' result log h.1

/-- **What a rollback commits**: an update that restores a stored version. -/
theorem rollback_commits {actions : List (Action Choice Request)} {w w₁ : ServiceWorld}
    (hrun : service.run initial actions = some w) {id : ℕ}
    {tx : Running Database Write Row Choice PyError Request Outcome}
    (htx : w.running? id = some tx) {flagId environmentId : UUID} {v t : ℕ}
    (hrequest : tx.request.rollback? = some (flagId, environmentId, v, t))
    (hcommit : service.step w (.commit id) = some w₁) :
    ∃ u locks, RoundsFit w.committed locks [⟨some u, none⟩]
      ∧ u.RollsBack flagId environmentId v t
      ∧ w₁.committed = service.view (roundWrites [⟨some u, none⟩]) w.committed := by
  have hgood : w.Good discipline History RestoresTarget :=
    (service_respects_rollbacks.run_good (World.good_init history_initial)
      (service.commitsMeet_of_forall (fun _ _ _ => trivial) initial actions) hrun).1
  obtain ⟨tx', result, htx', hprog, hok, rfl⟩ := service.commit_eq_some hcommit
  rw [htx] at htx'
  cases htx'
  obtain ⟨s, hrely, -, hrestores⟩ := hgood.of_running htx hprog
  obtain ⟨u, hcommits, hrolls⟩ := hrestores _ _ _ _ hrequest
  exact ⟨u, tx.locks, hcommits.fits.evolve hrely, hrolls, by rw [hcommits.writes_eq]⟩

/-- **The version a rollback wrote, while it is the current one**, holds what
serves alike the restored snapshot. -/
theorem rollback_current {actions actions' : List (Action Choice Request)}
    {w w₁ w' : ServiceWorld} (hrun : service.run initial actions = some w) {id : ℕ}
    {tx : Running Database Write Row Choice PyError Request Outcome}
    (htx : w.running? id = some tx) {flagId environmentId : UUID} {v t : ℕ}
    (hrequest : tx.request.rollback? = some (flagId, environmentId, v, t))
    (hcommit : service.step w (.commit id) = some w₁) (hrun' : service.run w₁ actions' = some w')
    {row : FlagConfigRow} (hrow : row ∈ w'.committed.configs) (hflag : row.flagId = flagId)
    (henvironment : row.environmentId = environmentId)
    (hversion : row.currentVersion = v + 1) :
    w'.committed.Consistent ∧ w.committed.versions <+: w'.committed.versions
      ∧ ∃ target ∈ w.committed.versions, ∃ c d : FlagConfiguration,
        target.configId = row.id ∧ target.version = t
        ∧ target.snapshot = c.toConfigurationFields
        ∧ (c.rules.map TargetingRule.priority).Nodup
        ∧ CurrentStored w'.committed row d
        ∧ c.toConfigurationFields.Alike Json.Reordered Eq d.toConfigurationFields := by
  obtain ⟨u, locks, hfits, hrolls, hcommitted⟩ := rollback_commits hrun htx hrequest hcommit
  have hgood := good_of_run hrun
  have hlater : service.run w (.commit id :: actions') = some w' :=
    Option.bind_eq_some_iff.mpr ⟨w₁, hcommit, hrun'⟩
  obtain ⟨hgood', hevolves⟩ := service_respects.run_good hgood
    (service.commitsMeet_of_forall (fun _ _ _ => trivial) w _) hlater
  obtain ⟨hgood₁, -⟩ := service_respects.step hgood (fun _ _ _ _ => trivial) hcommit
  obtain ⟨-, hevolves₁⟩ := service_respects.run_good hgood₁
    (service.commitsMeet_of_forall (fun _ _ _ => trivial) w₁ _) hrun'
  have hs' := hgood'.invariant.consistent
  have hmem : u ∈ updatesOf [⟨some u, none⟩] := List.mem_singleton.mpr rfl
  have hknown := hfits.known u hmem
  obtain ⟨version, hv, column, old, hconfig, ht, hold, hpayload⟩ :=
    hfits.restored u hmem t hrolls.source
  obtain ⟨c, hrecorded⟩ := recorded_of_run hrun version hv
  have hid : u.configId = row.id := (hknown.evolve hevolves).configId_eq hs' hrow
    (hrolls.flagId.trans hflag.symm) (hrolls.environmentId.trans henvironment.symm)
  -- the version stored with the number of the row is the one the rollback wrote
  obtain ⟨d, hcurrent⟩ := (hgood'.invariant.configs row hrow).current
  have hd : d = u.compiled := by
    obtain ⟨stored, hstored, hstoredId, hstoredVersion, hsnapshot⟩ := hcurrent.stored
    have hwritten : u.versionRow ∈ w'.committed.versions := by
      refine hevolves₁.grows.versions.subset ?_
      rw [hcommitted, versions_rounds]
      exact List.mem_append_right _ (List.mem_singleton.mpr rfl)
    have hsame : stored = u.versionRow :=
      List.inj_on_of_nodup_map hs'.keys.versionNumbers hstored hwritten (Prod.ext
        (hstoredId.trans hid.symm) (hstoredVersion.trans (hversion.trans hrolls.version.symm)))
    refine FlagConfiguration.ext (hsnapshot.symm.trans ?_)
    rw [hsame]
    rfl
  refine ⟨hs', hevolves.grows.versions, version, hv, c, d, hconfig.trans hid, ht,
    hrecorded.snapshot, hrecorded.priorities, hcurrent, ?_⟩
  rw [hd]
  exact alike_of_restores hgood.invariant.consistent hknown hrecorded hconfig hold hpayload

section Restores

variable [Packaging]

/-- **The current version of a configuration restores version `t`**, at least
where its tied stages agree; `s` is the state in which it was rolled back.
Every subject has the bucket it had, and no earlier version changed. -/
def RestoresVersion (s s' : Database) (row : FlagConfigRow) (t : ℕ) : Prop :=
  s.versions <+: s'.versions ∧ ∃ target ∈ s.versions, ∃ c : FlagConfiguration,
    target.configId = row.id ∧ target.version = t ∧ target.snapshot = c.toConfigurationFields
    ∧ (∀ loaded, MayLoad s' row loaded → ∃ d, compileConfiguration loaded = .ok d
      ∧ ∀ context, getBucket d context = getBucket c context)
    ∧ ∀ context now, (∀ error, ¬ RaisedByCondition c context error) →
      ((∀ loaded, MayLoad s' row loaded → ∃ d, compileConfiguration loaded = .ok d
          ∧ SameOutcome Json.Reordered (evaluateFlag c context now) (evaluateFlag d context now))
        ↔ StageTiesAgree c context now)

/-- **A rollback restores what the target version served exactly where the tied
stages agree.** The version it wrote is the current one of its configuration,
and its rows come in any order. -/
theorem rollback_restores_iff {actions actions' : List (Action Choice Request)}
    {w w₁ w' : ServiceWorld} (hrun : service.run initial actions = some w) {id : ℕ}
    {tx : Running Database Write Row Choice PyError Request Outcome}
    (htx : w.running? id = some tx) {flagId environmentId : UUID} {v t : ℕ}
    (hrequest : tx.request.rollback? = some (flagId, environmentId, v, t))
    (hcommit : service.step w (.commit id) = some w₁) (hrun' : service.run w₁ actions' = some w')
    {row : FlagConfigRow} (hrow : row ∈ w'.committed.configs) (hflag : row.flagId = flagId)
    (henvironment : row.environmentId = environmentId) (hversion : row.currentVersion = v + 1) :
    RestoresVersion w.committed w'.committed row t := by
  obtain ⟨hs', hkept, target, htarget, c, d, hconfig, ht, hsnapshot, hpriority, hcurrent,
    halike⟩ := rollback_current hrun htx hrequest hcommit hrun' hrow hflag henvironment hversion
  exact ⟨hkept, target, htarget, c, hconfig, ht, hsnapshot,
    fun loaded hload => bucket_of_alike hcurrent halike hload,
    fun context now hraise => served_iff hs' hrow hcurrent halike hpriority hraise⟩

end Restores

/-! ## Rolling back to tied stages -/

/-- The version of the replacement. -/
theorem version_two : 1 ≤ 2 := one_le_two

/-- The percentage of the stages is in range. -/
theorem stage_range : 10000 ≤ 10000 := by decide

/-- Their instants have an offset. -/
theorem stage_utcoffset : (Datetime.ofInstant 0).utcoffset.isSome = true := by decide

/-- The sample content with two stages that start together. -/
def stagedContent : FlagContent :=
  { sampleContent with
    progressiveStages := [
      ⟨10000, "on", "on", .ofInstant 0, stage_range, stage_utcoffset⟩,
      ⟨10000, "off", "off", .ofInstant 0, stage_range, stage_utcoffset⟩] }

/-- A flag with these stages, replaced by one without, and a rollback to the
first version that is about to commit. -/
def stagedRollback : List (Action Choice Request) :=
  sampleTenant
  ++ alone 3 40 12 (.createFeatureFlag sampleUser none ⟨20⟩
    { sampleCreate "banner" isFlagKey_banner with toFlagContent := stagedContent })
  ++ sampleReplacement
  ++ .start (.rollbackFeatureFlag sampleUser none ⟨40⟩ 1 ⟨⟨30⟩, 2, version_two⟩)
    :: advances 5 60 18

/-- What the rollback restores, and that it can be committed. -/
theorem exists_stagedRollback : ∃ w tx w₁ row, service.run initial stagedRollback = some w
    ∧ w.running? 5 = some tx ∧ tx.request.rollback? = some (⟨40⟩, ⟨30⟩, 2, 1)
    ∧ service.step w (.commit 5) = some w₁ ∧ row ∈ w₁.committed.configs ∧ row.flagId = ⟨40⟩
    ∧ row.environmentId = ⟨30⟩ ∧ row.currentVersion = 3
    ∧ ∀ target ∈ w.committed.versions, target.version = 1 →
      target.snapshot.enabled = true ∧ target.snapshot.rules = []
        ∧ target.snapshot.progressiveStages
          = [⟨10000, "on", "on", 0, le_rfl⟩, ⟨10000, "off", "off", 0, le_rfl⟩]
        ∧ FitsHash target.snapshot.projectId ∧ FitsHash target.snapshot.environmentId
        ∧ FitsHash target.snapshot.flagKey ∧ FitsHash target.snapshot.salt := by
  have hfacts : (service.run initial stagedRollback).any (fun w =>
      (w.running? 5).any (fun tx => tx.request.rollback? = some (⟨40⟩, ⟨30⟩, 2, 1))
      && (service.step w (.commit 5)).any (fun w₁ => w₁.committed.configs.any (fun row =>
        row.flagId = ⟨40⟩ ∧ row.environmentId = ⟨30⟩ ∧ row.currentVersion = 3))
      && w.committed.versions.all (fun target => decide (target.version = 1 →
        target.snapshot.enabled = true ∧ target.snapshot.rules.isEmpty = true
          ∧ target.snapshot.progressiveStages
            = [⟨10000, "on", "on", 0, le_rfl⟩, ⟨10000, "off", "off", 0, le_rfl⟩]
          ∧ FitsHash target.snapshot.projectId ∧ FitsHash target.snapshot.environmentId
          ∧ FitsHash target.snapshot.flagKey ∧ FitsHash target.snapshot.salt))) = true := by
    decide +kernel
  obtain ⟨w, hrun, hfacts⟩ := (Option.any_eq_true _ _).mp hfacts
  rw [Bool.and_eq_true, Bool.and_eq_true] at hfacts
  obtain ⟨⟨hrequest, hcommit⟩, hversions⟩ := hfacts
  obtain ⟨tx, htx, hrequest⟩ := (Option.any_eq_true _ _).mp hrequest
  obtain ⟨w₁, hcommit, hrows⟩ := (Option.any_eq_true _ _).mp hcommit
  obtain ⟨row, hrow, hfacts⟩ := List.any_eq_true.mp hrows
  obtain ⟨hflag, henvironment, hversion⟩ := of_decide_eq_true hfacts
  refine ⟨w, tx, w₁, row, hrun, htx, of_decide_eq_true hrequest, hcommit, hrow, hflag,
    henvironment, hversion, fun target ht hone => ?_⟩
  obtain ⟨henabled, hrules, hrest⟩ :=
    of_decide_eq_true (List.all_eq_true.mp hversions target ht) hone
  exact ⟨henabled, List.isEmpty_iff.mp hrules, hrest⟩

theorem rollback_restores_iff_staged : ∃ w tx w₁ row,
    service.run initial stagedRollback = some w ∧ w.running? 5 = some tx
    ∧ tx.request.rollback? = some (⟨40⟩, ⟨30⟩, 2, 1) ∧ service.step w (.commit 5) = some w₁
    ∧ row ∈ w₁.committed.configs ∧ row.currentVersion = 3
    ∧ @RestoresVersion .refusing w.committed w₁.committed row 1 := by
  obtain ⟨w, tx, w₁, row, hrun, htx, hrequest, hcommit, hrow, hflag, henvironment, hversion, -⟩ :=
    exists_stagedRollback
  exact ⟨w, tx, w₁, row, hrun, htx, hrequest, hcommit, hrow, hversion,
    @rollback_restores_iff .refusing _ [] _ _ _ hrun _ _ htx _ _ _ _ hrequest hcommit rfl _ hrow
      hflag henvironment hversion⟩

/-- **A rollback that serves something else**: the target version has two
stages that start together, and the rows of the new version come in another
order. -/
theorem rollback_tiedStages : ∃ w tx w₁ row, service.run initial stagedRollback = some w
    ∧ w.running? 5 = some tx ∧ tx.request.rollback? = some (⟨40⟩, ⟨30⟩, 2, 1)
    ∧ service.step w (.commit 5) = some w₁ ∧ row ∈ w₁.committed.configs ∧ row.currentVersion = 3
    ∧ ∃ target ∈ w.committed.versions, ∃ c loaded d,
      target.configId = row.id ∧ target.version = 1
      ∧ target.snapshot = FlagConfiguration.toConfigurationFields c
      ∧ (∀ error, ¬ @RaisedByCondition .refusing c sampleContext error)
      ∧ MayLoad w₁.committed row loaded ∧ compileConfiguration loaded = .ok d
      ∧ ¬ SameOutcome Json.Reordered (@evaluateFlag .refusing c sampleContext 0)
        (@evaluateFlag .refusing d sampleContext 0) := by
  obtain ⟨w, tx, w₁, row, hrun, htx, hrequest, hcommit, hrow, hflag, henvironment, hversion,
    hstaged⟩ := exists_stagedRollback
  have hstay : service.run w₁ [] = some w₁ := rfl
  obtain ⟨hs', -, target, htarget, c, d, hconfig, ht, hsnapshot, hpriority, hcurrent, halike⟩ :=
    rollback_current hrun htx hrequest hcommit hstay hrow hflag henvironment hversion
  obtain ⟨henabled, hrules, hstages, hp, he, hf, hsalt⟩ := hstaged target htarget ht
  rw [hsnapshot] at henabled hrules hstages hp he hf hsalt
  have hraise : ∀ error, ¬ @RaisedByCondition .refusing c sampleContext error := by
    rintro error ⟨rule, hr, -⟩
    rw [hrules] at hr
    cases hr
  have hdisagree := @not_stageTiesAgree_of_tied .refusing c sampleContext 0 "on" "off"
    (by decide) henabled hrules hstages (exists_stableBucket hp he hf (by decide) hsalt)
  -- so not every order of the rows serves what the target version did
  have hnot := mt (@served_iff _ row c d .refusing sampleContext 0 hs' hrow hcurrent halike
    hpriority hraise).mp hdisagree
  push Not at hnot
  obtain ⟨loaded, hload, hdiffers⟩ := hnot
  obtain ⟨e, hcompiles, -⟩ := bucket_of_alike hcurrent halike hload
  exact ⟨w, tx, w₁, row, hrun, htx, hrequest, hcommit, hrow, hversion, target, htarget, c, loaded,
    e, hconfig, ht, hsnapshot, hraise, hload, hcompiles, hdiffers e hcompiles⟩

end CohortSwitch
