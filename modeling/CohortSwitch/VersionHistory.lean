import CohortSwitch.Commits

/-!
# The history of versions

In every committed state the stored versions of a configuration are exactly
`1, …, current_version`, an audit event records each of them once, and the
normalized rows are those of the latest snapshot. `History` is this invariant,
together with what ties it to the log of the server: each success wrote a
version of its own.

The two forms of the current version, a snapshot and rows, are compared up to the
order of rows and not by content alone: `CurrentStored` says that the tables hold
the rows `_persist_children` writes for the snapshot, among those of others. From
that `CohortSwitch.RowOrder` gives what a reader compiles.

## Commit by commit

The invariant is kept commit by commit (`history_commit`). A configuration that
a commit updates gets one more version, one more event and new children
(`ConfigHistory.updated`); a new one starts with version 1
(`ConfigHistory.created`); and for every other one nothing it depends on changes
(`ConfigHistory.untouched`).

That no version is reported twice follows from the same step: an update wrote a
version above all those its configuration had, and the versions that were reported
before were among these.
-/

namespace CohortSwitch

/-! ## The invariant -/

/-- The event records a version of the configuration of a flag in an
environment. -/
def AuditEventRow.records (row : AuditEventRow) (flagId environmentId : UUID) (version : ℕ) :
    Bool :=
  decide (row.resourceType = "feature_flag" ∧ row.resourceId = flagId
    ∧ (row.metadata.lookup "environment_id").bind Json.str? = some environmentId.str
    ∧ (row.metadata.lookup "version").bind Json.int? = some (version : ℤ))

/-- **The rows of a configuration are those of a snapshot**, the one stored for its current
version. The order of the rows is left open, as the tables keep none. -/
structure CurrentStored (s : Database) (row : FlagConfigRow) (c : FlagConfiguration) :
    Prop where
  stored : ∃ version ∈ s.versions, version.configId = row.id
    ∧ version.version = row.currentVersion ∧ version.snapshot = c.toConfigurationFields
  describes : ∀ flag ∈ s.flags, flag.id = row.flagId → ∀ environment ∈ s.environments,
    environment.id = row.environmentId → Describes row flag environment c.toConfigurationFields
  priorities : (c.rules.map TargetingRule.priority).Nodup
  children : ∃ saved, Stores s.children row.id saved c.toConfigurationFields

/-- **The history of one configuration.** Its versions are numbered from one to its current
version without gap, each is recorded by one event, and its rows are those of the last snapshot.
-/
structure ConfigHistory (s : Database) (row : FlagConfigRow) : Prop where
  /-- The versions are numbered without gap. -/
  versions : ((s.versions.filter (fun version => version.configId = row.id)).map
    FlagVersionRow.version).Perm (List.range' 1 row.currentVersion)
  /-- The salt stays. -/
  salts : ∀ version ∈ s.versions, version.configId = row.id → version.snapshot.salt = row.salt
  /-- Each is recorded once, and nothing else is. -/
  audited : ∀ n, s.audits.countP (fun event => event.records row.flagId row.environmentId n)
    = if 1 ≤ n ∧ n ≤ row.currentVersion then 1 else 0
  /-- The rows are those of the latest. -/
  current : ∃ c, CurrentStored s row c

/-- A stored version is one its configuration has reached. -/
theorem ConfigHistory.version_le {s : Database} {row : FlagConfigRow} (h : ConfigHistory s row)
    {version : FlagVersionRow} (hv : version ∈ s.versions) (hid : version.configId = row.id) :
    version.version ≤ row.currentVersion := by
  have hmem : version.version ∈ List.range' 1 row.currentVersion :=
    h.versions.mem_iff.mp (List.mem_map_of_mem (List.mem_filter.mpr ⟨hv, decide_eq_true hid⟩))
  have := List.mem_range'_1.mp hmem
  omega

/-- The version a response reports. -/
def FlagResponse.reported (r : FlagResponse) : UUID × String × ℕ :=
  (r.id, r.environmentId, r.currentVersion)

/-- The versions that were reported to have been written. -/
def successes (log : List (Request × Outcome)) : List (UUID × String × ℕ) :=
  log.flatMap (fun entry => entry.2.responses.map FlagResponse.reported)

/-- **The invariant of the committed states.** The constraints hold, each configuration has a
history, and the versions that were reported are stored, none of them reported twice. It speaks
of the log as well as of the tables, so that what was answered can be compared with what is
stored. -/
structure History (s : Database) (log : List (Request × Outcome)) : Prop where
  /-- The constraints hold. -/
  consistent : s.Consistent
  /-- Every configuration has its history. -/
  configs : ∀ row ∈ s.configs, ConfigHistory s row
  /-- What is recorded is recorded of flags that are there. -/
  audits : ∀ event ∈ s.audits, ∀ flagId environmentId n,
    event.records flagId environmentId n = true → flagId ∈ s.flags.map FeatureFlagRow.id
  /-- No version was reported twice. -/
  once : (successes log).Nodup
  /-- What was reported is stored. -/
  written : ∀ success ∈ successes log, ∃ row ∈ s.configs, row.flagId = success.1
    ∧ row.environmentId.str = success.2.1 ∧ success.2.2 ≤ row.currentVersion

/-! ## Which versions the writes record -/

/-- Which version the event of an update records. -/
theorem records_update (u : Update) (flagId environmentId : UUID) (n : ℕ) :
    u.auditRow.records flagId environmentId n = true
      ↔ u.flag.id = flagId ∧ u.environment.id = environmentId ∧ u.version = n := by
  unfold AuditEventRow.records
  rw [decide_eq_true_iff]
  show ("feature_flag" = "feature_flag" ∧ u.flag.id = flagId
    ∧ some u.environment.id.str = some environmentId.str
    ∧ some (u.version : ℤ) = some (n : ℤ)) ↔ _
  rw [Option.some.injEq, Option.some.injEq, UUID.str_injective.eq_iff, Nat.cast_inj]
  exact and_iff_right rfl

/-- And that of a creation. -/
theorem records_creation (k : Creation) (flagId environmentId : UUID) (n : ℕ) :
    k.auditRow.records flagId environmentId n = true
      ↔ k.flagId = flagId ∧ k.environment.id = environmentId ∧ 1 = n := by
  unfold AuditEventRow.records
  rw [decide_eq_true_iff]
  show ("feature_flag" = "feature_flag" ∧ k.flagId = flagId
    ∧ some k.environment.id.str = some environmentId.str
    ∧ some ((1 : ℕ) : ℤ) = some (n : ℤ)) ↔ _
  rw [Option.some.injEq, Option.some.injEq, UUID.str_injective.eq_iff, Nat.cast_inj]
  exact and_iff_right rfl

/-- That of an archiving records none. -/
theorem records_archiving (a : Archiving) (flagId environmentId : UUID) (n : ℕ) :
    ¬ a.auditRow.records flagId environmentId n = true := by
  unfold AuditEventRow.records
  rw [decide_eq_true_iff]
  rintro ⟨-, -, h, -⟩
  cases h

/-! ## Rows that keep their identity -/

section Identities

variable {s s' : Database}

/-- A flag of the later state that was there before. -/
theorem flag_identity (hs' : s'.Consistent) (hgrows : s.Grows s') {flag' : FeatureFlagRow}
    (hf' : flag' ∈ s'.flags) {identity : FeatureFlagRow.Identity}
    (hi : identity ∈ s.flags.map FeatureFlagRow.identity) (hid : flag'.id = identity.id) :
    flag'.identity = identity := by
  obtain ⟨flag, hf, heq⟩ := List.mem_map.mp (hgrows.flags.subset hi)
  have hid' : flag'.id = flag.id := hid.trans (congrArg FeatureFlagRow.Identity.id heq).symm
  rw [List.inj_on_of_nodup_map hs'.keys.flagIds hf' hf hid']
  exact heq

/-- An environment of the later state that was there before. -/
theorem environment_identity (hs' : s'.Consistent) (hgrows : s.Grows s')
    {environment' : EnvironmentRow} (he' : environment' ∈ s'.environments)
    {identity : EnvironmentRow.Identity}
    (hi : identity ∈ s.environments.map EnvironmentRow.identity)
    (hid : environment'.id = identity.id) : environment'.identity = identity := by
  obtain ⟨environment, he, heq⟩ := List.mem_map.mp (hgrows.environments.subset hi)
  have hid' : environment'.id = environment.id :=
    hid.trans (congrArg EnvironmentRow.Identity.id heq).symm
  rw [List.inj_on_of_nodup_map hs'.keys.environmentIds he' he hid']
  exact heq

/-- The scalars of a configuration come from identities. -/
theorem Describes.of_identity {row : FlagConfigRow} {flag flag' : FeatureFlagRow}
    {environment environment' : EnvironmentRow} {c : ConfigurationFields}
    (h : Describes row flag environment c) (hflag : flag'.identity = flag.identity)
    (henvironment : environment'.identity = environment.identity) :
    Describes row flag' environment' c where
  projectId := h.projectId.trans
    (congrArg (fun i => i.projectId.str) hflag.symm : flag.projectId.str = flag'.projectId.str)
  environmentId := h.environmentId
  environmentKey := h.environmentKey.trans
    (congrArg EnvironmentRow.Identity.key henvironment.symm)
  flagId := h.flagId
  flagKey := h.flagKey.trans (congrArg FeatureFlagRow.Identity.key hflag.symm)
  flagType := h.flagType.trans (congrArg FeatureFlagRow.Identity.flagType hflag.symm)
  enabled := h.enabled
  defaultVariation := h.defaultVariation
  configVersion := h.configVersion
  salt := h.salt

/-- **A configuration whose rows stay keeps its snapshot.** -/
theorem CurrentStored.grow {row : FlagConfigRow} {c : FlagConfiguration}
    (h : CurrentStored s row c) (hs : s.Consistent) (hs' : s'.Consistent)
    (hgrows : s.Grows s') (hrow : row ∈ s.configs)
    (hchildren : s'.children.of row.id = s.children.of row.id) : CurrentStored s' row c where
  stored := by
    obtain ⟨version, hv, hrest⟩ := h.stored
    exact ⟨version, hgrows.versions.subset hv, hrest⟩
  describes := by
    intro flag' hf' hfid environment' he' heid
    -- the foreign keys of the row give the flag and the environment as they were
    obtain ⟨flag, hf, hid⟩ := List.mem_map.mp (hs.references.configFlags row hrow)
    obtain ⟨environment, he, hid'⟩ :=
      List.mem_map.mp (hs.references.configEnvironments row hrow)
    refine (h.describes flag hf hid environment he hid').of_identity ?_ ?_
    · exact flag_identity hs' hgrows hf' (List.mem_map_of_mem hf) (hfid.trans hid.symm)
    · exact environment_identity hs' hgrows he' (List.mem_map_of_mem he) (heid.trans hid'.symm)
  priorities := h.priorities
  children := by
    obtain ⟨saved, hstores⟩ := h.children
    exact ⟨saved, hstores.of_eq hchildren⟩

end Identities

/-! ## One commit -/

/-- The one item of a list with a given key. -/
theorem filter_key_eq_singleton {α κ : Type} [DecidableEq κ] {f : α → κ} {xs : List α} {a : α}
    (hnd : (xs.map f).Nodup) (ha : a ∈ xs) : xs.filter (fun x => f x = f a) = [a] := by
  induction xs with
  | nil => cases ha
  | cons x xs ih =>
    rw [List.map_cons, List.nodup_cons] at hnd
    rcases List.mem_cons.mp ha with rfl | ha
    · rw [List.filter_cons_of_pos (by simp), filter_eq_nil_of_ne (fun y hy heq => ?_)]
      exact hnd.1 (heq ▸ List.mem_map_of_mem hy)
    · have hne : f x ≠ f a := fun heq => hnd.1 (heq ▸ List.mem_map_of_mem ha)
      rw [List.filter_cons_of_neg (by simp [hne])]
      exact ih hnd.2 ha

section Commit

variable {s : Database} {locks : List Row}

/-- **A configuration that the writes do not concern** keeps its history: what it consists of is
still there, and nothing was added to it. -/
theorem ConfigHistory.untouched {s' : Database} {row : FlagConfigRow}
    (h : ConfigHistory s row) (hs : s.Consistent) (hs' : s'.Consistent) (hgrows : s.Grows s')
    (hrow : row ∈ s.configs) {versions : List FlagVersionRow} {audits : List AuditEventRow}
    (hversions : s'.versions = s.versions ++ versions)
    (hnone : ∀ version ∈ versions, version.configId ≠ row.id)
    (haudits : s'.audits = s.audits ++ audits)
    (hunrecorded : ∀ event ∈ audits, ∀ n,
      ¬ event.records row.flagId row.environmentId n = true)
    (hchildren : s'.children.of row.id = s.children.of row.id) : ConfigHistory s' row where
  versions := by
    rw [hversions, List.filter_append, filter_eq_nil_of_ne hnone, List.append_nil]
    exact h.versions
  salts := by
    intro version hv heq
    rw [hversions] at hv
    rcases List.mem_append.mp hv with hv | hv
    · exact h.salts version hv heq
    · exact absurd heq (hnone version hv)
  audited := by
    intro n
    rw [haudits, List.countP_append,
      List.countP_eq_zero.mpr (fun event he => hunrecorded event he n), Nat.add_zero]
    exact h.audited n
  current := by
    obtain ⟨c, hc⟩ := h.current
    exact ⟨c, hc.grow hs hs' hgrows hrow hchildren⟩

/-- What the identity of an updated configuration says about its row. -/
theorem Update.Known.row_eq (hs : s.Consistent) {u : Update} (h : u.Known s)
    {row : FlagConfigRow} (hrow : row ∈ s.configs) (hid : row.id = u.configId) :
    row.flagId = u.flag.id ∧ row.environmentId = u.environment.id ∧ row.salt = u.salt := by
  have heq := identity_of_id hs (List.mem_map_of_mem hrow) h.config hid
  exact ⟨congrArg FlagConfigRow.Identity.flagId heq,
    congrArg FlagConfigRow.Identity.environmentId heq, congrArg FlagConfigRow.Identity.salt heq⟩

/-- Two updates of one flag and environment are of one configuration. -/
theorem Update.Known.configId_eq (hs : s.Consistent) {u : Update} (h : u.Known s)
    {row : FlagConfigRow} (hrow : row ∈ s.configs) (hflag : u.flag.id = row.flagId)
    (henvironment : u.environment.id = row.environmentId) : u.configId = row.id :=
  congrArg FlagConfigRow.Identity.id
    (identity_of_pair hs h.config (List.mem_map_of_mem hrow) hflag henvironment)

/-- **The new version of an updated configuration** is the next one, and the rows are its own.
-/
theorem ConfigHistory.updated {rounds : List Round} (hs : s.Consistent)
    (hfits : RoundsFit s locks rounds)
    (hok : (service.view (roundWrites rounds) s).Consistent) {row : FlagConfigRow}
    (hrow : row ∈ s.configs) (h : ConfigHistory s row) {u : Update}
    (hu : u ∈ updatesOf rounds) (hid : row.id = u.configId) :
    ConfigHistory (service.view (roundWrites rounds) s) (u.newRow row) := by
  have hnd := hfits.nodup hs
  have hknown := hfits.known u hu
  have hbuilt := buildConfiguration_eq_ok_iff.mp hknown.built
  have hver : row.currentVersion = u.payload.expectedVersion :=
    (hfits.current u hu).eq_row hs hrow hid
  obtain ⟨hflag, henvironment, hsalt⟩ := hknown.row_eq hs hrow hid
  -- of all updates only this one is of the configuration
  have honly : (updatesOf rounds).filter (fun v => v.configId = row.id) = [u] := by
    rw [hid]
    exact filter_key_eq_singleton hnd hu
  refine ⟨?_, ?_, ?_, ⟨u.compiled, ?_, ?_, hbuilt.priorities, ?_⟩⟩
  · rw [versions_rounds, List.filter_append, List.filter_map]
    show ((s.versions.filter (fun version => version.configId = row.id)
      ++ ((updatesOf rounds).filter (fun v => v.configId = row.id)).map Update.versionRow).map
        FlagVersionRow.version).Perm (List.range' 1 (u.payload.expectedVersion + 1))
    rw [honly, List.map_append, List.range'_concat, ← hver]
    refine h.versions.append (.of_eq ?_)
    show [u.payload.expectedVersion + 1] = [1 + 1 * row.currentVersion]
    rw [hver, Nat.one_mul, Nat.add_comm]
  · intro version hv heq
    rw [versions_rounds] at hv
    rcases List.mem_append.mp hv with hv | hv
    · exact h.salts version hv heq
    · obtain ⟨v, hvm, rfl⟩ := List.mem_map.mp hv
      have hmem : v ∈ (updatesOf rounds).filter (fun v => v.configId = row.id) :=
        List.mem_filter.mpr ⟨hvm, decide_eq_true heq⟩
      rw [honly, List.mem_singleton] at hmem
      rw [hmem]
      exact hbuilt.salt.trans hsalt.symm
  · intro n
    show List.countP _ _ = if 1 ≤ n ∧ n ≤ u.payload.expectedVersion + 1 then 1 else 0
    have hnew : ((updatesOf rounds).map Update.auditRow).countP
        (fun event => event.records row.flagId row.environmentId n)
        = if u.version = n then 1 else 0 := by
      rw [List.countP_map, List.countP_eq_length_filter,
        ← filter_filter_of_imp (q := fun v => decide (v.configId = row.id)), honly]
      · by_cases hn : u.version = n
        · rw [if_pos hn, List.filter_cons_of_pos]
          · rfl
          · exact (records_update u _ _ n).mpr ⟨hflag.symm, henvironment.symm, hn⟩
        · rw [if_neg hn, List.filter_cons_of_neg]
          · rfl
          · exact fun hrec => hn ((records_update u _ _ n).mp hrec).2.2
      · intro v hv hrec
        obtain ⟨hvflag, hvenvironment, -⟩ := (records_update v _ _ n).mp hrec
        exact decide_eq_true ((hfits.known v hv).configId_eq hs hrow hvflag hvenvironment)
    have hold := h.audited n
    rw [audits_rounds, List.countP_append]
    show List.countP (fun event : AuditEventRow =>
        event.records row.flagId row.environmentId n) s.audits
      + List.countP (fun event => event.records row.flagId row.environmentId n)
        ((updatesOf rounds).map Update.auditRow) = _
    rw [hnew, hold, hver]
    unfold Update.version
    split <;> split <;> split <;> omega
  · refine ⟨u.versionRow, ?_, hid.symm, rfl, rfl⟩
    rw [versions_rounds]
    exact List.mem_append_right _ (List.mem_map_of_mem hu)
  · intro flag' hf' hfid environment' he' heid
    have hgrows := grows_view (roundWrites rounds) s
    have hfidentity : flag'.identity = u.flag.identity :=
      flag_identity hok hgrows hf' hknown.flagKnown (hfid.trans hflag)
    have heidentity : environment'.identity = u.environment.identity :=
      environment_identity hok hgrows he' hknown.environmentKnown (heid.trans henvironment)
    suffices hdescribes : Describes (u.newRow row) u.flag u.environment
        u.compiled.toConfigurationFields from hdescribes.of_identity hfidentity heidentity
    exact ⟨by rw [hbuilt.projectId, hknown.projectId], by
      rw [hbuilt.environmentId, ← henvironment]; rfl, hbuilt.environmentKey, by
      rw [hbuilt.flagId, ← hflag]; rfl, hbuilt.flagKey, hbuilt.flagType, hbuilt.enabled,
      hbuilt.defaultVariation, hbuilt.configVersion, hbuilt.salt.trans hsalt.symm⟩
  · show ∃ saved, Stores _ row.id saved _
    rw [hid]
    exact (children_of_ok hs hfits hok).1 u hu

/-- **The first version of a new configuration.** -/
theorem ConfigHistory.created {k : Creation} {log : List (Request × Outcome)}
    (h : History s log) (hknown : k.Known s) (hok : (service.view k.writes s).Consistent) :
    ConfigHistory (service.view k.writes s) k.configRow := by
  have hfresh := fresh_of_ok hok
  have hbuilt := buildConfiguration_eq_ok_iff.mp hknown.built
  have hversions : (service.view k.writes s).versions = s.versions ++ [k.versionRow] := rfl
  have haudits : (service.view k.writes s).audits = s.audits ++ [k.auditRow] := rfl
  -- no stored version refers to a configuration that was not there
  have hnone : ∀ version ∈ s.versions, version.configId ≠ k.configRow.id := by
    intro version hv heq
    have hmem := h.consistent.references.versionConfigs version hv
    rw [heq] at hmem
    exact hfresh.configId hmem
  refine ⟨?_, ?_, ?_,
    ⟨k.compiled, ?_, ?_, hbuilt.priorities, (children_creation h.consistent hok).1⟩⟩
  · rw [hversions, List.filter_append, filter_eq_nil_of_ne hnone]
    show (List.map _ ([] ++ List.filter _ [k.versionRow])).Perm [1]
    rw [List.filter_cons_of_pos (by simp [Creation.versionRow, Creation.configRow])]
    exact .refl _
  · intro version hv heq
    rw [hversions] at hv
    rcases List.mem_append.mp hv with hv | hv
    · exact absurd heq (hnone version hv)
    · rw [List.mem_singleton.mp hv]
      exact hbuilt.salt
  · intro n
    have hold : s.audits.countP (fun event => event.records k.flagId k.environment.id n) = 0 :=
      List.countP_eq_zero.mpr (fun event he hrec =>
        hfresh.flagId (h.audits event he _ _ n hrec))
    rw [haudits, List.countP_append]
    show s.audits.countP (fun event => event.records k.flagId k.environment.id n)
      + [k.auditRow].countP (fun event => event.records k.flagId k.environment.id n)
      = if 1 ≤ n ∧ n ≤ 1 then 1 else 0
    rw [hold, List.countP_singleton]
    by_cases hn : 1 = n
    · rw [if_pos ((records_creation k _ _ n).mpr ⟨rfl, rfl, hn⟩), if_pos (by omega)]
    · rw [if_neg (fun hrec => hn ((records_creation k _ _ n).mp hrec).2.2), if_neg (by omega)]
  · exact ⟨k.versionRow, List.mem_append_right _ (List.mem_singleton.mpr rfl), rfl, rfl, rfl⟩
  · intro flag' hf' hfid environment' he' heid
    have hgrows := grows_view k.writes s
    have hflagMem : k.flag ∈ (service.view k.writes s).flags := by
      show k.flag ∈ s.flags ++ [k.flag]
      exact List.mem_append_right _ (List.mem_singleton.mpr rfl)
    have hflagEq : flag' = k.flag :=
      List.inj_on_of_nodup_map hok.keys.flagIds hf' hflagMem hfid
    have heidentity : environment'.identity = k.environment.identity :=
      environment_identity hok hgrows he' hknown.environmentKnown heid
    suffices hdescribes : Describes k.configRow k.flag k.environment
        k.compiled.toConfigurationFields from
      hdescribes.of_identity (congrArg _ hflagEq) heidentity
    exact ⟨hbuilt.projectId, hbuilt.environmentId, hbuilt.environmentKey, hbuilt.flagId,
      hbuilt.flagKey, hbuilt.flagType, hbuilt.enabled, hbuilt.defaultVariation,
      hbuilt.configVersion, hbuilt.salt⟩

/-! ## What was reported -/

/-- A commit reports what its responses say. -/
theorem successes_append (log : List (Request × Outcome)) (request : Request)
    (outcome : Outcome) :
    successes (log ++ [(request, outcome)])
      = successes log ++ outcome.responses.map FlagResponse.reported := by
  simp [successes]

/-- What is reported of some updates. -/
theorem reported_updates {us : List Update} {responses : List FlagResponse}
    (h : List.Forall₂ Update.RespondsWith us responses) :
    responses.map FlagResponse.reported
      = us.map (fun u => (u.flag.id, u.environment.id.str, u.version)) := by
  induction h with
  | nil => rfl
  | cons hr _ ih =>
    rw [List.map_cons, List.map_cons, ih]
    unfold FlagResponse.reported
    rw [hr.id, hr.environmentId, hr.version]

/-- What was written stays written. -/
theorem written_later {s' : Database} (hevolves : s.Evolves [] s') (hs' : s'.Consistent)
    {success : UUID × String × ℕ}
    (h : ∃ row ∈ s.configs, row.flagId = success.1 ∧ row.environmentId.str = success.2.1
      ∧ success.2.2 ≤ row.currentVersion) :
    ∃ row ∈ s'.configs, row.flagId = success.1 ∧ row.environmentId.str = success.2.1
      ∧ success.2.2 ≤ row.currentVersion := by
  obtain ⟨row, hr, hflag, henvironment, hle⟩ := h
  obtain ⟨row', hr', hid, hle', -, -⟩ := hevolves.configs row hr
  have heq := identity_of_id hs' (hevolves.grows.configs.subset (List.mem_map_of_mem hr))
    (List.mem_map_of_mem hr') hid.symm
  refine ⟨row', hr', ?_, ?_, hle.trans hle'⟩
  · exact (congrArg FlagConfigRow.Identity.flagId heq).symm.trans hflag
  · exact (congrArg (fun i => i.environmentId.str) heq.symm :
      row'.environmentId.str = row.environmentId.str).trans henvironment

/-! ## Every commit -/

/-- **A commit of updates keeps the history.** -/
theorem history_rounds {rounds : List Round} {log : List (Request × Outcome)}
    (h : History s log) (hfits : RoundsFit s locks rounds)
    (hok : (service.view (roundWrites rounds) s).Consistent) (request : Request)
    {outcome : Outcome}
    (hresponses : List.Forall₂ Update.RespondsWith (updatesOf rounds) outcome.responses) :
    History (service.view (roundWrites rounds) s) (log ++ [(request, outcome)]) := by
  have hs := h.consistent
  have hnd := hfits.nodup hs
  have hgrows := grows_view (roundWrites rounds) s
  have hevolves : s.Evolves [] (service.view (roundWrites rounds) s) :=
    evolves_rounds hs hfits hok (fun _ _ => List.not_mem_nil)
  refine ⟨hok, ?_, ?_, ?_, ?_⟩
  · intro row' hr'
    rw [configs_rounds] at hr'
    obtain ⟨row, hr, rfl⟩ := List.mem_map.mp hr'
    by_cases hin : row.id ∈ (updatesOf rounds).map Update.configId
    · obtain ⟨u, hu, hid⟩ := List.mem_map.mp hin
      rw [updatedRow_of_mem hnd hu hid.symm]
      exact (h.configs row hr).updated hs hfits hok hr hu hid.symm
    · rw [updatedRow_of_not_mem hin]
      refine (h.configs row hr).untouched hs hok hgrows hr versions_rounds ?_ audits_rounds ?_
        ((children_of_ok hs hfits hok).2 _ hin)
      · intro version hv heq
        obtain ⟨u, hu, rfl⟩ := List.mem_map.mp hv
        exact hin (List.mem_map.mpr ⟨u, hu, heq⟩)
      · intro event he n hrec
        obtain ⟨u, hu, rfl⟩ := List.mem_map.mp he
        obtain ⟨hflag, henvironment, -⟩ := (records_update u _ _ n).mp hrec
        exact hin (List.mem_map.mpr
          ⟨u, hu, (hfits.known u hu).configId_eq hs hr hflag henvironment⟩)
  · intro event he flagId environmentId n hrec
    refine map_id_subset_of_grows hgrows ?_
    rw [audits_rounds] at he
    rcases List.mem_append.mp he with he | he
    · exact h.audits event he _ _ n hrec
    · obtain ⟨u, hu, rfl⟩ := List.mem_map.mp he
      obtain ⟨hflag, -, -⟩ := (records_update u _ _ n).mp hrec
      obtain ⟨flag, hf, heq⟩ := List.mem_map.mp (hfits.known u hu).flagKnown
      rw [← hflag, ← show flag.id = u.flag.id from congrArg FeatureFlagRow.Identity.id heq]
      exact List.mem_map_of_mem hf
  · -- every update wrote a version above all that were reported before
    rw [successes_append, reported_updates hresponses, List.nodup_append]
    refine ⟨h.once, ?_, ?_⟩
    · refine List.Nodup.map_on (fun u hu v hv heq => ?_) (List.Nodup.of_map _ hnd)
      exact List.inj_on_of_nodup_map hfits.separate hu hv
        (UUID.str_injective (congrArg (fun t => t.2.1) heq))
    · rintro success hold _ hnew rfl
      obtain ⟨u, hu, heq⟩ := List.mem_map.mp hnew
      obtain ⟨row, hr, hflag, henvironment, hle⟩ := h.written success hold
      subst heq
      have hid := (hfits.known u hu).configId_eq hs hr hflag.symm
        (UUID.str_injective henvironment).symm
      have hver := (hfits.current u hu).eq_row hs hr hid.symm
      have hle' : u.payload.expectedVersion + 1 ≤ row.currentVersion := hle
      omega
  · intro success hs'
    rw [successes_append, reported_updates hresponses] at hs'
    rcases List.mem_append.mp hs' with hs' | hs'
    · exact written_later hevolves hok (h.written success hs')
    · obtain ⟨u, hu, rfl⟩ := List.mem_map.mp hs'
      obtain ⟨row, hr, hid, hver⟩ := hfits.current u hu
      obtain ⟨hflag, henvironment, -⟩ := (hfits.known u hu).row_eq hs hr hid
      refine ⟨u.newRow row, ?_, hflag, congrArg UUID.str henvironment, le_rfl⟩
      rw [configs_rounds, ← updatedRow_of_mem hnd hu hid]
      exact List.mem_map_of_mem hr

/-- **A creation keeps the history.** -/
theorem history_creation {k : Creation} {log : List (Request × Outcome)} (h : History s log)
    (hknown : k.Known s) (hok : (service.view k.writes s).Consistent) (request : Request)
    {outcome : Outcome} (hreturns : (Effect.creation k).Returns outcome) :
    History (service.view k.writes s) (log ++ [(request, outcome)]) := by
  have hs := h.consistent
  -- the new rows have ids of their own, so nothing that is stored is about them
  have hfresh := fresh_of_ok hok
  have hgrows := grows_view k.writes s
  have hevolves : s.Evolves [] (service.view k.writes s) := evolves_creation hs hok
  have hconfigs : (service.view k.writes s).configs = s.configs ++ [k.configRow] := rfl
  obtain ⟨r, n, rfl, hrid, hrenvironment, hrversion, -⟩ := hreturns
  refine ⟨hok, ?_, ?_, ?_, ?_⟩
  · intro row hr
    rw [hconfigs] at hr
    rcases List.mem_append.mp hr with hr | hr
    · have hversions : (service.view k.writes s).versions = s.versions ++ [k.versionRow] := rfl
      have haudits : (service.view k.writes s).audits = s.audits ++ [k.auditRow] := rfl
      refine (h.configs row hr).untouched hs hok hgrows hr hversions ?_ haudits ?_
        ((children_creation hs hok).2 _ ?_)
      · exact List.forall_mem_singleton.mpr (fun heq =>
          hfresh.configId (List.mem_map.mpr ⟨row, hr, heq.symm⟩))
      · refine List.forall_mem_singleton.mpr (fun n hrec => ?_)
        obtain ⟨hflag, -, -⟩ := (records_creation k _ _ n).mp hrec
        exact hfresh.flagId (hflag ▸ hs.references.configFlags row hr)
      · exact fun heq => hfresh.configId (List.mem_map.mpr ⟨row, hr, heq⟩)
    · rw [List.mem_singleton.mp hr]
      exact ConfigHistory.created h hknown hok
  · intro event he flagId environmentId n hrec
    rcases List.mem_append.mp (show event ∈ s.audits ++ [k.auditRow] from he) with he | he
    · exact map_id_subset_of_grows hgrows (h.audits event he _ _ n hrec)
    · rw [List.mem_singleton.mp he] at hrec
      rw [← ((records_creation k _ _ n).mp hrec).1]
      show k.flag.id ∈ (s.flags ++ [k.flag]).map FeatureFlagRow.id
      exact List.mem_map_of_mem (List.mem_append_right _ (List.mem_singleton.mpr rfl))
  · rw [successes_append, List.nodup_append]
    -- no success before this one was of the new flag
    refine ⟨h.once, List.nodup_singleton _, ?_⟩
    rintro success hold _ hnew rfl
    obtain ⟨row, hr, hflag, -, -⟩ := h.written success hold
    rw [List.mem_singleton.mp hnew] at hflag
    have hflag' : row.flagId = k.flagId := hflag.trans hrid
    exact hfresh.flagId (hflag' ▸ hs.references.configFlags row hr)
  · intro success hm
    rw [successes_append] at hm
    rcases List.mem_append.mp hm with hm | hm
    · exact written_later hevolves hok (h.written success hm)
    · rw [List.mem_singleton.mp hm]
      refine ⟨k.configRow, List.mem_append_right _ (List.mem_singleton.mpr rfl), hrid.symm,
        hrenvironment.symm, le_of_eq hrversion⟩

/-- **A commit that touches no configuration keeps the history.** -/
theorem history_untouched {writes : List Write} {log : List (Request × Outcome)}
    (h : History s log) (hok : (service.view writes s).Consistent)
    (hconfig : writes.filterMap Write.config? = []) (hchild : writes.filterMap Write.child? = [])
    (hversion : writes.filterMap Write.version? = [])
    (haudit : ∀ event ∈ writes.filterMap Write.audit?, ∀ flagId environmentId n,
      ¬ event.records flagId environmentId n = true)
    (request : Request) {outcome : Outcome} (hresponses : outcome.responses = []) :
    History (service.view writes s) (log ++ [(request, outcome)]) := by
  have hs := h.consistent
  have hgrows := grows_view writes s
  have hevolves : s.Evolves [] (service.view writes s) := evolves_of_untouched hconfig hchild
  have hconfigs : (service.view writes s).configs = s.configs := by
    rw [view_configs, hconfig]
    rfl
  have hchildren : (service.view writes s).children = s.children := by
    rw [view_children, hchild]
    rfl
  refine ⟨hok, ?_, ?_, ?_, ?_⟩
  · intro row hr
    rw [hconfigs] at hr
    refine (h.configs row hr).untouched hs hok hgrows hr (view_versions s writes) ?_
      (view_audits s writes) (fun event he => haudit event he _ _) (by rw [hchildren])
    rw [hversion]
    exact fun _ hv => absurd hv List.not_mem_nil
  · intro event he flagId environmentId n hrec
    rw [view_audits] at he
    rcases List.mem_append.mp he with he | he
    · exact map_id_subset_of_grows hgrows (h.audits event he _ _ n hrec)
    · exact absurd hrec (haudit event he _ _ n)
  · rw [successes_append, hresponses]
    exact (List.append_nil (successes log)).symm ▸ h.once
  · intro success hm
    rw [successes_append, hresponses] at hm
    rcases List.mem_append.mp hm with hm | hm
    · exact written_later hevolves hok (h.written success hm)
    · cases hm

/-- **Every commit keeps the history.** -/
theorem history_commit {effect : Effect} {log : List (Request × Outcome)} (h : History s log)
    (hfits : effect.Fits s locks) (hok : (service.view effect.writes s).Consistent)
    (request : Request) {outcome : Outcome} (hreturns : effect.Returns outcome) :
    History (service.view effect.writes s) (log ++ [(request, outcome)]) := by
  cases effect with
  | rounds rs => exact history_rounds h hfits hok request hreturns.1
  | creation k => exact history_creation h hfits hok request hreturns
  | archiving a =>
    refine history_untouched h hok (filterMap_archiving a (fun _ => rfl) (fun _ _ => rfl) rfl)
      (filterMap_archiving a (fun _ => rfl) (fun _ _ => rfl) rfl)
      (filterMap_archiving a (fun _ => rfl) (fun _ _ => rfl) rfl) ?_ request hreturns.1
    intro event he flagId environmentId n
    obtain ⟨w, hw, heq⟩ := List.mem_filterMap.mp he
    rcases List.mem_append.mp hw with hw | hw
    · rcases List.mem_cons.mp hw with rfl | hw
      · cases heq
      · obtain ⟨item, -, rfl⟩ := List.mem_map.mp hw
        cases heq
    · rw [List.mem_singleton.mp hw] at heq
      cases heq
      exact records_archiving a flagId environmentId n
  | plain ws =>
    refine history_untouched h hok (filterMap_plain hfits config?_of_isPlain)
      (filterMap_plain hfits child?_of_isPlain) (filterMap_plain hfits version?_of_isPlain) ?_
      request hreturns.1
    intro event he flagId environmentId n hrec
    obtain ⟨w, hw, heq⟩ := List.mem_filterMap.mp he
    have hplain := hfits w hw
    cases w with
    | audit row =>
      cases heq
      exact of_decide_eq_true hplain (of_decide_eq_true hrec).1
    | _ => cases heq

end Commit

/-! ## Every run -/

/-- **The service keeps its history.** What every program ensures is known, and so is what its
commit does; the two fit together here. -/
theorem service_respects : service.Respects discipline History (fun _ => Commits)
    (fun _ _ _ => True) where
  apply := rfl
  committed := fun _ _ h => h.consistent
  start := fun request s _ => request.ensures s
  commit := by
    rintro request writes locks s s' outcome log ⟨effect, rfl, hfits, hreturns⟩ hevolves h hok -
    have hfits' := hfits.evolve hevolves
    have hconsistent := Database.consistent_of_ok hok
    exact ⟨history_commit h hfits' hconsistent request hreturns,
      fun locks' hfree => effect.evolves h.consistent hfits' hconsistent hfree⟩

end CohortSwitch
