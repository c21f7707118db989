import CohortSwitch.AtomicRead
import CohortSwitch.ChangeMeaning
import CohortSwitch.Rollback
import CohortSwitch.ScheduleOrder
import CohortSwitch.SoloRuns

/-!
# The rounds of a batch

The loop of the scheduler, followed by itself through one sequence of choices.
What the session remembers is then what a query would find (`Session.Recalls`),
so a round reads the rows as the statements before it left them; only the
collections of a configuration that an earlier round has updated are stale.

A round raises if an earlier one was of the same environment: the loaded row of
the environment still holds the revision that round assigned, the `UPDATE` of
`update_flag` expires it, and it cannot be loaded again where it is asked for.
So the rounds that are made are of different environments, and of different
configurations. Apart from that a round raises if the change cannot be applied
(`Database.Admits`), and a change that can be applied is built and written as
what it means (`Applies`).

## The invariant of the loop

`Batch.Follows` relates the committed state, the changes so far, and the batch: what was
written are the statements of one round for each change, the session remembers the
environments of these changes and no others, and each round updates its configuration to
what the change means for the committed one. The environments carry the argument. A
configuration whose environment is new to the session was touched by no round, so it is
read as it was committed (`exists_readsAs`), and whether its change can be applied is a
question about the committed state alone. That is why the condition of a whole batch,
`Database.AdmitsBatch`, does not mention the rounds.

`alone_applyChanges` says what the loop does, and `alone_applyDueChanges` what the
scheduler does with the changes it takes.
-/

namespace CohortSwitch

/-! ## Committed states -/

/-- **A change can be applied**: its flag is there and not archived, its payload means
something, and the variations this names are those of the configuration. -/
def Database.Admits (s : Database) (change : ScheduledChangeRow) : Prop :=
  (∃ row ∈ s.configs, row.id = change.configId
    ∧ ∃ flag ∈ s.flags, flag.id = row.flagId ∧ flag.archivedAt = none)
  ∧ ∃ m ∈ change.meaning, ∀ name ∈ m.names,
    (change.configId, name) ∈ s.children.variations.map (fun row => (row.configId, row.key))

instance (s : Database) (change : ScheduledChangeRow) : Decidable (s.Admits change) :=
  inferInstanceAs (Decidable (_ ∧ ∃ m ∈ change.meaning, _))

/-- The environment of the configuration of a change. -/
def Database.environmentOf (s : Database) (change : ScheduledChangeRow) : Option UUID :=
  (s.configs.find? (fun row => row.id = change.configId)).map FlagConfigRow.environmentId

/-- **A batch can be applied**: each change can, and no two are of one environment. -/
def Database.AdmitsBatch (s : Database) (changes : List ScheduledChangeRow) : Prop :=
  (∀ change ∈ changes, s.Admits change) ∧ (changes.map s.environmentOf).Nodup

instance (s : Database) (changes : List ScheduledChangeRow) : Decidable (s.AdmitsBatch changes) :=
  inferInstanceAs (Decidable (_ ∧ _))

section Environments

variable {s : Database} {changes : List ScheduledChangeRow} {change : ScheduledChangeRow}

/-- Changes of different environments are of different configurations. -/
theorem nodup_configIds (h : (changes.map s.environmentOf).Nodup) :
    (changes.map ScheduledChangeRow.configId).Nodup := by
  have hmap : changes.map s.environmentOf
      = (changes.map ScheduledChangeRow.configId).map (fun id =>
        (s.configs.find? (fun row => row.id = id)).map FlagConfigRow.environmentId) := by
    rw [List.map_map]
    rfl
  rw [hmap] at h
  exact h.of_map _

/-- A change of a new environment is of a new configuration. -/
theorem configId_not_mem (h : s.environmentOf change ∉ changes.map s.environmentOf) :
    change.configId ∉ changes.map ScheduledChangeRow.configId := by
  intro hmem
  obtain ⟨other, hother, hid⟩ := List.mem_map.mp hmem
  refine h (List.mem_map.mpr ⟨other, hother, ?_⟩)
  unfold Database.environmentOf
  rw [hid]

/-- The environment of a change, by the row of its configuration. -/
theorem environmentOf_eq (hs : s.Consistent) {row : FlagConfigRow} (hrow : s.KnowsConfig row)
    (hid : row.id = change.configId) : s.environmentOf change = some row.environmentId := by
  obtain ⟨old, hold, hidentity⟩ := List.mem_map.mp hrow
  have holdId : old.id = change.configId :=
    (congrArg FlagConfigRow.Identity.id hidentity).trans hid
  unfold Database.environmentOf
  rw [find?_eq_some_of_mem hs.keys.configIds hold holdId]
  exact congrArg some (congrArg FlagConfigRow.Identity.environmentId hidentity)

end Environments

/-- **What a batch finds in a committed state.** -/
structure Database.Settled (s : Database) : Prop where
  /-- The constraints hold. -/
  consistent : s.Consistent
  /-- No version is above the current one of its configuration. -/
  versions : ∀ row ∈ s.configs, ∀ version ∈ s.versions, version.configId = row.id →
    version.version ≤ row.currentVersion
  /-- The current version is stored, and can be read back. -/
  current : ∀ row ∈ s.configs, ∃ c, CurrentStored s row c ∧ c.toConfigurationFields.Readable

/-- **Every commit stores what can be read back.** -/
theorem readable_commit {effect : Effect} {locks : List Row} {s : Database}
    (hfits : effect.Fits s locks) (h : ∀ version ∈ s.versions, version.snapshot.Readable) :
    ∀ version ∈ (service.view effect.writes s).versions, version.snapshot.Readable := by
  intro version hversion
  rcases effect.version_origin hfits hversion with hold | ⟨u, hknown, rfl⟩ | ⟨k, -, hknown, rfl⟩
  · exact h version hold
  · exact (buildConfiguration_eq_ok_iff.mp hknown.built).readable
  · exact (buildConfiguration_eq_ok_iff.mp hknown.built).readable

/-- **Every reachable state is settled.** -/
theorem settled_of_run {actions : List (Action Choice Request)} {w : ServiceWorld}
    (hrun : service.run initial actions = some w) : w.committed.Settled := by
  have hhistory := (good_of_run hrun).invariant
  have hreadable : ∀ version ∈ w.committed.versions, version.snapshot.Readable :=
    committed_of_good (fun _ _ _ _ hfits _ h => readable_commit hfits h)
      (World.good_init history_initial) (fun _ h => absurd h List.not_mem_nil) hrun
  refine ⟨hhistory.consistent, fun row hrow version hversion hid =>
    (hhistory.configs row hrow).version_le hversion hid, fun row hrow => ?_⟩
  obtain ⟨c, hc⟩ := (hhistory.configs row hrow).current
  obtain ⟨version, hversion, -, -, hsnapshot⟩ := hc.stored
  exact ⟨c, hc, hsnapshot ▸ hreadable version hversion⟩

/-- Fewer changes leave it so. -/
theorem Database.Settled.changes {s : Database} (h : s.Settled) {changes : List ScheduledChangeRow}
    (hchanges : changes.Sublist s.changes) : ({ s with changes } : Database).Settled := by
  have hs := h.consistent
  refine ⟨⟨{ hs.keys with changeIds := hs.keys.changeIds.sublist (hchanges.map _) },
    { hs.references with changeConfigs := fun row hrow =>
        hs.references.changeConfigs row (hchanges.subset hrow) }⟩, h.versions, fun row hrow => ?_⟩
  obtain ⟨c, hc, hreadable⟩ := h.current row hrow
  exact ⟨c, ⟨hc.stored, hc.describes, hc.priorities, hc.children⟩, hreadable⟩

/-! ## One rule per statement -/

section Rules

variable {α β : Type} {s : Database} {choices : ℕ → Choice} {raised : Prop}
  {post : List Write → ℕ → β → Prop} {writes : List Write} {n : ℕ}

/-- A query finds the first row that matches. -/
theorem alone_select {query : Database → α} {k : α → Tx β}
    (h : (k (query (service.view writes s))).Alone service s choices raised post writes (n + 1)) :
    (select query >>= k).Alone service s choices raised post writes n := by
  show (k _).Alone service s choices raised post (writes ++ []) (n + 1)
  rw [List.append_nil]
  exact h

/-- Or all of them. -/
theorem alone_selectAll {query : Database → List α} {k : List α → Tx β}
    (h : ∀ rows, rows.Perm (query (service.view writes s)) →
      (k rows).Alone service s choices raised post writes (n + 1)) :
    (selectAll query >>= k).Alone service s choices raised post writes n := by
  show (k _).Alone service s choices raised post (writes ++ []) (n + 1)
  rw [List.append_nil]
  exact h _ (arrange_perm _ _)

/-- A choice is the next one. -/
theorem alone_choose {k : Choice → Tx β}
    (h : (k (choices n)).Alone service s choices raised post writes (n + 1)) :
    (choose >>= k).Alone service s choices raised post writes n := by
  show (k _).Alone service s choices raised post (writes ++ []) (n + 1)
  rw [List.append_nil]
  exact h

/-- A statement that writes is added to the others. -/
theorem alone_execute {new : Database → List Write} {returning : Database → α} {k : α → Tx β}
    (h : (k (returning (service.view writes s))).Alone service s choices raised post
      (writes ++ new (service.view writes s)) (n + 1)) :
    (execute new returning >>= k).Alone service s choices raised post writes n :=
  h

/-- A computation returns and is gone on with, or it raises. -/
theorem alone_attempt_bind {x : Except PyError α} {k : α → Tx β}
    (hok : ∀ a, x = .ok a → (k a).Alone service s choices raised post writes n)
    (herror : ∀ e, x = .error e → raised) :
    (Prog.attempt x >>= k).Alone service s choices raised post writes n :=
  (Prog.alone_attempt hok herror).bind

/-- A check is passed, or it raises. -/
theorem alone_raiseIf {condition : Prop} [Decidable condition] {error : PyError}
    {k : Unit → Tx β}
    (hok : ¬ condition → (k ()).Alone service s choices raised post writes n)
    (herror : condition → raised) :
    (Tx.raiseIf condition error >>= k).Alone service s choices raised post writes n := by
  unfold Tx.raiseIf CohortSwitch.raiseIf
  split
  · rename_i hcondition
    exact herror hcondition
  · rename_i hcondition
    exact hok hcondition

/-- The collections of a configuration, as the transaction sees them. -/
theorem alone_loadCollections {row : FlagConfigRow} {flag : FeatureFlagRow}
    {environment : EnvironmentRow} {k : LoadedConfig → Tx β}
    (h : ∀ config n', n ≤ n' → config.row = row → config.flag = flag →
      config.environment = environment → Loads (service.view writes s).children config →
      (k config).Alone service s choices raised post writes n') :
    (loadCollections row flag environment >>= k).Alone service s choices raised post writes n := by
  refine Prog.Alone.bind ?_
  unfold loadCollections
  refine alone_selectAll (fun _ h₁ => alone_selectAll (fun _ h₂ => ?_))
  refine alone_selectAll (fun _ h₃ => alone_selectAll (fun _ h₄ => ?_))
  refine alone_selectAll (fun _ h₅ => alone_selectAll (fun _ h₆ => ?_))
  refine alone_selectAll (fun _ h₇ => ?_)
  refine h _ _ (by omega) rfl rfl rfl (loads_of_selects ?_ h₁ h₂ h₃ h₄ h₅ h₆ h₇)
  simp

/-- Children are deleted in four statements. -/
theorem alone_deleteChildren {configId : UUID} {k : Unit → Tx β}
    (h : (k ()).Alone service s choices raised post
      (writes ++ [.child (.deleteRollouts configId), .child (.deleteStages configId),
        .child (.deleteRules configId), .child (.deleteVariations configId)]) (n + 4)) :
    (deleteChildren configId >>= k).Alone service s choices raised post writes n := by
  refine Prog.Alone.bind ?_
  unfold deleteChildren
  refine alone_execute (alone_execute (alone_execute ?_))
  show (k ()).Alone service s choices raised post (writes ++ _ ++ _ ++ _ ++ _) (n + 4)
  simpa using h

end Rules

/-! ## The session -/

/-- **What is remembered under an id is one of the rows.** -/
def Recalls {α : Type} (key : α → UUID) (remembered rows : List α) : Prop :=
  ∀ id found, remembered.find? (fun row => key row = id) = some found → found ∈ rows

section Recalls

variable {α : Type} {key : α → UUID} {remembered rows rows' : List α}

/-- Nothing is remembered at first. -/
theorem recalls_nil : Recalls key [] rows := fun _ _ h => nomatch h

/-- A row that is remembered now, where all others stay. -/
theorem Recalls.cons (h : Recalls key remembered rows) {row : α} (hrow : row ∈ rows')
    (hothers : ∀ other ∈ rows, key other ≠ key row → other ∈ rows') :
    Recalls key (row :: remembered) rows' := by
  intro id found hfound
  by_cases hid : key row = id
  · rw [List.find?_cons_of_pos (by simp [hid])] at hfound
    cases hfound
    exact hrow
  · rw [List.find?_cons_of_neg (by simp [hid])] at hfound
    have hkey : key found = id := by simpa using List.find?_some hfound
    exact hothers found (h id found hfound) (fun heq => hid (heq ▸ hkey))

/-- What is remembered is what a query finds. -/
theorem Recalls.eq_row (h : Recalls key remembered rows) (hkeys : (rows.map key).Nodup) {row : α}
    (hrow : row ∈ rows) {found : α}
    (hfound : remembered.find? (fun other => key other = key row) = some found) : found = row := by
  have hkey : key found = key row := by simpa using List.find?_some hfound
  exact List.inj_on_of_nodup_map hkeys (h _ _ hfound) hrow hkey

/-- A row is read as it is, remembered or not. -/
theorem Recalls.getD_eq (h : Recalls key remembered rows) (hkeys : (rows.map key).Nodup) {row : α}
    (hrow : row ∈ rows) :
    (remembered.find? (fun other => key other = key row)).getD row = row := by
  cases hfound : remembered.find? (fun other => key other = key row) with
  | none => rfl
  | some found => exact h.eq_row hkeys hrow hfound

end Recalls

/-- The keys of the rows a session remembers. -/
structure Database.RowKeys (v : Database) : Prop where
  /-- Projects have ids of their own. -/
  projectIds : (v.projects.map ProjectRow.id).Nodup
  /-- So do environments. -/
  environmentIds : (v.environments.map EnvironmentRow.id).Nodup
  /-- So do flags. -/
  flagIds : (v.flags.map FeatureFlagRow.id).Nodup
  /-- So do configurations. -/
  configIds : (v.configs.map FlagConfigRow.id).Nodup
  /-- A flag has one configuration in an environment. -/
  configPairs : (v.configs.map (fun row => (row.flagId, row.environmentId))).Nodup

/-- Writes in place keep them. -/
theorem Database.SameIdentities.rowKeys {s v : Database} (h : s.SameIdentities v)
    (hs : s.Consistent) : v.RowKeys where
  projectIds := h.projects ▸ hs.keys.projectIds
  environmentIds := map_of_identity h.environments EnvironmentRow.Identity.id ▸
    hs.keys.environmentIds
  flagIds := map_of_identity h.flags FeatureFlagRow.Identity.id ▸ hs.keys.flagIds
  configIds := map_of_identity h.configs FlagConfigRow.Identity.id ▸ hs.keys.configIds
  configPairs := map_of_identity h.configs (fun identity =>
    (identity.flagId, identity.environmentId)) ▸ hs.keys.configPairs

/-- **The session remembers rows as the transaction sees them.** -/
structure Session.Recalls (session : Session) (v : Database) : Prop where
  projects : CohortSwitch.Recalls ProjectRow.id session.projects v.projects
  environments : CohortSwitch.Recalls EnvironmentRow.id session.environments v.environments
  flags : CohortSwitch.Recalls FeatureFlagRow.id session.flags v.flags
  configs : CohortSwitch.Recalls FlagConfigRow.id session.configs v.configs

section Reads

variable {β : Type} {s : Database} {choices : ℕ → Choice} {raised : Prop}
  {post : List Write → ℕ → β → Prop} {writes : List Write} {n : ℕ} {session : Session}
  {row : FlagConfigRow} {flag : FeatureFlagRow} {environment : EnvironmentRow}

/-- A configuration is remembered, or found. -/
theorem alone_getConfig (h : session.Recalls (service.view writes s))
    (hkeys : (service.view writes s).RowKeys) (hrow : row ∈ (service.view writes s).configs)
    {k : Option FlagConfigRow → Tx β}
    (hk : ∀ n', n ≤ n' → (k (some row)).Alone service s choices raised post writes n') :
    (session.getConfig row.id >>= k).Alone service s choices raised post writes n := by
  unfold Session.getConfig
  cases hfound : session.configs.find? (fun other => other.id = row.id) with
  | some found =>
    rw [h.configs.eq_row hkeys.configIds hrow hfound]
    exact hk n le_rfl
  | none =>
    refine alone_select ?_
    rw [find?_eq_some_of_mem hkeys.configIds hrow rfl]
    exact hk (n + 1) (Nat.le_succ n)

/-- So is a project. -/
theorem alone_getProject (h : session.Recalls (service.view writes s))
    (hkeys : (service.view writes s).RowKeys) {project : ProjectRow}
    (hproject : project ∈ (service.view writes s).projects) {k : Option ProjectRow → Tx β}
    (hk : ∀ n', n ≤ n' → (k (some project)).Alone service s choices raised post writes n') :
    (session.getProject project.id >>= k).Alone service s choices raised post writes n := by
  unfold Session.getProject
  cases hfound : session.projects.find? (fun other => other.id = project.id) with
  | some found =>
    rw [h.projects.eq_row hkeys.projectIds hproject hfound]
    exact hk n le_rfl
  | none =>
    refine alone_select ?_
    rw [find?_eq_some_of_mem hkeys.projectIds hproject rfl]
    exact hk (n + 1) (Nat.le_succ n)

/-- The main SELECT finds the rows of a configuration. -/
theorem Database.RowKeys.configOfFlag {v : Database} (hkeys : v.RowKeys) (hrow : row ∈ v.configs)
    (hflag : flag ∈ v.flags) (hflagId : flag.id = row.flagId)
    (henvironment : environment ∈ v.environments)
    (henvironmentId : environment.id = row.environmentId) :
    v.configOfFlag row.flagId row.environmentId = some (row, flag, environment) := by
  have hfind : v.configs.find? (fun other =>
      other.flagId = row.flagId ∧ other.environmentId = row.environmentId) = some row := by
    have hpair := find?_eq_some_of_mem hkeys.configPairs hrow rfl
    simpa only [Prod.mk.injEq] using hpair
  refine Option.bind_eq_some_iff.mpr ⟨row, hfind, joined_eq_some.mpr ⟨rfl, ?_, ?_⟩⟩
  · exact find?_eq_some_of_mem hkeys.flagIds hflag hflagId
  · exact find?_eq_some_of_mem hkeys.environmentIds henvironment henvironmentId

/-- **A session loads what is there**, the collections unless it holds them. -/
theorem alone_loadConfig (h : session.Recalls (service.view writes s))
    (hkeys : (service.view writes s).RowKeys) (hrow : row ∈ (service.view writes s).configs)
    (hflag : flag ∈ (service.view writes s).flags) (hflagId : flag.id = row.flagId)
    (henvironment : environment ∈ (service.view writes s).environments)
    (henvironmentId : environment.id = row.environmentId) {k : LoadedConfig → Tx β}
    (harchived : flag.archivedAt.isSome = true → raised)
    (hk : ∀ config n', n ≤ n' → config.row = row → config.flag = flag →
      config.environment = environment → flag.archivedAt = none →
      (session.collections.find? (fun item => item.row.id = row.id) = none →
        Loads (service.view writes s).children config) →
      (k config).Alone service s choices raised post writes n') :
    (session.loadConfig row.flagId row.environmentId >>= k).Alone service s choices raised post
      writes n := by
  refine Prog.Alone.bind ?_
  unfold Session.loadConfig
  refine alone_select ?_
  rw [hkeys.configOfFlag hrow hflag hflagId henvironment henvironmentId]
  dsimp only
  -- what the session remembers of the rows is what was found
  rw [h.configs.getD_eq hkeys.configIds hrow, h.flags.getD_eq hkeys.flagIds hflag,
    h.environments.getD_eq hkeys.environmentIds henvironment]
  -- the flag is looked at once the collections are there
  have hchecked : ∀ config n', n ≤ n' → config.row = row → config.flag = flag →
      config.environment = environment →
      (session.collections.find? (fun item => item.row.id = row.id) = none →
        Loads (service.view writes s).children config) →
      (if config.flag.archivedAt.isSome then .raise flagNotFound
        else pure config : Tx LoadedConfig).Alone service s choices raised
          (fun writes n config => (k config).Alone service s choices raised post writes n)
          writes n' := by
    intro config n' hn hr hf he hloads
    split
    · rename_i hsome
      exact harchived (hf ▸ hsome)
    · rename_i hnone
      refine hk config n' hn hr hf he ?_ hloads
      rw [← hf]
      simpa using hnone
  unfold Session.loadCollections
  cases hfound : session.collections.find? (fun item => item.row.id = row.id) with
  | some loaded =>
    refine hchecked _ (n + 1) (Nat.le_succ n) rfl rfl rfl (fun hnone => ?_)
    rw [hfound] at hnone
    cases hnone
  | none =>
    refine alone_loadCollections (fun config n' hn hr hf he hloads => ?_)
    exact hchecked config n' (by omega) hr hf he (fun _ => hloads)

/-- **An update of a row that is there and has the expected version** goes through where the
new configuration can be built. -/
theorem alone_updateFlag (hkeys : (service.view writes s).RowKeys)
    (hrow : row ∈ (service.view writes s).configs) (hflagId : row.flagId = flag.id)
    (henvironmentId : row.environmentId = environment.id) (harchived : flag.archivedAt = none)
    {project : ProjectRow} {payload : FlagUpdate}
    (hversion : row.currentVersion = payload.expectedVersion)
    {actorUserId actorApiKeyId : Option UUID} {requestId : Option String} {action : String}
    {sourceVersion : Option ℕ} {k : FlagResponse × List Write → Tx β}
    (herror : ∀ e, buildConfiguration project.id environment flag payload.toFlagContent
      (payload.expectedVersion + 1) row.salt = .error e → raised)
    (hk : ∀ compiled result, buildConfiguration project.id environment flag payload.toFlagContent
      (payload.expectedVersion + 1) row.salt = .ok compiled →
      let u : Update := ⟨row.id, row.salt, flag, environment, project, payload, compiled,
        actorUserId, actorApiKeyId, requestId, action, sourceVersion, choices (n + 6)⟩
      (k (result, u.pending)).Alone service s choices raised post (writes ++ u.statements)
        (n + 8)) :
    (updateFlag (some row) flag environment project payload actorUserId actorApiKeyId requestId
      action sourceVersion >>= k).Alone service s choices raised post writes n := by
  refine Prog.Alone.bind ?_
  unfold updateFlag
  refine alone_select ?_
  have hfind : (service.view writes s).configs.find? (fun other =>
      other.flagId = flag.id ∧ other.environmentId = environment.id) = some row := by
    have hpair := find?_eq_some_of_mem hkeys.configPairs hrow rfl
    simpa only [Prod.mk.injEq, hflagId, henvironmentId] using hpair
  rw [hfind]
  dsimp only
  rw [if_neg (by simp [harchived])]
  refine alone_attempt_bind (fun compiled hbuild => ?_) herror
  have hmatches : (service.view writes s).matchesVersion row.id payload.expectedVersion = true :=
    List.any_eq_true.mpr ⟨row, hrow, by simp [hversion]⟩
  unfold compareAndSwap
  refine alone_execute ?_
  simp only [Option.getD_some, hmatches, if_true]
  refine alone_deleteChildren (alone_choose (alone_execute ?_))
  -- what was built can be shown
  have hbuilt := buildConfiguration_eq_ok_iff.mp hbuild
  obtain ⟨again, hback, -⟩ := hbuilt.readable.readBack hbuilt.belongsTo
  obtain ⟨result, hresult, -⟩ := hback.response { flag with
    name := payload.name.getD flag.name
    description := payload.description.getD flag.description }
  rw [hresult]
  simp only [List.append_assoc, List.cons_append, List.nil_append]
  exact hk compiled result hbuild

end Reads

/-! ## What the statements of rounds leave -/

section Statements

variable {s : Database} {rounds : List Round}

theorem flags_statements :
    (service.view (rounds.flatMap Round.statements) s).flags = s.flags := by
  have hnone : ∀ u : Update, u.statements.filterMap Write.flag? = [] := fun _ => rfl
  rw [view_flags, filterMap_statements, List.flatMap_eq_nil_iff.mpr (fun u _ => hnone u)]
  rfl

theorem children_statements : (service.view (rounds.flatMap Round.statements) s).children
    = clearAll (updatesOf rounds) s.children := by
  have hdeletes : ∀ u : Update, u.statements.filterMap Write.child?
      = [.deleteRollouts u.configId, .deleteStages u.configId, .deleteRules u.configId,
        .deleteVariations u.configId] := fun _ => rfl
  rw [view_children, filterMap_statements]
  simp only [hdeletes]
  rw [List.foldl_flatMap]
  simp only [clear_eq]
  rfl

theorem projects_update (u : Update) (v : Database) :
    (service.view u.statements v).projects = v.projects :=
  rfl

theorem flags_update (u : Update) (v : Database) :
    (service.view u.statements v).flags = v.flags :=
  rfl

theorem environments_update (u : Update) (v : Database) :
    (service.view u.statements v).environments = v.environments.map (fun row =>
      if row.id = u.environment.id then { row with revision := row.revision + 1 } else row) :=
  rfl

theorem configs_update (u : Update) (v : Database) : (service.view u.statements v).configs
    = v.configs.map (fun row => if row.id = u.configId then u.newRow row else row) :=
  rfl

/-- A configuration that no round updates keeps its children. -/
theorem children_of_statements (hs : s.Consistent) {configId : UUID}
    (hnew : configId ∉ (updatesOf rounds).map Update.configId) :
    (service.view (rounds.flatMap Round.statements) s).children.of configId
      = s.children.of configId := by
  rw [children_statements]
  exact (clearAll_spec (updatesOf rounds) (closed_of_references hs.references)
    hs.keys.ruleIds).2.2.2 configId hnew

/-- A configuration that no round updates keeps its row. -/
theorem mem_configs_statements {row : FlagConfigRow}
    (hnew : row.id ∉ (updatesOf rounds).map Update.configId) :
    row ∈ (service.view (rounds.flatMap Round.statements) s).configs ↔ row ∈ s.configs := by
  refine mem_view_configs ?_
  rwa [touchedConfigs_statements]

end Statements

/-! ## A configuration that is as it was committed -/

/-- The variations of a configuration are rows of its table. -/
theorem CurrentStored.mem_keys {s : Database} {row : FlagConfigRow} {c : FlagConfiguration}
    (h : CurrentStored s row c) {name : String} :
    name ∈ c.variations.keys
      ↔ (row.id, name) ∈ s.children.variations.map (fun item => (item.configId, item.key)) := by
  obtain ⟨saved, hstores⟩ := h.children
  have hrows : ∀ item, (item ∈ s.children.variations ∧ item.configId = row.id)
      ↔ item ∈ c.variations.items.map (dbVariation row.id) := by
    intro item
    rw [← hstores.variations.mem_iff, List.mem_filter, decide_eq_true_iff]
  constructor
  · intro hname
    obtain ⟨item, hitem, rfl⟩ := List.mem_map.mp hname
    exact List.mem_map.mpr ⟨dbVariation row.id item,
      ((hrows _).mpr (List.mem_map_of_mem hitem)).1, rfl⟩
  · intro hname
    obtain ⟨item, hitem, heq⟩ := List.mem_map.mp hname
    obtain ⟨hid, rfl⟩ := Prod.mk.inj heq
    obtain ⟨pair, hpair, rfl⟩ := List.mem_map.mp ((hrows item).mp ⟨hitem, hid⟩)
    exact List.mem_map_of_mem hpair

/-- The rows a configuration refers to, in a state with the same identities. -/
theorem exists_joined_of_view {s v : Database} (hs : s.Consistent) (hview : s.SameIdentities v)
    (hflags : v.flags = s.flags) {configId : UUID}
    (hconfig : configId ∈ s.configs.map FlagConfigRow.id) :
    ∃ row ∈ v.configs, row.id = configId ∧ ∃ flag ∈ v.flags, flag.id = row.flagId
      ∧ ∃ environment ∈ v.environments, environment.id = row.environmentId
        ∧ ∃ project ∈ v.projects, project.id = flag.projectId := by
  obtain ⟨old, hold, hid⟩ := List.mem_map.mp hconfig
  obtain ⟨flag, hflag, hflagId⟩ := List.mem_map.mp (hs.references.configFlags old hold)
  obtain ⟨before, hbefore, hbeforeId⟩ :=
    List.mem_map.mp (hs.references.configEnvironments old hold)
  obtain ⟨project, hproject, hprojectId⟩ := List.mem_map.mp (hs.references.flagProjects flag hflag)
  have hconfigs : old.identity ∈ v.configs.map FlagConfigRow.identity := by
    rw [hview.configs]
    exact List.mem_map_of_mem hold
  have henvironments : before.identity ∈ v.environments.map EnvironmentRow.identity := by
    rw [hview.environments]
    exact List.mem_map_of_mem hbefore
  obtain ⟨row, hrow, heq⟩ := List.mem_map.mp hconfigs
  obtain ⟨environment, hin, heq'⟩ := List.mem_map.mp henvironments
  refine ⟨row, hrow, (congrArg FlagConfigRow.Identity.id heq).trans hid, flag, hflags ▸ hflag,
    hflagId.trans (congrArg FlagConfigRow.Identity.flagId heq).symm, environment, hin, ?_, project,
    hview.projects ▸ hproject, hprojectId⟩
  rw [show environment.id = before.id from congrArg EnvironmentRow.Identity.id heq', hbeforeId]
  exact (congrArg FlagConfigRow.Identity.environmentId heq).symm

/-- The flag of a change that can be applied is not archived. -/
theorem Database.Admits.archivedAt {s : Database} {change : ScheduledChangeRow}
    (h : s.Admits change) (hs : s.Consistent) {row : FlagConfigRow} (hknown : s.KnowsConfig row)
    (hrow : row.id = change.configId) {flag : FeatureFlagRow} (hflag : flag ∈ s.flags)
    (hflagId : flag.id = row.flagId) : flag.archivedAt = none := by
  obtain ⟨⟨other, hother, hid, flag', hflag', hflagId', hnone⟩, -⟩ := h
  have hidentity : other.identity = row.identity :=
    identity_of_id hs (List.mem_map_of_mem hother) hknown (hid.trans hrow.symm)
  have hsame : flag' = flag := by
    refine List.inj_on_of_nodup_map hs.keys.flagIds hflag' hflag ?_
    rw [hflagId', hflagId]
    exact congrArg FlagConfigRow.Identity.flagId hidentity
  rw [← hsame]
  exact hnone

/-- **A configuration is read as it was committed**: as a configuration `d`, which is the
stored one in the order its rows came, and a payload that describes it. -/
structure LoadedConfig.ReadsAs (s : Database) (config : LoadedConfig) (c d : FlagConfiguration)
    (payload : FlagUpdate) : Prop where
  /-- The row is committed. -/
  committed : config.row ∈ s.configs
  /-- Its current version is stored. -/
  current : CurrentStored s config.row c
  /-- What is loaded compiles to `d`. -/
  compiles : compileConfiguration config = .ok d
  /-- Which is the stored one in another order. -/
  rearranged : c.toConfigurationFields.Rearranged Eq List.Perm d.toConfigurationFields
  /-- The payload is read back from `d`. -/
  described :
    updateFromConfiguration d config.row.environmentId config.row.currentVersion = .ok payload
  /-- The salt is the one of the row. -/
  salt : d.salt = config.row.salt
  /-- The payload builds `d`. -/
  built : Built config.flag.projectId config.environment config.flag payload.toFlagContent
    d.configVersion d.salt d.toConfigurationFields

/-- **A configuration whose children are untouched is read so.** -/
theorem exists_readsAs {s v : Database} (hs : s.Settled) (hview : s.SameIdentities v)
    (hflags : v.flags = s.flags) {config : LoadedConfig} (hrow : config.row ∈ s.configs)
    (hflag : config.flag ∈ v.flags) (hflagId : config.flag.id = config.row.flagId)
    (hin : config.environment ∈ v.environments)
    (henvironmentId : config.environment.id = config.row.environmentId)
    (hloads : Loads v.children config)
    (hof : v.children.of config.row.id = s.children.of config.row.id) :
    ∃ c d payload, config.ReadsAs s c d payload := by
  obtain ⟨c, hc, hreadable⟩ := hs.current config.row hrow
  obtain ⟨saved, hstores⟩ := hc.children
  obtain ⟨environment, he, hidentity⟩ := List.mem_map.mp (hview.knowsEnvironment hin)
  have hid : environment.id = config.environment.id :=
    congrArg EnvironmentRow.Identity.id hidentity
  have hdescribes : Describes config.row config.flag config.environment c.toConfigurationFields :=
    (hc.describes _ (hflags ▸ hflag) hflagId environment he
      (hid.trans henvironmentId)).of_identity rfl hidentity.symm
  obtain ⟨d, hd, hcd⟩ := compile_of_represents (fun _ _ h => h)
    (represents_of_loads (hstores.of_eq hof) hloads hdescribes)
  have hbelongs : d.toConfigurationFields.BelongsTo config.flag.projectId config.environment
      config.flag := by
    refine ⟨hcd.projectId.symm.trans hdescribes.projectId, ?_,
      hcd.environmentKey.symm.trans hdescribes.environmentKey, ?_,
      hcd.flagKey.symm.trans hdescribes.flagKey, hcd.flagType.symm.trans hdescribes.flagType⟩
    · rw [← hcd.environmentId, hdescribes.environmentId, henvironmentId]
    · rw [← hcd.flagId, hdescribes.flagId, hflagId]
  have hversion : d.configVersion = config.row.currentVersion :=
    hcd.configVersion.symm.trans hdescribes.configVersion
  obtain ⟨again, hback, hbuilt⟩ := (hreadable.rearranged (fun _ _ h => h) hcd).readBack hbelongs
  obtain ⟨payload, hpayload, rfl⟩ :=
    hback.update config.row.environmentId (hversion ▸ d.valid.version)
  exact ⟨c, d, payload, hrow, hc, hd, hcd, hpayload, hcd.salt.symm.trans hdescribes.salt, hbuilt⟩

section ReadsAs

variable {s : Database} {config : LoadedConfig} {c d : FlagConfiguration} {payload : FlagUpdate}
  {change : ScheduledChangeRow} {m : Meaning}

/-- The variations it can serve are the stored ones. -/
theorem LoadedConfig.ReadsAs.mem_keys (h : config.ReadsAs s c d payload)
    (hid : config.row.id = change.configId) {name : String} :
    name ∈ d.variations.keys ↔ (change.configId, name)
      ∈ s.children.variations.map (fun item => (item.configId, item.key)) := by
  rw [← hid, ← h.current.mem_keys]
  exact h.rearranged.keys_perm.mem_iff.symm

/-- A change that can be applied is built. -/
theorem LoadedConfig.ReadsAs.exists_build (h : config.ReadsAs s c d payload)
    (hid : config.row.id = change.configId) (hadmits : s.Admits change)
    (hm : change.meaning = some m) :
    ∃ built, buildConfiguration config.flag.projectId config.environment config.flag
      (m.write payload).toFlagContent ((m.write payload).expectedVersion + 1) config.row.salt
        = .ok built := by
  obtain ⟨m', hm', hnames⟩ := hadmits.2
  cases hm.symm.trans hm'
  obtain ⟨built, hbuild, -⟩ := exists_build_write m h.built
    (Nat.le_add_left 1 (m.write payload).expectedVersion)
    (fun name hname => (h.mem_keys hid).mpr (hnames name hname))
  exact ⟨built, h.salt ▸ hbuild⟩

/-- **A change that is built could be applied**, and what is built is what it means. -/
theorem LoadedConfig.ReadsAs.of_build (h : config.ReadsAs s c d payload)
    (hid : config.row.id = change.configId) {built : FlagConfiguration}
    (hversion : config.row.currentVersion = (m.write payload).expectedVersion)
    (hbuild : buildConfiguration config.flag.projectId config.environment config.flag
      (m.write payload).toFlagContent ((m.write payload).expectedVersion + 1) config.row.salt
        = .ok built) :
    (∀ name ∈ m.names, (change.configId, name)
        ∈ s.children.variations.map (fun item => (item.configId, item.key)))
      ∧ (m.result c.toConfigurationFields (config.row.currentVersion + 1)).Rearranged Eq List.Perm
        built.toConfigurationFields := by
  rw [← h.salt] at hbuild
  obtain ⟨hnames, hfields⟩ := build_write_eq_ok m h.built
    (Nat.le_add_left 1 (m.write payload).expectedVersion) hbuild
  refine ⟨fun name hname => (h.mem_keys hid).mp (hnames name hname), ?_⟩
  rw [hfields, ← hversion]
  exact m.rearranged_result h.rearranged _

end ReadsAs

/-! ## One round -/

/-- **An update applies a change**: what it builds is what the change means for the current
configuration. -/
structure Update.Applies (s : Database) (change : ScheduledChangeRow) (u : Update) : Prop where
  /-- Its rows are there. -/
  known : u.Known s
  /-- Nobody has updated the configuration. -/
  current : u.Current s
  /-- And it becomes what the change means. -/
  meant : ∃ row ∈ s.configs, row.id = change.configId ∧ ∃ c, CurrentStored s row c
    ∧ ∃ m, change.meaning = some m
      ∧ (m.result c.toConfigurationFields (row.currentVersion + 1)).Rearranged Eq List.Perm
        u.compiled.toConfigurationFields

/-- **The invariant of the loop**: the changes so far were of different environments, which are
those the session remembers, and each could be applied and was. -/
structure Batch.Follows (s : Database) (choices : ℕ → Choice) (changes : List ScheduledChangeRow)
    (batch : Batch) (rounds : List Round) (writes : List Write) (n : ℕ) : Prop where
  /-- What was written are the statements of the rounds. -/
  writes_eq : writes = rounds.flatMap Round.statements
  /-- What the session has pending, the rounds have. -/
  pending_eq : batch.pending = rounds.flatMap Round.pending
  /-- The session remembers rows as the transaction sees them. -/
  recalls : batch.session.Recalls (service.view writes s)
  /-- Collections are held only of configurations that were updated. -/
  collections : ∀ item ∈ batch.session.collections,
    item.row.id ∈ (updatesOf rounds).map Update.configId
  /-- There is one round for each change, and it marks it. -/
  marks : List.Forall₂ (fun change round => ∃ u t, round = ⟨some u, some (change.id, t)⟩
    ∧ u.configId = change.configId) changes rounds
  /-- The rounds were made with choices of their own. -/
  finals : ∃ used : List ℕ, used.Nodup ∧ (∀ j ∈ used, j < n)
    ∧ (updatesOf rounds).map Update.final = used.map choices
  /-- The environments that are remembered are those of the changes. -/
  environments : ∀ id, id ∈ batch.session.environments.map EnvironmentRow.id
    ↔ some id ∈ changes.map s.environmentOf
  /-- No two changes are of one environment. -/
  distinct : (changes.map s.environmentOf).Nodup
  /-- Each change could be applied, and was. -/
  applies : List.Forall₂ (fun change round => s.Admits change
    ∧ ∀ u ∈ round.update, u.Applies s change) changes rounds

section Loop

variable {s : Database} {choices : ℕ → Choice} {changes : List ScheduledChangeRow}
  {batch : Batch} {rounds : List Round} {writes : List Write} {n : ℕ}

/-- The rows keep their keys. -/
theorem Batch.Follows.rowKeys (h : batch.Follows s choices changes rounds writes n)
    (hs : s.Consistent) : (service.view writes s).RowKeys := by
  rw [h.writes_eq]
  exact (sameIdentities_view (isInPlace_statements rounds) s).rowKeys hs

/-- The updates are of the configurations of the changes. -/
theorem Batch.Follows.configIds (h : batch.Follows s choices changes rounds writes n) :
    (updatesOf rounds).map Update.configId = changes.map ScheduledChangeRow.configId := by
  have hmarks := h.marks
  clear h
  unfold updatesOf
  induction hmarks with
  | nil => rfl
  | cons hround _ ih =>
    obtain ⟨u, t, rfl, hconfigId⟩ := hround
    show u.configId :: _ = _
    rw [hconfigId, ih]
    rfl

/-- **A round that updates keeps the invariant.** -/
theorem Batch.Follows.update {u : Update} {config : LoadedConfig} {project : ProjectRow}
    {change : ScheduledChangeRow} {j n' : ℕ} (h : batch.Follows s choices changes rounds writes n)
    (hbefore : n ≤ j) (hafter : j < n') (hfinal : u.final = choices j)
    (hconfigId : u.configId = change.configId) (hrow : config.row ∈ (service.view writes s).configs)
    (hrowId : config.row.id = u.configId)
    (hflag : config.flag ∈ (service.view writes s).flags)
    (hin : config.environment ∈ (service.view writes s).environments)
    (henvironment : u.environment = config.environment)
    (hproject : project ∈ (service.view writes s).projects)
    (hplace : s.environmentOf change = some config.environment.id)
    (hnew : s.environmentOf change ∉ changes.map s.environmentOf)
    (hadmits : s.Admits change) (happlies : u.Applies s change)
    (t : Instant) (responses : List FlagResponse) (notifications : List Notification) :
    Batch.Follows s choices (changes ++ [change]) {
        session := batch.session.remember config project u.payload
        pending := batch.pending ++ u.pending
          ++ [.environment (.setRevision config.environment.id (config.environment.revision + 1)),
            .change (.setAppliedAt change.id t)]
        responses, notifications } (rounds ++ [⟨some u, some (change.id, t)⟩])
      (writes ++ u.statements) n' := by
  have hupdates : updatesOf (rounds ++ [⟨some u, some (change.id, t)⟩]) = updatesOf rounds ++ [u] :=
    updatesOf_append _ _
  have hview : service.view (writes ++ u.statements) s
      = service.view u.statements (service.view writes s) := List.foldl_append
  refine ⟨?_, ?_, ?_, ?_, ?_, ?_, ?_, ?_, ?_⟩
  · rw [List.flatMap_append, ← h.writes_eq]
    simp [Round.statements]
  · rw [List.flatMap_append, ← h.pending_eq]
    simp [Round.pending, henvironment]
  · -- the session remembers the rows as the statements leave them
    have hrecalls := h.recalls
    rw [hview]
    generalize service.view writes s = v at hrecalls hrow hflag hin hproject
    refine ⟨?_, ?_, ?_, ?_⟩
    · rw [projects_update]
      exact hrecalls.projects.cons hproject (fun _ hother _ => hother)
    · rw [environments_update, henvironment]
      refine hrecalls.environments.cons (List.mem_map.mpr ⟨_, hin, if_pos rfl⟩) ?_
      exact fun other hother hne => List.mem_map.mpr ⟨other, hother, if_neg hne⟩
    · rw [flags_update]
      exact hrecalls.flags.cons hflag (fun _ hother _ => hother)
    · rw [configs_update, ← hrowId]
      refine hrecalls.configs.cons (List.mem_map.mpr ⟨_, hrow, if_pos rfl⟩) ?_
      exact fun other hother hne => List.mem_map.mpr ⟨other, hother, if_neg hne⟩
  · rw [hupdates, List.map_append]
    refine List.forall_mem_cons.mpr ⟨?_, fun item hitem =>
      List.mem_append_left _ (h.collections item hitem)⟩
    exact List.mem_append_right _ (List.mem_singleton.mpr hrowId)
  · exact List.rel_append h.marks (.cons ⟨u, t, rfl, hconfigId⟩ .nil)
  · obtain ⟨used, hnodup, hused, hfinals⟩ := h.finals
    refine ⟨used ++ [j], ?_, ?_, ?_⟩
    · refine List.nodup_append.mpr ⟨hnodup, List.nodup_singleton j, ?_⟩
      intro i hi i' hi'
      rw [List.mem_singleton.mp hi']
      exact Nat.ne_of_lt ((hused i hi).trans_le hbefore)
    · refine List.forall_mem_append.mpr ⟨fun i hi => ?_, List.forall_mem_singleton.mpr hafter⟩
      exact (hused i hi).trans (hbefore.trans_lt hafter)
    · rw [hupdates, List.map_append, List.map_append, hfinals, List.map_singleton, hfinal]
      rfl
  · intro id
    show id ∈ config.environment.id :: batch.session.environments.map EnvironmentRow.id ↔ _
    rw [List.mem_cons, h.environments, List.map_append, List.mem_append, List.map_singleton,
      List.mem_singleton, hplace, Option.some.injEq, or_comm]
  · rw [List.map_append, List.map_singleton]
    exact List.nodup_append.mpr ⟨h.distinct, List.nodup_singleton _, fun _ hmem _ hmem' heq =>
      hnew (List.mem_singleton.mp hmem' ▸ heq ▸ hmem)⟩
  · exact List.rel_append h.applies
      (.cons ⟨hadmits, fun v hv => Option.some.inj hv ▸ happlies⟩ .nil)

/-- **One round of the loop**: it raises if an earlier change was of its environment or the
change cannot be applied, and keeps the invariant where it does not raise. -/
theorem Batch.Follows.alone_applyChange (hs : s.Settled)
    (h : batch.Follows s choices changes rounds writes n) {change : ScheduledChangeRow}
    (hconfig : change.configId ∈ s.configs.map FlagConfigRow.id) :
    (applyChange batch change).Alone service s choices
      (s.environmentOf change ∉ changes.map s.environmentOf → ¬ s.Admits change)
      (fun writes' n' batch' => ∃ round,
        batch'.Follows s choices (changes ++ [change]) (rounds ++ [round]) writes' n')
      writes n := by
  have hconsistent := hs.consistent
  have hkeys := h.rowKeys hconsistent
  have hview : s.SameIdentities (service.view writes s) := by
    rw [h.writes_eq]
    exact sameIdentities_view (isInPlace_statements rounds) s
  have hflags : (service.view writes s).flags = s.flags := by
    rw [h.writes_eq]
    exact flags_statements
  obtain ⟨row, hrow, hrowId, flag, hflag, hflagId, environment, hin, henvironmentId, project,
    hproject, hprojectId⟩ := exists_joined_of_view hconsistent hview hflags hconfig
  unfold applyChange
  rw [show change.configId = row.id from hrowId.symm]
  refine alone_getConfig h.recalls hkeys hrow (fun n₁ hn₁ => ?_)
  -- the session now remembers the row of the configuration
  have hbatch : Batch.Follows s choices changes { batch with session :=
      { batch.session with configs := row :: batch.session.configs } } rounds writes n :=
    { h with recalls := { h.recalls with
        configs := h.recalls.configs.cons hrow (fun _ hother _ => hother) } }
  have hrecalls := hbatch.recalls
  dsimp only
  refine alone_loadConfig hrecalls hkeys hrow hflag hflagId hin henvironmentId ?_ ?_
  · intro harchived _ hadmits
    rw [hadmits.archivedAt hconsistent (hview.knowsConfig hrow) hrowId (hflags ▸ hflag) hflagId]
      at harchived
    cases harchived
  intro config n₂ hn₂ hcrow hcflag hcenvironment hnone hloads
  subst hcrow hcflag hcenvironment
  rw [← hprojectId]
  refine alone_getProject hrecalls hkeys hproject (fun n₃ hn₃ => ?_)
  dsimp only
  -- a configuration that no round has updated is read as it was committed
  have hfirst : s.environmentOf change ∉ changes.map s.environmentOf →
      ∃ c d payload, config.ReadsAs s c d payload := by
    intro hother
    have hnew := configId_not_mem hother
    rw [← hrowId, ← h.configIds] at hnew
    have hcommitted : config.row ∈ s.configs := by
      rw [h.writes_eq] at hrow
      exact (mem_configs_statements hnew).mp hrow
    refine exists_readsAs hs hview hflags hcommitted hflag hflagId hin henvironmentId
      (hloads (List.find?_eq_none.mpr (fun item hitem heq => ?_))) ?_
    · exact hnew (of_decide_eq_true heq ▸ h.collections item hitem)
    · rw [h.writes_eq]
      exact children_of_statements hconsistent hnew
  refine alone_attempt_bind (fun compiled hcompiled => ?_) (fun e herror hnew => ?_)
  case refine_2 =>
    obtain ⟨c, d, payload, hreads⟩ := hfirst hnew
    rw [hreads.compiles] at herror
    cases herror
  refine alone_attempt_bind (fun current hcurrent => ?_) (fun e herror hnew => ?_)
  case refine_2 =>
    obtain ⟨c, d, payload, hreads⟩ := hfirst hnew
    cases hcompiled.symm.trans hreads.compiles
    rw [hreads.described] at herror
    cases herror
  refine alone_attempt_bind (fun applied happlied => ?_) (fun e herror hnew hadmits => ?_)
  case refine_2 =>
    obtain ⟨m, hm, -⟩ := hadmits.2
    obtain ⟨action, event, happlied⟩ := applyPayload_of_meaning current hm
    rw [happlied] at herror
    cases herror
  obtain ⟨payload, action, event⟩ := applied
  obtain ⟨m, hm, rfl⟩ := meaning_of_applyPayload happlied
  have hversion : config.row.currentVersion = (m.write current).expectedVersion := by
    rw [applyPayload_expectedVersion happlied, updateFromConfiguration_expectedVersion hcurrent]
  have hcommitted : s.environmentOf change ∉ changes.map s.environmentOf →
      ∃ c d, config.ReadsAs s c d current := by
    intro hnew
    obtain ⟨c, d, payload, hreads⟩ := hfirst hnew
    cases hcompiled.symm.trans hreads.compiles
    cases hcurrent.symm.trans hreads.described
    exact ⟨c, _, hreads⟩
  have hplace : s.environmentOf change = some config.environment.id := by
    rw [environmentOf_eq hconsistent (hview.knowsConfig hrow) hrowId, henvironmentId]
  refine alone_updateFlag hkeys hrow hflagId.symm henvironmentId.symm hnone hversion
    (fun e herror hnew hadmits => ?_) (fun built result hbuild =>
      alone_raiseIf (fun hother => alone_choose ?_) (fun hagain hnew => ?_))
  · obtain ⟨c, d, hreads⟩ := hcommitted hnew
    obtain ⟨built, hbuild⟩ := hreads.exists_build hrowId hadmits hm
    rw [← hprojectId, herror] at hbuild
    cases hbuild
  · have hnew : s.environmentOf change ∉ changes.map s.environmentOf := by
      rw [hplace, ← h.environments]
      exact hother
    obtain ⟨c, d, hreads⟩ := hcommitted hnew
    obtain ⟨hnames, hmeant⟩ := hreads.of_build hrowId hversion (hprojectId ▸ hbuild)
    refine ⟨_, Batch.Follows.update (u := ⟨config.row.id, config.row.salt, config.flag,
      config.environment, project, m.write current, built, change.createdById, none, none, action,
      none, choices (n₃ + 6)⟩) hbatch (by omega) ?_ rfl hrowId hrow rfl hflag hin rfl hproject
      hplace hnew ?_ ?_ _ _ _⟩
    · omega
    · exact ⟨⟨config.row, hreads.committed, hrowId, config.flag, hflags ▸ hflag, hflagId, hnone⟩,
        m, hm, hnames⟩
    refine ⟨⟨?_, hview.knowsFlag hflag, hview.knowsEnvironment hin, hview.projects ▸ hproject,
        hprojectId.symm, hbuild⟩, ⟨config.row, hreads.committed, rfl, hversion⟩,
      config.row, hreads.committed, hrowId, c, hreads.current, m, hm, hmeant⟩
    show FlagConfigRow.Identity.mk config.row.id config.flag.id config.environment.id
      config.row.salt ∈ _
    rw [hflagId, henvironmentId]
    exact List.mem_map_of_mem hreads.committed
  · rw [hplace, ← h.environments] at hnew
    exact absurd hagain hnew

/-- **The loop** raises unless the changes can be applied as a batch, and keeps the invariant
where it does not. -/
theorem Batch.Follows.alone_applyChanges (hs : s.Settled) {rest : List ScheduledChangeRow}
    (hconfigs : ∀ change ∈ rest, change.configId ∈ s.configs.map FlagConfigRow.id)
    (h : batch.Follows s choices changes rounds writes n) :
    (applyChanges batch rest).Alone service s choices (¬ s.AdmitsBatch (changes ++ rest))
      (fun writes' n' batch' => ∃ rounds',
        batch'.Follows s choices (changes ++ rest) rounds' writes' n') writes n := by
  induction rest generalizing batch changes rounds writes n with
  | nil =>
    rw [List.append_nil]
    exact ⟨rounds, h⟩
  | cons change rest ih =>
    obtain ⟨hconfig, hconfigs⟩ := List.forall_mem_cons.mp hconfigs
    unfold applyChanges
    refine Prog.Alone.bind ((h.alone_applyChange hs hconfig).mono ?_ ?_)
    · rintro hraised ⟨hadmits, hnodup⟩
      rw [List.map_append, List.nodup_append] at hnodup
      refine hraised (fun hmem => ?_) (hadmits change (List.mem_append_right _ List.mem_cons_self))
      exact hnodup.2.2 _ hmem _ List.mem_cons_self rfl
    · rintro writes' n' next ⟨round, hnext⟩
      have hrest := ih hconfigs hnext
      rwa [List.append_assoc] at hrest

/-- The changes of the rounds that were made can be applied as a batch. -/
theorem Batch.Follows.admitsBatch (h : batch.Follows s choices changes rounds writes n) :
    s.AdmitsBatch changes := by
  refine ⟨fun change hchange => ?_, h.distinct⟩
  obtain ⟨round, -, hadmits, -⟩ := (PermBy.of_forall₂ h.applies.flip).exists_left hchange
  exact hadmits

/-- The batch before its first round. -/
theorem Batch.follows_empty (s : Database) (choices : ℕ → Choice) (n : ℕ) :
    Batch.Follows s choices [] ⟨.empty, [], [], []⟩ [] [] n :=
  ⟨rfl, rfl, ⟨recalls_nil, recalls_nil, recalls_nil, recalls_nil⟩,
    fun _ h => absurd h List.not_mem_nil, .nil,
    ⟨[], .nil, fun _ h => absurd h List.not_mem_nil, rfl⟩,
    fun _ => iff_of_false List.not_mem_nil List.not_mem_nil, .nil, .nil⟩

end Loop

/-- **The scheduler by itself**: it raises unless it can apply all changes it took, and writes
their rounds where it does not. -/
theorem alone_applyDueChanges {s : Database} (hs : s.Settled) (choices : ℕ → Choice) :
    applyDueChanges.Alone service s choices
      (¬ s.AdmitsBatch (dueChanges ⟨s, [], choices 0⟩))
      (fun writes _ _ => ∃ batch rounds n,
        Batch.Follows s choices (dueChanges ⟨s, [], choices 0⟩) batch rounds
          (rounds.flatMap Round.statements) n
        ∧ writes = roundWrites rounds) [] 0 := by
  have hconfigs : ∀ change ∈ dueChanges ⟨s, [], choices 0⟩,
      change.configId ∈ s.configs.map FlagConfigRow.id := fun change hchange =>
    hs.consistent.references.changeConfigs change (mem_dueChanges.1 change hchange).1
  show Prog.Alone service s choices _ _
    (applyChanges ⟨.empty, [], [], []⟩ (dueChanges ⟨s, [], choices 0⟩) >>= _) [] 1
  refine Prog.Alone.bind (((Batch.follows_empty s choices 1).alone_applyChanges hs hconfigs).mono
    (fun hraised => hraised) ?_)
  rintro writes n batch ⟨rounds, hfollows⟩
  refine alone_execute ⟨batch, rounds, n, hfollows.writes_eq ▸ hfollows, ?_⟩
  rw [hfollows.writes_eq, hfollows.pending_eq]
  rfl

end CohortSwitch
