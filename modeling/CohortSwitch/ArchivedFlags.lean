import CohortSwitch.AtomicRead
import CohortSwitch.ScheduleOrder

/-!
# Archived flags

Archiving marks the row of a flag, and nothing but that row. Whoever writes a
version of the flag looks at the row once, in its first statement or, for the
scheduler, in the round of a change, without locking it; the conditional update
that comes later is on the row of a configuration, which archiving leaves
alone. So a write that has looked before the flag is archived may commit after
it (`archiving_overtaken`).

What has not begun when the flag is archived finds the mark and raises
(`ensuresFrom_archived`). Where no write of the flag is under way, or those that
are do not commit any more (`NotOvertaken`), archiving is final: the flag keeps
its versions, its configurations and what is scheduled for it
(`archiving_final`).

## The scheduler

A worker takes changes of several flags, and the mark matters only for those of the
archived one. The postcondition of a batch therefore speaks of the changes it has
locked: if the flag was archived before the worker began, none of these is of it
(`ensuresFrom_applyDueChanges`). In the loop this is carried by the session, which
does not remember a flag it has not loaded, so the first round that needs the flag
finds the mark.

## Commits

That a transaction is no write of the flag says something about the rows it writes
only together with the effect its commit has (`Concludes`): an update of a
configuration belongs to the flag the endpoint names, or to a change the worker
holds. `SinceArchived` carries both through a run.
-/

namespace CohortSwitch

/-! ## What belongs to a flag -/

/-- The flag is archived. -/
def Database.FlagArchived (s : Database) (flagId : UUID) : Prop :=
  ∃ flag ∈ s.flags, flag.id = flagId ∧ flag.archivedAt.isSome = true

/-- The configurations of a flag. -/
def Database.configsOf (s : Database) (flagId : UUID) : List FlagConfigRow :=
  s.configs.filter (fun row => row.flagId = flagId)

/-- The configuration is one of the flag. -/
def Database.ConfigOf (s : Database) (flagId configId : UUID) : Prop :=
  configId ∈ (s.configsOf flagId).map FlagConfigRow.id

instance (s : Database) (flagId configId : UUID) : Decidable (s.ConfigOf flagId configId) :=
  inferInstanceAs (Decidable (configId ∈ _))

/-- **The versions of a flag.** -/
def Database.versionsOf (s : Database) (flagId : UUID) : List FlagVersionRow :=
  s.versions.filter (fun row => s.ConfigOf flagId row.configId)

/-- The flag an endpoint replaces the configuration of, adds a rule to or rolls back. -/
def Request.flagWritten? : Request → Option UUID
  | .replaceFlagConfiguration _ _ flagId _ | .addTargetingRule _ _ flagId _
  | .rollbackFeatureFlag _ _ flagId _ _ => some flagId
  | _ => none

/-- The flag an endpoint archives. -/
def Request.archived? : Request → Option UUID
  | .archiveFlag _ _ flagId => some flagId
  | _ => none

/-- **The transaction is no write of the flag**: no endpoint that writes it, and no
worker that holds a change of it. -/
structure Spares (flagId : UUID) (request : Request) (locks : List Row) (s : Database) : Prop where
  /-- No endpoint that writes the flag. -/
  request : request.flagWritten? ≠ some flagId
  /-- The changes it holds are of other flags. -/
  changes : ∀ id, .change id ∈ locks →
    ∃ change ∈ s.changes, change.id = id ∧ ¬ s.ConfigOf flagId change.configId

/-- **What a transaction ensures that begins when the flag is archived**: it commits only
if it is no write of the flag. -/
structure Heeds (flagId : UUID) (request : Request) (_writes : List Write) (locks : List Row)
    (s : Database) (_outcome : Outcome) : Prop where
  /-- No endpoint that writes the flag. -/
  request : request.flagWritten? ≠ some flagId
  /-- Its changes are of other flags, and the flag is still archived. -/
  changes : ∀ id, .change id ∈ locks → s.FlagArchived flagId
    ∧ ∃ change ∈ s.changes, change.id = id ∧ ¬ s.ConfigOf flagId change.configId

/-- **All of a flag stays as it is.** -/
structure Database.KeepsFlag (flagId : UUID) (s s' : Database) : Prop where
  /-- The rows of its configurations. -/
  configs : s'.configsOf flagId = s.configsOf flagId
  /-- Its versions. -/
  versions : s'.versionsOf flagId = s.versionsOf flagId
  /-- The variations, the rules and what belongs to them. -/
  children : ∀ row ∈ s.configsOf flagId, s'.children.of row.id = s.children.of row.id
  /-- What is scheduled for it. -/
  changes : ∀ change ∈ s.changes, s.ConfigOf flagId change.configId → change ∈ s'.changes

section Flag

variable {s s' s'' : Database} {locks : List Row} {flagId configId : UUID}

/-- The request that archives a flag. -/
theorem archived?_eq_some {request : Request} (h : request.archived? = some flagId) :
    ∃ principal requestId, request = .archiveFlag principal requestId flagId := by
  cases request with
  | archiveFlag principal requestId id =>
    cases h
    exact ⟨principal, requestId, rfl⟩
  | _ => simp [Request.archived?] at h

/-- The configurations are those of the rows. -/
theorem configOf_iff : s.ConfigOf flagId configId
    ↔ ∃ row ∈ s.configs, row.flagId = flagId ∧ row.id = configId := by
  unfold Database.ConfigOf Database.configsOf
  simp [and_assoc]

/-- A configuration of the flag stays one. -/
theorem Database.KeepsFlag.configOf (h : s.KeepsFlag flagId s') :
    s'.ConfigOf flagId configId ↔ s.ConfigOf flagId configId := by
  unfold Database.ConfigOf
  rw [h.configs]

theorem Database.KeepsFlag.refl (flagId : UUID) (s : Database) : s.KeepsFlag flagId s :=
  ⟨rfl, rfl, fun _ _ => rfl, fun _ h _ => h⟩

theorem Database.KeepsFlag.trans (h : s.KeepsFlag flagId s') (h' : s'.KeepsFlag flagId s'') :
    s.KeepsFlag flagId s'' where
  configs := h'.configs.trans h.configs
  versions := h'.versions.trans h.versions
  children := fun row hrow =>
    (h'.children row (h.configs.symm ▸ hrow)).trans (h.children row hrow)
  changes := fun change hchange hconfig =>
    h'.changes change (h.changes change hchange hconfig) (h.configOf.mpr hconfig)

/-- A flag stays archived. -/
theorem Database.FlagArchived.evolve (h : s.FlagArchived flagId) (hs : s.Evolves locks s') :
    s'.FlagArchived flagId := by
  obtain ⟨flag, hflag, rfl, harchived⟩ := h
  exact hs.archived flag hflag harchived

/-- The row of an archived flag. -/
theorem Database.FlagArchived.of_id (h : s.FlagArchived flagId) (hs : s.Consistent)
    {flag : FeatureFlagRow} (hflag : flag ∈ s.flags) (hid : flag.id = flagId) :
    flag.archivedAt.isSome = true := by
  obtain ⟨flag', hflag', hid', harchived⟩ := h
  rw [List.inj_on_of_nodup_map hs.keys.flagIds hflag hflag' (hid.trans hid'.symm)]
  exact harchived

/-- A flag that exists gets no configuration. -/
theorem not_configOf_evolve (harchived : s.FlagArchived flagId) (h : ¬ s.ConfigOf flagId configId)
    (hs : s.Evolves locks s') : ¬ s'.ConfigOf flagId configId := by
  intro hconfig
  obtain ⟨row', hrow', hflag', hid'⟩ := configOf_iff.mp hconfig
  obtain ⟨flag, hflag, hid, -⟩ := harchived
  have hknown := hs.created row'.identity (List.mem_map_of_mem hrow') (by
    rw [show row'.identity.flagId = flag.id from hflag'.trans hid.symm]
    exact List.mem_map_of_mem hflag)
  obtain ⟨row, hrow, heq⟩ := List.mem_map.mp hknown
  exact h (configOf_iff.mpr ⟨row, hrow,
    (congrArg FlagConfigRow.Identity.flagId heq).trans hflag',
    (congrArg FlagConfigRow.Identity.id heq).trans hid'⟩)

/-- A configuration that is known belongs to its flag alone. -/
theorem not_configOf_of_known (hs : s.Consistent) {row : FlagConfigRow} (hrow : s.KnowsConfig row)
    (hne : row.flagId ≠ flagId) : ¬ s.ConfigOf flagId row.id := by
  intro hconfig
  obtain ⟨row', hrow', hflag', hid'⟩ := configOf_iff.mp hconfig
  have hsame := identity_of_id hs hrow (List.mem_map_of_mem hrow') hid'.symm
  exact hne ((congrArg FlagConfigRow.Identity.flagId hsame).trans hflag')

end Flag

/-! ## Looking at an archived flag -/

section Raises

variable {writes : List Write} {locks : List Row} {s : Database} {flagId : UUID}

/-- **An update of a flag that was loaded as archived raises.** -/
theorem yields_updateFlag_archived (known : Option FlagConfigRow) {flag : FeatureFlagRow}
    (harchived : flag.archivedAt.isSome = true) (environment : EnvironmentRow)
    (project : ProjectRow) (payload : FlagUpdate) (actorUserId actorApiKeyId : Option UUID)
    (requestId : Option String) (action : String) (sourceVersion : Option ℕ) :
    (updateFlag known flag environment project payload actorUserId actorApiKeyId requestId action
      sourceVersion).Yields (fun _ => False) := by
  unfold updateFlag
  refine (Prog.yields_true _).bind (fun found _ => ?_)
  cases found with
  | none => exact trivial
  | some row =>
    dsimp only
    rw [if_pos harchived]
    exact trivial

/-- A configuration of an archived flag is not loaded. -/
theorem yields_load_archived {flag : FeatureFlagRow} (harchived : flag.archivedAt.isSome = true)
    {m : Tx LoadedConfig} (hm : m.Yields (fun config => config.flag = flag)) :
    (m >>= fun config => if config.flag.archivedAt.isSome then .raise flagNotFound
      else pure config).Yields (fun _ => False) := by
  refine hm.bind (fun config hconfig => ?_)
  rw [hconfig, if_pos harchived]
  exact trivial

/-- **An endpoint that gets the row of an archived flag raises**, if it raises for every
row that is archived. -/
theorem ensuresFrom_getFlag {k : Option FeatureFlagRow → Tx Outcome}
    (h : ∀ found, (∀ flag, found = some flag → flag.archivedAt.isSome = true) →
      (k found).Yields (fun _ => False)) :
    (getFlag flagId >>= k).EnsuresFrom scheduling (fun s => s.FlagArchived flagId)
      (fun _ _ _ _ => False) := by
  rintro s ⟨hs, -⟩ harchived locked choice -
  refine (h _ (fun flag hflag => ?_)).ensures
  obtain ⟨hmem, hid⟩ := mem_and_of_find? (hflag : s.flags.find? _ = some flag)
  exact harchived.of_id hs hmem hid

/-- A replacement raises. -/
theorem ensuresFrom_replaceFlagConfiguration (principal : Principal) (requestId : Option String)
    (payload : FlagUpdate) :
    (replaceFlagConfiguration principal requestId flagId payload).EnsuresFrom scheduling
      (fun s => s.FlagArchived flagId) (fun _ _ _ _ => False) := by
  refine ensuresFrom_getFlag (fun found hfound => ?_)
  cases found with
  | none => exact trivial
  | some flag =>
    refine (Prog.yields_true _).bind (fun _ _ => (Prog.yields_true _).bind (fun _ _ => ?_))
    exact (yields_updateFlag_archived none (hfound flag rfl) _ _ _ _ _ _ _ _).bind
      (fun _ h => h.elim)

/-- So does a rollback. -/
theorem ensuresFrom_rollbackFeatureFlag (principal : Principal) (requestId : Option String)
    (targetVersion : ℕ) (payload : RollbackRequest) :
    (rollbackFeatureFlag principal requestId flagId targetVersion payload).EnsuresFrom scheduling
      (fun s => s.FlagArchived flagId) (fun _ _ _ _ => False) := by
  refine ensuresFrom_getFlag (fun found hfound => ?_)
  cases found with
  | none => exact trivial
  | some flag =>
    refine (Prog.yields_true _).bind (fun _ _ => (Prog.yields_true _).bind (fun _ _ => ?_))
    refine Prog.Yields.bind (P := fun _ => False) ?_ (fun _ h => h.elim)
    refine (Prog.yields_true _).bind (fun _ _ => (Prog.yields_true _).bind (fun version _ => ?_))
    cases version with
    | none => exact trivial
    | some version =>
      refine (Prog.yields_true _).bind (fun _ _ => (Prog.yields_true _).bind (fun _ _ =>
        (Prog.yields_true _).bind (fun _ _ => ?_)))
      exact yields_updateFlag_archived none (hfound flag rfl) _ _ _ _ _ _ _ _

/-- And the adding of a rule. -/
theorem ensuresFrom_addTargetingRule_archived (principal : Principal) (requestId : Option String)
    (payload : RuleCreate) :
    (addTargetingRule principal requestId flagId payload).EnsuresFrom scheduling
      (fun s => s.FlagArchived flagId) (fun _ _ _ _ => False) := by
  unfold addTargetingRule getConfigByFlagEnvironment
  rw [Prog.bind_assoc]
  refine Prog.ensuresFrom_read (fun s _ _ found hinv harchived hfound => ?_)
  obtain ⟨hs, -⟩ := hinv
  cases found with
  | none => exact trivial
  | some found =>
    obtain ⟨row, flag, environment⟩ := found
    obtain ⟨⟨-, hrow, -⟩, ⟨hflag, hid⟩, -⟩ := configOfFlag_eq_some hfound
    have hload := yields_load_archived (harchived.of_id hs hflag (hid.trans hrow))
      (Prog.Yields.mono (fun _ h => h.1) (yields_loadCollections row flag environment))
    exact (hload.bind (fun _ h => h.elim)).ensures

end Raises

/-! ## The scheduler at an archived flag -/

section Scheduler

variable {writes : List Write} {locks : List Row} {s : Database} {session : Session}
  {batch : Batch} {rounds : List Round} {flagId configId : UUID}

/-- What stays true of an archived flag. -/
theorem archived_stable : ∀ locks s s', discipline.rely locks s s' →
    s.FlagArchived flagId ∧ ¬ s.ConfigOf flagId configId →
    s'.FlagArchived flagId ∧ ¬ s'.ConfigOf flagId configId :=
  fun _ _ _ hrely h => ⟨h.1.evolve hrely, not_configOf_evolve h.1 h.2 hrely⟩

/-- Statements leave the flags alone. -/
theorem flags_of_statements (hstatements : ∀ w ∈ writes, w.isStatement = true) (s : Database) :
    (service.view writes s).flags = s.flags := by
  have hnone : writes.filterMap Write.flag? = [] := by
    refine List.filterMap_eq_nil_iff.mpr (fun w hw => ?_)
    have hstatement := hstatements w hw
    cases w with
    | flag op => cases hstatement
    | _ => rfl
  rw [view_flags, hnone]
  rfl

/-- **A session that does not remember the flag finds it archived.** -/
theorem ensures_loadConfig_archived (hstatements : ∀ w ∈ writes, w.isStatement = true)
    (hsession : ∀ row ∈ session.flags, row.id ≠ flagId) (harchived : s.FlagArchived flagId)
    (environmentId : UUID) :
    (session.loadConfig flagId environmentId).Ensures discipline (fun _ _ _ _ => False) writes
      locks s := by
  unfold Session.loadConfig
  refine ensures_select (fun s₁ h₁ hs₁ => ?_)
  cases hfound : (service.view writes s₁).configOfFlag flagId environmentId with
  | none => exact trivial
  | some found =>
    obtain ⟨row, flag, environment⟩ := found
    obtain ⟨⟨-, hrow, -⟩, ⟨hflag, hid⟩, -⟩ := configOfFlag_eq_some hfound
    rw [flags_of_statements hstatements] at hflag
    have harchived₁ := (harchived.evolve h₁).of_id hs₁ hflag (hid.trans hrow)
    have hnone : session.flags.find? (fun item => item.id = flag.id) = none := by
      refine List.find?_eq_none.mpr (fun item hitem => ?_)
      rw [decide_eq_true_iff, hid, hrow]
      exact hsession item hitem
    dsimp only
    rw [hnone]
    refine Prog.Yields.ensures (yields_load_archived harchived₁ ?_)
    unfold Session.loadCollections
    split
    · exact rfl
    · exact Prog.Yields.mono (fun _ h => h.1) (yields_loadCollections _ flag _)

/-- A configuration of another flag. -/
theorem ensures_loadConfig_other (hplace : ∀ w ∈ writes, w.isInPlace = true)
    (hfits : session.Fits s) (harchived : s.FlagArchived flagId) {configRow : FlagConfigRow}
    (hknown : s.KnowsConfig configRow) (hne : configRow.flagId ≠ flagId) :
    (session.loadConfig configRow.flagId configRow.environmentId).Ensures discipline
      (fun _ _ s' config => config.flag.id ≠ flagId
        ∧ s'.FlagArchived flagId ∧ ¬ s'.ConfigOf flagId configRow.id) writes locks s := by
  have hkept : (session.loadConfig configRow.flagId configRow.environmentId).Ensures discipline
      (fun _ _ s' _ => s'.FlagArchived flagId ∧ ¬ s'.ConfigOf flagId configRow.id) writes locks
      s := by
    unfold Session.loadConfig
    refine ensures_select (fun s₁ h₁ hs₁ => ?_)
    exact (Prog.ensures_true.frame archived_stable ⟨harchived.evolve h₁,
      not_configOf_of_known hs₁ (hknown.evolve h₁) hne⟩).mono (fun _ _ _ _ h => h.2)
  refine ((ensures_loadConfig hplace hfits configRow.flagId configRow.environmentId).and
    hkept).mono ?_
  rintro writes' locks' s' config ⟨⟨-, -, -, hknows, hflagId, -⟩, hkept⟩
  exact ⟨fun h => hne (hflagId.symm.trans (hknows.flagId.trans h)), hkept⟩

/-- A configuration that is not found does not exist. -/
theorem ensures_getConfig_none (hplace : ∀ w ∈ writes, w.isInPlace = true) (id : UUID) :
    (session.getConfig id).Ensures discipline
      (fun _ _ s' found => found = none → id ∉ s'.configs.map FlagConfigRow.id) writes locks s := by
  unfold Session.getConfig
  split
  · exact Prog.Ensures.ret (fun h => nomatch h)
  · refine Prog.ensures_read (fun s₁ _ _ locked choice hnone => ?_)
    have hids : (service.view writes s₁).configs.map FlagConfigRow.id
        = s₁.configs.map FlagConfigRow.id := by
      have hsame := congrArg (List.map FlagConfigRow.Identity.id)
        (sameIdentities_view hplace s₁).configs
      rwa [List.map_map, List.map_map] at hsame
    rw [← hids]
    intro hmem
    obtain ⟨row, hrow, rfl⟩ := List.mem_map.mp hmem
    have hall := List.find?_eq_none.mp hnone row hrow
    exact hall (decide_eq_true rfl)

/-- **One round, where a flag is archived** and the session does not remember it: the
change is not of that flag, and the session still does not. -/
theorem ensures_applyChange_archived (hfits : batch.Fits s writes locks rounds)
    (hsession : ∀ row ∈ batch.session.flags, row.id ≠ flagId) (harchived : s.FlagArchived flagId)
    (change : ScheduledChangeRow) :
    (applyChange batch change).Ensures discipline
      (fun _ _ s' batch' => (∀ row ∈ batch'.session.flags, row.id ≠ flagId)
        ∧ s'.FlagArchived flagId ∧ ¬ s'.ConfigOf flagId change.configId) writes locks s := by
  have hstatements : ∀ w ∈ writes, w.isStatement = true := by
    rw [hfits.writes_eq]
    exact isStatement_statements rounds
  have hplace : ∀ w ∈ writes, w.isInPlace = true := by
    rw [hfits.writes_eq]
    exact isInPlace_statements rounds
  unfold applyChange
  refine ((ensures_getConfig hplace hfits.session change.configId).and
    (ensures_getConfig_none hplace change.configId)).bind (fun writes' locks' s₁ found h => ?_)
  obtain ⟨⟨rfl, rfl, h₁, hfound⟩, hnone⟩ := h
  have harchived₁ := harchived.evolve h₁
  cases found with
  | none =>
    -- a configuration that does not exist is none of the flag
    have hother : ¬ s₁.ConfigOf flagId change.configId := by
      intro hconfig
      obtain ⟨row, hrow, -, hid⟩ := configOf_iff.mp hconfig
      exact hnone rfl (hid ▸ List.mem_map_of_mem hrow)
    refine ensures_choose (fun s₂ chosen h₂ _ => Prog.Ensures.ret ⟨hsession, ?_⟩)
    exact archived_stable _ _ _ h₂ ⟨harchived₁, hother⟩
  | some configRow =>
    obtain ⟨hknown, hid⟩ := hfound configRow rfl
    rw [← hid]
    -- a change of the archived flag loads its row, and raises
    by_cases hflag : configRow.flagId = flagId
    · have hload : (Session.loadConfig
            { batch.session with configs := configRow :: batch.session.configs }
            flagId configRow.environmentId).Ensures discipline (fun _ _ _ _ => False)
          writes' locks' s₁ := by
        refine ensures_loadConfig_archived hstatements ?_ harchived₁ configRow.environmentId
        exact hsession
      dsimp only
      rw [hflag]
      exact hload.bind (fun _ _ _ _ h => h.elim)
    · -- a change of another flag only adds that flag to the session
      have hsession₁ : Session.Fits s₁
          { batch.session with configs := configRow :: batch.session.configs } := by
        have hold := hfits.session.evolve h₁
        exact { hold with configs := List.forall_mem_cons.mpr ⟨hknown, hold.configs⟩ }
      refine (ensures_loadConfig_other hplace hsession₁ harchived₁ hknown hflag).bind
        (fun writes₂ locks₂ s₂ config h => ?_)
      obtain ⟨hother, hkept⟩ := h
      refine (Prog.Yields.ensures (P := fun batch' : Batch =>
        ∀ row ∈ batch'.session.flags, row.id ≠ flagId) ?_).frame archived_stable hkept
      refine (Prog.yields_true _).bind (fun project _ => ?_)
      cases project with
      | none => exact fun _ => hsession
      | some project =>
        refine (Prog.yields_true _).bind (fun _ _ => (Prog.yields_true _).bind (fun _ _ =>
          (Prog.yields_true _).bind (fun applied _ =>
            (Prog.yields_true _).bind (fun out _ => (Prog.yields_true _).bind
              (fun _ _ _ => ?_)))))
        exact List.forall_mem_cons.mpr ⟨hother, hsession⟩

/-- **The loop, where a flag is archived**: no change it gets through is of that flag. -/
theorem ensures_applyChanges_archived {changes : List ScheduledChangeRow}
    (hfits : batch.Fits s writes locks rounds)
    (hsession : ∀ row ∈ batch.session.flags, row.id ≠ flagId) (harchived : s.FlagArchived flagId) :
    (applyChanges batch changes).Ensures discipline
      (fun _ _ s' _ => s'.FlagArchived flagId
        ∧ ∀ change ∈ changes, ¬ s'.ConfigOf flagId change.configId) writes locks s := by
  induction changes generalizing batch writes locks s rounds with
  | nil => exact Prog.Ensures.ret ⟨harchived, fun _ h => absurd h List.not_mem_nil⟩
  | cons change rest ih =>
    unfold applyChanges
    refine ((ensures_applyChange hfits change).and (ensures_applyChange_archived hfits hsession
      harchived change)).bind (fun writes' locks' s₁ next h => ?_)
    obtain ⟨⟨round, hnext, -⟩, hsession₁, hkept⟩ := h
    refine ((ih hnext hsession₁ hkept.1).frame archived_stable hkept).mono ?_
    rintro _ _ s' _ ⟨⟨harchived', hrest⟩, -, hfirst⟩
    exact ⟨harchived', List.forall_mem_cons.mpr ⟨hfirst, hrest⟩⟩

/-- A batch, where a flag is archived. -/
theorem ensures_batch_archived (changes : List ScheduledChangeRow) (locks : List Row)
    (harchived : s.FlagArchived flagId) :
    (applyChanges ⟨.empty, [], [], []⟩ changes >>= fun batch => do
      flush batch.pending
      pure (⟨batch.responses, batch.notifications⟩ : Outcome)).Ensures discipline
        (fun _ _ s' _ => s'.FlagArchived flagId
          ∧ ∀ change ∈ changes, ¬ s'.ConfigOf flagId change.configId) [] locks s := by
  refine (ensures_applyChanges_archived (Batch.fits_empty s locks) (fun _ h => nomatch h)
    harchived).bind (fun _ _ s₁ batch h => ensures_flush (fun s₂ h₂ _ => Prog.Ensures.ret ?_))
  exact ⟨h.1.evolve h₂, fun change hchange => not_configOf_evolve h.1 (h.2 change hchange) h₂⟩

/-- A batch locks its changes alone. -/
theorem ensures_batch_locks {d : Discipline Database Write Row} (changes : List ScheduledChangeRow)
    (s : Database) :
    (applyChanges ⟨.empty, [], [], []⟩ changes >>= fun batch => do
      flush batch.pending
      pure (⟨batch.responses, batch.notifications⟩ : Outcome)).Ensures d
        (fun _ locks _ _ => ∀ row ∈ locks, ∀ id, row = .change id →
          id ∈ changes.map ScheduledChangeRow.id) []
        (changes.map (fun row => Row.change row.id)) s := by
  refine (writes_batch changes).ensures_locks (fun row hrow id heq => ?_)
    (fun w hw row hrow id heq => hw id (mark?_of_lock (heq ▸ hrow)))
  obtain ⟨change, hchange, rfl⟩ := List.mem_map.mp hrow
  exact Row.change.inj heq ▸ List.mem_map_of_mem hchange

/-- **A worker that takes changes when a flag is archived** commits only if none of them is
of that flag. -/
theorem ensuresFrom_applyDueChanges (flagId : UUID) :
    applyDueChanges.EnsuresFrom scheduling (fun s => s.FlagArchived flagId)
      (fun _ locks s _ => ∀ id, .change id ∈ locks → s.FlagArchived flagId
        ∧ ∃ change ∈ s.changes, change.id = id ∧ ¬ s.ConfigOf flagId change.configId) := by
  rintro s hs harchived locked choice -
  generalize hchanges : dueChanges ⟨s, locked, choice⟩ = changes
  have hdue : ∀ change ∈ changes, change ∈ s.changes := by
    rw [← hchanges]
    exact fun change hchange => (mem_dueChanges.1 change hchange).1
  show Prog.Ensures scheduling _
    (applyChanges ⟨.empty, [], [], []⟩ (dueChanges ⟨s, locked, choice⟩) >>= _) []
    ((dueChanges ⟨s, locked, choice⟩).map (fun row => .change row.id)) s
  rw [hchanges]
  have hother : Prog.Ensures scheduling _ _ []
      (changes.map (fun row => Row.change row.id)) s :=
    (ensures_batch_archived changes _ harchived).strict rfl (fun _ hi => hi.1)
      (fun _ _ _ hr => hr.1)
  refine ((hother.and (ensures_batch_locks changes s)).frame_locked
    (changes.map (fun row => Row.change row.id))
    (K := fun t => ∀ change ∈ changes, change ∈ t.changes) ?_ (fun _ h => h) hdue).mono ?_
  · intro locks t t' hheld hrely h change hchange
    exact hrely.2.1 change (h change hchange) (hheld (List.mem_map_of_mem
      (f := fun row : ScheduledChangeRow => Row.change row.id) hchange))
  · rintro _ _ t _ ⟨⟨⟨harchived', hother⟩, honly⟩, -, hrows⟩ id hlock
    obtain ⟨change, hchange, hid⟩ := List.mem_map.mp (honly _ hlock id rfl)
    exact ⟨harchived', change, hrows change hchange, hid, hother change hchange⟩

end Scheduler

/-- **Whoever begins when a flag is archived heeds it.** -/
theorem ensuresFrom_archived (flagId : UUID) (request : Request) :
    request.program.EnsuresFrom scheduling (fun s => s.FlagArchived flagId)
      (Heeds flagId request) := by
  have hother : request.mayWrite (.change (.setAppliedAt ⟨0⟩ 0)) = false →
      request.flagWritten? ≠ some flagId →
      request.program.EnsuresFrom scheduling (fun s => s.FlagArchived flagId)
        (Heeds flagId request) := by
    intro hmay hne
    refine Prog.ensuresFrom_of_ensures (fun s => ?_)
    refine (request.writes.ensures_locks (L := fun row => ∀ id, row ≠ .change id)
      (fun _ h => absurd h List.not_mem_nil) (fun w hw row hrow id heq => ?_)).mono ?_
    · have hmark := mark?_of_lock (heq ▸ hrow)
      rw [mark?_of_mayWrite hmay hw] at hmark
      cases hmark
    · exact fun _ _ _ _ h => ⟨hne, fun id hlock => absurd rfl (h _ hlock id)⟩
  by_cases hflag : request.flagWritten? = some flagId
  · cases request with
    | replaceFlagConfiguration principal requestId id payload =>
      cases hflag
      exact (ensuresFrom_replaceFlagConfiguration principal requestId payload).mono
        (fun _ _ _ _ h => h.elim)
    | addTargetingRule principal requestId id payload =>
      cases hflag
      exact (ensuresFrom_addTargetingRule_archived principal requestId payload).mono
        (fun _ _ _ _ h => h.elim)
    | rollbackFeatureFlag principal requestId id targetVersion payload =>
      cases hflag
      exact (ensuresFrom_rollbackFeatureFlag principal requestId targetVersion payload).mono
        (fun _ _ _ _ h => h.elim)
    | _ => simp [Request.flagWritten?] at hflag
  · cases request with
    | applyDueChanges =>
      exact (ensuresFrom_applyDueChanges flagId).mono (fun _ _ _ _ h => ⟨hflag, h⟩)
    | _ => exact hother rfl hflag

/-! ## Commits that spare a flag -/

section Commit

variable {s : Database} {locks : List Row} {effect : Effect} {flagId : UUID}

/-- **What a commit of another flag leaves as it is.** -/
theorem Effect.keepsFlag (hs : s.Consistent) (hfits : effect.Fits s locks)
    (hok : (service.view effect.writes s).Consistent)
    (hexists : flagId ∈ s.flags.map FeatureFlagRow.id)
    (hother : ∀ rounds, effect = .rounds rounds → ∀ u ∈ updatesOf rounds, u.flag.id ≠ flagId)
    (hchanges : ∀ change ∈ s.changes, s.ConfigOf flagId change.configId →
      change ∈ (service.view effect.writes s).changes) :
    s.KeepsFlag flagId (service.view effect.writes s) := by
  have hkeeps : s.KeepsConfigs (fun identity => identity.flagId = flagId)
      (service.view effect.writes s) := by
    refine effect.keepsConfigs hs hfits hok
      (fun rounds heq u hu => decide_eq_false (hother rounds heq u hu))
      (fun identity hcreated => ?_)
    cases effect with
    | creation k =>
      rw [List.mem_singleton.mp hcreated]
      exact decide_eq_false (fun heq : k.flagId = flagId =>
        (fresh_of_ok hok).flagId (heq ▸ hexists))
    | _ => cases hcreated
  exact ⟨hkeeps.configs, hkeeps.versions, hkeeps.children, hchanges⟩

end Commit

/-- What is known of a transaction when it commits. -/
def Concludes (request : Request) (writes : List Write) (locks : List Row) (s : Database)
    (outcome : Outcome) : Prop :=
  Schedules request writes locks s outcome ∧ CommitsOf request writes locks s outcome

/-- Every transaction respects what is known of it at its commit. -/
theorem respects_concluding :
    service.Respects scheduling Scheduled Concludes (fun _ _ _ => True ∧ True) :=
  respects_scheduling.also (fun request s _ =>
    (request.ensures_of s).strict rfl (fun _ hi => hi.1) (fun _ _ _ hr => hr.1))

/-- Every run gets to a state in which this is known. -/
theorem concluding_of_run {actions : List (Action Choice Request)} {w : ServiceWorld}
    (hrun : service.run initial actions = some w) : w.Good scheduling Scheduled Concludes :=
  (respects_concluding.run_good (World.good_init ⟨history_initial, List.nodup_nil⟩)
    (service.commitsMeet_of_forall (fun _ _ _ => ⟨trivial, trivial⟩) _ _) hrun).1

/-- **A transaction that is no write of a flag updates only others.** -/
theorem Concludes.exists_effect {request : Request} {writes : List Write} {locks : List Row}
    {s s' : Database} {outcome : Outcome} {flagId : UUID}
    (h : Concludes request writes locks s outcome) (hrely : scheduling.rely locks s s')
    (hs' : s'.Consistent) (hspares : Spares flagId request locks s') :
    ∃ effect : Effect, effect.writes = writes ∧ effect.Fits s' locks
      ∧ ∀ rounds, effect = .rounds rounds → ∀ u ∈ updatesOf rounds, u.flag.id ≠ flagId := by
  obtain ⟨⟨-, htakes⟩, effect, hwrites, hfits, -, hof⟩ := h
  have hfits := hfits.evolve hrely.1
  -- an endpoint updates the flag it names, and it does not name this one
  have hupdates : ∀ id environmentId, some id ≠ some flagId → effect.Updates id environmentId →
      ∀ rounds, effect = .rounds rounds → ∀ u ∈ updatesOf rounds, u.flag.id ≠ flagId := by
    rintro id environmentId hne ⟨u, rfl, hflag, -⟩ rounds heq v hv
    cases heq
    rw [List.mem_singleton.mp hv, hflag]
    exact fun h => hne (congrArg some h)
  have hnone : (∀ rounds, effect ≠ .rounds rounds) → ∃ effect : Effect, effect.writes = writes
      ∧ effect.Fits s' locks
      ∧ ∀ rounds, effect = .rounds rounds → ∀ u ∈ updatesOf rounds, u.flag.id ≠ flagId :=
    fun hne => ⟨effect, hwrites, hfits, fun rounds heq => absurd heq (hne rounds)⟩
  have hrequest := hspares.request
  cases request with
  | applyDueChanges =>
    obtain ⟨changes, rounds, hcommits, hheld⟩ := htakes
    have hrounds := hcommits.fits.evolve hrely.1
    refine ⟨.rounds rounds, hcommits.writes_eq, hrounds, fun rounds' heq u hu hflag => ?_⟩
    cases heq
    -- a round updates the configuration of a change the worker holds, which is of another flag
    obtain ⟨round, hround, hupdate⟩ := List.mem_filterMap.mp hu
    obtain ⟨change, hchange, hfor⟩ := (PermBy.of_forall₂ hcommits.rounds).exists_left hround
    have hstored := hrely.2.1 change (hheld change hchange).2 (hheld change hchange).1
    obtain ⟨held, hheldRow, hid, hother⟩ := hspares.changes _ (hheld change hchange).1
    rw [List.inj_on_of_nodup_map hs'.keys.changeIds hheldRow hstored hid, ← hfor.2 u hupdate]
      at hother
    refine hother (configOf_iff.mpr ?_)
    obtain ⟨row, hrow, heq⟩ := List.mem_map.mp (hrounds.known u hu).config
    exact ⟨row, hrow, (congrArg FlagConfigRow.Identity.flagId heq).trans hflag,
      congrArg FlagConfigRow.Identity.id heq⟩
  | replaceFlagConfiguration principal requestId id payload =>
    exact ⟨effect, hwrites, hfits, hupdates id _ hrequest hof.1⟩
  | addTargetingRule principal requestId id payload =>
    exact ⟨effect, hwrites, hfits, hupdates id _ hrequest hof⟩
  | rollbackFeatureFlag principal requestId id targetVersion payload =>
    exact ⟨effect, hwrites, hfits, hupdates id _ hrequest hof.1⟩
  | createFeatureFlag principal requestId projectId payload =>
    obtain ⟨k, rfl, -⟩ := hof
    exact hnone (fun _ h => nomatch h)
  | archiveFlag principal requestId id =>
    obtain ⟨a, rfl, -⟩ := hof
    exact hnone (fun _ h => nomatch h)
  | scheduleChange principal requestId id payload =>
    obtain ⟨change, event, rfl, -⟩ := hof
    exact hnone (fun _ h => nomatch h)
  | _ =>
    obtain ⟨ws, rfl, -⟩ := hof
    exact hnone (fun _ h => nomatch h)

/-- **It leaves all of the flag as it is.** -/
theorem Concludes.keepsFlag {request : Request} {writes : List Write} {locks : List Row}
    {s s' : Database} {outcome : Outcome} {flagId : UUID}
    (h : Concludes request writes locks s outcome) (hrely : scheduling.rely locks s s')
    (hs' : s'.Consistent) (hspares : Spares flagId request locks s')
    (harchived : s'.FlagArchived flagId) (hok : (service.view writes s').Consistent) :
    s'.KeepsFlag flagId (service.view writes s') := by
  obtain ⟨effect, rfl, hfits, hother⟩ := h.exists_effect hrely hs' hspares
  refine effect.keepsFlag hs' hfits hok ?_ hother (fun change hchange hconfig => ?_)
  · obtain ⟨flag, hflag, hid, -⟩ := harchived
    exact hid ▸ List.mem_map_of_mem hflag
  · -- a change of the flag is not held, so it is not marked
    obtain ⟨row', hrow', -, -, hsame, -⟩ := exists_change_view effect.writes hchange
    rw [← hsame (fun hmark => ?_)]
    · exact hrow'
    obtain ⟨held, hheld, hid, hnot⟩ := hspares.changes _ (h.1.1.2.held hmark).1
    rw [List.inj_on_of_nodup_map hs'.keys.changeIds hheld hchange hid] at hnot
    exact hnot hconfig

/-! ## Every run -/

/-- **The transaction has begun**: it has made a statement. -/
def World.Begun (w : ServiceWorld) (id : ℕ) : Prop :=
  ∃ tx ∈ w.live, tx.id = id
    ∧ ¬ (tx.prog = service.program tx.request ∧ tx.writes = [] ∧ tx.locks = [])

/-- **The archiving of a flag is not overtaken**: of the transactions that had begun by
then no write of the flag is committed. -/
def NotOvertaken (flagId : UUID) (archived w : ServiceWorld) : Action Choice Request → Prop
  | .commit id => archived.Begun id → ∀ tx ∈ (w.running? id).toList,
    Spares flagId tx.request tx.locks w.committed
  | _ => True

/-- **A flag stays archived**: it stays as it is, and no endpoint writes it. -/
structure StaysArchived (flagId : UUID) (archived w : ServiceWorld) : Prop where
  /-- All of the flag is as it was. -/
  keeps : archived.committed.KeepsFlag flagId w.committed
  /-- No endpoint that is logged since then writes it. -/
  refused : ∀ entry ∈ w.log.drop archived.log.length, entry.1.flagWritten? ≠ some flagId

/-- Who heeds the archiving is no write of the flag. -/
theorem Heeds.spares {flagId : UUID} {request : Request} {writes : List Write} {locks : List Row}
    {s s' : Database} {outcome : Outcome} (h : Heeds flagId request writes locks s outcome)
    (hrely : scheduling.rely locks s s') : Spares flagId request locks s' where
  request := h.request
  changes := by
    intro id hlock
    obtain ⟨harchived, change, hchange, rfl, hother⟩ := h.changes id hlock
    exact ⟨change, hrely.2.1 change hchange hlock, rfl,
      not_configOf_evolve harchived hother hrely.1⟩

/-- **The world since a flag was archived**: whoever has not begun by then heeds it. -/
structure SinceArchived (flagId : UUID) (archived w : ServiceWorld) : Prop where
  /-- What holds of every reachable world. -/
  good : w.Good scheduling Scheduled Concludes
  /-- The flag is archived. -/
  flagArchived : w.committed.FlagArchived flagId
  /-- Whoever had not begun by then heeds it. -/
  underway : ∀ id, ¬ archived.Begun id → ∀ tx ∈ w.live, tx.id = id →
    w.Underway service scheduling (Heeds flagId) tx
  /-- The log has only grown. -/
  length_le : archived.log.length ≤ w.log.length
  /-- The flag stays as it is. -/
  stays : StaysArchived flagId archived w

/-- A transaction that is committed is no write of the flag. -/
theorem SinceArchived.spares {flagId : UUID} {archived w : ServiceWorld}
    (h : SinceArchived flagId archived w) {id : ℕ}
    (hmeets : NotOvertaken flagId archived w (.commit id)) {tx : ServiceTx}
    (htx : w.running? id = some tx) {result : Outcome} (hprog : tx.prog = .ret result) :
    Spares flagId tx.request tx.locks w.committed := by
  obtain ⟨hmem, hid⟩ := World.mem_of_running? htx
  by_cases hbegun : archived.Begun id
  · exact hmeets hbegun tx (Option.mem_toList.mpr htx)
  rcases h.underway id hbegun tx hmem hid with ⟨hstart, -, hlocks⟩ | ⟨s, hrely, hensures⟩
  · have hfrom := ensuresFrom_archived flagId tx.request
    rw [← show tx.prog = tx.request.program from hstart, hprog] at hfrom
    refine ⟨(hfrom w.committed).request, fun id hlock => ?_⟩
    rw [hlocks] at hlock
    exact absurd hlock List.not_mem_nil
  · rw [hprog] at hensures
    exact Heeds.spares hensures hrely

/-- **A step keeps it.** -/
theorem SinceArchived.step {flagId : UUID} {archived w w' : ServiceWorld}
    {action : Action Choice Request} (h : SinceArchived flagId archived w)
    (hmeets : NotOvertaken flagId archived w action) (hstep : service.step w action = some w') :
    SinceArchived flagId archived w' := by
  obtain ⟨hgood, hevolves⟩ :=
    respects_concluding.step h.good (fun _ _ _ _ => ⟨trivial, trivial⟩) hstep
  -- whoever begins now begins with the flag archived
  have hunderway : ∀ id, ¬ archived.Begun id → ∀ tx ∈ w'.live, tx.id = id →
      w'.Underway service scheduling (Heeds flagId) tx := by
    intro id hbegun
    refine respects_concluding.underway (ensuresFrom_archived flagId) h.good
      (h.underway id hbegun) (fun _ _ _ _ => ⟨trivial, trivial⟩) ?_ hstep
    cases action with
    | advance other choice => exact fun _ _ _ _ => h.flagArchived
    | _ => exact trivial
  -- only a commit changes what is committed
  have hsame : w'.committed = w.committed → w'.log = w.log →
      SinceArchived flagId archived w' := by
    intro hcommitted hlog
    refine ⟨hgood, hcommitted ▸ h.flagArchived, hunderway, hlog ▸ h.length_le, ⟨?_, ?_⟩⟩
    · rw [hcommitted]
      exact h.stays.keeps
    · rw [hlog]
      exact h.stays.refused
  cases action with
  | start request =>
    cases hstep
    exact hsame rfl rfl
  | abort id =>
    cases hstep
    exact hsame rfl rfl
  | advance id choice =>
    obtain ⟨tx, locks, writes, next, view, -, -, -, -, rfl⟩ := service.advance_eq_some hstep
    exact hsame rfl rfl
  | commit id =>
    obtain ⟨tx, result, htx, hprog, hok, rfl⟩ := service.commit_eq_some hstep
    have hspares := h.spares hmeets htx hprog
    obtain ⟨s, hrely, hpost⟩ := h.good.of_running htx hprog
    have hkeeps := hpost.keepsFlag hrely h.good.invariant.1.consistent hspares h.flagArchived
      (Database.consistent_of_ok hok)
    refine ⟨hgood, h.flagArchived.evolve hevolves.1, hunderway, ?_, h.stays.keeps.trans hkeeps, ?_⟩
    · show _ ≤ (w.log ++ [(tx.request, result)]).length
      rw [List.length_append]
      exact le_trans h.length_le (Nat.le_add_right _ _)
    · show ∀ entry ∈ (w.log ++ [(tx.request, result)]).drop archived.log.length, _
      rw [List.drop_append_of_le_length h.length_le]
      exact List.forall_mem_append.mpr
        ⟨h.stays.refused, List.forall_mem_singleton.mpr hspares.request⟩

/-- **The commit that archives a flag.** -/
theorem sinceArchived_of_commit {flagId : UUID} {w w' : ServiceWorld} {id : ℕ} {tx : ServiceTx}
    {principal : Principal} {requestId : Option String}
    (hgood : w.Good scheduling Scheduled Concludes) (htx : w.running? id = some tx)
    (hrequest : tx.request = .archiveFlag principal requestId flagId)
    (hstep : service.step w (.commit id) = some w') : SinceArchived flagId w' w' := by
  have hgood' := (respects_concluding.step hgood (fun _ _ _ _ => ⟨trivial, trivial⟩) hstep).1
  obtain ⟨tx', result, htx', hprog, hok, rfl⟩ := service.commit_eq_some hstep
  rw [htx] at htx'
  cases htx'
  refine ⟨hgood', ?_, ?_, le_rfl, .refl flagId _, ?_⟩
  · obtain ⟨s, hrely, -, effect, hwrites, hfits, -, hof⟩ := hgood.of_running htx hprog
    rw [hrequest] at hof
    obtain ⟨a, rfl, rfl, -⟩ := hof
    obtain ⟨flag, hflag, hid, harchived⟩ :=
      exists_archived_view (Effect.Fits.evolve hfits hrely.1).flagKnown
    show (service.view tx.writes w.committed).FlagArchived a.flag.id
    rw [← hwrites]
    exact ⟨flag, hflag, hid, harchived⟩
  · intro other hbegun t ht hid
    exact .inl (not_not.mp (fun hnot => hbegun ⟨t, ht, hid, hnot⟩))
  · rw [List.drop_length]
    exact fun _ h => absurd h List.not_mem_nil

/-- **Archiving is final where it is not overtaken.** From the commit that archives a flag
on the flag keeps its versions, its configurations and its scheduled changes, and
no endpoint writes it, in every run in which no write of it that had begun by
then is committed. -/
theorem archiving_final {actions actions' : List (Action Choice Request)} {w₀ w w' : ServiceWorld}
    (hrun : service.run initial actions = some w₀) {id : ℕ} {tx : ServiceTx}
    (htx : w₀.running? id = some tx) {principal : Principal} {requestId : Option String}
    {flagId : UUID} (hrequest : tx.request = .archiveFlag principal requestId flagId)
    (hcommit : service.step w₀ (.commit id) = some w)
    (hrun' : service.run w actions' = some w')
    (hmeets : service.Meets (NotOvertaken flagId w) w actions') : StaysArchived flagId w w' := by
  have hgood := concluding_of_run hrun
  have hsince : SinceArchived flagId w w' :=
    System.run_keeps (fun _ _ _ h hnow hstep => h.step hnow hstep)
      (sinceArchived_of_commit hgood htx hrequest hcommit) hmeets hrun'
  exact hsince.stays

/-- A change of the sample flag is scheduled; the flag is about to be archived. -/
def archivingSample : List (Action Choice Request) :=
  sampleFlag ++ alone 4 50 13 (.scheduleChange sampleUser none ⟨40⟩ sampleScheduled)
  ++ .start (.archiveFlag sampleUser none ⟨40⟩) :: advances 5 60 7

/-- A worker and a replacement that come after that raise; another flag is created. -/
def afterArchiving : List (Action Choice Request) :=
  .start .applyDueChanges :: advances 6 70 10 ++ [.abort 6]
  ++ .start (.replaceFlagConfiguration sampleUser none ⟨40⟩
    (sampleUpdate sampleContent 1 Nat.one_pos)) :: advances 7 80 7 ++ [.abort 7]
  ++ alone 8 90 12
    (.createFeatureFlag sampleUser none ⟨20⟩ (sampleCreate "footer" isFlagKey_footer))

/-- The archiving of the sample flag among the transactions under way. -/
theorem exists_archiving {actions actions' : List (Action Choice Request)} {id : ℕ}
    {P : ServiceWorld → ServiceWorld → Bool}
    (h : (service.run initial actions).any (fun w₀ => (w₀.running? id).any (fun tx =>
      (tx.request.archived? == some ⟨40⟩) && (service.step w₀ (.commit id)).any (fun w =>
        (service.run w actions').any (P w)))) = true) :
    ∃ w₀ tx principal requestId w w', service.run initial actions = some w₀
      ∧ w₀.running? id = some tx ∧ tx.request = .archiveFlag principal requestId ⟨40⟩
      ∧ service.step w₀ (.commit id) = some w ∧ service.run w actions' = some w'
      ∧ P w w' = true := by
  obtain ⟨w₀, hrun, h⟩ := (Option.any_eq_true _ _).mp h
  obtain ⟨tx, htx, h⟩ := (Option.any_eq_true _ _).mp h
  obtain ⟨hrequest, h⟩ := Bool.and_eq_true_iff.mp h
  obtain ⟨w, hstep, h⟩ := (Option.any_eq_true _ _).mp h
  obtain ⟨w', hrun', h⟩ := (Option.any_eq_true _ _).mp h
  obtain ⟨principal, requestId, hrequest⟩ := archived?_eq_some (beq_iff_eq.mp hrequest)
  exact ⟨w₀, tx, principal, requestId, w, w', hrun, htx, hrequest, hstep, hrun', h⟩

theorem archiving_final_sample : ∃ w w',
    service.run initial (archivingSample ++ [.commit 5]) = some w
    ∧ service.run w afterArchiving = some w' ∧ w'.log.length = w.log.length + 1
    ∧ (w'.committed.versionsOf ⟨40⟩).length = 1 ∧ StaysArchived ⟨40⟩ w w' := by
  obtain ⟨w₀, tx, principal, requestId, w, w', hrun, htx, hrequest, hstep, hrun', hfacts⟩ :=
    @exists_archiving archivingSample afterArchiving 5 (fun w w' => w.live.isEmpty
      && decide (w'.log.length = w.log.length + 1
        ∧ (w'.committed.versionsOf ⟨40⟩).length = 1)) (by decide +kernel)
  obtain ⟨hlive, hfacts⟩ := Bool.and_eq_true_iff.mp hfacts
  have hnobody : ∀ id, ¬ w.Begun id := by
    rintro id ⟨t, ht, -⟩
    rw [List.isEmpty_iff.mp hlive] at ht
    cases ht
  refine ⟨w, w', ?_, hrun', (of_decide_eq_true hfacts).1, (of_decide_eq_true hfacts).2,
    archiving_final hrun htx hrequest hstep hrun' (System.meets_of_forall (fun _ action => ?_) _ _)⟩
  · rw [System.run_append, hrun]
    show (service.step w₀ (.commit 5)).bind _ = some w
    rw [hstep]
    rfl
  · cases action with
    | commit id => exact fun hbegun => absurd hbegun (hnobody id)
    | _ => exact trivial

/-! ## A write that has looked before -/

/-- A replacement of the sample flag has read its row; the flag is about to be archived. -/
def replacementBegun : List (Action Choice Request) :=
  sampleFlag ++ .start (.replaceFlagConfiguration sampleUser none ⟨40⟩
    (sampleUpdate sampleContent 1 Nat.one_pos)) :: advances 4 50 1
  ++ .start (.archiveFlag sampleUser none ⟨40⟩) :: advances 5 60 7

/-- The replacement goes on and commits. -/
def replacementEnds : List (Action Choice Request) := advances 4 50 14 ++ [.commit 4]

/-- **An archived flag gets a version**: the replacement that read the flag before it was
archived commits after that. -/
theorem archiving_overtaken : ∃ w₀ tx principal requestId w w',
    service.run initial replacementBegun = some w₀ ∧ w₀.running? 5 = some tx
    ∧ tx.request = .archiveFlag principal requestId ⟨40⟩
    ∧ service.step w₀ (.commit 5) = some w ∧ service.run w replacementEnds = some w'
    ∧ (w.committed.versionsOf ⟨40⟩).length = 1 ∧ (w'.committed.versionsOf ⟨40⟩).length = 2
    ∧ ¬ StaysArchived ⟨40⟩ w w' := by
  obtain ⟨w₀, tx, principal, requestId, w, w', hrun, htx, hrequest, hstep, hrun', hfacts⟩ :=
    @exists_archiving replacementBegun replacementEnds 5 (fun w w' =>
      decide ((w.committed.versionsOf ⟨40⟩).length = 1
        ∧ (w'.committed.versionsOf ⟨40⟩).length = 2)) (by decide +kernel)
  obtain ⟨hbefore, hafter⟩ := of_decide_eq_true hfacts
  refine ⟨w₀, tx, principal, requestId, w, w', hrun, htx, hrequest, hstep, hrun', hbefore, hafter,
    fun h => ?_⟩
  rw [h.keeps.versions, hbefore] at hafter
  cases hafter

end CohortSwitch
