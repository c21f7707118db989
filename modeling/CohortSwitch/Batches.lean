import CohortSwitch.Endpoints

/-!
# What the scheduler writes

One round of the loop after the other, in one transaction. `Batch.Fits` is the
invariant of the loop: the writes so far are the statements of some rounds, the
rest of these is pending, and the session remembers the environment of every
update.

That memory is what keeps the rounds apart. A change whose environment is
remembered raises, so an update that gets through is in an environment none of the
others is in, and its configuration is none that the transaction has written
(`Batch.Fits.update`). Its version was therefore compared with the committed one,
like that of any endpoint.

The session itself only holds rows that are known (`Session.Fits`). It may hold
them as they were a while ago: a row that is loaded keeps its attributes, and the
invariant asks for identities, which do not change.

At the end `Request.ensures_of` collects the endpoints and the scheduler.
-/

namespace CohortSwitch

/-! ## The payload of a change -/

/-- **A change keeps the expected version.** -/
theorem applyPayload_expectedVersion {change : ScheduledChangeRow} {payload payload' : FlagUpdate}
    {action event : String} (h : applyPayload change payload = .ok (payload', action, event)) :
    payload'.expectedVersion = payload.expectedVersion := by
  unfold applyPayload at h
  split at h
  · cases h
    rfl
  split at h
  · cases h
    rfl
  split at h
  · obtain ⟨variation, -, h⟩ := bind_eq_ok.mp h
    cases h
    rfl
  split at h
  · obtain ⟨value, -, h⟩ := bind_eq_ok.mp h
    obtain ⟨percentage, -, h⟩ := bind_eq_ok.mp h
    obtain ⟨_, -, h⟩ := bind_eq_ok.mp h
    obtain ⟨variation, -, h⟩ := bind_eq_ok.mp h
    obtain ⟨fallback, -, h⟩ := bind_eq_ok.mp h
    obtain ⟨first, -, h⟩ := bind_eq_ok.mp h
    obtain ⟨rest, -, h⟩ := bind_eq_ok.mp h
    cases h
    rfl
  · cases h

/-- No change deletes a flag. -/
theorem applyPayload_event_ne {change : ScheduledChangeRow} {payload payload' : FlagUpdate}
    {action event : String} (h : applyPayload change payload = .ok (payload', action, event)) :
    event ≠ "flag.deleted" := by
  unfold applyPayload at h
  split at h
  · cases h
    decide
  split at h
  · cases h
    decide
  split at h
  · obtain ⟨variation, -, h⟩ := bind_eq_ok.mp h
    cases h
    decide
  split at h
  · obtain ⟨value, -, h⟩ := bind_eq_ok.mp h
    obtain ⟨percentage, -, h⟩ := bind_eq_ok.mp h
    obtain ⟨_, -, h⟩ := bind_eq_ok.mp h
    obtain ⟨variation, -, h⟩ := bind_eq_ok.mp h
    obtain ⟨fallback, -, h⟩ := bind_eq_ok.mp h
    obtain ⟨first, -, h⟩ := bind_eq_ok.mp h
    obtain ⟨rest, -, h⟩ := bind_eq_ok.mp h
    cases h
    decide
  · cases h

/-! ## The session -/

/-- What a session remembers is known. -/
structure Session.Fits (s : Database) (session : Session) : Prop where
  projects : ∀ row ∈ session.projects, row ∈ s.projects
  environments : ∀ row ∈ session.environments, s.KnowsEnvironment row
  flags : ∀ row ∈ session.flags, s.KnowsFlag row
  configs : ∀ row ∈ session.configs, s.KnowsConfig row

section Session

variable {s s' : Database} {writes : List Write} {locks : List Row} {session : Session}

/-- Others take nothing of it away. -/
theorem Session.Fits.evolve (h : session.Fits s) (hs : s.Evolves locks s') : session.Fits s' :=
  ⟨fun row hr => hs.grows.projects.subset (h.projects row hr),
    fun row hr => (h.environments row hr).evolve hs, fun row hr => (h.flags row hr).evolve hs,
    fun row hr => (h.configs row hr).evolve hs⟩

/-- The rows of an update are known once it is made. -/
theorem Session.Fits.remember (h : session.Fits s) {config : LoadedConfig} {project : ProjectRow}
    (hproject : project ∈ s.projects)
    (hknows : s.KnowsJoined config.row config.flag config.environment) (payload : FlagUpdate) :
    (session.remember config project payload).Fits s where
  projects := List.forall_mem_cons.mpr ⟨hproject, h.projects⟩
  environments := List.forall_mem_cons.mpr ⟨hknows.environmentKnown, h.environments⟩
  flags := List.forall_mem_cons.mpr ⟨hknows.flagKnown, h.flags⟩
  configs := List.forall_mem_cons.mpr ⟨hknows.configKnown, h.configs⟩

/-- The row of a configuration, remembered or found. -/
theorem ensures_getConfig (hplace : ∀ w ∈ writes, w.isInPlace = true) (h : session.Fits s)
    (id : UUID) :
    (session.getConfig id).Ensures discipline
      (Reads (fun s' found => ∀ row, found = some row → s'.KnowsConfig row ∧ row.id = id)
        writes locks s) writes locks s := by
  unfold Session.getConfig
  cases hfind : session.configs.find? (fun row => row.id = id) with
  | some row =>
    refine Reads.pure (.refl _ _) (fun row' heq => ?_)
    cases heq
    obtain ⟨hmem, hid⟩ := mem_and_of_find? hfind
    exact ⟨h.configs row hmem, hid⟩
  | none =>
    refine Prog.ensures_read (fun s₁ h₁ _ locked choice => ⟨rfl, rfl, h₁, fun row hr => ?_⟩)
    obtain ⟨hmem, hid⟩ := mem_and_of_find? hr
    exact ⟨(sameIdentities_view hplace s₁).knowsConfig hmem, hid⟩

/-- The project, remembered or found. -/
theorem ensures_getProject (hplace : ∀ w ∈ writes, w.isInPlace = true) (h : session.Fits s)
    (id : UUID) :
    (session.getProject id).Ensures discipline
      (Reads (fun s' found => ∀ row, found = some row → row ∈ s'.projects ∧ row.id = id)
        writes locks s) writes locks s := by
  unfold Session.getProject
  cases hfind : session.projects.find? (fun row => row.id = id) with
  | some row =>
    refine Reads.pure (.refl _ _) (fun row' heq => ?_)
    cases heq
    obtain ⟨hmem, hid⟩ := mem_and_of_find? hfind
    exact ⟨h.projects row hmem, hid⟩
  | none =>
    refine Prog.ensures_read (fun s₁ h₁ _ locked choice => ⟨rfl, rfl, h₁, fun row hr => ?_⟩)
    obtain ⟨hmem, hid⟩ := mem_and_of_find? hr
    exact ⟨(sameIdentities_view hplace s₁).projects ▸ hmem, hid⟩

/-- A remembered row in the place of one that was found. -/
theorem getD_find? {α : Type} {p : α → Prop} [DecidablePred p] {xs : List α} {a : α}
    {Q : α → Prop} (hfound : Q a) (hremembered : ∀ b ∈ xs, p b → Q b) :
    Q ((xs.find? (fun b => decide (p b))).getD a) := by
  cases hfind : xs.find? (fun b => decide (p b)) with
  | none => exact hfound
  | some b =>
    obtain ⟨hmem, hp⟩ := mem_and_of_find? hfind
    exact hremembered b hmem hp

/-- The collections, remembered or loaded. What is in them does not matter here: the rows they
belong to do. -/
theorem ensures_sessionCollections (session : Session) (row : FlagConfigRow)
    (flag : FeatureFlagRow) (environment : EnvironmentRow) :
    (session.loadCollections row flag environment).Ensures discipline
      (Reads (fun _ config => config.row = row ∧ config.flag = flag
        ∧ config.environment = environment) writes locks s)
      writes locks s := by
  unfold Session.loadCollections
  cases session.collections.find? (fun item => item.row.id = row.id) with
  | some loaded => exact Reads.pure (.refl _ _) ⟨rfl, rfl, rfl⟩
  | none => exact ensures_loadCollections row flag environment

/-- **A configuration that the session loads is known**, with its flag and its environment. -/
theorem ensures_loadConfig (hplace : ∀ w ∈ writes, w.isInPlace = true) (h : session.Fits s)
    (flagId environmentId : UUID) :
    (session.loadConfig flagId environmentId).Ensures discipline
      (Reads (fun s' config => s'.KnowsJoined config.row config.flag config.environment
        ∧ config.row.flagId = flagId ∧ config.row.environmentId = environmentId) writes locks s)
      writes locks s := by
  unfold Session.loadConfig
  refine ensures_select (fun s₁ h₁ hs₁ => ?_)
  cases hfound : (service.view writes s₁).configOfFlag flagId environmentId with
  | none => exact trivial
  | some found =>
    obtain ⟨row, flag, environment⟩ := found
    obtain ⟨hknows, hflagId, henvironmentId⟩ := knowsJoined_of_configOfFlag hplace hfound
    have hfits := h.evolve h₁
    dsimp only
    -- the rows the session remembers stand for those that were found
    have hrow : ((session.configs.find? (fun item => item.id = row.id)).getD row).identity
        = row.identity := by
      refine getD_find? (Q := fun r : FlagConfigRow => r.identity = row.identity) rfl
        (fun b hb hid => ?_)
      exact identity_of_id hs₁ (hfits.configs b hb) hknows.configKnown hid
    have hflag : s₁.KnowsFlag ((session.flags.find? (fun item => item.id = flag.id)).getD flag)
        ∧ ((session.flags.find? (fun item => item.id = flag.id)).getD flag).id = flag.id :=
      getD_find? (Q := fun f => s₁.KnowsFlag f ∧ f.id = flag.id) ⟨hknows.flagKnown, rfl⟩
        (fun b hb hid => ⟨hfits.flags b hb, hid⟩)
    have henvironment : s₁.KnowsEnvironment ((session.environments.find? (fun item =>
          item.id = environment.id)).getD environment)
        ∧ ((session.environments.find? (fun item => item.id = environment.id)).getD
          environment).id = environment.id :=
      getD_find? (Q := fun e => s₁.KnowsEnvironment e ∧ e.id = environment.id)
        ⟨hknows.environmentKnown, rfl⟩ (fun b hb hid => ⟨hfits.environments b hb, hid⟩)
    generalize (session.configs.find? (fun item => item.id = row.id)).getD row = row' at hrow ⊢
    generalize (session.flags.find? (fun item => item.id = flag.id)).getD flag = flag'
      at hflag ⊢
    generalize (session.environments.find? (fun item => item.id = environment.id)).getD
      environment = environment' at henvironment ⊢
    have hpair : row'.flagId = flagId ∧ row'.environmentId = environmentId :=
      ⟨(congrArg FlagConfigRow.Identity.flagId hrow).trans (hknows.flagId.trans hflagId),
        (congrArg FlagConfigRow.Identity.environmentId hrow).trans
          (hknows.environmentId.trans henvironmentId)⟩
    have hjoined : s₁.KnowsJoined row' flag' environment' := by
      refine ⟨?_, hflag.1, henvironment.1, ?_, ?_⟩
      · show row'.identity ∈ _
        rw [hrow]
        exact hknows.configKnown
      · rw [hflag.2, ← hknows.flagId]
        exact congrArg FlagConfigRow.Identity.flagId hrow
      · rw [henvironment.2, ← hknows.environmentId]
        exact congrArg FlagConfigRow.Identity.environmentId hrow
    refine Reads.since h₁ (ensures_reads (ensures_sessionCollections session row' flag'
      environment') (fun s₂ config h₂ hconfig => ?_))
    obtain ⟨rfl, rfl, rfl⟩ := hconfig
    split
    · exact trivial
    · exact Reads.pure h₂ ⟨hjoined.evolve h₂, hpair⟩

end Session

/-! ## The loop -/

/-- **The invariant of the loop.** What was written and what is pending are those of the rounds
so far, and the rounds fit the state. The session remembers the environment of every update, so
that a round which finds its own there raises; this is what keeps the environments of the rounds
apart. -/
structure Batch.Fits (s : Database) (writes : List Write) (locks : List Row) (batch : Batch)
    (rounds : List Round) : Prop where
  /-- Nothing else was written. -/
  writes_eq : writes = rounds.flatMap Round.statements
  /-- Nothing else waits for the commit. -/
  pending_eq : batch.pending = rounds.flatMap Round.pending
  /-- What the session remembers is what it has read or written. -/
  session : batch.session.Fits s
  /-- The rounds fit the state, one after the other. -/
  fits : RoundsFit s locks rounds
  /-- The environment of an update stays in the session. -/
  remembered : ∀ u ∈ updatesOf rounds,
    u.environment.id ∈ batch.session.environments.map EnvironmentRow.id
  /-- One response for each update, in order, -/
  responses : List.Forall₂ Update.RespondsWith (updatesOf rounds) batch.responses
  /-- and one notification. -/
  notifications : List.Forall₂ Update.NotifiesWith (updatesOf rounds) batch.notifications

section Loop

variable {s s' : Database} {writes : List Write} {locks : List Row} {batch : Batch}
  {rounds : List Round}

/-- The invariant survives the commits of others. -/
theorem Batch.Fits.evolve (h : batch.Fits s writes locks rounds) (hs : s.Evolves locks s') :
    batch.Fits s' writes locks rounds :=
  { h with session := h.session.evolve hs, fits := h.fits.evolve hs }

/-- The statements of rounds are in place. -/
theorem isInPlace_statements (rounds : List Round) :
    ∀ w ∈ rounds.flatMap Round.statements, w.isInPlace = true := by
  intro w hw
  obtain ⟨r, -, hw⟩ := List.mem_flatMap.mp hw
  obtain ⟨u, -, hw⟩ := List.mem_flatMap.mp hw
  simp only [Update.statements, List.mem_cons, List.not_mem_nil, or_false] at hw
  rcases hw with rfl | rfl | rfl | rfl | rfl | rfl <;> rfl

/-- What the statements of rounds touch. -/
theorem touchedConfigs_statements (rounds : List Round) :
    touchedConfigs (rounds.flatMap Round.statements) = (updatesOf rounds).map Update.configId := by
  unfold touchedConfigs updatesOf
  induction rounds with
  | nil => rfl
  | cons r rounds ih =>
    rw [List.flatMap_cons, List.filterMap_append, List.map_append, ih, List.filterMap_cons]
    unfold Round.statements
    cases r.update with
    | none => rfl
    | some u => rfl

theorem updatesOf_append (rounds rounds' : List Round) :
    updatesOf (rounds ++ rounds') = updatesOf rounds ++ updatesOf rounds' :=
  List.filterMap_append

/-- A round that only marks its change. -/
theorem Batch.Fits.skip (h : batch.Fits s writes locks rounds) (id : UUID) (t : Instant) :
    Batch.Fits s writes locks
      { batch with pending := batch.pending ++ [.change (.setAppliedAt id t)] }
      (rounds ++ [⟨none, some (id, t)⟩]) := by
  have hupdates : updatesOf (rounds ++ [⟨none, some (id, t)⟩]) = updatesOf rounds := by
    rw [updatesOf_append]
    exact List.append_nil _
  refine ⟨?_, ?_, h.session, ?_, ?_, ?_, ?_⟩
  · rw [List.flatMap_append]
    exact h.writes_eq.trans (List.append_nil _).symm
  · show batch.pending ++ _ = _
    rw [List.flatMap_append, h.pending_eq]
    rfl
  · exact ⟨hupdates ▸ h.fits.known, hupdates ▸ h.fits.current, hupdates ▸ h.fits.locked,
      hupdates ▸ h.fits.separate, hupdates ▸ h.fits.restored⟩
  · exact hupdates ▸ h.remembered
  · exact hupdates ▸ h.responses
  · exact hupdates ▸ h.notifications

/-- One more update fits the ones before it, if it is in another environment. -/
theorem RoundsFit.append {locks' : List Row} {round : Round} {u : Update}
    (h : RoundsFit s locks rounds)
    (hupdates : updatesOf (rounds ++ [round]) = updatesOf rounds ++ [u])
    (hlocks : locks ⊆ locks') (hlocked : .config u.configId ∈ locks') (hknown : u.Known s)
    (hcurrent : u.Current s)
    (hnew : ∀ v ∈ updatesOf rounds, v.environment.id ≠ u.environment.id)
    (hrestored : ∀ t, u.sourceVersion = some t → u.Restores s t) :
    RoundsFit s locks' (rounds ++ [round]) := by
  refine ⟨?_, ?_, ?_, ?_, ?_⟩
  · rw [hupdates]
    exact List.forall_mem_append.mpr ⟨h.known, List.forall_mem_singleton.mpr hknown⟩
  · rw [hupdates]
    exact List.forall_mem_append.mpr ⟨h.current, List.forall_mem_singleton.mpr hcurrent⟩
  · rw [hupdates]
    exact List.forall_mem_append.mpr ⟨fun v hv => hlocks (h.locked v hv),
      List.forall_mem_singleton.mpr hlocked⟩
  · rw [hupdates, List.map_append]
    refine List.nodup_append.mpr ⟨h.separate, List.nodup_singleton _, fun id hid id' hid' => ?_⟩
    obtain ⟨v, hv, rfl⟩ := List.mem_map.mp hid
    obtain rfl := List.mem_singleton.mp hid'
    exact hnew v hv
  · rw [hupdates]
    exact List.forall_mem_append.mpr ⟨h.restored, List.forall_mem_singleton.mpr hrestored⟩

/-- **A round that updates**, in an environment that no earlier round has updated. -/
theorem Batch.Fits.update {u : Update} {config : LoadedConfig} {project : ProjectRow}
    {writes' : List Write} {locks' : List Row} {out : FlagResponse × List Write} (id : UUID)
    (t : Instant) (n : Notification) (h : batch.Fits s writes locks rounds)
    (hupdated : Updated u writes locks s writes' locks' s' out)
    (henvironment : u.environment = config.environment) (hproject : u.project = project)
    (hsource : u.sourceVersion = none)
    (hnew : config.environment.id ∉ batch.session.environments.map EnvironmentRow.id)
    (hknows : s.KnowsJoined config.row config.flag config.environment)
    (hn : u.NotifiesWith n) :
    Batch.Fits s' writes' locks' {
        session := batch.session.remember config project u.payload
        pending := batch.pending ++ out.2
          ++ [.environment (.setRevision config.environment.id (config.environment.revision + 1)),
            .change (.setAppliedAt id t)]
        responses := batch.responses ++ [out.1]
        notifications := batch.notifications ++ [n] }
      (rounds ++ [⟨some u, some (id, t)⟩]) := by
  have hupdates : updatesOf (rounds ++ [⟨some u, some (id, t)⟩]) = updatesOf rounds ++ [u] :=
    updatesOf_append _ _
  have hsince := hupdated.evolves
  have hfits := h.fits.evolve hsince
  have hother : ∀ v ∈ updatesOf rounds, v.environment.id ≠ u.environment.id := by
    intro v hv heq
    rw [henvironment] at heq
    exact hnew (heq ▸ h.remembered v hv)
  refine ⟨?_, ?_, ?_, ?_, ?_, ?_, ?_⟩
  · rw [hupdated.writes_eq, List.flatMap_append, h.writes_eq]
    simp [Round.statements]
  · show batch.pending ++ out.2 ++ _ = _
    rw [List.flatMap_append, h.pending_eq, hupdated.pending_eq]
    simp [Round.pending, henvironment]
  · exact (h.session.evolve hsince).remember (hproject ▸ hupdated.known.projectKnown)
      (hknows.evolve hsince) u.payload
  · refine hfits.append hupdates ?_ ?_ hupdated.known (hupdated.current ?_) hother
      (fun v hv => ?_)
    · rw [hupdated.locks_eq]
      exact List.subset_append_left _ _
    · rw [hupdated.locks_eq]
      exact List.mem_append_right _ List.mem_cons_self
    · -- an earlier update of the same configuration would be in the same environment
      rw [h.writes_eq, touchedConfigs_statements]
      intro htouched
      obtain ⟨v, hv, hid⟩ := List.mem_map.mp htouched
      have hidentity := identity_of_id hupdated.consistent (hfits.known v hv).config
        hupdated.known.config hid
      exact hother v hv (congrArg FlagConfigRow.Identity.environmentId hidentity)
    · rw [hsource] at hv
      cases hv
  · rw [hupdates]
    refine List.forall_mem_append.mpr ⟨fun v hv => List.mem_cons_of_mem _ (h.remembered v hv),
      List.forall_mem_singleton.mpr ?_⟩
    rw [henvironment]
    exact List.mem_cons_self
  · rw [hupdates]
    exact List.rel_append h.responses (.cons ⟨hupdated.response_id,
      hupdated.response_environmentId, hupdated.response_version, hupdated.response_content⟩ .nil)
  · rw [hupdates]
    exact List.rel_append h.notifications (.cons hn .nil)

/-- **The round is one for a change**: it marks the change, and what it updates is
the configuration of the change. -/
def Round.IsFor (round : Round) (change : ScheduledChangeRow) : Prop :=
  round.applied.map Prod.fst = some change.id
    ∧ ∀ u, round.update = some u → u.configId = change.configId

/-- **One round keeps the invariant.** It marks its change, and makes an update where the
configuration and the project exist. -/
theorem ensures_applyChange (h : batch.Fits s writes locks rounds) (change : ScheduledChangeRow) :
    (applyChange batch change).Ensures discipline
      (fun writes' locks' s' batch' => ∃ round,
        batch'.Fits s' writes' locks' (rounds ++ [round]) ∧ round.IsFor change)
      writes locks s := by
  have hplace : ∀ w ∈ writes, w.isInPlace = true := by
    rw [h.writes_eq]
    exact isInPlace_statements rounds
  unfold applyChange
  refine ensures_reads (ensures_getConfig hplace h.session change.configId)
    (fun s₁ found h₁ hfound => ?_)
  cases found with
  | none =>
    refine ensures_choose (fun s₂ chosen h₂ _ => Prog.Ensures.ret ?_)
    exact ⟨_, ((h.evolve h₁).evolve h₂).skip change.id chosen.now, rfl, fun _ h => nomatch h⟩
  | some configRow =>
    obtain ⟨hconfigRow, hconfigRowId⟩ := hfound configRow rfl
    -- the session now remembers the row of the configuration
    have hbatch : Batch.Fits s₁ writes locks
        { batch with session :=
          { batch.session with configs := configRow :: batch.session.configs } } rounds := by
      have hold := h.evolve h₁
      exact { hold with
        session := { hold.session with
          configs := List.forall_mem_cons.mpr ⟨hconfigRow, hold.session.configs⟩ } }
    dsimp only
    refine ensures_reads (ensures_loadConfig hplace hbatch.session configRow.flagId
      configRow.environmentId) (fun s₂ config h₂ hconfig => ?_)
    obtain ⟨hknows, hpair⟩ := hconfig
    have hbatch₂ := hbatch.evolve h₂
    refine ensures_reads (ensures_getProject hplace hbatch₂.session config.flag.projectId)
      (fun s₃ found₃ h₃ hproject => ?_)
    cases found₃ with
    | none =>
      refine ensures_choose (fun s₄ chosen h₄ _ => Prog.Ensures.ret ?_)
      exact ⟨_, (((h.evolve h₁).evolve h₂).evolve (h₃.trans h₄)).skip change.id chosen.now, rfl,
        fun _ h => nomatch h⟩
    | some project =>
      obtain ⟨hproject, hprojectId⟩ := hproject project rfl
      dsimp only
      refine ensures_attempt_bind (fun compiled _ => ?_)
      refine ensures_attempt_bind (fun current _ => ?_)
      refine ensures_attempt_bind (fun applied happlied => ?_)
      obtain ⟨payload, action, event⟩ := applied
      have hknows₃ := hknows.evolve h₃
      have hremembered : ∀ row, some config.row = some row → s₃.KnowsConfig row
          ∧ row.flagId = config.flag.id ∧ row.environmentId = config.environment.id := by
        rintro row heq
        cases heq
        exact ⟨hknows₃.configKnown, hknows₃.flagId, hknows₃.environmentId⟩
      refine (ensures_updateFlag hplace hknows₃.flagKnown hknows₃.environmentKnown hproject
        hprojectId.symm hremembered).bind ?_
      · rintro writes' locks' s₄ out ⟨configId, salt, built, final, hupdated, hid⟩
        refine ensures_raiseIf (fun hnew => ensures_choose (fun s₅ chosen h₅ _ =>
          Prog.Ensures.ret ?_))
        have hnext := Batch.Fits.update change.id chosen.now ⟨project.id,
            config.row.environmentId, config.flag.key, event, out.1.currentVersion,
            config.environment.revision + 1⟩ (hbatch₂.evolve h₃) hupdated rfl rfl rfl hnew hknows₃
          ⟨rfl, hknows₃.environmentId, rfl, hupdated.response_version, rfl,
            applyPayload_event_ne happlied⟩
        refine ⟨_, hnext.evolve h₅, rfl, fun u hu => ?_⟩
        -- the configuration that was loaded is the one the change names
        cases hu
        have hsame := identity_of_pair hupdated.consistent
          (((hconfigRow.evolve h₂).evolve h₃).evolve hupdated.evolves)
          (hknows₃.configKnown.evolve hupdated.evolves) hpair.1.symm hpair.2.symm
        exact (hid _ rfl).trans
          ((congrArg FlagConfigRow.Identity.id hsame).symm.trans hconfigRowId)

/-- The loop keeps the invariant, with a round for each change. -/
theorem ensures_applyChanges {changes : List ScheduledChangeRow}
    (h : batch.Fits s writes locks rounds) :
    (applyChanges batch changes).Ensures discipline
      (fun writes' locks' s' batch' => ∃ new, batch'.Fits s' writes' locks' (rounds ++ new)
        ∧ List.Forall₂ (fun change round => round.IsFor change) changes new)
      writes locks s := by
  induction changes generalizing batch writes locks s rounds with
  | nil => exact Prog.Ensures.ret ⟨[], (List.append_nil rounds).symm ▸ h, .nil⟩
  | cons change rest ih =>
    unfold applyChanges
    refine (ensures_applyChange h change).bind (fun writes' locks' s' next hnext => ?_)
    obtain ⟨round, hnext, hround⟩ := hnext
    refine (ih hnext).mono (fun _ _ _ batch' hbatch => ?_)
    obtain ⟨new, hfits, hnew⟩ := hbatch
    rw [List.append_assoc] at hfits
    exact ⟨round :: new, hfits, .cons hround hnew⟩

/-- The batch of a worker before its first round. -/
theorem Batch.fits_empty (s : Database) (locks : List Row) :
    Batch.Fits s [] locks ⟨.empty, [], [], []⟩ [] := by
  have hnone : ∀ {α : Type} {P : α → Prop}, ∀ x ∈ ([] : List α), P x :=
    fun _ hx => absurd hx List.not_mem_nil
  exact ⟨rfl, rfl, ⟨hnone, hnone, hnone, hnone⟩,
    ⟨hnone, hnone, hnone, .nil, hnone⟩, hnone, .nil, .nil⟩

/-- **The commit of a batch**: its rounds, one for each change. -/
structure CommitsRounds (changes : List ScheduledChangeRow) (rounds : List Round)
    (writes : List Write) (locks : List Row) (s : Database) (outcome : Outcome) : Prop where
  writes_eq : roundWrites rounds = writes
  fits : RoundsFit s locks rounds
  returns : (Effect.rounds rounds).Returns outcome
  rounds : List.Forall₂ (fun change round => round.IsFor change) changes rounds

/-- The rounds of a worker that took some changes, and its commit. -/
theorem ensures_batch (changes : List ScheduledChangeRow) (locks : List Row) (s : Database) :
    (applyChanges ⟨.empty, [], [], []⟩ changes >>= fun batch => do
      flush batch.pending
      pure (⟨batch.responses, batch.notifications⟩ : Outcome)).Ensures discipline
        (fun writes locks s outcome => ∃ rounds,
          CommitsRounds changes rounds writes locks s outcome)
        [] locks s := by
  refine (ensures_applyChanges (Batch.fits_empty s locks)).bind
    (fun writes' locks' s' batch hbatch => ?_)
  obtain ⟨rounds, hbatch, hrounds⟩ := hbatch
  rw [List.nil_append] at hbatch
  refine ensures_flush (fun s₂ h₂ _ => Prog.Ensures.ret ?_)
  have hfits := hbatch.fits.evolve h₂
  refine ⟨rounds, ?_, ?_, ⟨hbatch.responses, hbatch.notifications⟩, hrounds⟩
  · show roundWrites rounds = _
    rw [hbatch.writes_eq, hbatch.pending_eq]
    rfl
  · exact ⟨hfits.known, hfits.current, fun u hu => List.mem_append_left _ (hfits.locked u hu),
      hfits.separate, hfits.restored⟩

/-- **The scheduler commits rounds.** -/
theorem ensures_applyDueChanges : applyDueChanges.Ensures discipline Commits [] [] s := by
  intro s₁ h₁ hs₁ locked choice _
  exact (ensures_batch _ _ s₁).mono (fun _ _ _ _ ⟨rounds, h⟩ =>
    ⟨.rounds rounds, h.writes_eq, h.fits, h.returns⟩)

end Loop

/-! ## Every request -/

/-- **Every request ends with the writes of one effect, which is of what was asked
for.** -/
theorem Request.ensures_of (request : Request) (s : Database) :
    request.program.Ensures discipline (CommitsOf request) [] [] s := by
  cases request with
  | createOrganization principal requestId payload =>
    exact ensures_createOrganization principal requestId payload
  | createProject principal requestId payload =>
    exact ensures_createProject principal requestId payload
  | createEnvironment principal requestId projectId payload =>
    exact ensures_createEnvironment principal requestId projectId payload
  | createKey principal requestId payload kind =>
    exact ensures_createKeyEndpoint principal requestId payload kind
  | createFeatureFlag principal requestId projectId payload =>
    exact ensures_createFeatureFlag principal requestId projectId payload
  | replaceFlagConfiguration principal requestId flagId payload =>
    exact ensures_replaceFlagConfiguration principal requestId flagId payload
  | addTargetingRule principal requestId flagId payload =>
    exact ensures_addTargetingRule principal requestId flagId payload
  | rollbackFeatureFlag principal requestId flagId targetVersion payload =>
    refine (ensures_rollbackFeatureFlag principal requestId flagId targetVersion payload).mono ?_
    rintro writes locks s' outcome ⟨u, h, hrolls, hscope⟩
    exact ⟨.rounds [⟨some u, none⟩], h.writes_eq, h.fits, h.returns,
      ⟨u, rfl, hrolls.flagId, hrolls.environmentId⟩, hscope⟩
  | archiveFlag principal requestId flagId => exact ensures_archiveFlag principal requestId flagId
  | scheduleChange principal requestId flagId payload =>
    exact ensures_scheduleChange principal requestId flagId payload
  | applyDueChanges =>
    exact ensures_applyDueChanges.mono (fun _ _ _ _ ⟨effect, hwrites, hfits, hreturns⟩ =>
      ⟨effect, hwrites, hfits, hreturns, trivial⟩)

/-- **Every request ends with the writes of one effect.** -/
theorem Request.ensures (request : Request) (s : Database) :
    request.program.Ensures discipline Commits [] [] s :=
  (request.ensures_of s).mono (fun _ _ _ _ h => h.commits)

end CohortSwitch
