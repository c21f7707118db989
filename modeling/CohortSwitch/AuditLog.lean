import CohortSwitch.AuditEvents
import CohortSwitch.AtomicRead
import CohortSwitch.ScheduledOnce

/-!
# The log of a run

`Request.enters` follows every program to the event it records: an endpoint
authorizes the principal and enters one event with its last flush; a round of
the scheduler goes through its changes with what the session remembers, and
each update leaves one event pending. With the journal of audit events, every
event of a run is one that a request recorded (`audited_of_run`), and it is about
something of its organization (`filed_of_run`): what is listed for an
organization never tells of another one's rows.

The scheduler is the one request that authorizes nobody. The actor of its events is whoever
scheduled the change, and the organization is that of the flag: both come from rows that
the session may have loaded in an earlier round, so the loop carries along that the session
remembers only what is a fact (`Session.Known`).

An event is filed under what it is about (`AuditEventRow.Filed`). For an event that names an
environment this says more than that the environment exists: the flag has a configuration
there.
-/

namespace CohortSwitch

/-! ## Reading a configuration -/

section Reading

variable {κ : Type} {entry : Write → Option κ} {known : Set Fact}

/-- The flag that is got is a fact. -/
theorem enters_getFlag (flagId : UUID) :
    (getFlag flagId).Enters entry learnsRows known (fun known' entries found => entries = []
      ∧ ∀ flag ∈ found, flag.id = flagId ∧ .flag flagId flag.projectId ∈ known') := by
  refine fun v _ => ⟨rfl, fun flag hflag => ?_⟩
  obtain ⟨hmem, hid⟩ := mem_and_of_find? hflag
  have hholds : v.state.Holds (.flag flagId flag.projectId) :=
    List.mem_map.mpr ⟨flag, hmem, Prod.ext hid rfl⟩
  exact ⟨hid, Set.subset_union_right hholds⟩

/-- The SELECTs of the collections leave the row as it was found. -/
theorem yields_collectionsOf (row : FlagConfigRow) (flag : FeatureFlagRow)
    (environment : EnvironmentRow) :
    (loadCollections row flag environment).Yields
      (fun config => config.row = row ∧ config.flag = flag ∧ config.environment = environment) :=
  fun _ _ _ _ _ _ _ => ⟨rfl, rfl, rfl⟩

/-- What the main SELECT of a configuration says. -/
theorem facts_of_configOfFlag {db : Database} {flagId environmentId : UUID} {row : FlagConfigRow}
    {flag : FeatureFlagRow} {environment : EnvironmentRow}
    (h : db.configOfFlag flagId environmentId = some (row, flag, environment)) :
    (row.flagId = flagId ∧ row.environmentId = environmentId)
      ∧ flag.id = flagId ∧ environment.id = environmentId
      ∧ Fact.config row.id flagId environmentId ∈ db.facts
      ∧ .flag flagId flag.projectId ∈ db.facts := by
  obtain ⟨⟨hrow, hflagId, henvironmentId⟩, ⟨hflag, hid⟩, -, hin⟩ := configOfFlag_eq_some h
  refine ⟨⟨hflagId, henvironmentId⟩, hid.trans hflagId, hin.trans henvironmentId, ?_, ?_⟩
  · exact List.mem_map.mpr ⟨row, hrow, Prod.ext rfl (Prod.ext hflagId henvironmentId)⟩
  · exact List.mem_map.mpr ⟨flag, hflag, Prod.ext (hid.trans hflagId) rfl⟩

/-- And so is its configuration. -/
theorem enters_getConfigByFlagEnvironment (flagId environmentId : UUID) :
    (getConfigByFlagEnvironment flagId environmentId).Enters entry learnsRows known
      (fun known' entries config => entries = [] ∧ config.flag.id = flagId
        ∧ config.environment.id = environmentId
        ∧ .config config.row.id flagId environmentId ∈ known'
        ∧ .flag flagId config.flag.projectId ∈ known') := by
  refine enters_select (fun db known' _ hdb => ?_)
  cases hfound : db.configOfFlag flagId environmentId with
  | none => exact trivial
  | some found =>
    obtain ⟨row, flag, environment⟩ := found
    obtain ⟨-, hid, hin, hconfig, hflag⟩ := facts_of_configOfFlag hfound
    have hload : (loadCollections row flag environment).Enters entry learnsRows known'
        (fun known'' entries _ => known' ⊆ known'' ∧ entries = []) :=
      (reads_loadCollections row flag environment).enters known'
    refine (hload.and_yields (yields_collectionsOf row flag environment)).bind ?_
    rintro known'' entries config ⟨⟨hknown, rfl⟩, rfl, rfl, rfl⟩
    split
    · exact trivial
    · exact ⟨rfl, hid, hin, hknown (hdb hconfig), hknown (hdb hflag)⟩

end Reading

/-! ## Updates -/

/-- **The event an update leaves pending** names what the update responds with. -/
structure UpdateEvent (flag : FeatureFlagRow) (environment : EnvironmentRow) (project : ProjectRow)
    (actorUserId actorApiKeyId : Option UUID) (requestId : Option String) (action : String)
    (event : AuditEventRow) (response : FlagResponse) : Prop where
  /-- Key, version and environment revision are those of the response. -/
  names : event.Names response
  /-- The response is about the environment that was read. -/
  environmentId : response.environmentId = environment.id.str
  /-- The event is about the flag, -/
  resourceId : event.resourceId = flag.id
  /-- and is filed under the organization of its project. -/
  organizationId : event.organizationId = project.organizationId
  /-- The rest is what `update_flag` was given. -/
  actorUserId : event.actorUserId = actorUserId
  actorApiKeyId : event.actorApiKeyId = actorApiKeyId
  requestId : event.requestId = requestId
  action : event.action = action

section Updates

variable {known : Set Fact} {flag : FeatureFlagRow} {environment : EnvironmentRow}
  {project : ProjectRow} {actorUserId actorApiKeyId : Option UUID} {requestId : Option String}
  {action : String}

/-- An update leaves such an event. -/
theorem yields_updateEvent (found : Option FlagConfigRow) (payload : FlagUpdate)
    (sourceVersion : Option ℕ) :
    (updateFlag found flag environment project payload actorUserId actorApiKeyId requestId action
      sourceVersion).Yields (fun out => ∃ event, out.2.filterMap Write.audit? = [event]
        ∧ UpdateEvent flag environment project actorUserId actorApiKeyId requestId action event
          out.1) := by
  unfold updateFlag
  refine (Prog.yields_true _).bind (fun found _ => ?_)
  cases found with
  | none => exact trivial
  | some row =>
    dsimp only
    split
    · exact trivial
    refine (Prog.yields_attempt (fun _ h => h)).bind (fun compiled hbuilt => ?_)
    refine (Prog.yields_true _).bind (fun updated _ => ?_)
    cases updated with
    | false => exact (Prog.yields_true _).bind (fun _ _ => trivial)
    | true =>
      refine (Prog.yields_true _).bind (fun _ _ => (Prog.yields_true _).bind (fun final _ => ?_))
      refine (Prog.yields_true _).bind (fun _ _ => ?_)
      refine (Prog.yields_attempt (fun _ h => h)).bind (fun result hresponse => ?_)
      have hfields := buildConfiguration_eq_ok_iff.mp hbuilt
      obtain ⟨hid, henvironment, hversion, hkey⟩ := response_eq_ok hresponse
      refine ⟨⟨project.organizationId, actorUserId, actorApiKeyId, action, "feature_flag", flag.id,
        requestId, updateMetadata flag.key environment.id (payload.expectedVersion + 1)
          sourceVersion, final.now⟩, ?_, ?_⟩
      · show (updatePending _ _ _ _ _ _ _ _ _ _ _ _).filterMap Write.audit? = _
        simp [updatePending, recordAudit, List.filterMap_append, List.filterMap_map,
          Function.comp_def, List.filterMap_cons, Write.audit?]
      · have henvironmentId : result.environmentId = environment.id.str :=
          henvironment.trans hfields.environmentId
        refine ⟨⟨rfl, hid.symm, ?_, ?_, ?_⟩, henvironmentId, rfl, rfl, rfl, rfl, rfl, rfl⟩
        · rw [hkey]
          rfl
        · rw [henvironmentId]
          rfl
        · rw [hversion, hfields.configVersion]
          rfl

/-- **The configuration that is updated** is there. -/
theorem enters_updated {κ : Type} {entry : Write → Option κ} (found : Option FlagConfigRow)
    (payload : FlagUpdate) (sourceVersion : Option ℕ) :
    (updateFlag found flag environment project payload actorUserId actorApiKeyId requestId action
      sourceVersion).Enters entry learnsRows known
        (fun known' _ _ => ∃ configId, Fact.config configId flag.id environment.id ∈ known') := by
  refine enters_select (fun db known' _ hdb => ?_)
  cases hfind : db.configs.find? (fun row =>
      row.flagId = flag.id ∧ row.environmentId = environment.id) with
  | none => exact trivial
  | some row =>
    obtain ⟨hmem, hflagId, henvironmentId⟩ := mem_and_of_find? hfind
    have hconfig : Fact.config row.id flag.id environment.id ∈ known' :=
      hdb (List.mem_map.mpr ⟨row, hmem, Prod.ext rfl (Prod.ext hflagId henvironmentId)⟩)
    refine Prog.Enters.mono (fun known'' _ _ h => ⟨row.id, h.1 hconfig⟩)
      (Prog.enters_of_forall (P := fun _ _ _ => True) _ (fun _ _ _ => trivial)).keeps

/-- **A passage through `updateFlag`** enters nothing and leaves its event pending. -/
theorem enters_updateFlag (found : Option FlagConfigRow) (payload : FlagUpdate)
    (sourceVersion : Option ℕ) :
    (updateFlag found flag environment project payload actorUserId actorApiKeyId requestId action
      sourceVersion).Enters Write.audit? learnsRows known (fun known' entries out => entries = []
        ∧ known ⊆ known' ∧ out.1.Shows known' flag.id environment.id
        ∧ ∃ event, out.2.filterMap Write.audit? = [event]
          ∧ UpdateEvent flag environment project actorUserId actorApiKeyId requestId action event
            out.1) := by
  have hsilent : ∀ w : Write, w.isStatement = true → w.audit? = none := by
    intro w hw
    cases w <;> first | rfl | cases hw
  have hwrites : (updateFlag found flag environment project payload actorUserId actorApiKeyId
      requestId action sourceVersion).Enters Write.audit? learnsRows known
        (fun _ entries out => entries = [] ∧ PendsOne out.2) :=
    (writes_updateFlag found flag environment project payload actorUserId actorApiKeyId requestId
      action sourceVersion).enters hsilent
  refine ((hwrites.and (enters_updated found payload sourceVersion)).keeps.and_yields
    (yields_updateEvent found payload sourceVersion)).mono (fun known' entries out h => ?_)
  obtain ⟨⟨hknown, ⟨hentries, -⟩, hconfig⟩, event, hpending, hevent⟩ := h
  exact ⟨hentries, hknown, ⟨hevent.environmentId, hconfig⟩, event, hpending, hevent⟩

/-- **An endpoint that updates a flag** enters the event of its update. -/
theorem enters_updateEndpoint (principal : Principal) (found : Option FlagConfigRow)
    (payload : FlagUpdate) (sourceVersion : Option ℕ) {flagKey event : String}
    {environmentId : UUID} (henvironment : environment.id = environmentId)
    (hallowed : principal.Allowed known project.organizationId .flagWrite)
    (howns : Owns known project.organizationId flag.id) :
    (updateFlag found flag environment project payload principal.userId principal.apiKeyId
      requestId action sourceVersion >>= fun out =>
        commitUpdate project environment flagKey event out.1 out.2).Enters Write.audit? learnsRows
      known (fun known' events outcome => RecordsVersion known' principal requestId flag.id
        environmentId action events outcome) := by
  subst henvironment
  refine (enters_updateFlag found payload sourceVersion).bind ?_
  rintro known₁ entries out ⟨rfl, hknown₁, hshows, row, hpending, hrow⟩
  refine enters_flush (fun known₂ hknown₂ _ => ?_)
  have hknown := hknown₁.trans hknown₂
  refine ⟨row, out.1, ?_, rfl, ?_, hrow.names, hshows.mono hknown₂, hrow.resourceId, ?_⟩
  · rw [List.filterMap_append, hpending]
    rfl
  · refine ⟨hrow.actorUserId, hrow.actorApiKeyId, hrow.requestId, hrow.action,
      hrow.names.resourceType, ?_⟩
    rw [hrow.organizationId]
    exact hallowed.mono hknown
  · rw [hrow.organizationId]
    exact howns.mono hknown

end Updates

/-! ## The scheduler -/

/-- **What a session remembers** is what the rows say. -/
structure Session.Known (session : Session) (known : Set Fact) : Prop where
  /-- What configuration is of which flag and environment. -/
  configs : ∀ row ∈ session.configs, Fact.config row.id row.flagId row.environmentId ∈ known
  /-- What flag is of which project. -/
  flags : ∀ row ∈ session.flags, Fact.flag row.id row.projectId ∈ known
  /-- What project is of which organization. -/
  projects : ∀ row ∈ session.projects, Fact.project row.id row.organizationId ∈ known

/-- **What the loop has gathered**: each response has its event pending. -/
structure Batch.Recorded (batch : Batch) (known : Set Fact) : Prop where
  /-- What the session remembers is so. -/
  session : batch.session.Known known
  /-- The pending events are those of the responses, in order. -/
  events : List.Forall₂ (fun event response => event.IsScheduled known response)
    (batch.pending.filterMap Write.audit?) batch.responses

section Scheduler

variable {known known' : Set Fact} {session : Session} {batch : Batch}

/-- It stays so when more is known. -/
theorem Session.Known.mono (hknown : known ⊆ known') (h : session.Known known) :
    session.Known known' :=
  ⟨fun row hrow => hknown (h.configs row hrow), fun row hrow => hknown (h.flags row hrow),
    fun row hrow => hknown (h.projects row hrow)⟩

/-- And what the loop has gathered does. -/
theorem Batch.Recorded.mono (hknown : known ⊆ known') (h : batch.Recorded known) :
    batch.Recorded known' :=
  ⟨h.session.mono hknown, h.events.imp (fun _ _ => AuditEventRow.IsScheduled.mono hknown)⟩

/-- A configuration is remembered, or learned. -/
theorem Session.Known.getConfig (h : session.Known known) (id : UUID) :
    (session.getConfig id).Enters Write.audit? learnsRows known (fun known' entries found =>
      entries = [] ∧ ∀ row ∈ found, row.id = id
        ∧ .config id row.flagId row.environmentId ∈ known') := by
  unfold Session.getConfig
  split
  · rename_i row hfound
    obtain ⟨hmem, rfl⟩ := mem_and_of_find? hfound
    exact ⟨rfl, fun other hother => Option.some.inj hother ▸ ⟨rfl, h.configs row hmem⟩⟩
  · refine fun v _ => ⟨rfl, fun row hrow => ?_⟩
    obtain ⟨hmem, hid⟩ := mem_and_of_find? hrow
    have hholds : v.state.Holds (.config id row.flagId row.environmentId) :=
      List.mem_map.mpr ⟨row, hmem, Prod.ext hid rfl⟩
    exact ⟨hid, Set.subset_union_right hholds⟩

/-- So is a project. -/
theorem Session.Known.getProject (h : session.Known known) (id : UUID) :
    (session.getProject id).Enters Write.audit? learnsRows known (fun known' entries found =>
      entries = [] ∧ ∀ row ∈ found, row.id = id ∧ .project id row.organizationId ∈ known') := by
  unfold Session.getProject
  split
  · rename_i row hfound
    obtain ⟨hmem, rfl⟩ := mem_and_of_find? hfound
    exact ⟨rfl, fun other hother => Option.some.inj hother ▸ ⟨rfl, h.projects row hmem⟩⟩
  · refine fun v _ => ⟨rfl, fun row hrow => ?_⟩
    obtain ⟨hmem, hid⟩ := mem_and_of_find? hrow
    have hholds : v.state.Holds (.project id row.organizationId) :=
      List.mem_map.mpr ⟨row, hmem, Prod.ext hid rfl⟩
    exact ⟨hid, Set.subset_union_right hholds⟩

/-- Whatever the session loaded before, the flag is the one that was asked for. -/
theorem Session.Known.loadConfig (h : session.Known known) (flagId environmentId : UUID) :
    (session.loadConfig flagId environmentId).Enters Write.audit? learnsRows known
      (fun known' entries config => entries = [] ∧ config.flag.id = flagId
        ∧ config.environment.id = environmentId
        ∧ .config config.row.id config.row.flagId config.row.environmentId ∈ known'
        ∧ .flag flagId config.flag.projectId ∈ known') := by
  refine enters_select (fun db known₁ hknown₁ hdb => ?_)
  cases hfound : db.configOfFlag flagId environmentId with
  | none => exact trivial
  | some found =>
    obtain ⟨row, flag, environment⟩ := found
    obtain ⟨⟨hflagId, henvironmentId⟩, hid, hin, hconfig, hflag⟩ := facts_of_configOfFlag hfound
    rw [← hflagId, ← henvironmentId] at hconfig
    -- a row is the one that was found, or one the session remembers under its id
    have hrow : ∀ remembered, remembered = (session.configs.find? (fun item =>
        item.id = row.id)).getD row →
        Fact.config remembered.id remembered.flagId remembered.environmentId ∈ known₁ := by
      rintro _ rfl
      exact getD_find? (Q := fun item : FlagConfigRow =>
        Fact.config item.id item.flagId item.environmentId ∈ known₁) (hdb hconfig)
        (fun item hitem _ => hknown₁ (h.configs item hitem))
    have hin' : ((session.environments.find? (fun item => item.id = environment.id)).getD
        environment).id = environmentId :=
      getD_find? (Q := fun item : EnvironmentRow => item.id = environmentId) hin
        (fun item _ hsame => hsame.trans hin)
    have hflag' : ((session.flags.find? (fun item => item.id = flag.id)).getD flag).id = flagId
        ∧ .flag flagId ((session.flags.find? (fun item => item.id = flag.id)).getD flag).projectId
          ∈ known₁ :=
      getD_find? (Q := fun item : FeatureFlagRow => item.id = flagId
          ∧ .flag flagId item.projectId ∈ known₁)
        ⟨hid, hdb hflag⟩ (fun item hitem hsame => by
          have hitemId : item.id = flagId := hsame.trans hid
          exact ⟨hitemId, hitemId ▸ hknown₁ (h.flags item hitem)⟩)
    -- the collections leave the row, the flag and the environment as they were found
    have hload : ∀ row flag environment, (session.loadCollections row flag environment).Yields
        (fun config => config.row = row ∧ config.flag = flag
          ∧ config.environment = environment) := by
      intro row flag environment
      unfold Session.loadCollections
      split
      · exact ⟨rfl, rfl, rfl⟩
      · exact yields_collectionsOf row flag environment
    have hreads : ∀ row flag environment,
        (session.loadCollections row flag environment).Reads := by
      intro row flag environment
      unfold Session.loadCollections
      split
      · exact trivial
      · exact reads_loadCollections row flag environment
    refine (((hreads _ _ _).enters known₁).and_yields (hload _ _ _)).bind ?_
    rintro known₂ entries config ⟨⟨hknown₂, rfl⟩, hcrow, hcflag, hcenvironment⟩
    split
    · exact trivial
    · refine ⟨rfl, ?_, ?_, ?_, ?_⟩
      · rw [hcflag]
        exact hflag'.1
      · rw [hcenvironment]
        exact hin'
      · exact hknown₂ (hrow _ hcrow)
      · rw [hcflag]
        exact hknown₂ hflag'.2

/-- What an update adds to the session it says itself. -/
theorem Session.Known.remember (h : session.Known known) {config : LoadedConfig}
    {project : ProjectRow} (payload : FlagUpdate)
    (hconfig : Fact.config config.row.id config.row.flagId config.row.environmentId ∈ known)
    (hflag : .flag config.flag.id config.flag.projectId ∈ known)
    (hproject : .project project.id project.organizationId ∈ known) :
    (session.remember config project payload).Known known where
  configs := List.forall_mem_cons.mpr ⟨hconfig, h.configs⟩
  flags := List.forall_mem_cons.mpr ⟨hflag, h.flags⟩
  projects := List.forall_mem_cons.mpr ⟨hproject, h.projects⟩

/-- The actions of a scheduled change. -/
theorem applyPayload_action {change : ScheduledChangeRow} {payload : FlagUpdate}
    {applied : FlagUpdate × String × String} (h : applyPayload change payload = .ok applied) :
    applied.2.1 ∈ ["flag.enabled", "flag.disabled", "flag.updated", "rollout.changed"] := by
  unfold applyPayload at h
  split at h
  · cases h
    simp
  split at h
  · cases h
    simp
  split at h
  · obtain ⟨variation, -, h⟩ := bind_eq_ok.mp h
    cases h
    simp
  split at h
  · obtain ⟨value, -, h⟩ := bind_eq_ok.mp h
    obtain ⟨percentage, -, h⟩ := bind_eq_ok.mp h
    obtain ⟨_, -, h⟩ := bind_eq_ok.mp h
    obtain ⟨variation, -, h⟩ := bind_eq_ok.mp h
    obtain ⟨fallback, -, h⟩ := bind_eq_ok.mp h
    obtain ⟨first, -, h⟩ := bind_eq_ok.mp h
    obtain ⟨rest, -, h⟩ := bind_eq_ok.mp h
    cases h
    simp
  · cases h

/-- **One round of the loop** leaves at most one event pending, with its response. -/
theorem enters_applyChange {change : ScheduledChangeRow} (hbatch : batch.Recorded known)
    (hchange : Fact.change change.id change.configId change.createdById ∈ known) :
    (applyChange batch change).Enters Write.audit? learnsRows known
      (fun known' entries next => entries = [] ∧ next.Recorded known') := by
  have hskip : ∀ known', known ⊆ known' → ∀ t : Instant, Batch.Recorded
      { batch with pending := batch.pending ++ [.change (.setAppliedAt change.id t)] } known' := by
    intro known' hknown t
    refine ⟨hbatch.session.mono hknown, ?_⟩
    show List.Forall₂ _ ((batch.pending ++ _).filterMap Write.audit?) batch.responses
    rw [List.filterMap_append]
    show List.Forall₂ _ (_ ++ []) batch.responses
    rw [List.append_nil]
    exact (hbatch.mono hknown).events
  refine Prog.enters_after_learning (hbatch.session.getConfig _)
    (fun known₁ found hknown₁ hfound => ?_)
  cases found with
  | none =>
    exact Prog.enters_after reads_choose (fun known₂ chosen hknown₂ =>
      ⟨rfl, hskip known₂ (hknown₁.trans hknown₂) chosen.now⟩)
  | some configRow =>
    obtain ⟨hfoundId, hconfigRow⟩ := hfound configRow rfl
    have hsession : Session.Known { batch.session with
        configs := configRow :: batch.session.configs } known₁ := by
      have hmono := hbatch.session.mono hknown₁
      have hconfigs := List.forall_mem_cons.mpr ⟨hfoundId ▸ hconfigRow, hmono.configs⟩
      exact { hmono with configs := hconfigs }
    refine Prog.enters_after_learning (hsession.loadConfig _ _)
      (fun known₂ config hknown₂ hconfig => ?_)
    obtain ⟨hflagId, henvironmentId, hrow', hflag⟩ := hconfig
    refine Prog.enters_after_learning ((hsession.mono hknown₂).getProject _)
      (fun known₃ foundProject hknown₃ hproject => ?_)
    cases foundProject with
    | none =>
      exact Prog.enters_after reads_choose (fun known₄ chosen hknown₄ =>
        ⟨rfl, hskip known₄ (((hknown₁.trans hknown₂).trans hknown₃).trans hknown₄) chosen.now⟩)
    | some project =>
      obtain ⟨hprojectId, hproject⟩ := hproject project rfl
      refine Prog.enters_after (Prog.reads_attempt _) (fun known₄ compiled hknown₄ =>
        Prog.enters_after (Prog.reads_attempt _) (fun known₅ current hknown₅ => ?_))
      refine Prog.enters_after_learning (M := fun known' applied => known₅ ⊆ known'
          ∧ applyPayload change current = .ok applied)
        (Prog.enters_attempt (fun applied happlied => ⟨rfl, subset_rfl, happlied⟩))
        (fun known₆ applied _ happlied => ?_)
      obtain ⟨hknown₆, happlied⟩ := happlied
      obtain ⟨payload, auditAction, event⟩ := applied
      refine Prog.Enters.bind (enters_updateFlag _ payload none) ?_
      rintro known₇ entries out ⟨rfl, hknown₇, -, row, hpending, hrow⟩
      refine Prog.enters_after (reads_raiseIf _ _) (fun known₈ _ hknown₈ =>
        Prog.enters_after reads_choose (fun known₉ chosen hknown₉ => ⟨rfl, ?_⟩))
      -- whatever was learned on the way is known at the end
      have hlater₃ : known₃ ⊆ known₉ := (((((hknown₄.trans hknown₅).trans hknown₆).trans
        hknown₇).trans hknown₈).trans hknown₉)
      have hlater₂ : known₂ ⊆ known₉ := hknown₃.trans hlater₃
      have hlater₁ : known₁ ⊆ known₉ := hknown₂.trans hlater₂
      have hlater : known ⊆ known₉ := hknown₁.trans hlater₁
      refine ⟨(hsession.mono hlater₁).remember payload (hlater₂ hrow') ?_ ?_, ?_⟩
      · rw [hflagId]
        exact hlater₂ hflag
      · rw [hprojectId]
        exact hlater₃ hproject
      · show List.Forall₂ _ (((batch.pending ++ out.2) ++ _).filterMap Write.audit?)
          (batch.responses ++ [out.1])
        rw [List.filterMap_append, List.filterMap_append, hpending]
        show List.Forall₂ _ ((batch.pending.filterMap Write.audit? ++ [row]) ++ []) _
        rw [List.append_nil]
        refine List.rel_append (hbatch.mono hlater).events (.cons ?_ .nil)
        refine ⟨hrow.names, hrow.actorApiKeyId, hrow.requestId, ?_, change.id, change.configId,
          configRow.flagId, configRow.environmentId, ?_, hlater₁ hconfigRow,
          hrow.environmentId.trans (congrArg UUID.str henvironmentId),
          hrow.resourceId.trans hflagId, config.flag.projectId, hlater₂ hflag, ?_⟩
        · rw [hrow.action]
          exact applyPayload_action happlied
        · rw [hrow.actorUserId]
          exact hlater hchange
        · rw [hrow.organizationId]
          exact hlater₃ hproject

/-- **The loop** leaves the events of its responses pending. -/
theorem enters_applyChanges {changes : List ScheduledChangeRow} (hbatch : batch.Recorded known)
    (hchanges : ∀ change ∈ changes,
      Fact.change change.id change.configId change.createdById ∈ known) :
    (applyChanges batch changes).Enters Write.audit? learnsRows known
      (fun known' entries batch' => entries = [] ∧ batch'.Recorded known') := by
  induction changes generalizing batch known with
  | nil => exact ⟨rfl, hbatch⟩
  | cons change rest ih =>
    refine Prog.enters_after_learning (enters_applyChange hbatch (hchanges _ List.mem_cons_self))
      (fun known₁ next hknown hnext => ?_)
    exact ih hnext (fun other hother => hknown (hchanges other (List.mem_cons_of_mem _ hother)))

end Scheduler

/-! ## Every request -/

/-- The environment that is authorized is the one that was named. -/
theorem enters_authorizeEnvironment {κ : Type} {entry : Write → Option κ} {known : Set Fact}
    (principal : Principal) (environmentId : UUID) (permission : Permission) :
    (authorizeEnvironment principal environmentId permission).Enters entry learnsRows known
      (fun _ entries found => entries = [] ∧ found.1.id = environmentId) :=
  (((reads_authorizeEnvironment principal environmentId permission).enters known).and_yields
    (yields_authorizeEnvironment principal environmentId permission)).mono
      (fun _ _ _ h => ⟨h.1.2, h.2⟩)

/-- What a part that reads some rows learns, and that it enters nothing. -/
theorem enters_flush_end {known : Set Fact} {pending : List Write} {outcome : Outcome}
    {Q : Set Fact → List AuditEventRow → Outcome → Prop}
    (h : ∀ known', known ⊆ known' → (∀ w ∈ pending, ∀ fact ∈ w.fact?, fact ∈ known') →
      Q known' (pending.filterMap Write.audit?) outcome) :
    (flush pending >>= fun _ => pure outcome).Enters Write.audit? learnsRows known Q := by
  refine enters_flush (fun known' hknown hfacts => ?_)
  show Q known' (pending.filterMap Write.audit? ++ []) outcome
  rw [List.append_nil]
  exact h known' hknown hfacts

/-- A computation enters nothing. -/
theorem enters_attempt_bind {κ α β : Type} {entry : Write → Option κ} {known : Set Fact}
    {x : Except PyError α} {k : α → Tx β} {Q : Set Fact → List κ → β → Prop}
    (h : ∀ a, x = .ok a → (k a).Enters entry learnsRows known Q) :
    (Prog.attempt x >>= k).Enters entry learnsRows known Q := by
  cases x with
  | ok a => exact h a rfl
  | error e => exact trivial

/-- **What every request records.** -/
theorem Request.enters (request : Request) :
    request.program.Enters Write.audit? learnsRows ∅
      (fun known events outcome => request.Records known events outcome) := by
  cases request with
  | createOrganization principal requestId payload =>
    show (CohortSwitch.createOrganization principal requestId payload).Enters _ _ _ _
    unfold CohortSwitch.createOrganization
    split
    · exact trivial
    · rename_i userId huser
      refine Prog.enters_after reads_choose (fun known₁ chosen _ => enters_flush (fun known₂ _ _ =>
        enters_flush_end (fun known₃ _ hfacts => ?_)))
      refine ⟨_, userId, rfl, huser, rfl, rfl, rfl, rfl, rfl, rfl, ?_⟩
      exact hfacts _ List.mem_cons_self _ rfl
  | createProject principal requestId payload =>
    refine Prog.enters_after_learning (enters_authorizeOrganization _ _ _)
      (fun known₁ _ _ hallowed => ?_)
    refine Prog.enters_after reads_choose (fun known₂ chosen hknown₂ =>
      enters_flush (fun known₃ hknown₃ hfacts => enters_flush_end (fun known₄ hknown₄ _ => ?_)))
    refine ⟨_, rfl, ⟨rfl, rfl, rfl, rfl, rfl, ?_⟩, rfl, ?_⟩
    · exact hallowed.mono ((hknown₂.trans hknown₃).trans hknown₄)
    · exact hknown₄ (hfacts _ List.mem_cons_self _ rfl)
  | createEnvironment principal requestId projectId payload =>
    refine Prog.enters_after_learning (enters_authorizeProject _ _ _)
      (fun known₁ found _ hfound => ?_)
    obtain ⟨hid, hproject, hallowed⟩ := hfound
    refine Prog.enters_after reads_choose (fun known₂ chosen hknown₂ =>
      enters_flush (fun known₃ hknown₃ hfacts => enters_flush_end (fun known₄ hknown₄ _ => ?_)))
    have hknown := (hknown₂.trans hknown₃).trans hknown₄
    have hinserted : Fact.environment (chosen.ids 0) found.1.id ∈ known₃ :=
      hfacts _ List.mem_cons_self _ rfl
    exact ⟨_, rfl, ⟨rfl, rfl, rfl, rfl, rfl, hallowed.mono hknown⟩,
      hknown₄ (hid ▸ hinserted), hknown hproject⟩
  | createKey principal requestId payload kind =>
    refine Prog.enters_after_learning (enters_authorizeOrganization _ _ _)
      (fun known₁ _ _ hallowed => ?_)
    unfold createApiKey
    rw [Prog.bind_assoc]
    refine Prog.enters_after (reads_keyScopes payload kind) (fun known₂ found hknown₂ => ?_)
    obtain ⟨scopes, keyPrefix⟩ := found
    dsimp only
    simp only [Prog.bind_assoc]
    refine Prog.enters_after reads_choose (fun known₃ chosen hknown₃ =>
      enters_flush (fun known₄ hknown₄ hfacts => enters_flush_end (fun known₅ hknown₅ _ => ?_)))
    refine ⟨_, scopes, rfl, ⟨rfl, rfl, rfl, rfl, rfl, ?_⟩, rfl, ?_⟩
    · exact hallowed.mono (((hknown₂.trans hknown₃).trans hknown₄).trans hknown₅)
    · exact hknown₅ (hfacts _ List.mem_cons_self _ rfl)
  | createFeatureFlag principal requestId projectId payload =>
    refine Prog.enters_after_learning (enters_authorizeProject _ _ _)
      (fun known₁ found _ hfound => ?_)
    obtain ⟨hid, hproject, hallowed⟩ := hfound
    refine Prog.enters_after_learning (enters_authorizeEnvironment _ _ _)
      (fun known₂ found' hknown₂ hin => ?_)
    dsimp only at hin ⊢
    unfold createFlag
    simp only [Prog.bind_assoc]
    refine Prog.enters_after (reads_raiseIf _ _) (fun known₃ _ hknown₃ => ?_)
    refine Prog.enters_after (reads_select _) (fun known₄ existing hknown₄ => ?_)
    refine Prog.enters_after (reads_raiseIf _ _) (fun known₅ _ hknown₅ => ?_)
    refine Prog.enters_after reads_choose (fun known₆ chosen hknown₆ =>
      enters_flush (fun known₇ hknown₇ hfacts => ?_))
    refine Prog.enters_after reads_choose (fun known₈ salted hknown₈ => ?_)
    refine enters_attempt_bind (fun compiled hbuilt => ?_)
    refine enters_flush (fun known₉ hknown₉ hconfigs => ?_)
    refine Prog.enters_after reads_choose (fun known₁₀ final hknown₁₀ => ?_)
    refine enters_attempt_bind (fun result hresponse => ?_)
    refine enters_flush_end (fun known₁₁ hknown₁₁ _ => ?_)
    obtain ⟨hresultId, henvironment, hversion, hkey⟩ := response_eq_ok hresponse
    have hfields := buildConfiguration_eq_ok_iff.mp hbuilt
    -- what was learned at each statement is still known at the last one
    have hlater₇ : known₇ ⊆ known₁₁ := ((hknown₈.trans hknown₉).trans hknown₁₀).trans hknown₁₁
    have hlater₁ : known₁ ⊆ known₁₁ := (((((hknown₂.trans hknown₃).trans hknown₄).trans
      hknown₅).trans hknown₆).trans hknown₇).trans hlater₇
    have hflag : Fact.flag (chosen.ids 0) found.1.id ∈ known₁₁ :=
      hlater₇ (hfacts _ List.mem_cons_self _ rfl)
    have hconfig : Fact.config (salted.ids 0) (chosen.ids 0) found'.1.id ∈ known₁₁ :=
      (hknown₁₀.trans hknown₁₁) (hconfigs _ List.mem_cons_self _ rfl)
    have henvironmentId : result.environmentId = found'.1.id.str :=
      henvironment.trans hfields.environmentId
    refine ⟨chosen.ids 0, ⟨_, result, rfl, rfl, ⟨rfl, rfl, rfl, rfl, rfl, hallowed.mono hlater₁⟩,
      ⟨rfl, hresultId.symm, ?_, ?_, ?_⟩, ⟨?_, _, hin ▸ hconfig⟩, rfl, found.1.id, hflag, ?_⟩,
      hid ▸ hflag⟩
    · rw [hkey]
      rfl
    · rw [henvironmentId]
      rfl
    · rw [hversion, hfields.configVersion]
      rfl
    · rw [henvironmentId, hin]
    · rw [hid]
      exact hlater₁ hproject
  | replaceFlagConfiguration principal requestId flagId payload =>
    refine Prog.enters_after_learning (enters_getFlag flagId) (fun known₁ found _ hfound => ?_)
    cases found with
    | none => exact trivial
    | some flag =>
      obtain ⟨rfl, hflag⟩ := hfound flag rfl
      refine Prog.enters_after_learning (enters_authorizeProject _ _ _)
        (fun known₂ found hknown₂ hfound => ?_)
      obtain ⟨-, hproject, hallowed⟩ := hfound
      refine Prog.enters_after_learning (enters_authorizeEnvironment _ _ _)
        (fun known₃ found' hknown₃ hin => ?_)
      exact enters_updateEndpoint principal none payload none hin (hallowed.mono hknown₃)
        ⟨_, (hknown₂.trans hknown₃) hflag, hknown₃ hproject⟩
  | addTargetingRule principal requestId flagId payload =>
    refine Prog.enters_after_learning (enters_getConfigByFlagEnvironment flagId _)
      (fun known₁ config _ hconfig => ?_)
    obtain ⟨rfl, hin, -, hflag⟩ := hconfig
    refine Prog.enters_after_learning (enters_authorizeProject _ _ _)
      (fun known₂ found hknown₂ hfound => ?_)
    obtain ⟨-, hproject, hallowed⟩ := hfound
    refine Prog.enters_after (Prog.reads_attempt _) (fun known₃ updatePayload hknown₃ => ?_)
    exact enters_updateEndpoint principal _ updatePayload none hin (hallowed.mono hknown₃)
      ⟨_, (hknown₂.trans hknown₃) hflag, hknown₃ hproject⟩
  | rollbackFeatureFlag principal requestId flagId targetVersion payload =>
    refine Prog.enters_after_learning (enters_getFlag flagId) (fun known₁ found _ hfound => ?_)
    cases found with
    | none => exact trivial
    | some flag =>
      obtain ⟨rfl, hflag⟩ := hfound flag rfl
      refine Prog.enters_after_learning (enters_authorizeProject _ _ _)
        (fun known₂ found hknown₂ hfound => ?_)
      obtain ⟨-, hproject, hallowed⟩ := hfound
      refine Prog.enters_after_learning (enters_authorizeEnvironment _ _ _)
        (fun known₃ found' hknown₃ hin => ?_)
      dsimp only at hin ⊢
      unfold rollbackFlag
      simp only [Prog.bind_assoc]
      refine Prog.enters_after (reads_select _) (fun known₄ config hknown₄ => ?_)
      refine Prog.enters_after (reads_select _) (fun known₅ version hknown₅ => ?_)
      cases version with
      | none => exact trivial
      | some version =>
        dsimp only
        simp only [Prog.bind_assoc]
        refine Prog.enters_after reads_choose (fun known₆ chosen hknown₆ => ?_)
        refine enters_attempt_bind (fun old _ => enters_attempt_bind (fun update _ => ?_))
        have hlater : known₂ ⊆ known₆ :=
          ((hknown₃.trans hknown₄).trans hknown₅).trans hknown₆
        exact enters_updateEndpoint principal none update _ hin (hallowed.mono hlater)
          ⟨_, (hknown₂.trans hlater) hflag, hlater hproject⟩
  | archiveFlag principal requestId flagId =>
    refine Prog.enters_after_learning (enters_getFlag flagId) (fun known₁ found _ hfound => ?_)
    cases found with
    | none => exact trivial
    | some flag =>
      obtain ⟨rfl, hflag⟩ := hfound flag rfl
      dsimp only
      split
      · exact trivial
      refine Prog.enters_after_learning (enters_authorizeProject _ _ _)
        (fun known₂ found hknown₂ hfound => ?_)
      obtain ⟨-, hproject, hallowed⟩ := hfound
      refine Prog.enters_after (reads_selectAll _) (fun known₃ rows hknown₃ => ?_)
      refine Prog.enters_after reads_choose (fun known₄ chosen hknown₄ => ?_)
      refine Prog.enters_after (reads_getEnvironments rows) (fun known₅ touched hknown₅ => ?_)
      refine enters_flush_end (fun known₆ hknown₆ _ => ?_)
      have hlater : known₂ ⊆ known₆ := ((hknown₃.trans hknown₄).trans hknown₅).trans hknown₆
      refine ⟨⟨found.1.organizationId, principal.userId, principal.apiKeyId, "flag.deleted",
        "feature_flag", flag.id, requestId, [("flag_key", .str flag.key), ("archived", .bool true)],
        chosen.now⟩, ?_, ⟨rfl, rfl, rfl, rfl, rfl, hallowed.mono hlater⟩, rfl, rfl, _,
        (hknown₂.trans hlater) hflag, hlater hproject⟩
      simp [List.filterMap_append, List.filterMap_map, Function.comp_def, List.filterMap_cons,
        Write.audit?, recordAudit]
  | scheduleChange principal requestId flagId payload =>
    refine Prog.enters_after_learning (enters_getConfigByFlagEnvironment flagId _)
      (fun known₁ config _ hconfig => ?_)
    obtain ⟨rfl, -, hrow, hflag⟩ := hconfig
    refine Prog.enters_after_learning (enters_authorizeProject _ _ _)
      (fun known₂ found hknown₂ hfound => ?_)
    obtain ⟨-, hproject, hallowed⟩ := hfound
    refine Prog.enters_after (reads_raiseIf _ _) (fun known₃ _ hknown₃ => ?_)
    refine Prog.enters_after reads_choose (fun known₄ chosen hknown₄ =>
      enters_flush (fun known₅ hknown₅ hfacts => enters_flush_end (fun known₆ hknown₆ _ => ?_)))
    have hlater : known₂ ⊆ known₆ := ((hknown₃.trans hknown₄).trans hknown₅).trans hknown₆
    refine ⟨_, config.row.id, rfl, ⟨rfl, rfl, rfl, rfl, rfl, hallowed.mono hlater⟩, ?_,
      (hknown₂.trans hlater) hrow, _, (hknown₂.trans hlater) hflag, hlater hproject⟩
    exact hknown₆ (hfacts _ List.mem_cons_self _ rfl)
  | applyDueChanges =>
    intro v _
    show (applyChanges ⟨.empty, [], [], []⟩ (dueChanges v) >>= fun batch =>
      flush batch.pending >>= fun _ => pure (Outcome.mk batch.responses batch.notifications)).Enters
        Write.audit? learnsRows _ _
    -- before its first round the session remembers nothing
    have hempty : Batch.Recorded ⟨.empty, [], [], []⟩ (∅ ∪ learnsRows v []) :=
      ⟨⟨fun _ h => absurd h List.not_mem_nil, fun _ h => absurd h List.not_mem_nil,
        fun _ h => absurd h List.not_mem_nil⟩, .nil⟩
    refine Prog.enters_after_learning (enters_applyChanges hempty (fun change hchange => ?_))
      (fun known₁ batch _ hbatch => enters_flush_end (fun known₂ hknown₂ _ => ?_))
    · -- the changes that are taken are rows of the state they were taken in
      have hholds : v.state.Holds (.change change.id change.configId change.createdById) :=
        List.mem_map.mpr ⟨change, (mem_dueChanges.1 change hchange).1, rfl⟩
      exact Set.subset_union_right hholds
    · exact hbatch.events.imp (fun _ _ => AuditEventRow.IsScheduled.mono hknown₂)

/-! ## Every run -/

/-- The programs of the service enter what their requests record. -/
theorem says_service : auditJournal.Says (fun request known events outcome =>
    request.Records known events outcome) :=
  Request.enters

/-- What was recorded stays so. -/
theorem persists_records : System.Journal.Persists
    (fun (request : Request) known events outcome => request.Records known events outcome) :=
  fun _ _ _ _ _ hknown h => h.mono hknown

/-- **Every event of a run is one that a request recorded** which has committed. -/
theorem audited_of_run {actions : List (Action Choice Request)} {w : ServiceWorld}
    (hrun : service.run initial actions = some w) {event : AuditEventRow}
    (hevent : event ∈ w.committed.audits) : ∃ done ∈ w.log, ∃ events, event ∈ events
      ∧ done.1.Records w.committed.facts events done.2 := by
  have hlive : ∀ tx ∈ initial.live, auditJournal.Enters (fun request known events outcome =>
      request.Records known events outcome) initial tx := fun tx htx => absurd htx List.not_mem_nil
  obtain ⟨-, new, groups, hgoes⟩ :=
    System.Journal.goes_of_run persists_records says_service hlive hrun
  obtain ⟨done, hdone, events, hmem, hrecords⟩ := hgoes.exists_of_mem hevent List.not_mem_nil
  refine ⟨done, ?_, events, hmem, hrecords⟩
  rw [hgoes.log]
  exact List.mem_append_right _ hdone

/-! ## What an event is about -/

/-- **An event is filed where it belongs**: what it is about is of its organization, and the
environment it names is one that its flag has a configuration in. -/
inductive AuditEventRow.Filed (event : AuditEventRow) (known : Set Fact) : Prop
  | organization (resource : event.resourceType = "organization")
  | project (resource : event.resourceType = "project")
    (owner : .project event.resourceId event.organizationId ∈ known)
  | environment (resource : event.resourceType = "environment") (projectId : UUID)
    (belongs : .environment event.resourceId projectId ∈ known)
    (owner : .project projectId event.organizationId ∈ known)
  | flag (resource : event.resourceType = "feature_flag")
    (owner : Owns known event.organizationId event.resourceId)
    (named : ∀ text, event.metadata.lookup "environment_id" = some (.str text) →
      ∃ configId environmentId, .config configId event.resourceId environmentId ∈ known
        ∧ text = environmentId.str)
  | change (resource : event.resourceType = "scheduled_change")
    (configId flagId environmentId : UUID) (createdById : Option UUID)
    (scheduled : .change event.resourceId configId createdById ∈ known)
    (configured : .config configId flagId environmentId ∈ known)
    (owner : Owns known event.organizationId flagId)
  | apiKey (resource : event.resourceType = "api_key") (scopes : List String)
    (owner : .apiKey event.resourceId event.organizationId scopes ∈ known)

section Filed

variable {known : Set Fact} {event : AuditEventRow}

/-- An event that names what a response shows. -/
theorem AuditEventRow.Names.filed {response : FlagResponse} {flagId environmentId : UUID}
    (hnames : event.Names response) (hshows : response.Shows known flagId environmentId)
    (hid : event.resourceId = flagId) (howns : Owns known event.organizationId flagId) :
    event.Filed known := by
  subst hid
  obtain ⟨henvironment, configId, hconfig⟩ := hshows
  refine .flag hnames.resourceType howns (fun text htext => ⟨configId, environmentId, hconfig, ?_⟩)
  rw [hnames.environmentId, henvironment] at htext
  exact (Json.str.inj (Option.some.inj htext)).symm

/-- **What a request records is filed where it belongs.** -/
theorem Request.Records.filed {request : Request} {events : List AuditEventRow}
    {outcome : Outcome} (h : request.Records known events outcome) :
    ∀ event ∈ events, event.Filed known := by
  have hversion : ∀ {principal requestId flagId environmentId action},
      RecordsVersion known principal requestId flagId environmentId action events outcome →
      ∀ event ∈ events, event.Filed known := by
    rintro _ _ _ _ _ ⟨event, response, rfl, -, -, hnames, hshows, hid, howns⟩
    exact List.forall_mem_singleton.mpr (hnames.filed hshows hid howns)
  cases request with
  | createOrganization principal requestId payload =>
    obtain ⟨event, userId, rfl, -, -, -, -, -, htype, -⟩ := h
    exact List.forall_mem_singleton.mpr (.organization htype)
  | createProject principal requestId payload =>
    obtain ⟨event, rfl, hby, -, hproject⟩ := h
    exact List.forall_mem_singleton.mpr (.project hby.resourceType hproject)
  | createEnvironment principal requestId projectId payload =>
    obtain ⟨event, rfl, hby, henvironment, hproject⟩ := h
    exact List.forall_mem_singleton.mpr
      (.environment hby.resourceType projectId henvironment hproject)
  | createKey principal requestId payload kind =>
    obtain ⟨event, scopes, rfl, hby, -, hkey⟩ := h
    exact List.forall_mem_singleton.mpr (.apiKey hby.resourceType scopes hkey)
  | createFeatureFlag principal requestId projectId payload =>
    obtain ⟨flagId, hrecords, -⟩ := h
    exact hversion hrecords
  | replaceFlagConfiguration principal requestId flagId payload => exact hversion h
  | addTargetingRule principal requestId flagId payload => exact hversion h
  | rollbackFeatureFlag principal requestId flagId version payload => exact hversion h
  | archiveFlag principal requestId flagId =>
    obtain ⟨event, rfl, hby, hnone, rfl, howns⟩ := h
    refine List.forall_mem_singleton.mpr (.flag hby.resourceType howns (fun text htext => ?_))
    -- the event of an archived flag names no environment
    rw [hnone] at htext
    cases htext
  | scheduleChange principal requestId flagId payload =>
    obtain ⟨event, configId, rfl, hby, hchange, hconfig, howns⟩ := h
    exact List.forall_mem_singleton.mpr
      (.change hby.resourceType configId flagId _ _ hchange hconfig howns)
  | applyDueChanges =>
    intro event hevent
    obtain ⟨response, -, hscheduled⟩ := exists_of_forall₂ h hevent
    obtain ⟨_, configId, flagId, environmentId, -, hconfig, henvironment, hid, howns⟩ :=
      hscheduled.scheduled
    exact hscheduled.names.filed ⟨henvironment, configId, hconfig⟩ hid howns

/-- **Every event of a run is filed where it belongs.** -/
theorem filed_of_run {actions : List (Action Choice Request)} {w : ServiceWorld}
    (hrun : service.run initial actions = some w) :
    ∀ event ∈ w.committed.audits, event.Filed w.committed.facts := by
  intro event hevent
  obtain ⟨done, -, events, hmem, hrecords⟩ := audited_of_run hrun hevent
  exact hrecords.filed event hmem

end Filed

end CohortSwitch
