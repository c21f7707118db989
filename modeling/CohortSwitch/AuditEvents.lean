import CohortSwitch.Journals
import CohortSwitch.TableWrites
import CohortSwitch.Endpoints

/-!
# What is recorded in the audit log

Nothing updates or deletes an audit event, so the table is a journal. What a
request records there is read off its program: one event for a call of an
endpoint, with the principal it was authorized for, and for a round of the
scheduler one event for each version it responds with.

An event names rows by their ids, and says who was allowed to change them. What a request
was authorized for it learned from rows that stay: memberships and projects are never
changed, and of the other tables the columns that say what a row belongs to. `Fact` lists
these parts of the rows, and a write adds its fact and takes none away (`holds_apply`), so
what was true when the event was made is true of every later state.

`Request.Records` says endpoint by endpoint which event there is: its action, its
resource, its actor, and for a change of a flag the version that it responds with.
-/

namespace CohortSwitch

/-! ## Facts -/

/-- **What a row says for good.** -/
inductive Fact where
  | membership (row : MembershipRow)
  | project (id organizationId : UUID)
  | environment (id projectId : UUID)
  | flag (id projectId : UUID)
  | config (id flagId environmentId : UUID)
  | change (id configId : UUID) (createdById : Option UUID)
  | apiKey (id organizationId : UUID) (scopes : List String)

/-- What the rows say. -/
def Database.Holds (db : Database) : Fact → Prop
  | .membership row => row ∈ db.memberships
  | .project id organizationId =>
    (id, organizationId) ∈ db.projects.map (fun row => (row.id, row.organizationId))
  | .environment id projectId =>
    (id, projectId) ∈ db.environments.map (fun row => (row.id, row.projectId))
  | .flag id projectId => (id, projectId) ∈ db.flags.map (fun row => (row.id, row.projectId))
  | .config id flagId environmentId =>
    (id, flagId, environmentId) ∈ db.configs.map
      (fun row => (row.id, row.flagId, row.environmentId))
  | .change id configId createdById =>
    (id, configId, createdById) ∈ db.changes.map
      (fun row => (row.id, row.configId, row.createdById))
  | .apiKey id organizationId scopes =>
    (id, organizationId, scopes) ∈ db.apiKeys.map
      (fun row => (row.id, row.organizationId, row.scopes))

/-- The fact a write adds. -/
def Write.fact? : Write → Option Fact
  | .membership row => some (.membership row)
  | .project row => some (.project row.id row.organizationId)
  | .environment (.insert row) => some (.environment row.id row.projectId)
  | .flag (.insert row) => some (.flag row.id row.projectId)
  | .config (.insert row) => some (.config row.id row.flagId row.environmentId)
  | .change (.insert row) => some (.change row.id row.configId row.createdById)
  | .apiKey row => some (.apiKey row.id row.organizationId row.scopes)
  | _ => none

/-- An update in place keeps what it does not change. -/
theorem map_map_of_keeps {α ι : Type} {column : α → ι} {g : α → α}
    (h : ∀ row, column (g row) = column row) (rows : List α) :
    (rows.map g).map column = rows.map column := by
  rw [List.map_map]
  exact List.map_congr_left (fun row _ => h row)

/-- **A write adds its fact and takes none away.** -/
theorem holds_apply (db : Database) (w : Write) (fact : Fact) :
    (db.apply w).Holds fact ↔ db.Holds fact ∨ w.fact? = some fact := by
  -- a table the write leaves alone, or of which it leaves the columns of the fact
  have hsame : ∀ {p q : Prop}, (q ↔ p) → w.fact? ≠ some fact → (q ↔ p ∨ w.fact? = some fact) :=
    fun h hnone => h.trans (or_iff_left hnone).symm
  cases w with
  | membership row =>
    cases fact with
    | membership other => simp [Database.apply, Database.Holds, Write.fact?, eq_comm]
    | _ => exact hsame Iff.rfl nofun
  | project row =>
    cases fact with
    | project id organizationId => simp [Database.apply, Database.Holds, Write.fact?, eq_comm]
    | _ => exact hsame Iff.rfl nofun
  | apiKey row =>
    cases fact with
    | apiKey id organizationId scopes =>
      simp [Database.apply, Database.Holds, Write.fact?, eq_comm]
    | _ => exact hsame Iff.rfl nofun
  | environment op =>
    cases fact with
    | environment id projectId =>
      cases op with
      | insert row =>
        simp [Database.apply, Database.Holds, EnvironmentWrite.apply, Write.fact?, eq_comm]
      | _ =>
        refine hsame ?_ nofun
        show _ ∈ (List.map _ db.environments).map _ ↔ _
        rw [map_map_of_keeps (fun row => by split <;> rfl)]
        exact Iff.rfl
    | _ => exact hsame Iff.rfl (by cases op <;> nofun)
  | flag op =>
    cases fact with
    | flag id projectId =>
      cases op with
      | insert row => simp [Database.apply, Database.Holds, FlagWrite.apply, Write.fact?, eq_comm]
      | _ =>
        refine hsame ?_ nofun
        show _ ∈ (List.map _ db.flags).map _ ↔ _
        rw [map_map_of_keeps (fun row => by split <;> rfl)]
        exact Iff.rfl
    | _ => exact hsame Iff.rfl (by cases op <;> nofun)
  | config op =>
    cases fact with
    | config id flagId environmentId =>
      cases op with
      | insert row => simp [Database.apply, Database.Holds, ConfigWrite.apply, Write.fact?, eq_comm]
      | update id enabled key version =>
        refine hsame ?_ nofun
        show _ ∈ (List.map _ db.configs).map _ ↔ _
        rw [map_map_of_keeps (fun row => by split <;> rfl)]
        exact Iff.rfl
    | _ => exact hsame Iff.rfl (by cases op <;> nofun)
  | change op =>
    cases fact with
    | change id configId createdById =>
      cases op with
      | insert row => simp [Database.apply, Database.Holds, ChangeWrite.apply, Write.fact?, eq_comm]
      | setAppliedAt id at_ =>
        refine hsame ?_ nofun
        show _ ∈ (List.map _ db.changes).map _ ↔ _
        rw [map_map_of_keeps (fun row => by split <;> rfl)]
        exact Iff.rfl
    | _ => exact hsame Iff.rfl (by cases op <;> nofun)
  | _ => cases fact <;> exact hsame Iff.rfl nofun

/-- All of it. -/
def Database.facts (db : Database) : Set Fact := {fact | db.Holds fact}

/-- A write appends the event it inserts. -/
theorem audits_apply (db : Database) (w : Write) :
    (db.apply w).audits = db.audits ++ w.audit?.toList := by
  cases w with
  | audit row => rfl
  | _ => exact (List.append_nil _).symm

/-- Facts stay. -/
theorem facts_stay (db : Database) (w : Write) : db.facts ⊆ (db.apply w).facts :=
  fun fact hfact => (holds_apply db w fact).mpr (.inl hfact)

/-- A write adds the same facts where more is known. -/
theorem facts_mono (db db' : Database) (w : Write) (h : db.facts ⊆ db'.facts) :
    (db.apply w).facts ⊆ (db'.apply w).facts :=
  fun fact hfact => (holds_apply db' w fact).mpr
    (((holds_apply db w fact).mp hfact).imp_left (fun hold => h hold))

/-- **The journal of audit events.** -/
def auditJournal : service.Journal AuditEventRow Fact where
  entries := Database.audits
  entry := Write.audit?
  facts := Database.facts
  append := audits_apply
  stays := facts_stay
  mono := facts_mono

/-- What a statement learns is what the rows say after its writes. -/
def learnsRows (v : View Database Row Choice) (writes : List Write) : Set Fact :=
  (service.view writes v.state).facts

/-! ## One rule per statement -/

section Rules

variable {κ α β : Type} {entry : Write → Option κ} {known : Set Fact}
  {Q : Set Fact → List κ → β → Prop}

/-- A query learns of the row it finds. -/
theorem enters_select {query : Database → α} {k : α → Tx β}
    (h : ∀ db known', known ⊆ known' → db.facts ⊆ known' →
      (k (query db)).Enters entry learnsRows known' Q) :
    (select query >>= k).Enters entry learnsRows known Q :=
  fun v _ => h v.state _ Set.subset_union_left Set.subset_union_right

theorem holds_of_writes {writes : List Write} {w : Write} (hw : w ∈ writes) {fact : Fact}
    (hfact : w.fact? = some fact) (db : Database) :
    fact ∈ (service.view writes db).facts := by
  obtain ⟨before, after, rfl⟩ := List.append_of_mem hw
  show fact ∈ ((before ++ w :: after).foldl Database.apply db).facts
  rw [List.foldl_append, List.foldl_cons]
  exact auditJournal.stays_view after _ ((holds_apply _ w fact).mpr (.inr hfact))

/-- A flush enters what is pending. -/
theorem enters_flush {pending : List Write} {k : Unit → Tx β}
    (h : ∀ known', known ⊆ known' → (∀ w ∈ pending, ∀ fact ∈ w.fact?, fact ∈ known') →
      (k ()).Enters entry learnsRows known'
        (fun known'' entries b => Q known'' (pending.filterMap entry ++ entries) b)) :
    (flush pending >>= k).Enters entry learnsRows known Q :=
  fun v _ => h _ Set.subset_union_left
    (fun _ hw _ hfact => Set.subset_union_right (holds_of_writes hw hfact v.state))

end Rules

/-! ## Who was authorized -/

/-- **What a principal is authorized by**: the scopes of a management key in its own
organization, or the role of a membership. -/
inductive Principal.Allowed (known : Set Fact) (principal : Principal) (organizationId : UUID)
    (permission : Permission) : Prop
  | scope (management : principal.kind = "MANAGEMENT")
    (organization : principal.organizationId = some organizationId)
    (scope : permission.value ∈ principal.scopes)
  | role (unmanaged : principal.kind ≠ "MANAGEMENT") (row : MembershipRow)
    (user : principal.userId = some row.userId) (organization : row.organizationId = organizationId)
    (member : .membership row ∈ known) (allows : requireRolePermission row.role permission = .ok ())

/-- Who was allowed is so when more is known. -/
theorem Principal.Allowed.mono {known known' : Set Fact} {principal : Principal}
    {organizationId : UUID} {permission : Permission} (hknown : known ⊆ known')
    (h : principal.Allowed known organizationId permission) :
    principal.Allowed known' organizationId permission := by
  cases h with
  | scope management organization scope => exact .scope management organization scope
  | role unmanaged row user organization member allows =>
    exact .role unmanaged row user organization (hknown member) allows

section Authorization

variable {κ : Type} {entry : Write → Option κ} {known : Set Fact}

/-- A membership that is found is a fact. -/
theorem enters_membershipFor (principal : Principal) (organizationId : UUID) :
    (membershipFor principal organizationId).Enters entry learnsRows known
      (fun known' entries row => entries = [] ∧
        (principal.kind = "MANAGEMENT" → principal.organizationId = some organizationId)
        ∧ (principal.kind ≠ "MANAGEMENT" → principal.userId = some row.userId
          ∧ row.organizationId = organizationId ∧ .membership row ∈ known')) := by
  unfold membershipFor
  split
  · rename_i hkind
    split
    · exact trivial
    · rename_i horganization
      exact ⟨rfl, fun _ => not_not.mp horganization, fun h => absurd hkind h⟩
  · rename_i hkind
    split
    · exact trivial
    · rename_i userId huser
      refine enters_select (fun db known' _ hdb => ?_)
      cases hfind : db.memberships.find? (fun row =>
          row.organizationId = organizationId ∧ row.userId = userId) with
      | none => exact trivial
      | some row =>
        obtain ⟨hmem, horganization, hrow⟩ := mem_and_of_find? hfind
        refine ⟨rfl, fun h => absurd h hkind, fun _ => ⟨hrow ▸ huser, horganization, ?_⟩⟩
        exact hdb hmem

theorem enters_authorizeOrganization (principal : Principal) (organizationId : UUID)
    (permission : Permission) :
    (authorizeOrganization principal organizationId permission).Enters entry learnsRows known
      (fun known' entries _ => entries = []
        ∧ principal.Allowed known' organizationId permission) := by
  refine Prog.enters_after_learning (enters_membershipFor principal organizationId)
    (fun known' row _ hrow => ?_)
  obtain ⟨hmanagement, hmember⟩ := hrow
  split
  · rename_i hkind
    split
    · exact trivial
    · rename_i hscope
      exact ⟨rfl, .scope hkind (hmanagement hkind) (not_not.mp hscope)⟩
  · rename_i hkind
    obtain ⟨huser, horganization, hknown⟩ := hmember hkind
    refine Prog.Enters.bind (M := fun known'' entries _ => entries = [] ∧ known' ⊆ known''
      ∧ requireRolePermission row.role permission = .ok ())
      (Prog.enters_attempt (fun _ hallows => ⟨rfl, subset_rfl, hallows⟩)) ?_
    rintro known'' entries _ ⟨rfl, hsubset, hallows⟩
    exact ⟨rfl, .role hkind row huser horganization (hsubset hknown) hallows⟩

/-- A project is authorized through its organization. -/
theorem enters_authorizeProject (principal : Principal) (projectId : UUID)
    (permission : Permission) :
    (authorizeProject principal projectId permission).Enters entry learnsRows known
      (fun known' entries found => entries = [] ∧ found.1.id = projectId
        ∧ .project projectId found.1.organizationId ∈ known'
        ∧ principal.Allowed known' found.1.organizationId permission) := by
  refine enters_select (fun db known' _ hdb => ?_)
  cases hfind : db.projects.find? (fun row => row.id = projectId) with
  | none => exact trivial
  | some project =>
    obtain ⟨hmem, hid⟩ := mem_and_of_find? hfind
    dsimp only
    split
    · exact trivial
    · refine Prog.enters_after_learning (enters_authorizeOrganization principal
        project.organizationId permission) (fun known'' _ hknown hallowed => ?_)
      have hproject : db.Holds (.project projectId project.organizationId) :=
        List.mem_map.mpr ⟨project, hmem, Prod.ext hid rfl⟩
      exact ⟨rfl, hid, hknown (hdb hproject), hallowed⟩

end Authorization

/-! ## What a request records -/

/-- The event is of a call: who made it, under which request id, and with which
permission in the organization. -/
structure AuditEventRow.IsBy (event : AuditEventRow) (known : Set Fact) (principal : Principal)
    (requestId : Option String) (action resourceType : String) (permission : Permission) :
    Prop where
  /-- The user or the key that called is its actor. -/
  actorUserId : event.actorUserId = principal.userId
  actorApiKeyId : event.actorApiKeyId = principal.apiKeyId
  /-- It can be found by the id that the response carried. -/
  requestId : event.requestId = requestId
  /-- What was done, and to what kind of thing. -/
  action : event.action = action
  resourceType : event.resourceType = resourceType
  /-- The organization it is filed under is one the caller may act in. -/
  allowed : principal.Allowed known event.organizationId permission

/-- The event names the version a response shows. -/
structure AuditEventRow.Names (event : AuditEventRow) (response : FlagResponse) : Prop where
  /-- It is about a flag, -/
  resourceType : event.resourceType = "feature_flag"
  /-- the one that is shown, -/
  resourceId : event.resourceId = response.id
  /-- under its key, -/
  flagKey : event.metadata.lookup "flag_key" = some (.str response.key)
  /-- in the environment that is shown, -/
  environmentId : event.metadata.lookup "environment_id" = some (.str response.environmentId)
  /-- and names its version. -/
  version : event.metadata.lookup "version" = some (.int response.currentVersion)

/-- The flag belongs to the organization. -/
def Owns (known : Set Fact) (organizationId flagId : UUID) : Prop :=
  ∃ projectId, Fact.flag flagId projectId ∈ known ∧ .project projectId organizationId ∈ known

/-- The response shows the configuration of a flag in an environment. -/
def FlagResponse.Shows (response : FlagResponse) (known : Set Fact) (flagId environmentId : UUID) :
    Prop :=
  response.environmentId = environmentId.str
    ∧ ∃ configId, Fact.config configId flagId environmentId ∈ known

/-- The event of a call that changed a flag in an environment: it names the one version
the call responds with, in the organization of the flag. -/
def RecordsVersion (known : Set Fact) (principal : Principal) (requestId : Option String)
    (flagId environmentId : UUID) (action : String) (events : List AuditEventRow)
    (outcome : Outcome) : Prop :=
  ∃ event response, events = [event] ∧ outcome.responses = [response]
    ∧ event.IsBy known principal requestId action "feature_flag" .flagWrite
    ∧ event.Names response ∧ response.Shows known flagId environmentId
    ∧ event.resourceId = flagId ∧ Owns known event.organizationId flagId

/-- The event of a scheduled change: it names the version the change became, and its
actor is the user who scheduled it for a flag of the organization. -/
structure AuditEventRow.IsScheduled (event : AuditEventRow) (known : Set Fact)
    (response : FlagResponse) : Prop where
  /-- It names the version that was made. -/
  names : event.Names response
  /-- No key is its actor, -/
  actorApiKeyId : event.actorApiKeyId = none
  /-- and no request. -/
  requestId : event.requestId = none
  /-- It was switched, updated or rolled out. -/
  action : event.action ∈ ["flag.enabled", "flag.disabled", "flag.updated", "rollout.changed"]
  /-- The actor scheduled the change, for a flag of the organization. -/
  scheduled : ∃ changeId configId flagId environmentId,
    Fact.change changeId configId event.actorUserId ∈ known
      ∧ .config configId flagId environmentId ∈ known
      ∧ response.environmentId = environmentId.str ∧ event.resourceId = flagId
      ∧ Owns known event.organizationId flagId

/-- **What a request records** by the time it returns an outcome. -/
def Request.Records (known : Set Fact) (events : List AuditEventRow) (outcome : Outcome) :
    Request → Prop
  | .createOrganization principal requestId _ => ∃ event userId, events = [event]
      ∧ principal.userId = some userId ∧ event.actorUserId = some userId
      ∧ event.actorApiKeyId = none ∧ event.requestId = requestId
      ∧ event.action = "organization.created" ∧ event.resourceType = "organization"
      ∧ event.resourceId = event.organizationId
      ∧ .membership ⟨event.organizationId, userId, "OWNER"⟩ ∈ known
  | .createProject principal requestId payload => ∃ event, events = [event]
      ∧ event.IsBy known principal requestId "project.created" "project" .projectManage
      ∧ event.organizationId = payload.organizationId
      ∧ .project event.resourceId event.organizationId ∈ known
  | .createEnvironment principal requestId projectId _ => ∃ event, events = [event]
      ∧ event.IsBy known principal requestId "environment.created" "environment"
        .environmentManage
      ∧ .environment event.resourceId projectId ∈ known
      ∧ .project projectId event.organizationId ∈ known
  | .createKey principal requestId payload _ => ∃ event scopes, events = [event]
      ∧ event.IsBy known principal requestId "api_key.created" "api_key" .keyManage
      ∧ event.organizationId = payload.organizationId
      ∧ .apiKey event.resourceId event.organizationId scopes ∈ known
  | .createFeatureFlag principal requestId projectId payload => ∃ flagId,
      RecordsVersion known principal requestId flagId payload.environmentId "flag.created" events
        outcome
      ∧ .flag flagId projectId ∈ known
  | .replaceFlagConfiguration principal requestId flagId payload =>
    RecordsVersion known principal requestId flagId payload.environmentId "flag.updated" events
      outcome
  | .addTargetingRule principal requestId flagId payload =>
    RecordsVersion known principal requestId flagId payload.environmentId
      (if payload.rule.rollout ≠ [] then "rollout.changed" else "flag.updated") events outcome
  | .rollbackFeatureFlag principal requestId flagId _ payload =>
    RecordsVersion known principal requestId flagId payload.environmentId "flag.rollback" events
      outcome
  | .archiveFlag principal requestId flagId => ∃ event, events = [event]
      ∧ event.IsBy known principal requestId "flag.deleted" "feature_flag" .flagWrite
      ∧ event.metadata.lookup "environment_id" = none
      ∧ event.resourceId = flagId ∧ Owns known event.organizationId flagId
  | .scheduleChange principal requestId flagId payload => ∃ event configId, events = [event]
      ∧ event.IsBy known principal requestId "flag.change_scheduled" "scheduled_change" .flagWrite
      ∧ .change event.resourceId configId principal.userId ∈ known
      ∧ .config configId flagId payload.environmentId ∈ known
      ∧ Owns known event.organizationId flagId
  | .applyDueChanges =>
    List.Forall₂ (fun event response => event.IsScheduled known response) events outcome.responses

section Mono

variable {known known' : Set Fact}

theorem AuditEventRow.IsBy.mono {event : AuditEventRow} {principal : Principal}
    {requestId : Option String} {action resourceType : String} {permission : Permission}
    (hknown : known ⊆ known')
    (h : event.IsBy known principal requestId action resourceType permission) :
    event.IsBy known' principal requestId action resourceType permission :=
  { h with allowed := h.allowed.mono hknown }

theorem Owns.mono {organizationId flagId : UUID} (hknown : known ⊆ known')
    (h : Owns known organizationId flagId) : Owns known' organizationId flagId := by
  obtain ⟨projectId, hflag, hproject⟩ := h
  exact ⟨projectId, hknown hflag, hknown hproject⟩

theorem FlagResponse.Shows.mono {response : FlagResponse} {flagId environmentId : UUID}
    (hknown : known ⊆ known') (h : response.Shows known flagId environmentId) :
    response.Shows known' flagId environmentId := by
  obtain ⟨henvironment, configId, hconfig⟩ := h
  exact ⟨henvironment, configId, hknown hconfig⟩

theorem RecordsVersion.mono {principal : Principal} {requestId : Option String}
    {flagId environmentId : UUID} {action : String} {events : List AuditEventRow}
    {outcome : Outcome} (hknown : known ⊆ known')
    (h : RecordsVersion known principal requestId flagId environmentId action events outcome) :
    RecordsVersion known' principal requestId flagId environmentId action events outcome := by
  obtain ⟨event, response, hevents, hresponses, hby, hnames, hshows, hid, howns⟩ := h
  exact ⟨event, response, hevents, hresponses, hby.mono hknown, hnames, hshows.mono hknown, hid,
    howns.mono hknown⟩

theorem AuditEventRow.IsScheduled.mono {event : AuditEventRow} {response : FlagResponse}
    (hknown : known ⊆ known') (h : event.IsScheduled known response) :
    event.IsScheduled known' response := by
  obtain ⟨changeId, configId, flagId, environmentId, hchange, hconfig, henvironment, hid, howns⟩ :=
    h.scheduled
  exact { h with scheduled := ⟨changeId, configId, flagId, environmentId, hknown hchange,
    hknown hconfig, henvironment, hid, howns.mono hknown⟩ }

/-- What a request records it still records when more is known. -/
theorem Request.Records.mono {request : Request} {events : List AuditEventRow} {outcome : Outcome}
    (hknown : known ⊆ known') (h : request.Records known events outcome) :
    request.Records known' events outcome := by
  cases request with
  | createOrganization principal requestId payload =>
    obtain ⟨event, userId, hevents, huser, hactor, hkey, hrequest, haction, htype, hid,
      hmember⟩ := h
    exact ⟨event, userId, hevents, huser, hactor, hkey, hrequest, haction, htype, hid,
      hknown hmember⟩
  | createProject principal requestId payload =>
    obtain ⟨event, hevents, hby, horganization, hproject⟩ := h
    exact ⟨event, hevents, hby.mono hknown, horganization, hknown hproject⟩
  | createEnvironment principal requestId projectId payload =>
    obtain ⟨event, hevents, hby, henvironment, hproject⟩ := h
    exact ⟨event, hevents, hby.mono hknown, hknown henvironment, hknown hproject⟩
  | createKey principal requestId payload kind =>
    obtain ⟨event, scopes, hevents, hby, horganization, hkey⟩ := h
    exact ⟨event, scopes, hevents, hby.mono hknown, horganization, hknown hkey⟩
  | createFeatureFlag principal requestId projectId payload =>
    obtain ⟨flagId, hrecords, hflag⟩ := h
    exact ⟨flagId, hrecords.mono hknown, hknown hflag⟩
  | archiveFlag principal requestId flagId =>
    obtain ⟨event, hevents, hby, hnone, hid, howns⟩ := h
    exact ⟨event, hevents, hby.mono hknown, hnone, hid, howns.mono hknown⟩
  | scheduleChange principal requestId flagId payload =>
    obtain ⟨event, configId, hevents, hby, hchange, hconfig, howns⟩ := h
    exact ⟨event, configId, hevents, hby.mono hknown, hknown hchange, hknown hconfig,
      howns.mono hknown⟩
  | applyDueChanges => exact List.Forall₂.imp (fun _ _ => AuditEventRow.IsScheduled.mono hknown) h
  | replaceFlagConfiguration principal requestId flagId payload =>
    exact RecordsVersion.mono hknown h
  | addTargetingRule principal requestId flagId payload =>
    exact RecordsVersion.mono hknown h
  | rollbackFeatureFlag principal requestId flagId version payload =>
    exact RecordsVersion.mono hknown h

end Mono

end CohortSwitch
