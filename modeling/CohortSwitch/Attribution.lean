import CohortSwitch.AuditTrail

/-!
# Whom the audit log names

A principal is what `get_principal` made of the credentials: a user, or an API
key as its row says it is. So an event that names an actor was authorized by
rows that are still there: a key of the organization with the scope for it, or
a membership of the user with a role that allows it. A round of the scheduler
authorizes nothing; the user its event names is the one who scheduled the
change, and was authorized then for the same flag (`events_authorized`).

Three tables carry the argument, each a journal of its own: the events, the changes
that were scheduled, and the keys. What an endpoint enters into one of them it was
authorized for (`enters_changes`, `enters_keys`, `Request.Records.warranted`), and
`entries_of_run` takes any of these statements from the programs to the runs. The event of
a scheduled change is then traced in two steps: it names the one who scheduled the change,
and the entry of the change has a warrant of its own.

The scopes of a key matter once more. No key can be given a scope other than the four of
`grantableScopes`, so an event with a key as its actor is one of the actions that
these allow.
-/

namespace CohortSwitch

/-! ## Principals -/

/-- **A principal is what the credentials say**: a user, or a key as its row is. -/
def Principal.Real (known : Set Fact) (principal : Principal) : Prop :=
  (∃ userId, principal = .ofUser userId)
    ∨ ∃ key, principal = .ofKey key ∧ .apiKey key.id key.organizationId key.scopes ∈ known

/-- It stays so when more is known. -/
theorem Principal.Real.mono {known known' : Set Fact} {principal : Principal}
    (hknown : known ⊆ known') (h : principal.Real known) : principal.Real known' := by
  refine h.imp_right (fun hkeyed => ?_)
  obtain ⟨key, hkey, hfact⟩ := hkeyed
  exact ⟨key, hkey, hknown hfact⟩

/-- A request without a key is one of a user, or of the scheduler. -/
def UsageRequest.Authentic : UsageRequest → Prop
  | .keyed _ _ _ _ => True
  | .other _ call _ => ∀ principal ∈ call.principal?, ∃ userId, principal = .ofUser userId

/-! ## Events -/

/-- The permission an action takes. Whoever creates an organization owns it. -/
def permissionOf (action : String) : Permission :=
  if action = "organization.created" then .orgManage
  else if action = "project.created" then .projectManage
  else if action = "environment.created" then .environmentManage
  else if action ∈ ["api_key.created", "api_key.revoked"] then .keyManage
  else .flagWrite

/-- The user has a membership with a role that allows it. -/
def IsMember (known : Set Fact) (userId organizationId : UUID) (permission : Permission) : Prop :=
  ∃ row, Fact.membership row ∈ known ∧ row.userId = userId ∧ row.organizationId = organizationId
    ∧ requireRolePermission row.role permission = .ok ()

/-- **What warrants an event**: the scopes of the key it names; a membership of the user
it names, or the change that user scheduled. -/
structure AuditEventRow.Warranted (event : AuditEventRow) (known : Set Fact) : Prop where
  /-- A key it names is of the organization and has the scope. -/
  key : ∀ keyId ∈ event.actorApiKeyId, ∃ scopes,
    Fact.apiKey keyId event.organizationId scopes ∈ known
      ∧ (permissionOf event.action).value ∈ scopes
  /-- A user it names has the role, or scheduled the change. -/
  user : ∀ userId ∈ event.actorUserId,
    IsMember known userId event.organizationId (permissionOf event.action)
      ∨ ∃ response, event.IsScheduled known response

section Warrants

variable {known known' : Set Fact} {event : AuditEventRow} {principal : Principal}

/-- A membership stays. -/
theorem IsMember.mono {userId organizationId : UUID} {permission : Permission}
    (hknown : known ⊆ known') (h : IsMember known userId organizationId permission) :
    IsMember known' userId organizationId permission := by
  obtain ⟨row, hrow, hmember⟩ := h
  exact ⟨row, hknown hrow, hmember⟩

/-- And so does a warrant. -/
theorem AuditEventRow.Warranted.mono (hknown : known ⊆ known') (h : event.Warranted known) :
    event.Warranted known' where
  key := fun keyId hkey => by
    obtain ⟨scopes, hscopes, hscope⟩ := h.key keyId hkey
    exact ⟨scopes, hknown hscopes, hscope⟩
  user := fun userId huser => by
    refine (h.user userId huser).imp (IsMember.mono hknown) (fun hscheduled => ?_)
    obtain ⟨response, hresponse⟩ := hscheduled
    exact ⟨response, hresponse.mono hknown⟩

/-- A key that was authorized has the scope. -/
theorem Principal.Allowed.scoped {organizationId : UUID} {permission : Permission}
    (hreal : principal.Real known) (h : principal.Allowed known organizationId permission) :
    ∀ keyId ∈ principal.apiKeyId, ∃ scopes,
      Fact.apiKey keyId organizationId scopes ∈ known ∧ permission.value ∈ scopes := by
  intro keyId hkey
  rcases hreal with ⟨userId, rfl⟩ | ⟨key, rfl, hfact⟩
  · cases hkey
  · cases hkey
    cases h with
    | scope management organization scope =>
      exact ⟨key.scopes, Option.some.inj organization ▸ hfact, scope⟩
    | role unmanaged row user => cases user

/-- A user who was authorized has the membership. -/
theorem Principal.Allowed.isMember {organizationId : UUID} {permission : Permission}
    (hreal : principal.Real known) (h : principal.Allowed known organizationId permission) :
    ∀ userId ∈ principal.userId, IsMember known userId organizationId permission := by
  intro userId huser
  rcases hreal with ⟨userId', rfl⟩ | ⟨key, rfl, hfact⟩
  · cases h with
    | scope management => exact absurd management (show "USER" ≠ "MANAGEMENT" by decide)
    | role unmanaged row user organization member allows =>
      exact ⟨row, member, Option.some.inj (user.symm.trans huser), organization, allows⟩
  · cases huser

/-- The event of a call has a warrant. -/
theorem AuditEventRow.IsBy.warranted {requestId : Option String} {action resourceType : String}
    (hreal : principal.Real known)
    (h : event.IsBy known principal requestId action resourceType (permissionOf action)) :
    event.Warranted known := by
  have hallowed := h.allowed
  rw [← h.action] at hallowed
  refine ⟨fun keyId hkey => ?_, fun userId huser => .inl ?_⟩
  · rw [h.actorApiKeyId] at hkey
    exact hallowed.scoped hreal keyId hkey
  · rw [h.actorUserId] at huser
    exact hallowed.isMember hreal userId huser

/-- **What a request records has a warrant**, if its principal is what the credentials
say. -/
theorem Request.Records.warranted {request : Request} {events : List AuditEventRow}
    {outcome : Outcome} (hreal : ∀ principal ∈ request.principal?, principal.Real known)
    (h : request.Records known events outcome) : ∀ event ∈ events, event.Warranted known := by
  have hone : ∀ {events : List AuditEventRow} {event : AuditEventRow}, events = [event] →
      event.Warranted known → ∀ event ∈ events, event.Warranted known := by
    rintro _ event rfl hwarranted other hother
    rwa [List.mem_singleton.mp hother]
  have hversion : ∀ {principal requestId flagId environmentId action}, principal.Real known →
      permissionOf action = .flagWrite →
      RecordsVersion known principal requestId flagId environmentId action events outcome →
      ∀ event ∈ events, event.Warranted known := by
    intro principal requestId flagId environmentId action hreal hpermission h
    obtain ⟨event, response, hevents, -, hby, -⟩ := h
    rw [← hpermission] at hby
    exact hone hevents (hby.warranted hreal)
  cases request with
  | createOrganization principal requestId payload =>
    -- whoever creates an organization is its owner by the same commit
    obtain ⟨event, userId, hevents, huser, hactor, hkey, -, haction, -, -, hmember⟩ := h
    refine hone hevents ⟨fun keyId h => ?_, fun userId' h => .inl ⟨_, hmember, ?_, rfl, ?_⟩⟩
    · rw [hkey] at h
      cases h
    · rw [hactor] at h
      exact Option.some.inj h
    · rw [haction]
      rfl
  | createProject principal requestId payload =>
    obtain ⟨event, hevents, hby, -⟩ := h
    exact hone hevents (AuditEventRow.IsBy.warranted (hreal principal rfl) hby)
  | createEnvironment principal requestId projectId payload =>
    obtain ⟨event, hevents, hby, -⟩ := h
    exact hone hevents (AuditEventRow.IsBy.warranted (hreal principal rfl) hby)
  | createKey principal requestId payload kind =>
    obtain ⟨event, scopes, hevents, hby, -⟩ := h
    exact hone hevents (AuditEventRow.IsBy.warranted (hreal principal rfl) hby)
  | createFeatureFlag principal requestId projectId payload =>
    obtain ⟨flagId, hrecords, -⟩ := h
    exact hversion (hreal principal rfl) rfl hrecords
  | replaceFlagConfiguration principal requestId flagId payload =>
    exact hversion (hreal principal rfl) rfl h
  | addTargetingRule principal requestId flagId payload =>
    refine hversion (hreal principal rfl) ?_ h
    split <;> rfl
  | rollbackFeatureFlag principal requestId flagId version payload =>
    exact hversion (hreal principal rfl) rfl h
  | archiveFlag principal requestId flagId =>
    obtain ⟨event, hevents, hby, -⟩ := h
    exact hone hevents (AuditEventRow.IsBy.warranted (hreal principal rfl) hby)
  | scheduleChange principal requestId flagId payload =>
    obtain ⟨event, configId, hevents, hby, -⟩ := h
    exact hone hevents (AuditEventRow.IsBy.warranted (hreal principal rfl) hby)
  | applyDueChanges =>
    intro event hevent
    -- a round of the scheduler: the actor scheduled the change
    obtain ⟨response, -, hscheduled⟩ := exists_of_forall₂ h hevent
    refine ⟨fun keyId h => ?_, fun userId _ => .inr ⟨response, hscheduled⟩⟩
    rw [hscheduled.actorApiKeyId] at h
    cases h

end Warrants

/-! ## Changes and keys -/

/-- A new change, by what never changes of it. -/
def Write.newChange? : Write → Option (UUID × UUID × Option UUID)
  | .change (.insert row) => some (row.id, row.configId, row.createdById)
  | _ => none

/-- A new key, by what never changes of it. -/
def Write.newKey? : Write → Option (UUID × UUID × List String)
  | .apiKey row => some (row.id, row.organizationId, row.scopes)
  | _ => none

/-- The changes, and the keys, by the same columns. -/
def Database.scheduled (db : Database) : List (UUID × UUID × Option UUID) :=
  db.changes.map (fun row => (row.id, row.configId, row.createdById))

/-- The keys. -/
def Database.keysGranted (db : Database) : List (UUID × UUID × List String) :=
  db.apiKeys.map (fun row => (row.id, row.organizationId, row.scopes))

/-- A write adds its change. -/
theorem scheduled_apply (db : Database) (w : Write) :
    (db.apply w).scheduled = db.scheduled ++ w.newChange?.toList := by
  cases w with
  | change op =>
    cases op with
    | insert row => exact List.map_append
    | setAppliedAt id time =>
      exact (map_map_of_keeps (fun row => by split <;> rfl) _).trans (List.append_nil _).symm
  | _ => exact (List.append_nil _).symm

/-- A write adds its key. -/
theorem keysGranted_apply (db : Database) (w : Write) :
    (db.apply w).keysGranted = db.keysGranted ++ w.newKey?.toList := by
  cases w with
  | apiKey row => exact List.map_append
  | _ => exact (List.append_nil _).symm

/-- **What warrants a change**: the user who scheduled it may write the flag. -/
def WarrantsChange (known : Set Fact) (change : UUID × UUID × Option UUID) : Prop :=
  ∀ userId ∈ change.2.2, ∃ flagId environmentId organizationId,
    Fact.config change.2.1 flagId environmentId ∈ known
      ∧ Owns known organizationId flagId ∧ IsMember known userId organizationId .flagWrite

/-- The scopes a key can have. -/
def grantableScopes : List String := ["flags:read", "flags:write", "evaluate", "audit:read"]

section Tables

variable {known : Set Fact}

/-- Only `scheduleChange` inserts a change. -/
theorem newChange?_of_mayWrite {request : Request} {w : Write} (hw : request.mayWrite w = true)
    (hrequest : ∀ principal requestId flagId payload,
      request ≠ .scheduleChange principal requestId flagId payload) : w.newChange? = none := by
  cases w with
  | change op =>
    cases op with
    | insert row =>
      cases request with
      | scheduleChange principal requestId flagId payload => exact absurd rfl (hrequest _ _ _ _)
      | _ => cases hw
    | setAppliedAt id time => rfl
  | _ => rfl

/-- Only `createKey` inserts a key. -/
theorem newKey?_of_mayWrite {request : Request} {w : Write} (hw : request.mayWrite w = true)
    (hrequest : ∀ principal requestId payload kind,
      request ≠ .createKey principal requestId payload kind) : w.newKey? = none := by
  cases w with
  | apiKey row =>
    cases request with
    | createKey principal requestId payload kind => exact absurd rfl (hrequest _ _ _ _)
    | _ => cases hw
  | _ => rfl

/-- **What a request schedules has a warrant**, if its principal is what the credentials
say. -/
theorem enters_changes (request : Request) :
    request.program.Enters Write.newChange? learnsRows known
      (fun known' entries _ => ∀ later, known' ⊆ later →
        (∀ principal ∈ request.principal?, principal.Real later) →
          ∀ change ∈ entries, WarrantsChange later change) := by
  by_cases hrequest : ∃ principal requestId flagId payload,
    request = .scheduleChange principal requestId flagId payload
  · obtain ⟨principal, requestId, flagId, payload, rfl⟩ := hrequest
    refine Prog.enters_after_learning (enters_getConfigByFlagEnvironment flagId _)
      (fun known₁ config _ hconfig => ?_)
    obtain ⟨rfl, -, hrow, hflag⟩ := hconfig
    refine Prog.enters_after_learning (enters_authorizeProject _ _ _)
      (fun known₂ found hknown₂ hfound => ?_)
    obtain ⟨-, hproject, hallowed⟩ := hfound
    refine Prog.enters_after (reads_raiseIf _ _) (fun known₃ _ hknown₃ => ?_)
    refine Prog.enters_after reads_choose (fun known₄ chosen hknown₄ =>
      enters_flush (fun known₅ hknown₅ _ => enters_flush (fun known₆ hknown₆ _ => ?_)))
    intro later hknown hreal change hchange userId huser
    have hlater : known₂ ⊆ later :=
      (((hknown₃.trans hknown₄).trans hknown₅).trans hknown₆).trans hknown
    rw [List.mem_singleton.mp hchange] at huser ⊢
    exact ⟨config.flag.id, payload.environmentId, found.1.organizationId,
      (hknown₂.trans hlater) hrow, ⟨_, (hknown₂.trans hlater) hflag, hlater hproject⟩,
      (hallowed.mono hlater).isMember (hreal principal rfl) userId huser⟩
  · refine ((Request.writes request).enters (fun w hw => newChange?_of_mayWrite hw
      (fun principal requestId flagId payload h => hrequest ⟨_, _, _, _, h⟩))).mono ?_
    rintro known' entries _ ⟨rfl, -⟩ later _ _ change hchange
    cases hchange

/-- The scopes that are read are some of the four. -/
theorem yields_keyScopes (payload : APIKeyCreate) (kind : KeyKind) :
    (keyScopes payload kind).Yields (fun found => ∀ scope ∈ found.1, scope ∈ grantableScopes) := by
  unfold keyScopes
  split
  · split
    · refine (Prog.yields_true _).bind (fun project _ => (Prog.yields_true _).bind
        (fun environment _ => ?_))
      split
      · split
        · exact trivial
        · show ∀ scope ∈ ["flags:read", "evaluate"], scope ∈ grantableScopes
          decide
      · exact trivial
    · exact trivial
  · refine (Prog.yields_true _).bind (fun _ _ => (Prog.yields_true _).bind (fun _ _ => ?_))
    intro scope hscope
    exact payload.scopesKnown scope (List.mem_dedup.mp ((sortedBy_perm _ _).mem_iff.mp hscope))

/-- **What a request grants** is one of four scopes. -/
theorem enters_keys (request : Request) :
    request.program.Enters Write.newKey? learnsRows known
      (fun _ entries _ => ∀ key ∈ entries, ∀ scope ∈ key.2.2, scope ∈ grantableScopes) := by
  by_cases hrequest : ∃ principal requestId payload kind,
    request = .createKey principal requestId payload kind
  · obtain ⟨principal, requestId, payload, kind, rfl⟩ := hrequest
    refine Prog.enters_after (reads_authorizeOrganization _ _ _) (fun known₁ _ _ => ?_)
    unfold createApiKey
    rw [Prog.bind_assoc]
    refine (((reads_keyScopes payload kind).enters known₁).and_yields
      (yields_keyScopes payload kind)).bind ?_
    rintro known₂ entries found ⟨⟨-, rfl⟩, hscopes⟩
    obtain ⟨scopes, keyPrefix⟩ := found
    dsimp only
    simp only [Prog.bind_assoc]
    refine Prog.enters_after reads_choose (fun known₃ chosen _ =>
      enters_flush (fun known₄ _ _ => enters_flush (fun known₅ _ _ => ?_)))
    intro key hkey
    rw [List.mem_singleton.mp hkey]
    exact hscopes
  · refine ((Request.writes request).enters (fun w hw => newKey?_of_mayWrite hw
      (fun principal requestId payload kind h => hrequest ⟨_, _, _, _, h⟩))).mono ?_
    rintro known' entries _ ⟨rfl, -⟩ key hkey
    cases hkey

end Tables

/-! ## Every run -/

section Run

variable {κ : Type} {entries : Database → List κ} {entry : Write → Option κ}
  {actions : List (Action Choice UsageRequest)} {w : UsageWorld}

/-- **What holds of every entry of a table**: what every endpoint enters there, called
by whom the credentials say. -/
theorem entries_of_run {P : Set Fact → κ → Prop}
    (happend : ∀ db w, entries (db.apply w) = entries db ++ (entry w).toList)
    (hrevoked : ∀ (s : UsageDatabase) keyId revokedAt,
      entries (s.apply (.setRevokedAt keyId revokedAt)).db = entries s.db)
    (hempty : entries .empty = [])
    (hwrite : ∀ known (request : Request), request.program.Enters entry learnsRows known
      (fun known' entries _ => ∀ later, known' ⊆ later →
        (∀ principal ∈ request.principal?, principal.Real later) → ∀ item ∈ entries, P later item))
    (hrevoke : ∀ known (principal : Principal), principal.Real known →
      ∀ organizationId id requestId metadata now,
        principal.Allowed known organizationId .keyManage →
          ∀ item ∈ entry (recordAudit organizationId "api_key.revoked" "api_key" id requestId
            principal.userId principal.apiKeyId metadata now), P known item)
    (hrun : usageService.run usageInitial actions = some w)
    (hauthentic : ∀ done ∈ w.log, done.1.Authentic) :
    ∀ item ∈ entries w.committed.db, P w.committed.db.facts item := by
  -- what is entered is fine wherever more is known and the principal is what it says
  let Q : Set Fact → Option String → Call → List κ → Option Outcome → Prop :=
    fun known _ call group _ => ∀ later, known ⊆ later →
      (∀ principal ∈ call.principal?, principal.Real later) → ∀ item ∈ group, P later item
  have hkeeps : ∀ known known' requestId call group outcome, known ⊆ known' →
      Q known requestId call group outcome → Q known' requestId call group outcome :=
    fun _ _ _ _ _ _ hknown h later hlater => h later (hknown.trans hlater)
  have hwork : ∀ known requestId (call : Call), (call.work requestId).Enters (usageEntry entry)
      learnsUsage known (fun known' group outcome => Q known' requestId call group outcome) := by
    intro known requestId call
    refine enters_work requestId call ?_ ?_ (fun _ _ _ _ _ _ item h => absurd h List.not_mem_nil)
    · rintro request rfl
      exact hwrite known request
    · rintro principal keyId rfl known' organizationId scopes metadata now - - hallowed later hknown
        hreal item hitem
      exact hrevoke later principal (hreal principal rfl) _ _ _ _ _ (hallowed.mono hknown) item
        (Option.mem_toList.mp hitem)
  let journal := usageJournal entries entry happend hrevoked
  have hlive : ∀ tx ∈ usageInitial.live, journal.Enters
      (fun request known group answer => request.Does Q known group answer) usageInitial tx :=
    fun tx htx => absurd htx List.not_mem_nil
  have hpersists : System.Journal.Persists (fun (request : UsageRequest) known (group : List κ)
      answer => request.Does Q known group answer) :=
    fun request _ _ _ _ hknown h => h.mono hkeeps hknown
  obtain ⟨-, new, groups, hgoes⟩ := System.Journal.goes_of_run hpersists
    (fun request => enters_usage hwork hkeeps request) hlive hrun
  intro item hitem
  have hold : item ∉ entries usageInitial.committed.db := by
    show item ∉ entries .empty
    rw [hempty]
    exact List.not_mem_nil
  obtain ⟨⟨request, answer⟩, hdone, group, hgroup, hdoes⟩ := hgoes.exists_of_mem hitem hold
  have hlog : (request, answer) ∈ w.log := by
    rw [hgoes.log]
    exact List.mem_append_right _ hdone
  cases request with
  | other requestId call keyless =>
    exact hdoes _ subset_rfl (fun principal h => .inl (hauthentic _ hlog principal h)) item hgroup
  | keyed raw requestId call asks =>
    obtain ⟨key, hkey, -, hdoes⟩ := hdoes
    refine hdoes _ subset_rfl (fun principal hprincipal => ?_) item hgroup
    rw [Call.principal?_by asks] at hprincipal
    exact .inr ⟨key, (Option.some.inj hprincipal).symm, hkey⟩

/-- **Every event has a warrant.** -/
theorem warranted_of_run (hrun : usageService.run usageInitial actions = some w)
    (hauthentic : ∀ done ∈ w.log, done.1.Authentic) :
    ∀ event ∈ w.committed.db.audits, event.Warranted w.committed.db.facts := by
  refine entries_of_run (P := fun known event => event.Warranted known) audits_apply
    (fun _ _ _ => rfl) rfl (fun known request => ?_) (fun known principal hreal => ?_) hrun
    hauthentic
  · have henters := (Request.enters request).weaken (Set.empty_subset known)
      (fun _ _ _ _ hknown h => h.mono hknown)
    exact henters.mono (fun known' events outcome h later hlater hreal =>
      (h.mono hlater).warranted hreal)
  · rintro organizationId id requestId metadata now hallowed event hevent
    cases hevent
    exact ⟨fun keyId hkey => hallowed.scoped hreal keyId hkey,
      fun userId huser => .inl (hallowed.isMember hreal userId huser)⟩

/-- Every change has a warrant. -/
theorem warrantsChange_of_run (hrun : usageService.run usageInitial actions = some w)
    (hauthentic : ∀ done ∈ w.log, done.1.Authentic) :
    ∀ row ∈ w.committed.db.changes,
      WarrantsChange w.committed.db.facts (row.id, row.configId, row.createdById) := by
  intro row hrow
  have hmem : (row.id, row.configId, row.createdById) ∈ w.committed.db.scheduled :=
    List.mem_map_of_mem hrow
  refine entries_of_run (P := WarrantsChange) scheduled_apply (fun _ _ _ => rfl) rfl
    (fun known request => enters_changes request) (fun known principal hreal => ?_) hrun
    hauthentic _ hmem
  intro organizationId id requestId metadata now _ item hitem
  cases hitem

/-- Every key has scopes that can be granted. -/
theorem grantable_of_run (hrun : usageService.run usageInitial actions = some w)
    (hauthentic : ∀ done ∈ w.log, done.1.Authentic) :
    ∀ row ∈ w.committed.db.apiKeys, ∀ scope ∈ row.scopes, scope ∈ grantableScopes := by
  intro row hrow
  have hmem : (row.id, row.organizationId, row.scopes) ∈ w.committed.db.keysGranted :=
    List.mem_map_of_mem hrow
  have hrevoked : ∀ (s : UsageDatabase) keyId revokedAt,
      (s.apply (.setRevokedAt keyId revokedAt)).db.keysGranted = s.db.keysGranted :=
    fun s keyId revokedAt => map_map_of_keeps (fun row => by split <;> rfl) _
  refine entries_of_run (P := fun (_ : Set Fact) (key : UUID × UUID × List String) =>
    ∀ scope ∈ key.2.2, scope ∈ grantableScopes) keysGranted_apply hrevoked rfl
    (fun known request => ?_) (fun known principal hreal => ?_) hrun hauthentic _ hmem
  · exact (enters_keys request).mono (fun known' entries _ h _ _ _ => h)
  intro organizationId id requestId metadata now _ item hitem
  cases hitem

end Run

/-! ## Whom an event names -/

/-- A row that is identified by its id. -/
theorem eq_of_mem_map {α ι κ : Type} {id : α → ι} {column : α → κ} {rows : List α}
    (hnodup : (rows.map id).Nodup) {i : ι} {x y : κ}
    (hx : (i, x) ∈ rows.map (fun row => (id row, column row)))
    (hy : (i, y) ∈ rows.map (fun row => (id row, column row))) : x = y := by
  obtain ⟨row, hrow, hrowEq⟩ := List.mem_map.mp hx
  obtain ⟨row', hrow', hrowEq'⟩ := List.mem_map.mp hy
  cases hrowEq
  have hid : id row' = id row := congrArg Prod.fst hrowEq'
  rw [List.inj_on_of_nodup_map hnodup hrow' hrow hid] at hrowEq'
  exact congrArg Prod.snd hrowEq'

/-- A flag belongs to one organization. -/
theorem Owns.unique {db : Database} (hkeys : db.Keys) {organizationId organizationId' flagId : UUID}
    (h : Owns db.facts organizationId flagId) (h' : Owns db.facts organizationId' flagId) :
    organizationId = organizationId' := by
  obtain ⟨projectId, hflag, hproject⟩ := h
  obtain ⟨projectId', hflag', hproject'⟩ := h'
  cases eq_of_mem_map hkeys.flagIds hflag hflag'
  exact eq_of_mem_map hkeys.projectIds hproject hproject'

/-- No key can be given the scope of another action. -/
theorem flagWrite_of_grantable {action : String}
    (h : (permissionOf action).value ∈ grantableScopes) : permissionOf action = .flagWrite := by
  unfold permissionOf at h ⊢
  split_ifs at h ⊢
  · exact absurd h (by decide)
  · exact absurd h (by decide)
  · exact absurd h (by decide)
  · exact absurd h (by decide)
  · rfl

/-- **Every event names who was authorized for it.** A key it names is one of its
organization, has the scope for its action, and so has written a flag or
scheduled a change of one; a user it names is a member of its organization in a
role that allows the action, also where the scheduler acted. -/
theorem events_authorized {actions : List (Action Choice UsageRequest)} {w : UsageWorld}
    (hrun : usageService.run usageInitial actions = some w)
    (hstarts : ∀ request, .start request ∈ actions → request.Authentic) :
    ∀ event ∈ w.committed.db.audits,
      (∀ keyId ∈ event.actorApiKeyId, permissionOf event.action = .flagWrite
        ∧ ∃ key ∈ w.committed.db.apiKeys, key.id = keyId
          ∧ key.organizationId = event.organizationId ∧ "flags:write" ∈ key.scopes)
      ∧ ∀ userId ∈ event.actorUserId, ∃ row ∈ w.committed.db.memberships, row.userId = userId
        ∧ row.organizationId = event.organizationId
        ∧ requireRolePermission row.role (permissionOf event.action) = .ok () := by
  have hgood := (respects_usage.run_good good_usageInitial
    (usageService.commitsMeet_of_forall (fun _ _ _ => trivial) _ _) hrun).1
  have hkeys := hgood.invariant.consistent.keys
  have hauthentic : ∀ done ∈ w.log, done.1.Authentic :=
    System.requests_of_run hstarts (fun _ h => absurd h List.not_mem_nil)
      (fun _ h => absurd h List.not_mem_nil) hrun
  intro event hevent
  have hwarranted := warranted_of_run hrun hauthentic event hevent
  refine ⟨fun keyId hkey => ?_, fun userId huser => ?_⟩
  · obtain ⟨scopes, hfact, hscope⟩ := hwarranted.key keyId hkey
    obtain ⟨key, hmem, heq⟩ := List.mem_map.mp hfact
    simp only [Prod.mk.injEq] at heq
    obtain ⟨hid, horganization, rfl⟩ := heq
    have hpermission := flagWrite_of_grantable (grantable_of_run hrun hauthentic key hmem _ hscope)
    rw [hpermission] at hscope
    exact ⟨hpermission, key, hmem, hid, horganization, hscope⟩
  · rcases hwarranted.user userId huser with hmember | ⟨response, hscheduled⟩
    · exact hmember
    · -- the change was scheduled by the user, for the flag of the event
      have hpermission : permissionOf event.action = .flagWrite := by
        have haction := hscheduled.action
        simp only [List.mem_cons, List.not_mem_nil, or_false] at haction
        rcases haction with haction | haction | haction | haction <;> rw [haction] <;> rfl
      obtain ⟨changeId, configId, flagId, environmentId, hchange, hconfig, -, -, howns⟩ :=
        hscheduled.scheduled
      obtain ⟨row, hrow, heq⟩ := List.mem_map.mp hchange
      have hwarrant := warrantsChange_of_run hrun hauthentic row hrow
      rw [heq, huser] at hwarrant
      obtain ⟨flagId', environmentId', organizationId, hconfig', howns', hmember⟩ :=
        hwarrant userId rfl
      cases eq_of_mem_map hkeys.configIds hconfig hconfig'
      rw [howns.unique hkeys howns', hpermission]
      exact hmember

/-- The sample tenant creates a flag and schedules a change of it, and the scheduler
applies the change. -/
def scheduledFlag : List (Action Choice UsageRequest) :=
  (sampleFlag ++ alone 4 50 13 (.scheduleChange sampleUser none ⟨40⟩ sampleScheduled)
    ++ alone 5 60 21 .applyDueChanges).map asSampleUser

theorem events_authorized_sample : ∃ w, usageService.run usageInitial scheduledFlag = some w
    ∧ "flag.disabled" ∈ w.committed.db.audits.map AuditEventRow.action
    ∧ ∀ event ∈ w.committed.db.audits,
      (∀ keyId ∈ event.actorApiKeyId, permissionOf event.action = .flagWrite
        ∧ ∃ key ∈ w.committed.db.apiKeys, key.id = keyId
          ∧ key.organizationId = event.organizationId ∧ "flags:write" ∈ key.scopes)
      ∧ ∀ userId ∈ event.actorUserId, ∃ row ∈ w.committed.db.memberships, row.userId = userId
        ∧ row.organizationId = event.organizationId
        ∧ requireRolePermission row.role (permissionOf event.action) = .ok () := by
  have hactions : (usageService.run usageInitial scheduledFlag).any (fun w =>
      decide ("flag.disabled" ∈ w.committed.db.audits.map AuditEventRow.action)) = true := by
    decide +kernel
  obtain ⟨w, hrun, haction⟩ := (Option.any_eq_true _ _).mp hactions
  refine ⟨w, hrun, of_decide_eq_true haction, events_authorized hrun (fun request h => ?_)⟩
  obtain ⟨action, -, hstart⟩ := List.mem_map.mp h
  cases action with
  | start asked =>
    cases hstart
    intro principal hprincipal
    cases asked with
    | applyDueChanges => cases hprincipal
    | _ => exact ⟨⟨1⟩, (Option.some.inj hprincipal).symm⟩
  | _ => cases hstart

end CohortSwitch
