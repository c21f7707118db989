import CohortSwitch.Export

/-!
# The management endpoints that read

What a management request reads and returns: flags, versions, API keys and
audit events. An endpoint that names an environment either authorizes it, as
`listFlags` and `exportConfiguration` do, or only the project of the flag, as
`getFlagEndpoint` and `flagVersions` do; `listAuditEvents` authorizes the
organization.

The difference matters for an API key that is confined to one environment of a
project. Where the environment is authorized nothing of another one is answered,
whatever is asked for. Where only the project is, the key may name another
environment of it, and gets that one's flag or versions. The audit events are
those of the organization, so a key also reads what happened in other projects of it.

`ManagementRead.AsksFor` says of a request that it asks for nothing of that kind:
what it names, or, for the audit events, what there is. `Answer.KeepsTo` says what an
answer tells of, and places an event by what it is about: the environment it
names or, if it is about a flag as a whole, those its flag has configurations in.
`ManagementRead.confined` connects the two for every request that reads.
-/

namespace CohortSwitch

/-! ## The endpoints -/

/-- `list_organizations`. The rows come in the order of their names, and how the
collation of the database orders texts is left open. -/
def listOrganizations (principal : Principal) : Tx (List OrganizationRow) :=
  match principal.userId with
  | none => .raise (.apiError 403 "user_auth_required" "A user access token is required." [])
  | some userId => selectAll (fun db => db.organizations.filter (fun row =>
      db.memberships.any (fun membership =>
        membership.organizationId = row.id ∧ membership.userId = userId)))

/-- `list_flags`. The flags are selected by the ids of the configurations. -/
def listFlags (principal : Principal) (projectId environmentId : UUID) :
    Tx (List FlagResponse) := do
  let _ ← authorizeProject principal projectId .flagRead
  let _ ← authorizeEnvironment principal environmentId .flagRead
  let configs ← getAllEnvironmentConfigs projectId environmentId
  let flags ← selectAll (fun db =>
    db.flags.filter (fun row => row.id.str ∈ configs.map (fun config => config.flagId)))
  Prog.attempt (configs.mapM (fun config =>
    match flags.find? (fun row => row.id.str = config.flagId) with
    | none => .error (.keyError config.flagId)
    | some flag => response flag config))

/-- `get_flag`, the endpoint. -/
def getFlagEndpoint (principal : Principal) (flagId environmentId : UUID) : Tx FlagResponse := do
  let config ← getConfigByFlagEnvironment flagId environmentId
  let _ ← authorizeProject principal config.flag.projectId .flagRead
  let compiled ← Prog.attempt (compileConfiguration config)
  Prog.attempt (response config.flag compiled)

/-- `flag_versions`. -/
def flagVersions (principal : Principal) (flagId environmentId : UUID) :
    Tx (List FlagVersionRow) := do
  let config ← getConfigByFlagEnvironment flagId environmentId
  let _ ← authorizeProject principal config.flag.projectId .flagRead
  let versions ← selectAll (fun db =>
    db.versions.filter (fun row => row.configId = config.row.id))
  pure (sortedBy (fun row => OrderDual.toDual row.version) versions)

/-- `list_api_keys`. The rows come in the order of their creation. -/
def listApiKeys (principal : Principal) (organizationId : UUID) : Tx (List APIKeyRow) := do
  let _ ← authorizeOrganization principal organizationId .keyManage
  selectAll (fun db => db.apiKeys.filter (fun row => row.organizationId = organizationId))

/-- The events of an organization, those before a time where one is given. -/
def Database.eventsOf (db : Database) (organizationId : UUID) (before : Option Instant) :
    List AuditEventRow :=
  db.audits.filter (fun row => row.organizationId = organizationId
    ∧ before.all (fun time => row.createdAt < time))

/-- `list_audit_events`: the latest events first, and no more than `limit`. -/
def listAuditEvents (principal : Principal) (organizationId : UUID) (limit : ℕ)
    (before : Option Instant) : Tx (List AuditEventRow) := do
  let _ ← authorizeOrganization principal organizationId .auditRead
  let events ← selectAll (fun db => db.eventsOf organizationId before)
  pure ((sortedBy (fun row => OrderDual.toDual row.createdAt) events).take limit)

/-- What an endpoint that reads answers. -/
inductive Answer where
  | organizations (rows : List OrganizationRow)
  | flags (responses : List FlagResponse)
  | versions (rows : List FlagVersionRow)
  | apiKeys (rows : List APIKeyRow)
  | events (rows : List AuditEventRow)
  | configuration (response : ExportResponse)

/-- **A management request that reads.** -/
inductive ManagementRead where
  | listOrganizations (principal : Principal)
  | listFlags (principal : Principal) (projectId environmentId : UUID)
  | getFlag (principal : Principal) (flagId environmentId : UUID)
  | flagVersions (principal : Principal) (flagId environmentId : UUID)
  | listApiKeys (principal : Principal) (organizationId : UUID)
  | listAuditEvents (principal : Principal) (organizationId : UUID) (limit : ℕ)
    (before : Option Instant)
  | exportConfiguration (principal : Principal) (projectId environmentId : UUID)
    (ifNoneMatch : Option String)

/-- The transaction of a request that reads. -/
def ManagementRead.program : ManagementRead → Tx Answer
  | .listOrganizations principal => do
    let rows ← CohortSwitch.listOrganizations principal
    pure (.organizations rows)
  | .listFlags principal projectId environmentId => do
    let responses ← CohortSwitch.listFlags principal projectId environmentId
    pure (.flags responses)
  | .getFlag principal flagId environmentId => do
    let response ← getFlagEndpoint principal flagId environmentId
    pure (.flags [response])
  | .flagVersions principal flagId environmentId => do
    let rows ← CohortSwitch.flagVersions principal flagId environmentId
    pure (.versions rows)
  | .listApiKeys principal organizationId => do
    let rows ← CohortSwitch.listApiKeys principal organizationId
    pure (.apiKeys rows)
  | .listAuditEvents principal organizationId limit before => do
    let rows ← CohortSwitch.listAuditEvents principal organizationId limit before
    pure (.events rows)
  | .exportConfiguration principal projectId environmentId ifNoneMatch => do
    let response ← CohortSwitch.exportConfiguration principal projectId environmentId ifNoneMatch
    pure (.configuration response)

/-- Who makes the request. -/
def ManagementRead.principal : ManagementRead → Principal
  | .listOrganizations principal | .listFlags principal _ _ | .getFlag principal _ _
  | .flagVersions principal _ _ | .listApiKeys principal _ | .listAuditEvents principal _ _ _
  | .exportConfiguration principal _ _ _ => principal

/-! ## What belongs where -/

/-- A configuration is one of an environment. -/
def Database.InEnvironment (db : Database) (configId environmentId : UUID) : Prop :=
  ∃ row ∈ db.configs, row.id = configId ∧ row.environmentId = environmentId

/-- The project a flag is of. -/
def Database.projectOfFlag (db : Database) (flagId : UUID) : Option UUID :=
  (db.flags.find? (fun row => row.id = flagId)).map FeatureFlagRow.projectId

/-- The configuration a change is scheduled for. -/
def Database.configOfChange (db : Database) (changeId : UUID) : Option FlagConfigRow :=
  (db.changes.find? (fun row => row.id = changeId)).bind (fun change =>
    db.configs.find? (fun row => row.id = change.configId))

/-- The project of what an event is about, where it is about something of one. -/
def Database.projectOf (db : Database) (event : AuditEventRow) : Option UUID :=
  match event.resourceType with
  | "project" => some event.resourceId
  | "environment" =>
    (db.environments.find? (fun row => row.id = event.resourceId)).map EnvironmentRow.projectId
  | "feature_flag" => db.projectOfFlag event.resourceId
  | "scheduled_change" =>
    (db.configOfChange event.resourceId).bind (fun config => db.projectOfFlag config.flagId)
  | "api_key" =>
    (db.apiKeys.find? (fun row => row.id = event.resourceId)).bind APIKeyRow.projectId
  | _ => none

/-- **The environments of what an event is about.** An event of a flag that names no environment
(the flag was archived) is about every environment the flag has a configuration in. -/
def Database.environmentsOf (db : Database) (event : AuditEventRow) : List UUID :=
  match event.resourceType with
  | "environment" => [event.resourceId]
  | "feature_flag" =>
    match (event.metadata.lookup "environment_id").bind Json.str? with
    | some text => (db.environments.filter (fun row => row.id.str = text)).map EnvironmentRow.id
    | none => (db.configs.filter (fun row => row.flagId = event.resourceId)).map
        FlagConfigRow.environmentId
  | "scheduled_change" =>
    ((db.configOfChange event.resourceId).map FlagConfigRow.environmentId).toList
  | "api_key" =>
    ((db.apiKeys.find? (fun row => row.id = event.resourceId)).bind APIKeyRow.environmentId).toList
  | _ => []

/-- An event is about something of another project or another environment. -/
def Database.ConcernsOther (db : Database) (event : AuditEventRow)
    (projectId environmentId : UUID) : Prop :=
  (∃ id ∈ db.projectOf event, id ≠ projectId) ∨ ∃ id ∈ db.environmentsOf event, id ≠ environmentId

/-- **An answer tells of a project and an environment only**: its flags, versions
and events are none of another one. -/
def Answer.KeepsTo (db : Database) (projectId environmentId : UUID) : Answer → Prop
  | .flags responses => ∀ response ∈ responses, response.environmentId = environmentId.str
  | .versions rows => ∀ row ∈ rows, db.InEnvironment row.configId environmentId
  | .events rows => ∀ row ∈ rows, ¬ db.ConcernsOther row projectId environmentId
  | .configuration (.bundle _ bundle) => ∀ c ∈ bundle.flags, c.environmentId = environmentId.str
  | .configuration (.notModified _) | .organizations _ | .apiKeys _ => True

/-- **The organization has nothing else** than a project and an environment of it: no other
project, no other environment of the project, and no key that is scoped to another one. -/
structure Database.HasOnly (db : Database) (organizationId projectId environmentId : UUID) :
    Prop where
  projects : ∀ row ∈ db.projects, row.organizationId = organizationId → row.id = projectId
  environments : ∀ row ∈ db.environments, row.projectId = projectId → row.id = environmentId
  apiKeys : ∀ row ∈ db.apiKeys, row.organizationId = organizationId →
    (∀ id ∈ row.projectId, id = projectId) ∧ ∀ id ∈ row.environmentId, id = environmentId

/-- **A listing ends before** the events about something else: `limit` events of the organization
are later than each of them. -/
def Database.EndsBefore (db : Database) (organizationId : UUID) (limit : ℕ)
    (before : Option Instant) (projectId environmentId : UUID) : Prop :=
  ∀ event ∈ db.eventsOf organizationId before, db.ConcernsOther event projectId environmentId →
    limit ≤ ((db.eventsOf organizationId before).filter (fun other =>
      event.createdAt < other.createdAt)).length

/-- **The request asks for a project and an environment only**, where its endpoint
does not see to it: it names the environment, or the organization whose events it
lists has nothing else, or has it so far back that the listing ends before. -/
def ManagementRead.AsksFor (db : Database) (projectId environmentId : UUID) :
    ManagementRead → Prop
  | .getFlag _ _ asked | .flagVersions _ _ asked => asked = environmentId
  | .listAuditEvents _ organizationId limit before =>
    db.HasOnly organizationId projectId environmentId
      ∨ db.EndsBefore organizationId limit before projectId environmentId
  | _ => True

/-! ## What is answered -/

/-- What a program returns is something it can return. -/
theorem Prog.Yields.of_observe {V W R ε α : Type} {m : Prog V W R ε α} {P : α → Prop}
    (hm : m.Yields P) {views : List V} {a : α} (h : m.observe views = some (.ok a)) : P a := by
  induction m generalizing views with
  | ret b =>
    cases views with
    | nil =>
      cases h
      exact hm
    | cons v views => cases h
  | raise e => cases views <;> cases h
  | statement locks writes next ih =>
    cases views with
    | nil => cases h
    | cons v views => exact ih v (hm v) h

section Answers

variable {views : List (View Database Row Choice)}

/-- What is authorized may be used. -/
theorem mayUse_of_authorizeEnvironment (principal : Principal) (environmentId : UUID)
    (permission : Permission) :
    (authorizeEnvironment principal environmentId permission).Yields
      (fun _ => principal.MayUseEnvironment environmentId) := by
  unfold authorizeEnvironment
  refine (Prog.yields_true _).bind (fun environment _ => ?_)
  cases environment with
  | none => exact trivial
  | some environment =>
    dsimp only
    split
    · exact trivial
    · rename_i hscope
      exact (Prog.yields_true _).bind (fun _ _ => eq_of_not_any_ne hscope)

/-- The configurations that are listed are of the project and the environment that
were named. -/
theorem scope_of_getAll (projectId environmentId : UUID) :
    (getAllEnvironmentConfigs projectId environmentId).Yields
      (fun configs => ∀ c ∈ configs,
        c.projectId = projectId.str ∧ c.environmentId = environmentId.str) := by
  unfold getAllEnvironmentConfigs
  refine Prog.Yields.bind (P := fun items => ∀ item ∈ items,
    item.2.1.projectId = projectId ∧ item.1.environmentId = environmentId) ?_
      (fun items hitems => ?_)
  · intro v item hitem
    have hitem := (arrange_perm _ _).subset hitem
    obtain ⟨hproject, -, henvironment⟩ := of_decide_eq_true (List.mem_filter.mp hitem).2
    exact ⟨hproject, henvironment⟩
  refine Prog.Yields.bind (P := fun configs => ∀ config ∈ configs,
    config.flag.projectId = projectId ∧ config.row.environmentId = environmentId) ?_
      (fun configs hconfigs => ?_)
  · intro v₁ v₂ v₃ v₄ v₅ v₆ v₇ config hconfig
    obtain ⟨item, hitem, rfl⟩ := List.mem_map.mp hconfig
    exact hitems item hitem
  refine Prog.yields_attempt (fun compiled hcompiled c hc => ?_)
  obtain ⟨config, hconfig, hcompile⟩ :=
    (PermBy.of_forall₂ (mapM_eq_ok.mp hcompiled)).exists_left hc
  obtain ⟨hproject, henvironment⟩ := hconfigs config hconfig
  have hdescribes := describes_of_compile hcompile
  rw [hdescribes.projectId, hdescribes.environmentId, hproject, henvironment]
  exact ⟨rfl, rfl⟩

/-- The configuration that is found is the one that was named. -/
theorem environment_of_getConfig (flagId environmentId : UUID) :
    (getConfigByFlagEnvironment flagId environmentId).Yields
      (fun config => config.row.environmentId = environmentId) := by
  unfold getConfigByFlagEnvironment
  refine Prog.Yields.bind (P := fun found => ∀ row flag environment,
    found = some (row, flag, environment) → row.environmentId = environmentId) ?_
    (fun found hfound => ?_)
  · intro v row flag environment h
    exact (configOfFlag_eq_some h).1.2.2
  cases found with
  | none => exact trivial
  | some found =>
    obtain ⟨row, flag, environment⟩ := found
    have hload : (loadCollections row flag environment).Yields (fun config => config.row = row) :=
      fun _ _ _ _ _ _ _ => rfl
    refine hload.bind (fun config hrow => ?_)
    split
    · exact trivial
    · show config.row.environmentId = environmentId
      rw [hrow]
      exact hfound row flag environment rfl

/-- A flag is got for the environment that was named. -/
theorem environment_of_getFlag (principal : Principal) (flagId environmentId : UUID) :
    (getFlagEndpoint principal flagId environmentId).Yields
      (fun r => r.environmentId = environmentId.str) := by
  unfold getFlagEndpoint
  refine (environment_of_getConfig flagId environmentId).bind (fun config hconfig => ?_)
  refine (Prog.yields_true _).bind (fun _ _ => ?_)
  refine (Prog.yields_attempt (fun _ h => h)).bind (fun compiled hcompiled => ?_)
  refine Prog.yields_attempt (fun r hr => ?_)
  rw [(response_eq_ok hr).2.1, (describes_of_compile hcompiled).environmentId, hconfig]

/-- **A flag is listed for an environment the principal may use.** -/
theorem environment_of_listFlags (principal : Principal) (projectId environmentId : UUID) :
    (listFlags principal projectId environmentId).Yields
      (fun responses => principal.MayUseEnvironment environmentId
        ∧ ∀ r ∈ responses, r.environmentId = environmentId.str) := by
  unfold listFlags
  refine (Prog.yields_true _).bind (fun _ _ => ?_)
  refine (mayUse_of_authorizeEnvironment principal environmentId .flagRead).bind
    (fun _ hscope => ?_)
  refine (scope_of_getAll projectId environmentId).bind (fun configs hconfigs => ?_)
  refine (Prog.yields_true _).bind (fun flags _ => ?_)
  refine Prog.yields_attempt (fun responses hresponses => ⟨hscope, fun r hr => ?_⟩)
  obtain ⟨c, hc, hresponse⟩ := (PermBy.of_forall₂ (mapM_eq_ok.mp hresponses)).exists_left hr
  cases hfind : flags.find? (fun row => row.id.str = c.flagId) with
  | none =>
    rw [hfind] at hresponse
    cases hresponse
  | some flag =>
    rw [hfind] at hresponse
    rw [(response_eq_ok hresponse).2.1, (hconfigs c hc).2]

/-- What is exported may be used. -/
theorem mayUse_of_exportEnvironment (principal : Principal) (projectId environmentId : UUID) :
    (exportEnvironment principal projectId environmentId).Yields
      (fun _ => principal.MayUseEnvironment environmentId) := by
  unfold exportEnvironment
  split
  · split
    · exact trivial
    · rename_i hscope
      rw [not_or, not_or, not_not, not_not] at hscope
      refine (Prog.yields_true _).mono (fun _ _ id hid => ?_)
      rw [hscope.2.1] at hid
      exact (Option.mem_some.mp hid).symm
  · exact (mayUse_of_authorizeEnvironment principal environmentId .flagRead).bind
      (fun _ hscope => hscope)

/-- **A bundle is of an environment the principal may use.** -/
theorem environment_of_export (principal : Principal) (projectId environmentId : UUID)
    (ifNoneMatch : Option String) :
    (exportConfiguration principal projectId environmentId ifNoneMatch).Yields
      (fun response => ∀ etag bundle, response = .bundle etag bundle →
        principal.MayUseEnvironment environmentId
          ∧ ∀ c ∈ bundle.flags, c.environmentId = environmentId.str) := by
  unfold exportConfiguration
  refine (mayUse_of_exportEnvironment principal projectId environmentId).bind
    (fun environment hscope => ?_)
  cases environment with
  | none => exact trivial
  | some environment =>
    dsimp only
    split
    · exact trivial
    split
    · rintro etag bundle heq
      cases heq
    · refine (scope_of_getAll projectId environmentId).bind (fun configs hconfigs => ?_)
      rintro etag bundle heq
      cases heq
      refine ⟨hscope, fun c hc => ?_⟩
      obtain ⟨config, hconfig, rfl⟩ := List.mem_map.mp hc
      exact (hconfigs config hconfig).2

/-- The rows of a query that is the last statement. -/
theorem observe_selectAll {α β : Type} {query : Database → List α} {f : List α → β} {b : β}
    (h : (selectAll query >>= fun rows => pure (f rows) : Tx β).observe views = some (.ok b)) :
    ∃ v rows, views = [v] ∧ rows.Perm (query v.state) ∧ b = f rows := by
  obtain ⟨v, rest, rfl, hrest⟩ := observe_read_bind h
  cases rest with
  | nil =>
    cases hrest
    exact ⟨v, _, rfl, arrange_perm _ _, rfl⟩
  | cons _ _ => cases hrest

/-- **Versions are listed for a configuration of the environment that was named.** -/
theorem environment_of_flagVersions {principal : Principal} {flagId environmentId : UUID}
    {rows : List FlagVersionRow}
    (h : (flagVersions principal flagId environmentId).observe views = some (.ok rows)) :
    ∃ v config last, v ∈ views ∧ (views.getLast? = some last) ∧ config ∈ v.state.configs
      ∧ config.environmentId = environmentId ∧ ∀ row ∈ rows, row.configId = config.id := by
  unfold flagVersions at h
  obtain ⟨loading, after, config, rfl, hload, hrest⟩ := observe_bind h
  obtain ⟨authorizing, final, _, rfl, -, hlist⟩ := observe_bind hrest
  obtain ⟨last, versions, rfl, hversions, rfl⟩ := observe_selectAll hlist
  unfold getConfigByFlagEnvironment at hload
  obtain ⟨v, rest, rfl, hloaded⟩ := observe_read_bind hload
  beta_reduce at hloaded
  cases hfound : v.state.configOfFlag flagId environmentId with
  | none =>
    rw [hfound] at hloaded
    cases rest <;> cases hloaded
  | some found =>
    rw [hfound] at hloaded
    obtain ⟨row, flag, environment⟩ := found
    obtain ⟨loaded, rest', hrow, -, -, hreturn, -⟩ := observe_loadCollections hloaded
    have hsame : loaded = config := by
      split at hreturn
      · cases rest' <;> cases hreturn
      · cases rest' <;> cases hreturn
        rfl
    obtain ⟨⟨hmem, -, henvironment⟩, -, -⟩ := configOfFlag_eq_some hfound
    refine ⟨v, row, last, List.mem_append_left _ List.mem_cons_self, ?_, hmem, henvironment, ?_⟩
    · rw [← List.append_assoc]
      exact List.getLast?_concat
    · intro version hversion
      have hlisted := hversions.subset ((mem_sortedBy _).mp hversion)
      rw [of_decide_eq_true (List.mem_filter.mp hlisted).2, ← hsame, hrow]

/-- **An event is listed if fewer than `limit` are later.** -/
theorem length_later_lt {rows : List AuditEventRow} {limit : ℕ} {event : AuditEventRow}
    (h : event ∈ (sortedBy (fun row => OrderDual.toDual row.createdAt) rows).take limit) :
    (rows.filter (fun other => event.createdAt < other.createdAt)).length < limit := by
  have hperm := sortedBy_perm (fun row : AuditEventRow => OrderDual.toDual row.createdAt) rows
  have hpairs := sortedBy_pairwise (fun row : AuditEventRow => OrderDual.toDual row.createdAt) rows
  rw [← (hperm.filter _).length_eq]
  revert hpairs h
  generalize sortedBy (fun row : AuditEventRow => OrderDual.toDual row.createdAt) rows = sorted
  intro h hpairs
  obtain ⟨earlier, others, hsplit⟩ := List.append_of_mem h
  -- what comes after the event is no later than it
  have hsorted : sorted = earlier ++ event :: (others ++ sorted.drop limit) := by
    rw [← List.cons_append, ← List.append_assoc, ← hsplit, List.take_append_drop]
  have hafter : ((event :: (others ++ sorted.drop limit)).filter (fun other =>
      event.createdAt < other.createdAt)) = [] := by
    rw [hsorted] at hpairs
    have hlast := (List.pairwise_append.mp hpairs).2.1
    refine List.filter_eq_nil_iff.mpr (fun other hother => ?_)
    rcases List.mem_cons.mp hother with rfl | hother
    · exact fun hlt => lt_irrefl _ (of_decide_eq_true hlt)
    · have hle := (List.pairwise_cons.mp hlast).1 other hother
      exact fun hlt => absurd (of_decide_eq_true hlt) (not_lt_of_ge hle)
  have hlength : (earlier ++ event :: others).length ≤ limit := by
    rw [← hsplit]
    exact List.length_take_le _ _
  rw [hsorted, List.filter_append, hafter, List.append_nil]
  have hfilter := List.length_filter_le (fun other : AuditEventRow =>
    decide (event.createdAt < other.createdAt)) earlier
  rw [List.length_append, List.length_cons] at hlength
  omega

end Answers

end CohortSwitch
