import CohortSwitch.KeyScopes
import CohortSwitch.ManagementReads
import CohortSwitch.Refusals

/-!
# What an SDK key can do

An SDK key is no user and no management key, so `membership_for` refuses it,
and with it every endpoint that authorizes an organization, a project or an
environment before it does anything. What is left are the two evaluations, the
stream and the export, which read only and take the project and the
environment from the key or compare them with it. Of these none commits, so the
time `get_principal` assigns to `last_used_at` of the key stays pending and is
never written.

`Call` lists every call that asks for a principal, those that write included, and
`Call.program` is the transaction it makes. The programs are composed of statements
that are known to only read and of refusals, so `endsIn_call` is read off their text,
one endpoint after the other.

`sdk_keys_confined` puts this together with what the cache holds: an entry was
read for the address its key was made of, and the key determines the address.
A load is thus of the scope of the key also where it was answered from an entry that
a load of somebody else has stored.
-/

namespace CohortSwitch

/-! ## Calls -/

/-- Who makes a request. The scheduler makes its own. -/
def Request.principal? : Request → Option Principal
  | .createOrganization principal _ _ | .createProject principal _ _
  | .createEnvironment principal _ _ _ | .createKey principal _ _ _
  | .createFeatureFlag principal _ _ _ | .replaceFlagConfiguration principal _ _ _
  | .addTargetingRule principal _ _ _ | .rollbackFeatureFlag principal _ _ _ _
  | .archiveFlag principal _ _ | .scheduleChange principal _ _ _ => some principal
  | .applyDueChanges => none

/-- `revoke_api_key`, up to what it writes: the key to revoke. -/
def revokeApiKey (principal : Principal) (keyId : UUID) : Tx APIKeyRow := do
  let found ← select (fun db => db.apiKeys.find? (fun row => row.id = keyId))
  match found with
  | none => .raise (.apiError 404 "api_key_not_found" "API key was not found." [])
  | some key => do
    let _ ← authorizeOrganization principal key.organizationId .keyManage
    pure key

/-- `get_current_user`, up to its query: the id of the user. -/
def getCurrentUser (principal : Principal) : Except PyError UUID :=
  match principal.userId with
  | none => .error (.apiError 403 "user_auth_required" "A user access token is required." [])
  | some userId => .ok userId

/-- **A call of an endpoint that asks for a principal.** An evaluation reads from
the database what the cache misses. -/
inductive Call where
  | write (request : Request)
  | read (request : ManagementRead)
  | revokeApiKey (principal : Principal) (keyId : UUID)
  | me (principal : Principal)
  | evaluate (principal : Principal) (payload : EvaluationRequest) (misses : List ConfigAddress)
  | evaluateBatch (principal : Principal) (payload : BatchEvaluationRequest)
    (misses : List ConfigAddress)
  | streamConfig (principal : Principal)

/-- Who makes the call. -/
def Call.principal? : Call → Option Principal
  | .write request => request.principal?
  | .read request => some request.principal
  | .revokeApiKey principal _ | .me principal | .evaluate principal _ _
  | .evaluateBatch principal _ _ | .streamConfig principal => some principal

/-- The transaction of a call, whatever it returns. -/
def Call.program : Call → Tx Unit
  | .write request => do
    let _ ← request.program
    pure ()
  | .read request => do
    let _ ← request.program
    pure ()
  | .revokeApiKey principal keyId => do
    let _ ← CohortSwitch.revokeApiKey principal keyId
    pure ()
  | .me principal => do
    let _ ← Prog.attempt (getCurrentUser principal)
    pure ()
  | .evaluate principal payload misses => do
    let request ← Prog.attempt (CohortSwitch.evaluate principal payload)
    let _ ← request.read misses
    pure ()
  | .evaluateBatch principal payload misses => do
    let request ← Prog.attempt (CohortSwitch.evaluateBatch principal payload)
    let _ ← request.read misses
    pure ()
  | .streamConfig principal => do
    let _ ← Prog.attempt (CohortSwitch.streamConfig principal)
    pure ()

/-- A call of one of the four endpoints for clients. -/
def Call.IsForClients : Call → Prop
  | .read (.exportConfiguration _ _ _ _) | .evaluate _ _ _ | .evaluateBatch _ _ _
  | .streamConfig _ => True
  | _ => False

/-! ## Refusals -/

/-- **The request is rejected**: with 403, or with 404 as if there were nothing. -/
def PyError.Rejects : PyError → Prop
  | .apiError status _ _ _ => status = 403 ∨ status = 404
  | _ => False

/-- A principal that is neither a user nor a management key. -/
structure Principal.Unprivileged (principal : Principal) : Prop where
  /-- It is no management key. -/
  kind : principal.kind ≠ "MANAGEMENT"
  /-- And no user. -/
  userId : principal.userId = none

/-- An SDK key is neither. -/
theorem unprivileged_of_sdk {key : APIKeyRow} (h : key.kind = KeyKind.sdk.value) :
    (Principal.ofKey key).Unprivileged where
  kind := by
    show key.kind ≠ "MANAGEMENT"
    rw [h]
    decide
  userId := rfl

section Refused

variable {principal : Principal} {α : Type}

/-- A query returns a row or none. -/
theorem endsIn_select {β : Type} (query : Database → β) {raised : PyError → Prop} :
    (select query).EndsIn raised (fun _ => True) :=
  Prog.endsIn_read (fun _ => trivial)

/-- A query that finds nothing, or is followed by a refusal. -/
theorem refused_of_select {β γ : Type} {query : Database → Option β} {next : Option β → Tx γ}
    (hnone : (next none).Refused PyError.Rejects)
    (hsome : ∀ a, (next (some a)).Refused PyError.Rejects) :
    (select query >>= next).Refused PyError.Rejects := by
  refine (endsIn_select query).bind (fun found _ => ?_)
  cases found with
  | none => exact hnone
  | some a => exact hsome a

/-- No membership is found for it. -/
theorem refused_membershipFor (h : principal.Unprivileged) (organizationId : UUID) :
    (membershipFor principal organizationId).Refused PyError.Rejects := by
  unfold membershipFor
  rw [if_neg h.kind, h.userId]
  exact Or.inl rfl

/-- **Nothing is authorized** for a principal that is neither a user nor a
management key. -/
theorem refused_authorizeOrganization (h : principal.Unprivileged) (organizationId : UUID)
    (permission : Permission) :
    (authorizeOrganization principal organizationId permission).Refused PyError.Rejects :=
  (refused_membershipFor h organizationId).bind _ _

/-- Nor is a project authorized. -/
theorem refused_authorizeProject (h : principal.Unprivileged) (projectId : UUID)
    (permission : Permission) :
    (authorizeProject principal projectId permission).Refused PyError.Rejects := by
  refine refused_of_select (Or.inr rfl) (fun project => ?_)
  dsimp only
  split
  · exact Or.inr rfl
  · exact (refused_authorizeOrganization h _ _).bind _ _

/-- A configuration is found, or the request is rejected. -/
theorem endsIn_getConfigByFlagEnvironment (flagId environmentId : UUID) :
    (getConfigByFlagEnvironment flagId environmentId).EndsIn PyError.Rejects
      (fun _ => True) := by
  have hloads : ∀ row flag environment, (loadCollections row flag environment).EndsIn
      PyError.Rejects (fun _ => True) :=
    fun _ _ _ _ => ⟨rfl, rfl, fun _ => ⟨rfl, rfl, fun _ => ⟨rfl, rfl, fun _ => ⟨rfl, rfl,
      fun _ => ⟨rfl, rfl, fun _ => ⟨rfl, rfl, fun _ => ⟨rfl, rfl, trivial⟩⟩⟩⟩⟩⟩⟩
  refine (endsIn_select _).bind (fun found _ => ?_)
  cases found with
  | none => exact Or.inr rfl
  | some found =>
    refine (hloads _ _ _).bind (fun config _ => ?_)
    split
    · exact Or.inr rfl
    · exact trivial

/-- **Every request that writes is rejected.** -/
theorem refused_request {request : Request} (hprincipal : request.principal? = some principal)
    (h : principal.Unprivileged) : request.program.Refused PyError.Rejects := by
  cases request with
  | createOrganization principal' requestId payload =>
    cases hprincipal
    show (createOrganization principal requestId payload).Refused _
    unfold createOrganization
    rw [h.userId]
    exact Or.inl rfl
  | createProject principal' requestId payload =>
    cases hprincipal
    exact (refused_authorizeOrganization h _ _).bind _ _
  | createEnvironment principal' requestId projectId payload =>
    cases hprincipal
    exact (refused_authorizeProject h _ _).bind _ _
  | createKey principal' requestId payload kind =>
    cases hprincipal
    exact (refused_authorizeOrganization h _ _).bind _ _
  | createFeatureFlag principal' requestId projectId payload =>
    cases hprincipal
    exact (refused_authorizeProject h _ _).bind _ _
  | replaceFlagConfiguration principal' requestId flagId payload =>
    cases hprincipal
    exact refused_of_select (Or.inr rfl) (fun flag => (refused_authorizeProject h _ _).bind _ _)
  | rollbackFeatureFlag principal' requestId flagId targetVersion payload =>
    cases hprincipal
    exact refused_of_select (Or.inr rfl) (fun flag => (refused_authorizeProject h _ _).bind _ _)
  | archiveFlag principal' requestId flagId =>
    cases hprincipal
    refine refused_of_select (Or.inr rfl) (fun flag => ?_)
    dsimp only
    split
    · exact Or.inr rfl
    · exact (refused_authorizeProject h _ _).bind _ _
  | addTargetingRule principal' requestId flagId payload =>
    cases hprincipal
    exact (endsIn_getConfigByFlagEnvironment _ _).bind
      (fun config _ => (refused_authorizeProject h _ _).bind _ _)
  | scheduleChange principal' requestId flagId payload =>
    cases hprincipal
    exact (endsIn_getConfigByFlagEnvironment _ _).bind
      (fun config _ => (refused_authorizeProject h _ _).bind _ _)
  | applyDueChanges => cases hprincipal

/-- **Every management request that reads is rejected**, other than an export. -/
theorem refused_managementRead {request : ManagementRead}
    (h : request.principal.Unprivileged) (hother : ¬ (Call.read request).IsForClients) :
    request.program.Refused PyError.Rejects := by
  cases request with
  | listOrganizations principal =>
    refine Prog.Refused.bind ?_ _ _
    unfold listOrganizations
    rw [show principal.userId = none from h.userId]
    exact Or.inl rfl
  | listFlags principal projectId environmentId =>
    exact Prog.Refused.bind ((refused_authorizeProject h _ _).bind _ _) _ _
  | getFlag principal flagId environmentId =>
    refine Prog.Refused.bind ((endsIn_getConfigByFlagEnvironment _ _).bind
      (fun config _ => (refused_authorizeProject h _ _).bind _ _)) _ _
  | flagVersions principal flagId environmentId =>
    refine Prog.Refused.bind ((endsIn_getConfigByFlagEnvironment _ _).bind
      (fun config _ => (refused_authorizeProject h _ _).bind _ _)) _ _
  | listApiKeys principal organizationId =>
    exact Prog.Refused.bind ((refused_authorizeOrganization h _ _).bind _ _) _ _
  | listAuditEvents principal organizationId limit before =>
    exact Prog.Refused.bind ((refused_authorizeOrganization h _ _).bind _ _) _ _
  | exportConfiguration principal projectId environmentId ifNoneMatch =>
    exact absurd trivial hother

/-- It revokes no key. -/
theorem refused_revokeApiKey (h : principal.Unprivileged) (keyId : UUID) :
    (revokeApiKey principal keyId).Refused PyError.Rejects :=
  refused_of_select (Or.inr rfl) (fun _ => (refused_authorizeOrganization h _ _).bind _ _)

/-! ## What only reads -/

/-- The collections are read. -/
theorem reads_loadAllCollections (items : List (FlagConfigRow × FeatureFlagRow × EnvironmentRow)) :
    (loadAllCollections items).Reads :=
  fun _ => ⟨rfl, rfl, fun _ => ⟨rfl, rfl, fun _ => ⟨rfl, rfl, fun _ => ⟨rfl, rfl,
    fun _ => ⟨rfl, rfl, fun _ => ⟨rfl, rfl, fun _ => ⟨rfl, rfl, trivial⟩⟩⟩⟩⟩⟩⟩

/-- A load only reads. -/
theorem reads_load (request : LoadRequest) (misses : List ConfigAddress) :
    (request.read misses).Reads := by
  cases request with
  | configuration projectId environmentId flagKey =>
    refine Prog.Reads.bind ((reads_select _).bind (fun found => ?_)) (fun _ => trivial)
    cases found with
    | none => exact trivial
    | some found => exact (reads_loadCollections _ _ _).bind (fun _ => Prog.reads_attempt _)
  | configurations projectId environmentId flagKeys =>
    refine Prog.Reads.bind ((reads_selectAll _).bind (fun items => ?_)) (fun _ => trivial)
    exact (reads_loadAllCollections items).bind (fun _ => Prog.reads_attempt _)

/-- An export only reads. -/
theorem reads_exportConfiguration (principal : Principal) (projectId environmentId : UUID)
    (ifNoneMatch : Option String) :
    (exportConfiguration principal projectId environmentId ifNoneMatch).Reads := by
  have henvironment : (exportEnvironment principal projectId environmentId).Reads := by
    unfold exportEnvironment
    split
    · split
      · exact trivial
      · exact reads_select _
    · exact (reads_authorizeEnvironment _ _ _).bind (fun _ => trivial)
  refine henvironment.bind (fun environment => ?_)
  cases environment with
  | none => exact trivial
  | some environment =>
    dsimp only
    split
    · exact trivial
    split
    · exact trivial
    · refine Prog.Reads.bind ((reads_selectAll _).bind (fun items => ?_)) (fun _ => trivial)
      exact (reads_loadAllCollections items).bind (fun _ => Prog.reads_attempt _)

/-- **A call of an SDK key reads, or is rejected**: only the endpoints for clients return. -/
theorem endsIn_call {call : Call} (hprincipal : call.principal? = some principal)
    (h : principal.Unprivileged) :
    call.program.EndsIn (fun e => call.IsForClients ∨ e.Rejects) (fun _ => call.IsForClients) := by
  have hrefused : ∀ {m : Tx Unit}, m.Refused PyError.Rejects →
      m.EndsIn (fun e => call.IsForClients ∨ e.Rejects) (fun _ => call.IsForClients) :=
    fun hm => hm.mono (fun _ => Or.inr) (fun _ hf => hf.elim)
  have hreads : ∀ {m : Tx Unit}, m.Reads → call.IsForClients →
      m.EndsIn (fun e => call.IsForClients ∨ e.Rejects) (fun _ => call.IsForClients) :=
    fun hm hc => hm.endsIn (fun _ => Or.inl hc) (fun _ => hc)
  cases call with
  | write request => exact hrefused ((refused_request hprincipal h).bind _ _)
  | read request =>
    cases hprincipal
    by_cases hclient : (Call.read request).IsForClients
    · cases request with
      | exportConfiguration principal projectId environmentId ifNoneMatch =>
        refine hreads (Prog.Reads.bind ?_ (fun _ => trivial)) hclient
        exact (reads_exportConfiguration _ _ _ _).bind (fun _ => trivial)
      | _ => exact hclient.elim
    · exact hrefused ((refused_managementRead h hclient).bind _ _)
  | revokeApiKey principal' keyId =>
    cases hprincipal
    exact hrefused ((refused_revokeApiKey h keyId).bind _ _)
  | me principal' =>
    cases hprincipal
    refine hrefused (Prog.Refused.bind ?_ _ _)
    unfold getCurrentUser
    rw [h.userId]
    exact Or.inl rfl
  | evaluate principal' payload misses =>
    refine hreads ((Prog.reads_attempt _).bind (fun request => ?_)) trivial
    exact (reads_load request misses).bind (fun _ => trivial)
  | evaluateBatch principal' payload misses =>
    refine hreads ((Prog.reads_attempt _).bind (fun request => ?_)) trivial
    exact (reads_load request misses).bind (fun _ => trivial)
  | streamConfig principal' =>
    exact hreads ((Prog.reads_attempt _).bind (fun _ => trivial)) trivial

end Refused

/-! ## What is served -/

/-- The keys of the flags a load was called for. -/
def LoadRequest.flagKeys : LoadRequest → List String
  | .configuration _ _ flagKey => [flagKey]
  | .configurations _ _ flagKeys => flagKeys

/-- The flags that are loaded are those that were named. -/
theorem flagKey_of_mem_addresses {request : LoadRequest} {address : ConfigAddress}
    (h : address ∈ request.addresses) : address.flagKey ∈ request.flagKeys := by
  cases request with
  | configuration projectId environmentId flagKey =>
    rw [List.mem_singleton.mp h]
    exact List.mem_singleton.mpr rfl
  | configurations projectId environmentId flagKeys =>
    obtain ⟨flagKey, hflagKey, rfl⟩ := List.mem_map.mp h
    exact List.mem_eraseDups.mp hflagKey

/-- **An SDK key exports the environment of its own scope only.** -/
theorem scope_of_export {principal : Principal} (hkind : principal.kind = KeyKind.sdk.value)
    (projectId environmentId : UUID) (ifNoneMatch : Option String) :
    (exportConfiguration principal projectId environmentId ifNoneMatch).Yields
      (fun response => principal.projectId = some projectId
        ∧ principal.environmentId = some environmentId
        ∧ ∀ etag bundle, response = .bundle etag bundle → ∀ c ∈ bundle.flags,
          c.projectId = projectId.str ∧ c.environmentId = environmentId.str) := by
  have hscope : (exportEnvironment principal projectId environmentId).Yields
      (fun _ => principal.projectId = some projectId
        ∧ principal.environmentId = some environmentId) := by
    unfold exportEnvironment
    rw [if_pos (show principal.kind = "SDK" from hkind)]
    split
    · exact trivial
    · rename_i hallowed
      rw [not_or, not_or, not_not, not_not] at hallowed
      exact (Prog.yields_true _).mono (fun _ _ => ⟨hallowed.1, hallowed.2.1⟩)
  refine hscope.bind (fun environment hscope => ?_)
  cases environment with
  | none => exact trivial
  | some environment =>
    dsimp only
    split
    · exact trivial
    split
    · refine ⟨hscope.1, hscope.2, ?_⟩
      rintro etag bundle heq
      cases heq
    · refine (scope_of_getAll projectId environmentId).bind (fun configs hconfigs => ?_)
      refine ⟨hscope.1, hscope.2, ?_⟩
      rintro etag bundle heq c hc
      cases heq
      obtain ⟨config, hconfig, rfl⟩ := List.mem_map.mp hc
      exact hconfigs config hconfig

/-- **SDK keys are read-only and confined to one environment.** Every call with the
key only reads, and returns only at an endpoint for clients; no transaction of
the key writes or commits; and the configurations of its loads and exports, and
the events of its stream, are of the project and the environment of the key. -/
theorem sdk_keys_confined {cacheTtlSeconds : ℕ} {actions : List CachedAction} {w : CachedService}
    (hrun : (configCache cacheTtlSeconds).run service (.start initial) actions = some w)
    {key : APIKeyRow} (hkind : key.kind = KeyKind.sdk.value) {p e : UUID}
    (hproject : key.projectId = some p) (henvironment : key.environmentId = some e) :
    (∀ call : Call, call.principal? = some (.ofKey key) →
      call.program.EndsIn (fun error => call.IsForClients ∨ error.Rejects)
        (fun _ => call.IsForClients))
    ∧ (∀ commit ∈ service.commits initial (actions.filterMap CacheAside.CacheAction.served?),
      commit.1.principal? ≠ some (.ofKey key))
    ∧ (∀ tx ∈ w.server.live, tx.request.principal? = some (.ofKey key) → tx.writes = [])
    ∧ (∀ load ∈ w.loads, load.request.IsFor key → ∀ found, load.phase.result? = some (.ok found) →
      ∀ item ∈ found, item.2.IsOf (p, e) ∧ item.2.flagKey = item.1.flagKey
        ∧ item.1.flagKey ∈ load.request.flagKeys)
    ∧ (∀ projectId environmentId ifNoneMatch,
      (exportConfiguration (.ofKey key) projectId environmentId ifNoneMatch).Yields
        (fun response => projectId = p ∧ environmentId = e
          ∧ ∀ etag bundle, response = .bundle etag bundle → ∀ c ∈ bundle.flags,
            c.projectId = p.str ∧ c.environmentId = e.str))
    ∧ ∀ channel, streamConfig (.ofKey key) = .ok channel →
      ∀ note ∈ w.published, note.channel = channel →
        note.projectId = p ∧ note.environmentId = e := by
  have hunprivileged := unprivileged_of_sdk hkind
  have hdenied : ∀ request : Request, request.principal? = some (.ofKey key) →
      (service.program request).Refused PyError.Rejects :=
    fun request hprincipal => refused_request hprincipal hunprivileged
  have hnone : ∀ tx ∈ initial.live, tx.request.principal? = some (.ofKey key) →
      tx.Refused PyError.Rejects :=
    fun tx htx => absurd htx List.not_mem_nil
  have hserver := CacheAside.server_of_run hrun
  refine ⟨fun call hcall => endsIn_call hcall hunprivileged,
    fun commit hcommit => System.not_commits_refused hdenied hnone hserver hcommit,
    fun tx htx hprincipal => (System.refused_of_run hdenied hnone hserver tx htx hprincipal).writes,
    fun load hload hfor found hresult item hitem => ?_,
    fun projectId environmentId ifNoneMatch => ?_, fun channel hchannel note _ hnote => ?_⟩
  · obtain ⟨haddress, s, row, flag, hfinds⟩ := findsVersion_of_result hrun hload hresult hitem
    -- the address of a load is made of the scope of its key
    have hids : (p, e) = load.request.ids :=
      Prod.ext (Option.some.inj (hproject.symm.trans hfor.ids.1))
        (Option.some.inj (henvironment.symm.trans hfor.ids.2))
    refine ⟨?_, hfinds.compiledKey, flagKey_of_mem_addresses haddress⟩
    rw [hids]
    exact scope_of_result hrun hload hresult hitem
  · refine (scope_of_export hkind projectId environmentId ifNoneMatch).mono ?_
    rintro response ⟨hp, he, hflags⟩
    cases Option.some.inj (hproject.symm.trans hp)
    cases Option.some.inj (henvironment.symm.trans he)
    exact ⟨rfl, rfl, hflags⟩
  · obtain ⟨ids, hids, hchannel⟩ := bind_eq_ok.mp hchannel
    cases hchannel
    -- the name of a channel determines its environment
    obtain ⟨hp, he⟩ := eventsChannel_injective hnote
    obtain ⟨hkeyProject, hkeyEnvironment⟩ := keyScope_eq_ok hids
    exact ⟨hp.trans (Option.some.inj (hkeyProject.symm.trans hproject)),
      he.trans (Option.some.inj (hkeyEnvironment.symm.trans henvironment))⟩

/-! ## An SDK key of the sample environment -/

/-- The sample flag, an SDK key of its environment, and a load with it. -/
def sdkLoad : List CachedAction :=
  served (sampleFlag ++ alone 4 60 6 (.createKey sampleUser none (sampleKey ⟨10⟩) .sdk))
    ++ sampleMiss 0 ++ [.set 0]

/-- An SDK key of the sample environment that may evaluate. -/
def APIKeyRow.isSampleSdk (key : APIKeyRow) : Prop :=
  key.projectId = some ⟨20⟩ ∧ key.environmentId = some ⟨30⟩ ∧ key.kind = KeyKind.sdk.value
    ∧ "evaluate" ∈ key.scopes

instance (key : APIKeyRow) : Decidable key.isSampleSdk :=
  inferInstanceAs (Decidable (_ ∧ _))

theorem sdk_keys_confined_sample : ∃ w key load found,
    (configCache 60).run service (.start initial) sdkLoad = some w
    ∧ key ∈ w.server.committed.apiKeys ∧ key.kind = KeyKind.sdk.value
    ∧ load ∈ w.loads ∧ load.request.IsFor key ∧ load.phase.result? = some (.ok found)
    ∧ (Call.write (.archiveFlag (.ofKey key) none ⟨40⟩)).program.EndsIn
      (fun error => False ∨ error.Rejects) (fun _ => False)
    ∧ ∀ item ∈ found, item.2.IsOf (⟨20⟩, ⟨30⟩) ∧ item.2.flagKey = item.1.flagKey
      ∧ item.1.flagKey ∈ ["banner"] := by
  have hfacts : ((configCache 60).run service (.start initial) sdkLoad).any (fun w =>
      w.server.committed.apiKeys.any (fun key => decide key.isSampleSdk)
        && decide (sampleVersions w 0 = some [1])) = true := by
    decide +kernel
  obtain ⟨w, hrun, hfacts⟩ := (Option.any_eq_true _ _).mp hfacts
  obtain ⟨hkey, hversions⟩ := Bool.and_eq_true_iff.mp hfacts
  obtain ⟨key, hkey, hsample⟩ := List.any_eq_true.mp hkey
  obtain ⟨hproject, henvironment, hkind, hscope⟩ := of_decide_eq_true hsample
  obtain ⟨load, found, hload, hrequest, hresult, -⟩ :=
    exists_of_sampleVersions (of_decide_eq_true hversions)
  have hfor : load.request.IsFor key := by
    rw [hrequest]
    exact isFor_of_scope (Or.inl hkind) hproject henvironment hscope
  obtain ⟨hcalls, -, -, hloads, -⟩ := sdk_keys_confined hrun hkind hproject henvironment
  have hmem := List.mem_of_getElem? hload
  have hserved := hloads load hmem hfor found hresult
  rw [hrequest] at hserved
  exact ⟨w, key, load, found, hrun, hkey, hkind, hmem, hfor, hresult,
    hcalls (.write (.archiveFlag (.ofKey key) none ⟨40⟩)) rfl, hserved⟩

end CohortSwitch
