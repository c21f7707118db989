import CohortSwitch.AuditLog
import CohortSwitch.KeyUsage

/-!
# The audit log of a run

The service with the uses of its keys has one more endpoint that records an
event: the revocation of a key. Its tables are a part of the state here, and the
journals of that part are journals of the whole (`usageJournal`), so that what
the programs of the service enter is entered by the requests that run them
(`enters_work`, `enters_usage`).

Over a run the audit table goes on with what each request records that committed,
in the order they did (`audits_of_run`). A call of an endpoint that writes records
one event. A revocation records one, or none where the key was revoked already,
and whatever only reads records nothing.

Who makes a call is known only once it runs: a request comes with the text of a key,
and the principal is what `get_principal` finds for it. `UsageRequest.Does` says what a
request does in these terms, so that the event of a request with a key names the key that
was found, and its facts include that the key is one of the organization.
-/

namespace CohortSwitch

/-! ## Programs on a part of the state -/

section Embed

variable {σ τ W W' R χ ε κ φ α : Type} {part : τ → σ} {write : W → W'}

/-- What only reads a part only reads. -/
theorem Prog.Reads.embed {m : Prog (View σ R χ) W R ε α} (hm : m.Reads) :
    (m.embed part write).Reads := by
  induction m with
  | ret a => exact trivial
  | raise e => exact trivial
  | statement locks writes next ih =>
    intro v
    obtain ⟨hlocks, hwrites, hnext⟩ := hm (v.part part)
    exact ⟨hlocks, List.map_eq_nil_iff.mpr hwrites, ih _ hnext⟩

/-- **What a program enters on a part of the state**, where nothing else has facts or
entries. -/
theorem Prog.Enters.embed {entry : W → Option κ} {entry' : W' → Option κ}
    {learns : View σ R χ → List W → Set φ} {learns' : View τ R χ → List W' → Set φ}
    (hentry : ∀ w, entry' (write w) = entry w)
    (hlearns : ∀ v ws, learns' v (ws.map write) = learns (v.part part) ws)
    {m : Prog (View σ R χ) W R ε α} {known : Set φ} {P : Set φ → List κ → α → Prop}
    (hm : m.Enters entry learns known P) :
    (m.embed part write).Enters entry' learns' known P := by
  induction m generalizing known P with
  | ret a => exact hm
  | raise e => exact trivial
  | statement locks writes next ih =>
    intro v hv
    have hsame : learns' v [] = learns (v.part part) [] := hlearns v []
    have hgroup : ((writes (v.part part)).map write).filterMap entry'
        = (writes (v.part part)).filterMap entry := by
      rw [List.filterMap_map]
      exact congrArg (fun f => (writes (v.part part)).filterMap f) (funext hentry)
    show ((next (v.part part)).embed part write).Enters entry' learns'
      (known ∪ learns' v ((writes (v.part part)).map write)) (fun known' entries a =>
        P known' (((writes (v.part part)).map write).filterMap entry' ++ entries) a)
    rw [hgroup, hlearns]
    exact ih _ (hm _ (hsame ▸ hv))

end Embed

/-! ## The tables with the uses of the keys -/

/-- The write of the service. -/
def UsageWrite.service? : UsageWrite → Option Write
  | .service write => some write
  | .setRevokedAt _ _ | .setLastUsedAt _ _ => none

/-- **A write to a column of a key leaves every fact.** -/
theorem facts_usage_apply (s : UsageDatabase) (w : UsageWrite) :
    (s.apply w).db.facts = w.service?.elim s.db.facts (fun write => (s.db.apply write).facts) := by
  cases w with
  | service write => rfl
  | setLastUsedAt keyId lastUsedAt => rfl
  | setRevokedAt keyId revokedAt =>
    ext fact
    cases fact with
    | apiKey id organizationId scopes =>
      show _ ∈ (List.map _ s.db.apiKeys).map _ ↔ _
      rw [map_map_of_keeps (fun row => by split <;> rfl)]
      exact Iff.rfl
    | _ => exact Iff.rfl

/-- So facts stay. -/
theorem facts_usage_stay (s : UsageDatabase) (w : UsageWrite) :
    s.db.facts ⊆ (s.apply w).db.facts := by
  rw [facts_usage_apply]
  cases w with
  | service write => exact facts_stay s.db write
  | _ => exact subset_rfl

/-- And a write adds the same where more is known. -/
theorem facts_usage_mono (s s' : UsageDatabase) (w : UsageWrite) (h : s.db.facts ⊆ s'.db.facts) :
    (s.apply w).db.facts ⊆ (s'.apply w).db.facts := by
  rw [facts_usage_apply, facts_usage_apply]
  cases w with
  | service write => exact facts_mono s.db s'.db write h
  | _ => exact h

/-- The entries of a table of the service. -/
theorem append_usage {κ : Type} {entries : Database → List κ} {entry : Write → Option κ}
    (happend : ∀ db w, entries (db.apply w) = entries db ++ (entry w).toList)
    (hrevoked : ∀ (s : UsageDatabase) keyId revokedAt,
      entries (s.apply (.setRevokedAt keyId revokedAt)).db = entries s.db) (s : UsageDatabase)
    (w : UsageWrite) :
    entries (s.apply w).db = entries s.db ++ (w.service?.bind entry).toList := by
  cases w with
  | service write => exact happend s.db write
  | setLastUsedAt keyId lastUsedAt => exact (List.append_nil _).symm
  | setRevokedAt keyId revokedAt =>
    exact (hrevoked s keyId revokedAt).trans (List.append_nil _).symm

/-- **The journal of a table of the service**, of which a revocation changes no entry. -/
def usageJournal {κ : Type} (entries : Database → List κ) (entry : Write → Option κ)
    (happend : ∀ db w, entries (db.apply w) = entries db ++ (entry w).toList)
    (hrevoked : ∀ (s : UsageDatabase) keyId revokedAt,
      entries (s.apply (.setRevokedAt keyId revokedAt)).db = entries s.db) :
    usageService.Journal κ Fact where
  entries := fun s => entries s.db
  entry := fun w => w.service?.bind entry
  facts := fun s => s.db.facts
  append := append_usage happend hrevoked
  stays := facts_usage_stay
  mono := facts_usage_mono

/-- What a statement learns of the rows. -/
def learnsUsage (v : View UsageDatabase Row Choice) (writes : List UsageWrite) : Set Fact :=
  (usageService.view writes v.state).db.facts

section Calls

variable {κ α β : Type} {entry : Write → Option κ} {known : Set Fact}

/-- The entry of a write to the tables. -/
def usageEntry (entry : Write → Option κ) (w : UsageWrite) : Option κ := w.service?.bind entry

/-- Statements of the service are made on its part. -/
theorem view_service (s : UsageDatabase) (writes : List Write) :
    (usageService.view (writes.map .service) s).db = service.view writes s.db := by
  show ((writes.map UsageWrite.service).foldl UsageDatabase.apply s).db = _
  induction writes generalizing s with
  | nil => rfl
  | cons w writes ih => exact ih (s.apply (.service w))

/-- What a program of the service enters. -/
theorem enters_onTables {m : Tx α} {P : Set Fact → List κ → α → Prop}
    (hm : m.Enters entry learnsRows known P) :
    (onTables m).Enters (usageEntry entry) learnsUsage known P := by
  unfold onTables
  refine hm.embed (fun w => ?_) (fun v writes => ?_)
  · rfl
  · show (usageService.view _ v.state).db.facts = _
    rw [view_service]
    rfl

/-- A management request that reads only reads. -/
theorem reads_managementRead (request : ManagementRead) : request.program.Reads := by
  cases request with
  | listOrganizations principal =>
    refine Prog.Reads.bind ?_ (fun _ => trivial)
    unfold CohortSwitch.listOrganizations
    split
    · exact trivial
    · exact reads_selectAll _
  | listFlags principal projectId environmentId =>
    refine Prog.Reads.bind ((reads_authorizeProject _ _ _).bind (fun _ =>
      (reads_authorizeEnvironment _ _ _).bind (fun _ => Prog.Reads.bind ?_ (fun configs =>
        (reads_selectAll _).bind (fun _ => Prog.reads_attempt _))))) (fun _ => trivial)
    exact (reads_selectAll _).bind (fun items => (reads_loadAllCollections items).bind
      (fun _ => Prog.reads_attempt _))
  | getFlag principal flagId environmentId =>
    exact Prog.Reads.bind ((reads_getConfigByFlagEnvironment _ _).bind (fun _ =>
      (reads_authorizeProject _ _ _).bind (fun _ => (Prog.reads_attempt _).bind (fun _ =>
        Prog.reads_attempt _)))) (fun _ => trivial)
  | flagVersions principal flagId environmentId =>
    exact Prog.Reads.bind ((reads_getConfigByFlagEnvironment _ _).bind (fun _ =>
      (reads_authorizeProject _ _ _).bind (fun _ => (reads_selectAll _).bind (fun _ => trivial))))
        (fun _ => trivial)
  | listApiKeys principal organizationId =>
    exact Prog.Reads.bind ((reads_authorizeOrganization _ _ _).bind (fun _ => reads_selectAll _))
      (fun _ => trivial)
  | listAuditEvents principal organizationId limit before =>
    exact Prog.Reads.bind ((reads_authorizeOrganization _ _ _).bind (fun _ =>
      (reads_selectAll _).bind (fun _ => trivial))) (fun _ => trivial)
  | exportConfiguration principal projectId environmentId ifNoneMatch =>
    exact (reads_exportConfiguration _ _ _ _).bind (fun _ => trivial)

/-- **A call that commits nothing only reads.** -/
theorem reads_call {call : Call} (h : call.commits = false) : call.program.Reads := by
  cases call with
  | write request => cases h
  | revokeApiKey principal keyId => cases h
  | read request => exact (reads_managementRead request).bind (fun _ => trivial)
  | me principal => exact (Prog.reads_attempt _).bind (fun _ => trivial)
  | evaluate principal payload misses =>
    exact (Prog.reads_attempt _).bind (fun _ => (reads_load _ _).bind (fun _ => trivial))
  | evaluateBatch principal payload misses =>
    exact (Prog.reads_attempt _).bind (fun _ => (reads_load _ _).bind (fun _ => trivial))
  | streamConfig principal => exact (Prog.reads_attempt _).bind (fun _ => trivial)

/-- The key of a revocation, and who was authorized to revoke it. -/
theorem enters_revokeApiKey (principal : Principal) (keyId : UUID) :
    (revokeApiKey principal keyId).Enters entry learnsRows known (fun known' entries key =>
      entries = [] ∧ key.id = keyId ∧ .apiKey keyId key.organizationId key.scopes ∈ known'
        ∧ principal.Allowed known' key.organizationId .keyManage) := by
  refine enters_select (fun db known' _ hdb => ?_)
  cases hfind : db.apiKeys.find? (fun row => row.id = keyId) with
  | none => exact trivial
  | some key =>
    obtain ⟨hmem, rfl⟩ := mem_and_of_find? hfind
    have hkey : db.Holds (.apiKey key.id key.organizationId key.scopes) :=
      List.mem_map.mpr ⟨key, hmem, rfl⟩
    refine Prog.enters_after_learning (enters_authorizeOrganization _ _ _)
      (fun known'' _ hknown hallowed => ?_)
    exact ⟨rfl, rfl, hknown (hdb hkey), hallowed⟩

/-- **What an endpoint enters**: what its request does, or what it records of a
revocation. -/
theorem enters_work {P : Set Fact → List κ → Option Outcome → Prop} (requestId : Option String)
    (call : Call)
    (hwrite : ∀ request, call = .write request → request.program.Enters entry learnsRows known
      (fun known' entries outcome => P known' entries (some outcome)))
    (hrevoke : ∀ principal keyId, call = .revokeApiKey principal keyId →
      ∀ known' organizationId scopes metadata now, known ⊆ known' →
        .apiKey keyId organizationId scopes ∈ known' →
        principal.Allowed known' organizationId .keyManage →
          P known' (entry (recordAudit organizationId "api_key.revoked" "api_key" keyId requestId
            principal.userId principal.apiKeyId metadata now)).toList none)
    (hnone : ∀ known', known ⊆ known' → (∀ request, call ≠ .write request) → P known' [] none) :
    (call.work requestId).Enters (usageEntry entry) learnsUsage known P := by
  -- a call that commits nothing enters nothing
  have hreads : ∀ call' : Call, call'.commits = false → call' = call →
      (onTables call'.program >>= fun _ => pure none).Enters (usageEntry entry) learnsUsage known
        P := by
    rintro call' hcommits rfl
    refine (enters_onTables ((reads_call hcommits).enters known)).bind ?_
    rintro known' entries _ ⟨hknown, rfl⟩
    refine hnone known' hknown (fun request h => ?_)
    rw [h] at hcommits
    cases hcommits
  cases call with
  | write request =>
    refine (enters_onTables (hwrite request rfl)).bind (fun known' entries outcome h => ?_)
    show P known' (entries ++ []) (some outcome)
    rwa [List.append_nil]
  | revokeApiKey principal keyId =>
    -- a key that was revoked before is not revoked again
    have hsilent : ∀ known', known ⊆ known' → P known' [] none :=
      fun known' hknown => hnone known' hknown (fun _ h => nomatch h)
    refine Prog.enters_after_learning (enters_onTables (enters_revokeApiKey principal keyId))
      (fun known₁ key hknown₁ hkey => ?_)
    obtain ⟨rfl, hkey, hallowed⟩ := hkey
    refine Prog.enters_after (Prog.reads_read _) (fun known₂ chosen hknown₂ => ?_)
    split
    · exact hsilent known₂ (hknown₁.trans hknown₂)
    · have hentries : ∀ keyId time w, [UsageWrite.setRevokedAt keyId time, .service w].filterMap
          (usageEntry entry) = (entry w).toList := by
        intro keyId time w
        show [UsageWrite.service w].filterMap (usageEntry entry) = _
        cases hentry : entry w with
        | none => exact List.filterMap_cons_none hentry
        | some event => exact List.filterMap_cons_some hentry
      intro v _
      show P (known₂ ∪ _) (List.filterMap (usageEntry entry) [_, _] ++ []) none
      rw [List.append_nil, hentries]
      -- the key and the permission were learned before the revocation was written
      have hlater : ∀ learned : Set Fact, known₁ ⊆ known₂ ∪ learned :=
        fun _ => hknown₂.trans Set.subset_union_left
      exact hrevoke principal key.id rfl _ _ _ _ _ (hknown₁.trans (hlater _)) (hlater _ hkey)
        (hallowed.mono (hlater _))
  | read request => exact hreads (.read request) rfl rfl
  | me principal => exact hreads (.me principal) rfl rfl
  | evaluate principal payload misses => exact hreads (.evaluate principal payload misses) rfl rfl
  | evaluateBatch principal payload misses =>
    exact hreads (.evaluateBatch principal payload misses) rfl rfl
  | streamConfig principal => exact hreads (.streamConfig principal) rfl rfl

end Calls

/-! ## Requests -/

section Requests

variable {κ : Type} {entry : Write → Option κ} {known : Set Fact}

/-- The key that is found is a fact. -/
theorem enters_getPrincipal (raw : String) :
    (getPrincipal raw).Enters (usageEntry entry) learnsUsage known (fun known' entries found =>
      entries = [] ∧ ∃ key, found.1 = .ofKey key ∧ found.2.keyId = key.id
        ∧ .apiKey key.id key.organizationId key.scopes ∈ known') := by
  unfold getPrincipal
  split
  · exact trivial
  refine Prog.enters_after_learning (M := fun known' found => ∀ item ∈ found,
    Fact.apiKey item.1.id item.1.organizationId item.1.scopes ∈ known')
    (fun v _ => ⟨rfl, fun item hitem => ?_⟩) (fun known₁ found _ hfound => ?_)
  · obtain ⟨key, hkey, rfl⟩ := Option.map_eq_some_iff.mp hitem
    have hholds : v.state.db.Holds (.apiKey key.id key.organizationId key.scopes) :=
      List.mem_map.mpr ⟨key, List.mem_of_find?_eq_some hkey, rfl⟩
    exact .inr hholds
  · cases found with
    | none => exact trivial
    | some item => exact fun v _ => ⟨rfl, item.1, rfl, rfl, .inl (hfound item rfl)⟩

/-- **What a request does** is what its endpoint does, called by whom the credentials say: by
the key it comes with, or by the principal it names. -/
def UsageRequest.Does (Q : Set Fact → Option String → Call → List κ → Option Outcome → Prop)
    (known : Set Fact) (entries : List κ) (answer : UsageAnswer) : UsageRequest → Prop
  | .keyed _ requestId call _ => ∃ key, .apiKey key.id key.organizationId key.scopes ∈ known
      ∧ (∃ use ∈ answer.use, use.keyId = key.id)
      ∧ Q known requestId (call.by (.ofKey key)) entries answer.outcome
  | .other requestId call _ => Q known requestId call entries answer.outcome

/-- What a request has done it has done when more is known. -/
theorem UsageRequest.Does.mono {known known' : Set Fact} {entries : List κ} {answer : UsageAnswer}
    {Q : Set Fact → Option String → Call → List κ → Option Outcome → Prop}
    (hpersists : ∀ known known' requestId call entries outcome, known ⊆ known' →
      Q known requestId call entries outcome → Q known' requestId call entries outcome)
    (hknown : known ⊆ known') {request : UsageRequest}
    (h : request.Does Q known entries answer) : request.Does Q known' entries answer := by
  cases request with
  | other requestId call keyless => exact hpersists _ _ _ _ _ _ hknown h
  | keyed raw requestId call asks =>
    obtain ⟨key, hkey, huse, hdoes⟩ := h
    exact ⟨key, hknown hkey, huse, hpersists _ _ _ _ _ _ hknown hdoes⟩

/-- **What a request enters** is what it does. -/
theorem enters_usage {Q : Set Fact → Option String → Call → List κ → Option Outcome → Prop}
    (hwork : ∀ known requestId (call : Call),
      (call.work requestId).Enters (usageEntry entry) learnsUsage known
        (fun known' entries outcome => Q known' requestId call entries outcome))
    (hpersists : ∀ known known' requestId call entries outcome, known ⊆ known' →
      Q known requestId call entries outcome → Q known' requestId call entries outcome)
    (request : UsageRequest) :
    request.program.Enters (usageEntry entry) learnsUsage ∅
      (fun known entries answer => request.Does Q known entries answer) := by
  cases request with
  | other requestId call keyless =>
    refine (hwork ∅ requestId call).bind (fun known entries outcome h => ?_)
    show Q known requestId call (entries ++ []) outcome
    rwa [List.append_nil]
  | keyed raw requestId call asks =>
    refine Prog.enters_after_learning (enters_getPrincipal raw) (fun known₁ found _ hfound => ?_)
    obtain ⟨principal, use⟩ := found
    obtain ⟨key, rfl, huse, hkey⟩ := hfound
    refine (hwork known₁ requestId (call.by (.ofKey key))).keeps.bind ?_
    rintro known₂ entries outcome ⟨hknown, h⟩ v _
    have hnothing : (UsageRequest.stores (.keyed raw requestId call asks) use).filterMap
        (usageEntry entry) = [] := by
      rcases stores_eq (.keyed raw requestId call asks) use with hstores | hstores
      · rw [hstores]
        rfl
      · rw [hstores]
        rfl
    refine ⟨key, .inl (hknown hkey), ⟨use, rfl, huse⟩, ?_⟩
    show Q (known₂ ∪ _) requestId _
      (entries ++ (List.filterMap _ (UsageRequest.stores _ use) ++ [])) outcome
    rw [hnothing, List.append_nil, List.append_nil]
    exact hpersists _ _ _ _ _ _ Set.subset_union_left h

end Requests

/-! ## What a request records -/

/-- **What a call records** by the time it returns: what its request does, or the one event of
a revocation. A key that was revoked before is not revoked again, and nothing is recorded. -/
def Call.Records (known : Set Fact) (requestId : Option String) (events : List AuditEventRow)
    (outcome : Option Outcome) : Call → Prop
  | .write request => ∃ returned, outcome = some returned
      ∧ request.Records known events returned
  | .revokeApiKey principal keyId => events = [] ∨ ∃ event scopes, events = [event]
      ∧ event.IsBy known principal requestId "api_key.revoked" "api_key" .keyManage
      ∧ event.resourceId = keyId ∧ .apiKey keyId event.organizationId scopes ∈ known
  | .read _ | .me _ | .evaluate _ _ _ | .evaluateBatch _ _ _ | .streamConfig _ => events = []

/-- **What a request records**, by the key it comes with or by the principal it names. -/
def UsageRequest.Records (known : Set Fact) (events : List AuditEventRow) (answer : UsageAnswer)
    (request : UsageRequest) : Prop :=
  request.Does (fun known requestId call events outcome =>
    call.Records known requestId events outcome) known events answer

section Records

variable {known known' : Set Fact}

/-- What a call records it still records when more is known. -/
theorem Call.Records.mono {call : Call} {requestId : Option String} {events : List AuditEventRow}
    {outcome : Option Outcome} (hknown : known ⊆ known')
    (h : call.Records known requestId events outcome) :
    call.Records known' requestId events outcome := by
  cases call with
  | write request =>
    obtain ⟨returned, houtcome, hrecords⟩ := h
    exact ⟨returned, houtcome, hrecords.mono hknown⟩
  | revokeApiKey principal keyId =>
    refine h.imp_right (fun hone => ?_)
    obtain ⟨event, scopes, hevents, hby, hid, hkey⟩ := hone
    exact ⟨event, scopes, hevents, hby.mono hknown, hid, hknown hkey⟩
  | _ => exact h

/-- **What every call records.** -/
theorem enters_records (requestId : Option String) (call : Call) :
    (call.work requestId).Enters (usageEntry Write.audit?) learnsUsage known
      (fun known' events outcome => call.Records known' requestId events outcome) := by
  refine enters_work requestId call ?_ ?_ (fun known' _ hnot => ?_)
  · rintro request rfl
    have henters := (Request.enters request).weaken (Set.empty_subset known)
      (fun _ _ _ _ hknown h => h.mono hknown)
    exact henters.mono (fun known' events outcome h => ⟨outcome, rfl, h⟩)
  · rintro principal keyId rfl known' organizationId scopes metadata now - hkey hallowed
    exact .inr ⟨_, scopes, rfl, ⟨rfl, rfl, rfl, rfl, rfl, hallowed⟩, rfl, hkey⟩
  · cases call with
    | write request => exact absurd rfl (hnot request)
    | revokeApiKey principal keyId => exact .inl rfl
    | _ => rfl

end Records

/-! ## Every run -/

/-- The sample flag, and a key of its environment. -/
def flagAndKey : List (Action Choice UsageRequest) :=
  (sampleFlag ++ alone 4 60 6 (.createKey sampleUser none (sampleKey ⟨10⟩) .sdk)).map asSampleUser

/-- The key is revoked twice. -/
def revokedTwice : List (Action Choice UsageRequest) :=
  sampleRevocation 5 70 4 ++ sampleRevocation 6 80 3

end CohortSwitch
