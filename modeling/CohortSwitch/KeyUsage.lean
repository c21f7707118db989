import CohortSwitch.SdkKeys

/-!
# When a key was last used

`get_principal` finds the key of a request and assigns the time to its
`last_used_at`, in the session it shares with the endpoint. The sessions flush
nothing by themselves and roll back when they are closed, so the assignment is
stored with the commit of the endpoint, where it has one: an endpoint that only
reads answers and leaves it behind.

The tables of the service are a part of the state here, and its programs run on
that part (`Prog.embed`). `uses_recorded_iff` says which runs record every use that
was answered: those in which an endpoint that commits answers the requests with
a key in the order of their times, and one that does not finds a time as late
already stored. An SDK key reaches no endpoint that commits, so its
`last_used_at` stays null in every run (`lastUsedAt_sdk`).

## Two columns beside the tables

The rows of the keys have no column for the last use: it is kept beside them, by their
ids. The facts about the service were proved of its own tables, and a program that only sees
a part of a state ensures there what it ensured before (`Prog.ensures_embed`), so none
of them is proved again. The revocation of a key is the one endpoint that is added, and it
writes to a column that is there (`setRevokedAt`).

What a request writes is what its endpoint writes, followed by the update of the use. The
claim is about the answers of a run, and it is decided answer by answer
(`recordsAll_commit_iff`).
-/

namespace CohortSwitch

/-! ## Programs on a part of the state -/

section Embed

variable {σ τ W W' R χ ε α β : Type}

/-- What a statement sees of a part of the state. -/
def View.part (part : τ → σ) (v : View τ R χ) : View σ R χ := ⟨part v.state, v.locked, v.choice⟩

/-- **A program on a part of the state**: it sees the part only, and its writes are
writes to the part. -/
def Prog.embed (part : τ → σ) (write : W → W') :
    Prog (View σ R χ) W R ε α → Prog (View τ R χ) W' R ε α
  | ret a => ret a
  | raise e => raise e
  | statement locks writes next =>
    statement (fun v => locks (v.part part)) (fun v => (writes (v.part part)).map write)
      (fun v => (next (v.part part)).embed part write)

variable {part : τ → σ} {write : W → W'}

/-- What it returns, it returns on the part. -/
theorem Prog.Yields.embed {m : Prog (View σ R χ) W R ε α} {P : α → Prop} (hm : m.Yields P) :
    (m.embed part write).Yields P := by
  induction m with
  | ret a => exact hm
  | raise e => exact trivial
  | statement locks writes next ih => exact fun v => ih _ (hm _)

/-- **It writes to the part only.** -/
theorem Prog.ensures_embed {d : Discipline τ W' R} {P : W' → Prop}
    (hwrite : ∀ w, P (write w)) (m : Prog (View σ R χ) W R ε α) {writes : List W'}
    {locks : List R} {s : τ} (hwrites : ∀ w ∈ writes, P w) :
    (m.embed part write).Ensures d (fun writes' _ _ _ => ∀ w ∈ writes', P w) writes locks s := by
  induction m generalizing writes locks s with
  | ret a => exact hwrites
  | raise e => exact trivial
  | statement locks' writes' next ih =>
    intro s' _ _ locked choice _
    refine ih _ (fun w hw => ?_)
    rcases List.mem_append.mp hw with hw | hw
    · exact hwrites w hw
    · obtain ⟨w, -, rfl⟩ := List.mem_map.mp hw
      exact hwrite w

end Embed

/-! ## The state -/

/-- **The tables with `last_used_at` of the keys**, by their ids. -/
structure UsageDatabase where
  /-- The tables of the service. -/
  db : Database
  /-- `last_used_at` of each key. -/
  lastUsedAt : UUID → Option Instant

/-- A write of the service, or one to a column of a key. -/
inductive UsageWrite where
  | service (write : Write)
  | setRevokedAt (keyId : UUID) (revokedAt : Instant)
  | setLastUsedAt (keyId : UUID) (lastUsedAt : Instant)

def UsageDatabase.apply (s : UsageDatabase) : UsageWrite → UsageDatabase
  | .service write => { s with db := s.db.apply write }
  | .setRevokedAt keyId revokedAt =>
    { s with db := { s.db with
        apiKeys := s.db.apiKeys.map (fun row =>
          if row.id = keyId then { row with revokedAt := some revokedAt } else row) } }
  | .setLastUsedAt keyId lastUsedAt =>
    { s with lastUsedAt := Function.update s.lastUsedAt keyId (some lastUsedAt) }

/-- The rows a write locks. -/
def UsageWrite.locks : UsageWrite → List Row
  | .service write => write.locks
  | .setRevokedAt _ _ | .setLastUsedAt _ _ => []

/-- A transaction on the tables with `last_used_at`. -/
abbrev UsageTx (α : Type) := Prog (View UsageDatabase Row Choice) UsageWrite Row PyError α

/-- The statements of everything that is pending. -/
def flushUsage (pending : List UsageWrite) : UsageTx Unit :=
  .statement (fun _ => pending.flatMap UsageWrite.locks) (fun _ => pending) (fun _ => .ret ())

/-- A program of the service. -/
def onTables {α : Type} (m : Tx α) : UsageTx α := m.embed UsageDatabase.db .service

/-! ## Authentication -/

/-- **A key that authenticated a request**: `last_used_at` as it was loaded, and
the time that was assigned to it. -/
structure KeyUse where
  /-- The key. -/
  keyId : UUID
  /-- `last_used_at` as it was loaded. -/
  loaded : Option Instant
  /-- The time that was assigned. -/
  usedAt : Instant

/-- What a flush stores of the assignment: a column that has its loaded value
again is not updated. -/
def KeyUse.pending (use : KeyUse) : List UsageWrite :=
  if use.loaded = some use.usedAt then [] else [.setLastUsedAt use.keyId use.usedAt]

/-- **`get_principal`**, of a request that comes with a key and no other
credentials. The assignment to `last_used_at` is pending when it returns. -/
def getPrincipal (raw : String) : UsageTx (Principal × KeyUse) :=
  if raw = "" then
    .raise (.apiError 401 "authentication_required" "Authentication is required." [])
  else do
    let found ← Prog.read (fun v => (v.state.db.apiKeys.find? (fun row =>
      row.keyHash = hashSecret raw ∧ row.revokedAt = none)).map
        (fun key => (key, v.state.lastUsedAt key.id)))
    match found with
    | none => .raise (.apiError 401 "invalid_api_key" "API key is invalid or revoked." [])
    | some (key, lastUsedAt) => do
      let chosen ← Prog.read View.choice
      pure (.ofKey key, ⟨key.id, lastUsedAt, chosen.now⟩)

/-! ## Endpoints -/

/-- The request with the principal of its credentials. -/
def Request.by (principal : Principal) : Request → Request
  | .createOrganization _ requestId payload => .createOrganization principal requestId payload
  | .createProject _ requestId payload => .createProject principal requestId payload
  | .createEnvironment _ requestId projectId payload =>
    .createEnvironment principal requestId projectId payload
  | .createKey _ requestId payload kind => .createKey principal requestId payload kind
  | .createFeatureFlag _ requestId projectId payload =>
    .createFeatureFlag principal requestId projectId payload
  | .replaceFlagConfiguration _ requestId flagId payload =>
    .replaceFlagConfiguration principal requestId flagId payload
  | .addTargetingRule _ requestId flagId payload =>
    .addTargetingRule principal requestId flagId payload
  | .rollbackFeatureFlag _ requestId flagId targetVersion payload =>
    .rollbackFeatureFlag principal requestId flagId targetVersion payload
  | .archiveFlag _ requestId flagId => .archiveFlag principal requestId flagId
  | .scheduleChange _ requestId flagId payload => .scheduleChange principal requestId flagId payload
  | .applyDueChanges => .applyDueChanges

def ManagementRead.by (principal : Principal) : ManagementRead → ManagementRead
  | .listOrganizations _ => .listOrganizations principal
  | .listFlags _ projectId environmentId => .listFlags principal projectId environmentId
  | .getFlag _ flagId environmentId => .getFlag principal flagId environmentId
  | .flagVersions _ flagId environmentId => .flagVersions principal flagId environmentId
  | .listApiKeys _ organizationId => .listApiKeys principal organizationId
  | .listAuditEvents _ organizationId limit before =>
    .listAuditEvents principal organizationId limit before
  | .exportConfiguration _ projectId environmentId ifNoneMatch =>
    .exportConfiguration principal projectId environmentId ifNoneMatch

/-- **The call with the principal of its credentials.** -/
def Call.by (principal : Principal) : Call → Call
  | .write request => .write (request.by principal)
  | .read request => .read (request.by principal)
  | .revokeApiKey _ keyId => .revokeApiKey principal keyId
  | .me _ => .me principal
  | .evaluate _ payload misses => .evaluate principal payload misses
  | .evaluateBatch _ payload misses => .evaluateBatch principal payload misses
  | .streamConfig _ => .streamConfig principal

theorem Request.principal?_by {request : Request} (h : request.principal?.isSome = true)
    (principal : Principal) : (request.by principal).principal? = some principal := by
  cases request with
  | applyDueChanges => cases h
  | _ => rfl

theorem Call.principal?_by {call : Call} (h : call.principal?.isSome = true)
    (principal : Principal) : (call.by principal).principal? = some principal := by
  cases call with
  | write request => exact Request.principal?_by h principal
  | read request => cases request <;> rfl
  | _ => rfl

/-- **Whether the endpoint commits its session** before it answers. -/
def Call.commits : Call → Bool
  | .write _ | .revokeApiKey _ _ => true
  | .read _ | .me _ | .evaluate _ _ _ | .evaluateBatch _ _ _ | .streamConfig _ => false

/-- What an endpoint does before it commits or answers, and what it returns where it is one of
the service. A key is revoked once. -/
def Call.work (requestId : Option String) : Call → UsageTx (Option Outcome)
  | .write request => do
    let outcome ← onTables request.program
    pure (some outcome)
  | .revokeApiKey principal keyId => do
    let key ← onTables (CohortSwitch.revokeApiKey principal keyId)
    let chosen ← Prog.read View.choice
    match key.revokedAt with
    | some _ => pure none
    | none => do
      flushUsage [.setRevokedAt key.id chosen.now,
        .service (recordAudit key.organizationId "api_key.revoked" "api_key" key.id requestId
          principal.userId principal.apiKeyId [("prefix", .str key.keyPrefix)] chosen.now)]
      pure none
  | call => do
    onTables call.program
    pure none

/-! ## The server -/

/-- **A request that comes with a key**, or one of a user or of the scheduler. -/
inductive UsageRequest where
  | keyed (raw : String) (requestId : Option String) (call : Call)
    (asks : call.principal?.isSome = true)
  | other (requestId : Option String) (call : Call)
    (keyless : ∀ principal ∈ call.principal?, principal.apiKeyId = none)

/-- **What the commit of the endpoint stores** of a use of the key: nothing, where it
has none. -/
def UsageRequest.stores : UsageRequest → KeyUse → List UsageWrite
  | .keyed _ _ call _, use => if call.commits then use.pending else []
  | .other _ _ _, _ => []

/-- **An answer**: the use of the key a request came with, and what an endpoint that writes
returned. -/
structure UsageAnswer where
  /-- The use of the key, of a request that came with one. -/
  use : Option KeyUse
  /-- What an endpoint that writes returned. -/
  outcome : Option Outcome

/-- The transaction of a request, up to its answer. No later statement reads
`last_used_at`, so that its update may come last. -/
def UsageRequest.program : UsageRequest → UsageTx UsageAnswer
  | .keyed raw requestId call asks => do
    let (principal, use) ← getPrincipal raw
    let outcome ← (call.by principal).work requestId
    flushUsage (UsageRequest.stores (.keyed raw requestId call asks) use)
    pure ⟨some use, outcome⟩
  | .other requestId call _ => do
    let outcome ← call.work requestId
    pure ⟨none, outcome⟩

/-- **The service with the uses of its keys.** A request is answered in the step that
ends its transaction; one that fails after it has read aborts. -/
def usageService :
    System UsageDatabase UsageWrite Row Choice PyError UsageRequest UsageAnswer where
  apply := UsageDatabase.apply
  ok := fun s => s.db.ok
  program := UsageRequest.program

abbrev UsageWorld := World UsageDatabase UsageWrite Row Choice PyError UsageRequest UsageAnswer

/-- The service before its first request. -/
def usageInitial : UsageWorld := ⟨⟨.empty, fun _ => none⟩, [], [], 0⟩

/-- **The use is on record**: the key was last used then, or later. -/
def UsageDatabase.Records (s : UsageDatabase) (use : KeyUse) : Prop :=
  ∃ lastUsedAt ∈ s.lastUsedAt use.keyId, use.usedAt ≤ lastUsedAt

/-- Every use that was answered is on record. -/
def UsageDatabase.RecordsAll (s : UsageDatabase) (log : List (UsageRequest × UsageAnswer)) :
    Prop :=
  ∀ entry ∈ log, ∀ use ∈ entry.2.use, s.Records use

/-! ## What a request writes -/

/-- The write leaves `last_used_at` of every key alone. -/
def UsageWrite.KeepsUse : UsageWrite → Prop
  | .setLastUsedAt _ _ => False
  | .service _ | .setRevokedAt _ _ => True

/-- Such a write leaves `last_used_at` alone. -/
theorem lastUsedAt_of_keepsUse {writes : List UsageWrite} (h : ∀ write ∈ writes, write.KeepsUse)
    (s : UsageDatabase) : (writes.foldl UsageDatabase.apply s).lastUsedAt = s.lastUsedAt := by
  induction writes generalizing s with
  | nil => rfl
  | cons write writes ih =>
    rw [List.foldl_cons, ih (fun later hlater => h later (List.mem_cons_of_mem write hlater))]
    cases write with
    | setLastUsedAt keyId lastUsedAt => exact (h _ List.mem_cons_self).elim
    | _ => rfl

/-- **What a request writes**: what leaves the uses of the keys alone, and then what
its commit stores of its own use. -/
def UsageCommits (request : UsageRequest) (writes : List UsageWrite) (use : Option KeyUse) :
    Prop :=
  ∃ before, (∀ write ∈ before, write.KeepsUse) ∧ writes = before ++ use.elim [] request.stores

/-- A use is stored as it is, or not at all. -/
theorem stores_eq (request : UsageRequest) (use : KeyUse) :
    request.stores use = [] ∨ request.stores use = [.setLastUsedAt use.keyId use.usedAt] := by
  have hpending : use.pending = [] ∨ use.pending = [.setLastUsedAt use.keyId use.usedAt] := by
    unfold KeyUse.pending
    split
    · exact .inl rfl
    · exact .inr rfl
  cases request with
  | other requestId call keyless => exact .inl rfl
  | keyed raw requestId call asks =>
    unfold UsageRequest.stores
    dsimp only
    split
    · exact hpending
    · exact .inl rfl

section Uses

variable {request : UsageRequest} {writes : List UsageWrite} {use : KeyUse}

/-- **A request that stores nothing** leaves every `last_used_at` as it was. -/
theorem UsageCommits.lastUsedAt_same {use : Option KeyUse} (h : UsageCommits request writes use)
    (hnone : ∀ own ∈ use, request.stores own = []) (s : UsageDatabase) :
    (usageService.view writes s).lastUsedAt = s.lastUsedAt := by
  obtain ⟨before, hbefore, rfl⟩ := h
  have hnothing : use.elim [] request.stores = [] := by
    cases use with
    | none => rfl
    | some own => exact hnone own rfl
  rw [hnothing, List.append_nil]
  exact lastUsedAt_of_keepsUse hbefore s

/-- **A request that stores its use** updates `last_used_at` of its key. -/
theorem UsageCommits.lastUsedAt_update (h : UsageCommits request writes (some use))
    (hstores : request.stores use ≠ []) (s : UsageDatabase) :
    (usageService.view writes s).lastUsedAt
      = Function.update s.lastUsedAt use.keyId (some use.usedAt) := by
  obtain ⟨before, hbefore, rfl⟩ := h
  have hown : (some use).elim [] request.stores = [.setLastUsedAt use.keyId use.usedAt] :=
    (stores_eq request use).resolve_left hstores
  rw [hown]
  show ((before ++ [_]).foldl UsageDatabase.apply s).lastUsedAt = _
  rw [List.foldl_append, ← lastUsedAt_of_keepsUse hbefore s]
  rfl

end Uses

/-! ## What the programs ensure -/

/-- The key is there, and is none of the SDK. -/
def UsageDatabase.Managed (s : UsageDatabase) (keyId : UUID) : Prop :=
  ∃ key ∈ s.db.apiKeys, key.id = keyId ∧ key.kind ≠ KeyKind.sdk.value

/-- A write keeps the keys. -/
theorem UsageDatabase.Managed.apply {s : UsageDatabase} {keyId : UUID} (h : s.Managed keyId)
    (write : UsageWrite) : (s.apply write).Managed keyId := by
  obtain ⟨key, hkey, hid, hkind⟩ := h
  cases write with
  | service write =>
    cases write with
    | apiKey row => exact ⟨key, List.mem_append_left _ hkey, hid, hkind⟩
    | _ => exact ⟨key, hkey, hid, hkind⟩
  | setLastUsedAt other lastUsedAt => exact ⟨key, hkey, hid, hkind⟩
  | setRevokedAt other revokedAt =>
    refine ⟨_, List.mem_map.mpr ⟨key, hkey, rfl⟩, ?_⟩
    split
    · exact ⟨hid, hkind⟩
    · exact ⟨hid, hkind⟩

/-- Any number of writes does. -/
theorem UsageDatabase.Managed.view {s : UsageDatabase} {keyId : UUID} (h : s.Managed keyId)
    (writes : List UsageWrite) : (usageService.view writes s).Managed keyId := by
  induction writes generalizing s with
  | nil => exact h
  | cons write writes ih => exact ih (h.apply write)

/-- Keys stay, and are what they are. -/
def keysStay : Discipline UsageDatabase UsageWrite Row where
  apply := UsageDatabase.apply
  invariant := fun _ => True
  rely := fun _ s s' => ∀ keyId, s.Managed keyId → s'.Managed keyId
  rely_refl := fun _ _ _ h => h
  rely_trans := fun _ _ _ _ h h' keyId hkey => h' keyId (h keyId hkey)

/-- An endpoint leaves the uses of the keys alone. -/
theorem ensures_work (requestId : Option String) (call : Call) (locks : List Row)
    (s : UsageDatabase) : (call.work requestId).Ensures keysStay
      (fun writes _ _ _ => ∀ write ∈ writes, write.KeepsUse) [] locks s := by
  have htables : ∀ {α : Type} (m : Tx α), (onTables m).Ensures keysStay
      (fun writes _ _ _ => ∀ write ∈ writes, write.KeepsUse) [] locks s :=
    fun m => Prog.ensures_embed (fun _ => trivial) m (fun _ h => absurd h List.not_mem_nil)
  cases call with
  | revokeApiKey principal keyId =>
    refine (htables _).bind (fun writes locks s₁ key hwrites => ?_)
    refine Prog.Ensures.bind (M := fun writes _ _ _ => ∀ write ∈ writes, write.KeepsUse)
      (Prog.ensures_read (fun _ _ _ _ _ => hwrites)) (fun writes locks s₂ chosen hwrites => ?_)
    split
    · exact hwrites
    · intro s₃ _ _ locked choice _ write hwrite
      rcases List.mem_append.mp hwrite with hwrite | hwrite
      · exact hwrites write hwrite
      · rcases List.mem_pair.mp hwrite with rfl | rfl
        · exact trivial
        · exact trivial
  | _ => exact (htables _).bind (fun _ _ _ _ hwrites => hwrites)

/-- **An endpoint that commits refuses an SDK key.** -/
theorem yields_work (requestId : Option String) {call : Call} {principal : Principal}
    (hprincipal : call.principal? = some principal) (hcommits : call.commits = true) :
    (call.work requestId).Yields (fun _ => ¬ principal.Unprivileged) := by
  by_cases h : principal.Unprivileged
  · cases call with
    | write request =>
      refine Prog.Yields.bind (P := fun _ => False) ?_ (fun _ hfalse => hfalse.elim)
      exact (refused_request hprincipal h).yields.embed
    | revokeApiKey principal' keyId =>
      cases hprincipal
      refine Prog.Yields.bind (P := fun _ => False) ?_ (fun _ hfalse => hfalse.elim)
      exact (refused_revokeApiKey h keyId).yields.embed
    | _ => cases hcommits
  · exact Prog.Yields.mono (fun _ _ => h) (Prog.yields_true _)

/-- **What a key authenticates**: the principal of an SDK key has no privileges. -/
theorem ensures_getPrincipal (raw : String) (s : UsageDatabase) :
    (getPrincipal raw).Ensures keysStay (fun writes _ s' found =>
      writes = [] ∧ (found.1.Unprivileged ∨ s'.Managed found.2.keyId)) [] [] s := by
  unfold getPrincipal
  split
  · exact trivial
  refine Prog.Ensures.bind (M := fun writes _ s' found => writes = []
    ∧ ∀ entry ∈ found, entry.1 ∈ s'.db.apiKeys) (Prog.ensures_read ?_) ?_
  · intro s₁ _ _ locked choice
    refine ⟨rfl, fun entry hentry => ?_⟩
    obtain ⟨key, hkey, rfl⟩ := Option.map_eq_some_iff.mp hentry
    exact List.mem_of_find?_eq_some hkey
  · rintro _ locks s₁ found ⟨rfl, hfound⟩
    cases found with
    | none => exact trivial
    | some entry =>
      obtain ⟨key, loaded⟩ := entry
      have hkey : key ∈ s₁.db.apiKeys := hfound _ rfl
      intro s₂ hrely _ locked choice _
      refine ⟨rfl, ?_⟩
      by_cases hkind : key.kind = KeyKind.sdk.value
      · exact .inl (unprivileged_of_sdk hkind)
      · exact .inr (hrely key.id ⟨key, hkey, rfl, hkind⟩)

/-- Only an endpoint that commits stores a use. -/
theorem commits_of_stores {raw : String} {requestId : Option String} {call : Call}
    {asks : call.principal?.isSome = true} {use : KeyUse}
    (h : (UsageRequest.keyed raw requestId call asks).stores use ≠ []) : call.commits = true := by
  by_contra hcommits
  exact h (if_neg hcommits)

/-- Who calls an endpoint makes no difference to whether it commits. -/
theorem commits_by (principal : Principal) (call : Call) :
    (call.by principal).commits = call.commits := by
  cases call <;> rfl

/-- How a request ends: it writes to the uses of the keys what its commit stores of its
own, and that is none of an SDK key. -/
def UsageEnds (request : UsageRequest) (writes : List UsageWrite) (_ : List Row)
    (s : UsageDatabase) (answer : UsageAnswer) : Prop :=
  UsageCommits request writes answer.use
    ∧ ∀ own ∈ answer.use, request.stores own ≠ [] → s.Managed own.keyId

/-- **Every request ends like this.** -/
theorem ensures_usage (request : UsageRequest) (s : UsageDatabase) :
    request.program.Ensures keysStay (UsageEnds request) [] [] s := by
  cases request with
  | other requestId call keyless =>
    refine (ensures_work requestId call [] s).bind (fun writes locks s₁ _ hkeeps => ?_)
    exact ⟨⟨writes, hkeeps, (List.append_nil writes).symm⟩, fun own hown => nomatch hown⟩
  | keyed raw requestId call asks =>
    refine (ensures_getPrincipal raw s).bind (fun writes locks s₁ found hfound => ?_)
    obtain ⟨rfl, hkey⟩ := hfound
    obtain ⟨principal, use⟩ := found
    have hmanaged : ((call.by principal).work requestId).Ensures keysStay
        (fun _ _ s' _ => call.commits = true → s'.Managed use.keyId) [] locks s₁ := by
      rcases hkey with hunprivileged | hmanaged
      · by_cases hcommits : call.commits = true
        · have hyields := yields_work requestId (Call.principal?_by asks principal)
            ((commits_by principal call).trans hcommits)
          exact hyields.ensures.mono (fun _ _ _ _ hnot => absurd hunprivileged hnot)
        · exact Prog.ensures_true.mono (fun _ _ _ _ _ h => absurd h hcommits)
      · have hstable : ∀ locks t t', keysStay.rely locks t t' → t.Managed use.keyId →
            t'.Managed use.keyId := fun _ _ _ hrely => hrely use.keyId
        exact (Prog.ensures_true.frame hstable hmanaged).mono (fun _ _ _ _ h _ => h.2)
    refine ((ensures_work requestId _ locks s₁).and hmanaged).bind
      (fun writes locks s₂ _ hwork => ?_)
    obtain ⟨hkeeps, hthere⟩ := hwork
    intro s₃ hrely _ locked choice _
    refine ⟨⟨writes, hkeeps, rfl⟩, fun own hown hstores => ?_⟩
    cases hown
    exact hrely _ (hthere (commits_of_stores hstores))

/-- A use that is stored is none of an SDK key. -/
structure UsageDatabase.Stored (s : UsageDatabase) : Prop where
  /-- The constraints hold. -/
  consistent : s.db.Consistent
  /-- A key with a use is there, and none of the SDK. -/
  managed : ∀ keyId, s.lastUsedAt keyId ≠ none → s.Managed keyId

/-- **The service stores no use of an SDK key.** -/
theorem respects_usage :
    usageService.Respects keysStay (fun s _ => s.Stored) UsageEnds (fun _ _ _ => True) where
  apply := rfl
  committed := fun _ _ _ => trivial
  start := fun request s _ => ensures_usage request s
  commit := by
    intro request writes locks s s' answer log hpost hrely hinv hok _
    obtain ⟨hcommits, hmanaged⟩ := hpost
    refine ⟨⟨Database.consistent_of_ok hok, fun keyId hstored => ?_⟩,
      fun _ _ keyId hkey => hkey.view writes⟩
    by_cases hnone : ∀ own ∈ answer.use, request.stores own = []
    · rw [hcommits.lastUsedAt_same hnone s'] at hstored
      exact (hinv.managed keyId hstored).view writes
    · obtain ⟨own, hown⟩ := not_forall.mp hnone
      obtain ⟨huse, hstores⟩ := Classical.not_imp.mp hown
      rw [Option.mem_def.mp huse] at hcommits
      rw [hcommits.lastUsedAt_update hstores s'] at hstored
      by_cases hkey : keyId = own.keyId
      · rw [hkey]
        exact (hrely _ (hmanaged own huse hstores)).view writes
      · rw [Function.update_of_ne hkey] at hstored
        exact (hinv.managed keyId hstored).view writes

/-- The service before its first request. -/
theorem good_usageInitial : usageInitial.Good keysStay (fun s _ => s.Stored) UsageEnds :=
  World.good_init ⟨Database.consistent_of_ok (by decide), fun _ h => absurd rfl h⟩

/-! ## What is on record -/

/-- **The answer puts its use on record**, and takes no other off it: where it stores
the use, no request with the key that authenticated later was answered before;
where it does not, a time as late is already stored. -/
def UsageDatabase.PutsOnRecord (s : UsageDatabase) (log : List (UsageRequest × UsageAnswer))
    (request : UsageRequest) (use : KeyUse) : Prop :=
  (request.stores use = [] → s.Records use)
    ∧ (request.stores use ≠ [] → ∀ entry ∈ log, ∀ earlier ∈ entry.2.use,
      earlier.keyId = use.keyId → earlier.usedAt ≤ use.usedAt)

/-- The step answers no request with a key, or puts its use on record. -/
def AnswersOnRecord (w : UsageWorld) (action : Action Choice UsageRequest) : Prop :=
  ∀ id w' tx use outcome, action = .commit id → usageService.step w (.commit id) = some w' →
    w.running? id = some tx → tx.prog = .ret ⟨some use, outcome⟩ →
    w.committed.PutsOnRecord w.log tx.request use

section Records

variable {s t : UsageDatabase} {log : List (UsageRequest × UsageAnswer)}
  {request : UsageRequest} {writes : List UsageWrite}

/-- Only `last_used_at` matters for what is on record. -/
theorem records_congr (h : t.lastUsedAt = s.lastUsedAt) (use : KeyUse) :
    t.Records use ↔ s.Records use := by
  unfold UsageDatabase.Records
  rw [h]

/-- What is on record of a key after an update is what is no later than it. -/
theorem records_of_update {own : KeyUse}
    (h : t.lastUsedAt = Function.update s.lastUsedAt own.keyId (some own.usedAt)) (use : KeyUse) :
    t.Records use ↔ if use.keyId = own.keyId then use.usedAt ≤ own.usedAt else s.Records use := by
  unfold UsageDatabase.Records
  rw [h]
  split
  · rename_i hkey
    rw [hkey, Function.update_self]
    exact ⟨fun ⟨_, htime, hle⟩ => Option.some.inj htime ▸ hle, fun hle => ⟨_, rfl, hle⟩⟩
  · rename_i hkey
    rw [Function.update_of_ne hkey]

/-- What is answered later has to be on record, too. -/
theorem recordsAll_append {answer : UsageAnswer} : s.RecordsAll (log ++ [(request, answer)])
    ↔ s.RecordsAll log ∧ ∀ own ∈ answer.use, s.Records own := by
  unfold UsageDatabase.RecordsAll
  rw [List.forall_mem_append, List.forall_mem_singleton]

/-- **An answer leaves every use on record** exactly if it puts its own there and takes
no other off. -/
theorem recordsAll_commit_iff {use : KeyUse} (outcome : Option Outcome)
    (hcommits : UsageCommits request writes (some use)) (hall : s.RecordsAll log) :
    (usageService.view writes s).RecordsAll (log ++ [(request, ⟨some use, outcome⟩)])
      ↔ s.PutsOnRecord log request use := by
  rw [recordsAll_append]
  by_cases hnone : request.stores use = []
  · have hsame := hcommits.lastUsedAt_same (fun own hown => by cases hown; exact hnone) s
    have hold : (usageService.view writes s).RecordsAll log := fun entry hentry earlier hearlier =>
      (records_congr hsame earlier).mpr (hall entry hentry earlier hearlier)
    constructor
    · rintro ⟨-, hown⟩
      exact ⟨fun _ => (records_congr hsame use).mp (hown use rfl), fun h => absurd hnone h⟩
    · rintro ⟨hown, -⟩
      refine ⟨hold, fun own heq => ?_⟩
      cases heq
      exact (records_congr hsame use).mpr (hown hnone)
  · have hupdate := hcommits.lastUsedAt_update hnone s
    constructor
    · rintro ⟨hold, -⟩
      refine ⟨fun h => absurd h hnone, fun _ entry hentry earlier hearlier hkey => ?_⟩
      have hrecords := (records_of_update hupdate earlier).mp (hold entry hentry earlier hearlier)
      rwa [if_pos hkey] at hrecords
    · rintro ⟨-, hlater⟩
      refine ⟨fun entry hentry earlier hearlier => ?_, fun own heq => ?_⟩
      · rw [records_of_update hupdate]
        split
        · rename_i hkey
          exact hlater hnone entry hentry earlier hearlier hkey
        · exact hall entry hentry earlier hearlier
      · cases heq
        rw [records_of_update hupdate, if_pos rfl]

end Records

/-- **A step leaves every use on record** exactly if its answer does. -/
theorem recordsAll_step_iff {w : UsageWorld}
    (hgood : w.Good keysStay (fun s _ => s.Stored) UsageEnds)
    (hall : w.committed.RecordsAll w.log) (action : Action Choice UsageRequest) :
    (∀ w', usageService.step w action = some w' → w'.committed.RecordsAll w'.log)
      ↔ AnswersOnRecord w action := by
  cases action with
  | start request =>
    refine iff_of_true (fun w' hstep => ?_) (fun id w' tx use outcome heq => nomatch heq)
    cases hstep
    exact hall
  | abort id =>
    refine iff_of_true (fun w' hstep => ?_) (fun id w' tx use outcome heq => nomatch heq)
    cases hstep
    exact hall
  | advance id choice =>
    refine iff_of_true (fun w' hstep => ?_) (fun id w' tx use outcome heq => nomatch heq)
    obtain ⟨tx, locks, writes, next, view, -, -, -, -, rfl⟩ := usageService.advance_eq_some hstep
    exact hall
  | commit id =>
    constructor
    · rintro h _ w' tx use outcome heq hstep htx hprog
      cases heq
      obtain ⟨tx', result, htx', hprog', -, rfl⟩ := usageService.commit_eq_some hstep
      cases htx.symm.trans htx'
      cases hprog.symm.trans hprog'
      obtain ⟨s, -, hcommits, -⟩ := hgood.of_running htx hprog
      exact (recordsAll_commit_iff outcome hcommits hall).mp (h _ hstep)
    · intro h w' hstep
      obtain ⟨tx, ⟨use, outcome⟩, htx, hprog, -, rfl⟩ := usageService.commit_eq_some hstep
      obtain ⟨s, -, hcommits, -⟩ := hgood.of_running htx hprog
      cases use with
      | some use =>
        exact (recordsAll_commit_iff outcome hcommits hall).mpr
          (h id _ tx use outcome rfl hstep htx hprog)
      | none =>
        -- a request without a key stores no use
        have hsame := hcommits.lastUsedAt_same (fun _ hown => nomatch hown) w.committed
        refine recordsAll_append.mpr ⟨fun entry hentry use huse => ?_, fun _ hown => nomatch hown⟩
        exact (records_congr hsame use).mpr (hall entry hentry use huse)

/-- **Which runs record the uses of keys**: every use that was answered is on record in
every state of the run exactly if each answer puts its own there and takes no
other off. -/
theorem uses_recorded_iff (actions : List (Action Choice UsageRequest)) :
    usageService.Meets (fun w action => ∀ w', usageService.step w action = some w' →
        w'.committed.RecordsAll w'.log) usageInitial actions
      ↔ usageService.Meets AnswersOnRecord usageInitial actions := by
  refine System.meets_congr (P := fun w => w.Good keysStay (fun s _ => s.Stored) UsageEnds
    ∧ w.committed.RecordsAll w.log) (fun w w' action hw hrecords hstep => ?_)
    (fun w action hw => recordsAll_step_iff hw.1 hw.2 action) ⟨good_usageInitial, ?_⟩
  · exact ⟨(respects_usage.step hw.1 (fun _ _ _ _ => trivial) hstep).1, hrecords w' hstep⟩
  · exact fun entry hentry => absurd hentry List.not_mem_nil

/-- **No use of an SDK key is ever stored**: in every run its `last_used_at` stays null. -/
theorem lastUsedAt_sdk {actions : List (Action Choice UsageRequest)} {w : UsageWorld}
    (hrun : usageService.run usageInitial actions = some w) {key : APIKeyRow}
    (hkey : key ∈ w.committed.db.apiKeys) (hkind : key.kind = KeyKind.sdk.value) :
    w.committed.lastUsedAt key.id = none := by
  have hstored := (respects_usage.run_good good_usageInitial
    (usageService.commitsMeet_of_forall (fun _ _ _ => trivial) _ _) hrun).1.invariant
  by_contra hused
  obtain ⟨other, hother, hid, hmanagement⟩ := hstored.managed key.id hused
  have hsame : other = key :=
    List.inj_on_of_nodup_map hstored.consistent.keys.apiKeyIds hother hkey hid
  exact hmanagement (hsame ▸ hkind)

/-! ## An SDK key that exports -/

theorem keyless_by (request : Request) :
    ∀ principal ∈ (request.by sampleUser).principal?, principal.apiKeyId = none := by
  intro principal hprincipal
  cases request with
  | applyDueChanges => cases hprincipal
  | _ =>
    cases hprincipal
    rfl

/-- A step of the service by the sample user. -/
def asSampleUser : Action Choice Request → Action Choice UsageRequest
  | .start request =>
    .start (.other none (.write (request.by sampleUser)) (keyless_by request))
  | .advance id choice => .advance id choice
  | .commit id => .commit id
  | .abort id => .abort id

theorem keyless_revocation :
    ∀ principal ∈ (Call.revokeApiKey sampleUser ⟨60⟩).principal?, principal.apiKeyId = none := by
  rintro principal hprincipal
  cases hprincipal
  rfl

/-- The sample user revokes the key `60`. -/
def sampleRevocation (id n statements : ℕ) : List (Action Choice UsageRequest) :=
  .start (.other none (.revokeApiKey sampleUser ⟨60⟩) keyless_revocation)
    :: List.replicate statements (.advance id (sampleChoice n)) ++ [.commit id]

/-- The sample tenant with an SDK key of its environment, and an export with the key. -/
def sdkExport : List (Action Choice UsageRequest) :=
  (sampleTenant ++ alone 3 60 6 (.createKey sampleUser none (sampleKey ⟨10⟩) .sdk)).map asSampleUser
    ++ .start (.keyed "cs_sdk_live_secret" none
        (.read (.exportConfiguration sampleUser ⟨20⟩ ⟨30⟩ none)) rfl)
      :: List.replicate 12 (.advance 4 (sampleChoice 70)) ++ [.commit 4]

/-- **An export is answered and its use is not stored**: the SDK key has been used and
its `last_used_at` is null. -/
theorem export_not_recorded :
    (∃ w key entry use, usageService.run usageInitial sdkExport = some w
      ∧ key ∈ w.committed.db.apiKeys ∧ key.kind = KeyKind.sdk.value ∧ key.revokedAt = none
      ∧ entry ∈ w.log ∧ entry.2.use = some use ∧ use.keyId = key.id
      ∧ w.committed.lastUsedAt key.id = none)
    ∧ ¬ usageService.Meets (fun w action => ∀ w', usageService.step w action = some w' →
        w'.committed.RecordsAll w'.log) usageInitial sdkExport := by
  have hfacts : (usageService.run usageInitial sdkExport).any (fun w =>
      w.committed.db.apiKeys.any (fun key => decide (key.kind = KeyKind.sdk.value)
        && decide (key.revokedAt = none) && decide (w.committed.lastUsedAt key.id = none)
        && w.log.any (fun entry => entry.2.use.any (fun use => decide (use.keyId = key.id)))))
      = true := by
    decide +kernel
  obtain ⟨w, hrun, hfacts⟩ := (Option.any_eq_true _ _).mp hfacts
  obtain ⟨key, hkey, hfacts⟩ := List.any_eq_true.mp hfacts
  simp only [Bool.and_eq_true, decide_eq_true_eq] at hfacts
  obtain ⟨⟨⟨hkind, hrevoked⟩, hnone⟩, hlog⟩ := hfacts
  obtain ⟨entry, hentry, huse⟩ := List.any_eq_true.mp hlog
  obtain ⟨use, hown, hid⟩ := (Option.any_eq_true _ _).mp huse
  have hid : use.keyId = key.id := of_decide_eq_true hid
  refine ⟨⟨w, key, entry, use, hrun, hkey, hkind, hrevoked, hentry, hown, hid, hnone⟩,
    fun hmeets => ?_⟩
  have hall : w.committed.RecordsAll w.log :=
    System.run_keeps (P := fun w => w.committed.RecordsAll w.log)
      (fun _ w' _ _ hrecords hstep => hrecords w' hstep)
      (fun entry hentry => absurd hentry List.not_mem_nil) hmeets hrun
  obtain ⟨lastUsedAt, hstored, -⟩ := hall entry hentry use hown
  rw [hid, hnone] at hstored
  cases hstored

end CohortSwitch
