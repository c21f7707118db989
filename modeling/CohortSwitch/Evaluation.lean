import CohortSwitch.Cache

/-!
# Evaluating and streaming

The endpoints a client calls with an API key. None of them is given a project
or an environment: they take both from the key. `evaluate` and `evaluateBatch`
load the configurations of these two ids, and `streamConfig` subscribes to the
channel of these two ids. Whatever a load returns belongs to the ids it was
called with (`scope_of_result`).

So what a key may be served is a matter of the ids on the key. A configuration carries
the ids of its rows, and the SELECTs compare them with those of the call; the cache
compares nothing, but its key contains both. A hit, too, belongs to the ids it was looked
up with, since keys of different configurations are different. Whether the ids on a key
are those of its own organization is the subject of `CohortSwitch.KeyScopes`.

A channel is named by the same two ids, and different environments have different
channels (`eventsChannel_injective`).
-/

namespace CohortSwitch

/-! ## The endpoints -/

/-- The payload of one evaluation. -/
structure EvaluationRequest where
  flagKey : String
  subjectKey : String
  attributes : Dict Json
  subjectKeyLength : 1 ≤ subjectKey.length ∧ subjectKey.length ≤ 500

/-- The payload of several evaluations of one subject. -/
structure BatchEvaluationRequest where
  subjectKey : String
  attributes : Dict Json
  flags : List String
  subjectKeyLength : 1 ≤ subjectKey.length ∧ subjectKey.length ≤ 500
  flagsLength : 1 ≤ flags.length ∧ flags.length ≤ 100

/-- The project and the environment of a key that has a scope: `_scope` for
`evaluate`, and the same lines of `stream_config` for `flags:read`. -/
def keyScope (principal : Principal) (scope : String) : Except PyError (UUID × UUID) := do
  requireApiScope principal scope
  match principal.projectId, principal.environmentId with
  | some projectId, some environmentId => .ok (projectId, environmentId)
  | _, _ => .error (.apiError 403 "invalid_key_scope" "API key is not scoped to an environment." [])

/-- `evaluate`, up to its load. -/
def evaluate (principal : Principal) (payload : EvaluationRequest) :
    Except PyError LoadRequest := do
  let (projectId, environmentId) ← keyScope principal "evaluate"
  pure (.configuration projectId environmentId payload.flagKey)

/-- `evaluate_batch`, up to its load. -/
def evaluateBatch (principal : Principal) (payload : BatchEvaluationRequest) :
    Except PyError LoadRequest := do
  let (projectId, environmentId) ← keyScope principal "evaluate"
  pure (.configurations projectId environmentId payload.flags)

/-- What the endpoints make of the configurations that were loaded. -/
def evaluateLoaded [Packaging] (loaded : List (ConfigAddress × FlagConfiguration))
    (flagKeys : List String) (context : EvaluationContext) (clock : String → Instant) :
    Except PyError (List (String × EvaluationResult)) :=
  let configs := loaded.map (fun item => (item.1.flagKey, item.2))
  if flagKeys.any (fun flagKey => (configs.lookup flagKey).isNone) then
    .error (.apiError 404 "flags_not_found" "One or more flags were not found."
      [("flags", .arr ((sortedBy (fun flagKey => flagKey) (flagKeys.dedup.filter
        (fun flagKey => (configs.lookup flagKey).isNone))).map .str))])
  else
    flagKeys.mapM (fun flagKey =>
      match configs.lookup flagKey with
      | none => .error (.keyError flagKey)
      | some config =>
        (evaluateFlag config context (clock flagKey)).map (fun result => (flagKey, result)))

/-- The channel of the events of an environment. -/
def eventsChannel (projectId environmentId : UUID) : String :=
  "cohortswitch:events:" ++ projectId.str ++ ":" ++ environmentId.str

/-- `stream_config`: the channel it subscribes to. -/
def streamConfig (principal : Principal) : Except PyError String := do
  let (projectId, environmentId) ← keyScope principal "flags:read"
  pure (eventsChannel projectId environmentId)

/-- The channel `invalidate_and_publish` publishes to. -/
def Notification.channel (n : Notification) : String := eventsChannel n.projectId n.environmentId

/-! ## What they are called with -/

/-- A key that has the scope has both ids. -/
theorem keyScope_eq_ok {principal : Principal} {scope : String} {ids : UUID × UUID}
    (h : keyScope principal scope = .ok ids) :
    principal.projectId = some ids.1 ∧ principal.environmentId = some ids.2 := by
  obtain ⟨_, -, h⟩ := bind_eq_ok.mp h
  split at h
  · rename_i p e hp he
    cases h
    exact ⟨hp, he⟩
  · cases h

/-- The two ids a load is called with. -/
def LoadRequest.ids : LoadRequest → UUID × UUID
  | .configuration projectId environmentId _ => (projectId, environmentId)
  | .configurations projectId environmentId _ => (projectId, environmentId)

/-- **A load is called with the ids of the key.** -/
theorem ids_of_evaluate {principal : Principal} {payload : EvaluationRequest}
    {request : LoadRequest} (h : evaluate principal payload = .ok request) :
    principal.projectId = some request.ids.1 ∧ principal.environmentId = some request.ids.2 := by
  obtain ⟨ids, hids, h⟩ := bind_eq_ok.mp h
  cases h
  exact keyScope_eq_ok hids

/-- So is the load of a batch. -/
theorem ids_of_evaluateBatch {principal : Principal} {payload : BatchEvaluationRequest}
    {request : LoadRequest} (h : evaluateBatch principal payload = .ok request) :
    principal.projectId = some request.ids.1 ∧ principal.environmentId = some request.ids.2 := by
  obtain ⟨ids, hids, h⟩ := bind_eq_ok.mp h
  cases h
  exact keyScope_eq_ok hids

/-- **Environments have channels of their own.** -/
theorem eventsChannel_injective {p e p' e' : UUID} (h : eventsChannel p e = eventsChannel p' e') :
    p = p' ∧ e = e' := by
  have hcolon : ":".toList = [':'] := rfl
  have htail : ∀ p e : UUID, (eventsChannel p e).toList
      = "cohortswitch:events:".toList ++ (p.str.toList ++ ':' :: e.str.toList) := by
    intro p e
    unfold eventsChannel
    simp only [String.toList_append, hcolon, List.append_assoc, List.cons_append, List.nil_append]
  have hlists := htail p e
  rw [h, htail p' e'] at hlists
  obtain ⟨hp, he⟩ := append_colon_inj p'.colon_not_mem_str p.colon_not_mem_str
    (List.append_cancel_left hlists)
  exact ⟨(UUID.str_injective (String.toList_injective hp)).symm,
    (UUID.str_injective (String.toList_injective he)).symm⟩

/-! ## What they serve -/

/-- A configuration belongs to a project and an environment. -/
def FlagConfiguration.IsOf (c : FlagConfiguration) (ids : UUID × UUID) : Prop :=
  c.projectId = ids.1.str ∧ c.environmentId = ids.2.str

/-- Whatever a load looks up has the ids it was called with. -/
theorem ids_of_mem_addresses {request : LoadRequest} {address : ConfigAddress}
    (h : address ∈ request.addresses) :
    (address.projectId, address.environmentId) = request.ids := by
  cases request with
  | configuration projectId environmentId flagKey =>
    rw [List.mem_singleton.mp h]
    rfl
  | configurations projectId environmentId flagKeys =>
    obtain ⟨flagKey, -, rfl⟩ := List.mem_map.mp h
    rfl

/-- Whatever a load reads is something it asked the database for. -/
theorem mem_addresses_of_read {request : LoadRequest} {misses : List ConfigAddress}
    {views : List (View Database Row Choice)} {loaded : List (ConfigAddress × FlagConfiguration)}
    (h : (request.read misses).observe views = some (.ok loaded))
    (hmisses : ∀ address ∈ misses, address ∈ request.addresses)
    {item : ConfigAddress × FlagConfiguration} (hitem : item ∈ loaded) :
    item.1 ∈ request.addresses := by
  cases request with
  | configuration projectId environmentId flagKey =>
    unfold LoadRequest.read at h
    rw [Prog.observe_map] at h
    obtain ⟨config, -, rfl⟩ := map_observe_eq_ok h
    rw [List.mem_singleton.mp hitem]
    exact List.mem_singleton.mpr rfl
  | configurations projectId environmentId flagKeys =>
    unfold LoadRequest.read at h
    rw [Prog.observe_map] at h
    obtain ⟨items, hitems, rfl⟩ := map_observe_eq_ok h
    obtain ⟨found, hfound, rfl⟩ := List.mem_map.mp hitem
    obtain ⟨v, -, hfinds⟩ := findsVersion_of_getConfigsByKeys hitems
    obtain ⟨address, haddress, hkey⟩ := List.mem_map.mp (hfinds found hfound).1
    obtain ⟨asked, hasked, heq⟩ := List.mem_map.mp (hmisses address haddress)
    have hsame : asked = found.1 := (congrArg ConfigAddress.flagKey heq).trans hkey
    exact List.mem_map.mpr ⟨asked, hasked, by rw [hsame]⟩

/-- **Whatever a load returns** it was called for, and some state served it at the
address it is returned for. -/
theorem findsVersion_of_result {ttl : ℕ} {actions : List CachedAction} {w : CachedService}
    (hrun : (configCache ttl).run service (.start initial) actions = some w)
    {load : CacheAside.Load Database Write Row Choice PyError LoadRequest ConfigAddress
      FlagConfiguration} (hload : load ∈ w.loads)
    {found : List (ConfigAddress × FlagConfiguration)}
    (hresult : load.phase.result? = some (.ok found))
    {item : ConfigAddress × FlagConfiguration} (hitem : item ∈ found) :
    item.1 ∈ load.request.addresses ∧ ∃ (s : Database) (row : FlagConfigRow)
      (flag : FeatureFlagRow), s.FindsVersion item.1.projectId item.1.environmentId
        item.1.flagKey item.2 row flag := by
  have hgood := CacheAside.good_of_run (configCache_sound ttl)
    (CacheAside.CacheWorld.good_start good_initial) hrun
  have hok := hgood.loads load hload
  cases hphase : load.phase with
  | storing sources todo =>
    rw [hphase] at hok hresult
    cases todo with
    | cons s todo => cases hresult
    | nil =>
      cases hresult
      obtain ⟨hsources, -, hcomplete⟩ := hok
      obtain ⟨source, hsource, rfl⟩ := List.mem_map.mp hitem
      refine ⟨?_, ?_⟩
      · rcases hcomplete with hlabels | ⟨hits, misses', r, loaded', rfl, hmisses, hread'⟩
        · exact hlabels.mem_iff.mp (List.mem_map_of_mem hsource)
        · have hlabels := fun address => (hmisses.labels.mem_iff (a := address)).mp
          rcases List.mem_append.mp hsource with hhit | hnew
          · exact hlabels _ (List.mem_append_left _ (List.mem_map_of_mem hhit))
          · obtain ⟨found, hfound, rfl⟩ := List.mem_map.mp hnew
            exact mem_addresses_of_read hread'
              (fun address h => hlabels address (List.mem_append_right _ h)) hfound
      · -- the value was read for its label, by this load or by the one that cached it
        obtain ⟨request, misses, loaded, hmem, hread⟩ := (hsources source hsource).read
        obtain ⟨v, -, row, flag, hfinds⟩ := findsVersion_of_read hread hmem
        exact ⟨v.state, row, flag, hfinds⟩
  | failed e r =>
    rw [hphase] at hresult
    cases hresult
  | asked =>
    rw [hphase] at hresult
    cases hresult
  | reading sources prog r =>
    rw [hphase] at hresult
    cases hresult

/-- **Whatever a load returns** belongs to the ids it was called with. -/
theorem scope_of_result {ttl : ℕ} {actions : List CachedAction} {w : CachedService}
    (hrun : (configCache ttl).run service (.start initial) actions = some w)
    {load : CacheAside.Load Database Write Row Choice PyError LoadRequest ConfigAddress
      FlagConfiguration} (hload : load ∈ w.loads)
    {found : List (ConfigAddress × FlagConfiguration)}
    (hresult : load.phase.result? = some (.ok found))
    {item : ConfigAddress × FlagConfiguration} (hitem : item ∈ found) :
    item.2.IsOf load.request.ids := by
  obtain ⟨haddress, s, row, flag, hfinds⟩ := findsVersion_of_result hrun hload hresult hitem
  rw [← ids_of_mem_addresses haddress]
  exact ⟨hfinds.compiledProject, hfinds.compiledEnvironment⟩

/-- Every result is the evaluation of a configuration that was loaded. -/
theorem exists_config_of_evaluateLoaded [Packaging]
    {loaded : List (ConfigAddress × FlagConfiguration)} {flagKeys : List String}
    {context : EvaluationContext} {clock : String → Instant}
    {results : List (String × EvaluationResult)}
    (h : evaluateLoaded loaded flagKeys context clock = .ok results)
    {result : String × EvaluationResult} (hresult : result ∈ results) :
    ∃ item ∈ loaded, item.1.flagKey = result.1
      ∧ evaluateFlag item.2 context (clock result.1) = .ok result.2 := by
  unfold evaluateLoaded at h
  dsimp only at h
  split at h
  · cases h
  obtain ⟨flagKey, -, hone⟩ := (PermBy.of_forall₂ (mapM_eq_ok.mp h)).exists_left hresult
  split at hone
  · cases hone
  · rename_i config hlookup
    obtain ⟨item, hitem, heq⟩ := List.mem_map.mp (mem_of_lookup_eq_some hlookup)
    cases heq
    cases heval : evaluateFlag item.2 context (clock item.1.flagKey) with
    | error e =>
      rw [heval] at hone
      cases hone
    | ok value =>
      rw [heval] at hone
      cases hone
      exact ⟨item, hitem, rfl, heval⟩

end CohortSwitch
