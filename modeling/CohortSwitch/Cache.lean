import CohortSwitch.Listings
import CohortSwitch.Staleness

/-!
# The cache of configurations

`load_configuration` and `load_configurations` ask Redis for the configurations
of some flags, read the others from the database and set them with a time to
live; `invalidate_and_publish` deletes the key of a configuration after the
commit that changed it. This is a cache beside a database (`configCache`), and
what the database gives it is the history of versions (`configCache_sound`).

How stale a load can be is `CacheAside.bounded_staleness` at this instance: a
load that starts the time to live and the longest time from a read to its set
after the commit of a version returns that version or a later one
(`loads_bounded_stale`).

## Keys

A key is a text with colons between its parts. The ids contain none, so the first
colons can be told, and whatever is left is the key of the flag: different
configurations have different keys (`configCacheKey_injective`). Without that, deleting
one entry might leave another reader with a stale one.

## What an answer says

A load may compile a configuration from statements on both sides of a commit. The
version it carries is that of the row the first SELECT found, so that is what is said of
an answer: `Database.FindsVersion` at some state between two others. Where a read raises,
the exception is that of its own statements, each of which saw a state in between.
-/

namespace CohortSwitch

/-! ## Keys -/

/-- The flag and the environment of a configuration. -/
structure ConfigAddress where
  projectId : UUID
  environmentId : UUID
  flagKey : String
deriving DecidableEq

/-- `config_cache_key`. -/
def configCacheKey (projectId environmentId : UUID) (flagKey : String) : String :=
  "cohortswitch:config:" ++ projectId.str ++ ":" ++ environmentId.str ++ ":" ++ flagKey

/-- What stands before the first colon can be told from what stands after it. -/
theorem append_colon_inj {as bs cs ds : List Char} (ha : ':' ∉ as) (hb : ':' ∉ bs)
    (h : as ++ ':' :: cs = bs ++ ':' :: ds) : as = bs ∧ cs = ds := by
  induction as generalizing bs with
  | nil =>
    cases bs with
    | nil => exact ⟨rfl, (List.cons.inj h).2⟩
    | cons b bs => exact absurd ((List.cons.inj h).1 ▸ List.mem_cons_self) hb
  | cons a as ih =>
    cases bs with
    | nil => exact absurd ((List.cons.inj h).1 ▸ List.mem_cons_self) ha
    | cons b bs =>
      obtain ⟨hab, hrest⟩ := List.cons.inj h
      obtain ⟨has, hcs⟩ := ih (fun hm => ha (List.mem_cons_of_mem a hm))
        (fun hm => hb (List.mem_cons_of_mem b hm)) hrest
      exact ⟨by rw [hab, has], hcs⟩

/-- The text of an id has no colon. -/
theorem UUID.colon_not_mem_str (id : UUID) : ':' ∉ id.str.toList := by
  intro h
  have hhex : ':' ∈ id.hex := by
    rw [← id.filter_str]
    exact List.mem_filter.mpr ⟨h, by decide⟩
  exact (id.mem_hex hhex).2 rfl

/-- What follows the fixed text of a key. -/
theorem configCacheKey_toList (projectId environmentId : UUID) (flagKey : String) :
    (configCacheKey projectId environmentId flagKey).toList
      = "cohortswitch:config:".toList ++ (projectId.str.toList
        ++ ':' :: (environmentId.str.toList ++ ':' :: flagKey.toList)) := by
  have hcolon : ":".toList = [':'] := rfl
  unfold configCacheKey
  simp only [String.toList_append, hcolon, List.append_assoc, List.cons_append, List.nil_append]

/-- **Different configurations have different keys.** -/
theorem configCacheKey_injective : Function.Injective (fun address : ConfigAddress =>
    configCacheKey address.projectId address.environmentId address.flagKey) := by
  rintro ⟨p, e, k⟩ ⟨p', e', k'⟩ h
  change configCacheKey p e k = configCacheKey p' e' k' at h
  have htail := configCacheKey_toList p e k
  rw [h, configCacheKey_toList] at htail
  obtain ⟨hp, hrest⟩ := append_colon_inj p'.colon_not_mem_str p.colon_not_mem_str
    (List.append_cancel_left htail)
  obtain ⟨he, hk⟩ := append_colon_inj e'.colon_not_mem_str e.colon_not_mem_str hrest
  rw [UUID.str_injective (String.toList_injective hp),
    UUID.str_injective (String.toList_injective he), String.toList_injective hk]

/-! ## Loads -/

/-- A call of `load_configuration` or of `load_configurations`. -/
inductive LoadRequest where
  | configuration (projectId environmentId : UUID) (flagKey : String)
  | configurations (projectId environmentId : UUID) (flagKeys : List String)
deriving DecidableEq

/-- What a call asks the cache for: each flag once. -/
def LoadRequest.addresses : LoadRequest → List ConfigAddress
  | .configuration projectId environmentId flagKey => [⟨projectId, environmentId, flagKey⟩]
  | .configurations projectId environmentId flagKeys =>
    flagKeys.eraseDups.map (fun flagKey => ⟨projectId, environmentId, flagKey⟩)

/-- What a call reads from the database, where the cache misses some flags. -/
def LoadRequest.read : LoadRequest → List ConfigAddress →
    Tx (List (ConfigAddress × FlagConfiguration))
  | .configuration projectId environmentId flagKey, _ => do
    let config ← getConfigByKey projectId environmentId flagKey
    pure [(⟨projectId, environmentId, flagKey⟩, config)]
  | .configurations projectId environmentId _, misses => do
    let loaded ←
      getConfigsByKeys projectId environmentId (misses.map ConfigAddress.flagKey)
    pure (loaded.map (fun item => (⟨projectId, environmentId, item.1⟩, item.2)))

/-- What a notification is about. -/
def Notification.address (n : Notification) : ConfigAddress :=
  ⟨n.projectId, n.environmentId, n.flagKey⟩

/-- **The cache of configurations.** An entry is held as the configuration it
was dumped from: that is what its text validates to
(`FlagConfiguration.create_of_valid`). -/
def configCache (cacheTtlSeconds : ℕ) : CacheAside Database Write Row Choice PyError Outcome
    LoadRequest ConfigAddress String FlagConfiguration Notification where
  ttl := cacheTtlSeconds
  cacheKey := fun address =>
    configCacheKey address.projectId address.environmentId address.flagKey
  cacheKey_injective := configCacheKey_injective
  labels := LoadRequest.addresses
  read := LoadRequest.read
  notes := Outcome.notifications
  label := Notification.address

/-- What the cache reads by is the code's own load. -/
theorem configCache_read (cacheTtlSeconds : ℕ) :
    (configCache cacheTtlSeconds).read = LoadRequest.read := rfl

/-- A state of the service with its cache. -/
abbrev CachedService := CacheAside.CacheWorld Database Write Row Choice PyError Request Outcome
  LoadRequest ConfigAddress String FlagConfiguration Notification

/-- A step of the service with its cache. -/
abbrev CachedAction := CacheAside.CacheAction Choice Request LoadRequest String

/-! ## What the commits notify -/

/-- **What a notification tells of a flag is so**: that it is archived, where the
event is its deletion, and the version its configuration has reached otherwise.
Nothing is said of the revision. -/
def Database.Told (s : Database) (n : Notification) : Prop :=
  ∃ flag ∈ s.flags, flag.projectId = n.projectId ∧ flag.key = n.flagKey
    ∧ ((n.event = "flag.deleted" ∧ flag.archivedAt.isSome = true)
      ∨ (n.event ≠ "flag.deleted" ∧ ∃ row ∈ s.configs, row.flagId = flag.id
        ∧ row.environmentId = n.environmentId ∧ n.version ≤ row.currentVersion))

section Told

variable {s : Database} {locks : List Row}

/-- What an update notifies is so. -/
theorem told_rounds {rs : List Round} (hfits : RoundsFit s locks rs)
    {log : List (Request × Outcome)} (h : History (service.view (roundWrites rs) s) log)
    {u : Update} (hu : u ∈ updatesOf rs) {n : Notification} (hn : u.NotifiesWith n) :
    (service.view (roundWrites rs) s).Told n := by
  have hgrows := grows_view (roundWrites rs) s
  have hknown := hfits.known u hu
  obtain ⟨flag, hflag, hidentity⟩ := List.mem_map.mp (hgrows.flags.subset hknown.flagKnown)
  obtain ⟨row, hrow, hrowId⟩ := List.mem_map.mp (hgrows.configs.subset hknown.config)
  have hversion : u.versionRow ∈ (service.view (roundWrites rs) s).versions := by
    rw [versions_rounds]
    exact List.mem_append_right _ (List.mem_map_of_mem hu)
  refine ⟨flag, hflag, ?_, ?_, .inr ⟨hn.event, row, hrow, ?_, ?_, ?_⟩⟩
  · rw [hn.projectId, ← hknown.projectId]
    exact congrArg FeatureFlagRow.Identity.projectId hidentity
  · rw [hn.flagKey]
    exact congrArg FeatureFlagRow.Identity.key hidentity
  · exact (congrArg FlagConfigRow.Identity.flagId hrowId).trans
      (congrArg FeatureFlagRow.Identity.id hidentity).symm
  · rw [hn.environmentId]
    exact congrArg FlagConfigRow.Identity.environmentId hrowId
  · rw [hn.version]
    exact (h.configs row hrow).version_le hversion
      (congrArg FlagConfigRow.Identity.id hrowId).symm

/-- **What a commit notifies is so** in the state it leaves. -/
theorem told_commit {effect : Effect} (hfits : effect.Fits s locks)
    {log : List (Request × Outcome)} (h : History (service.view effect.writes s) log)
    {outcome : Outcome} (hreturns : effect.Returns outcome) {n : Notification}
    (hn : n ∈ outcome.notifications) : (service.view effect.writes s).Told n := by
  cases effect with
  | rounds rs =>
    obtain ⟨u, hu, hnotifies⟩ := (PermBy.of_forall₂ hreturns.2).exists_left hn
    exact told_rounds hfits h hu hnotifies
  | creation k =>
    obtain ⟨r, m, rfl, -, -, -, hproject, henvironment, hkey, hversion, -, hevent, -⟩ := hreturns
    rw [List.mem_singleton.mp hn]
    have hother : m.event ≠ "flag.deleted" := by
      rw [hevent]
      decide
    refine ⟨k.flag, List.mem_append_right _ (List.mem_singleton.mpr rfl), hproject.symm,
      hkey.symm, .inr ⟨hother, k.configRow, List.mem_append_right _ (List.mem_singleton.mpr rfl),
        rfl, henvironment.symm, hversion.le⟩⟩
  | archiving a =>
    obtain ⟨item, -, hproject, -, hkey, -, -, hevent⟩ :=
      (PermBy.of_forall₂ hreturns.2).exists_left hn
    obtain ⟨flag, hflag, hflagId, hflagArchived⟩ := exists_archived_view hfits.flagKnown
    have hsame : flag.identity = a.flag.identity :=
      flag_identity h.consistent (grows_view a.writes s) hflag hfits.flagKnown hflagId
    refine ⟨flag, hflag, ?_, ?_, .inl ⟨hevent, hflagArchived⟩⟩
    · rw [hproject, ← hfits.projectId]
      exact congrArg FeatureFlagRow.Identity.projectId hsame
    · rw [hkey]
      exact congrArg FeatureFlagRow.Identity.key hsame
  | plain ws =>
    rw [hreturns.2] at hn
    cases hn

end Told

/-- **What the service gives its cache.** -/
theorem configCache_sound (cacheTtlSeconds : ℕ) : (configCache cacheTtlSeconds).Sound service
    discipline History (fun _ => Commits) Database.Told where
  respects := service_respects
  tells := by
    rintro request writes locks s s' outcome log log' ⟨effect, rfl, hfits, hreturns⟩ hevolves
      - h n hn
    exact told_commit (hfits.evolve hevolves) h hreturns hn

/-! ## What a load returns -/

/-- **The flag has reached a version** in an environment. -/
def Database.HasVersion (s : Database) (address : ConfigAddress) (version : ℕ) : Prop :=
  ∃ flag ∈ s.flags, flag.projectId = address.projectId ∧ flag.key = address.flagKey
    ∧ ∃ row ∈ s.configs, row.flagId = flag.id ∧ row.environmentId = address.environmentId
      ∧ version ≤ row.currentVersion

instance (s : Database) (address : ConfigAddress) (version : ℕ) :
    Decidable (s.HasVersion address version) :=
  inferInstanceAs (Decidable (∃ flag ∈ s.flags, _ ∧ _ ∧ ∃ row ∈ s.configs, _ ∧ _ ∧ _))

/-- A flag is archived. -/
def Database.Archived (s : Database) (projectId : UUID) (flagKey : String) : Prop :=
  ∃ flag ∈ s.flags, flag.projectId = projectId ∧ flag.key = flagKey
    ∧ flag.archivedAt.isSome = true

section Loads

variable {s s' : Database}

/-- The one flag with a key. -/
theorem flag_of_key (hs' : s'.Consistent) (hevolves : s.Evolves [] s') {flag flag' : FeatureFlagRow}
    (hflag : flag ∈ s.flags) (hflag' : flag' ∈ s'.flags)
    (hproject : flag'.projectId = flag.projectId) (hkey : flag'.key = flag.key) :
    flag'.identity = flag.identity := by
  obtain ⟨flag₁, hflag₁, hidentity⟩ :=
    List.mem_map.mp (hevolves.grows.flags.subset (List.mem_map_of_mem hflag))
  have hpair : (flag'.projectId, flag'.key) = (flag₁.projectId, flag₁.key) :=
    Prod.ext (hproject.trans (congrArg FeatureFlagRow.Identity.projectId hidentity).symm)
      (hkey.trans (congrArg FeatureFlagRow.Identity.key hidentity).symm)
  rw [List.inj_on_of_nodup_map hs'.keys.flagKeys hflag' hflag₁ hpair]
  exact hidentity

/-- A version that was reached stays so. -/
theorem Database.HasVersion.evolve (hs' : s'.Consistent) {address : ConfigAddress} {version : ℕ}
    (h : s.HasVersion address version) (hevolves : s.Evolves [] s') :
    s'.HasVersion address version := by
  obtain ⟨flag, hflag, hproject, hkey, row, hrow, hflagId, henvironment, hle⟩ := h
  obtain ⟨flag₁, hflag₁, hidentity⟩ :=
    List.mem_map.mp (hevolves.grows.flags.subset (List.mem_map_of_mem hflag))
  obtain ⟨row₁, hrow₁, hid, hflagId₁, henvironment₁, -⟩ :=
    (Database.KnowsConfig.evolve (List.mem_map_of_mem hrow) hevolves).exists_row
  obtain ⟨row₂, hrow₂, hid₂, hmono, -⟩ := hevolves.configs row hrow
  have hsame : row₁ = row₂ :=
    List.inj_on_of_nodup_map hs'.keys.configIds hrow₁ hrow₂ (hid.trans hid₂.symm)
  refine ⟨flag₁, hflag₁, (congrArg FeatureFlagRow.Identity.projectId hidentity).trans hproject,
    (congrArg FeatureFlagRow.Identity.key hidentity).trans hkey, row₁, hrow₁, ?_,
    henvironment₁.trans henvironment, hle.trans (hsame ▸ hmono)⟩
  rw [hflagId₁, hflagId]
  exact (congrArg FeatureFlagRow.Identity.id hidentity).symm

/-- **What is read later is no older.** -/
theorem version_le_of_findsVersion (hs' : s'.Consistent) (hevolves : s.Evolves [] s')
    {address : ConfigAddress} {version : ℕ} (hversion : s.HasVersion address version)
    {c : FlagConfiguration} {row' : FlagConfigRow} {flag' : FeatureFlagRow}
    (hfinds : s'.FindsVersion address.projectId address.environmentId address.flagKey c row'
      flag') :
    version ≤ c.configVersion := by
  obtain ⟨flag, hflag, hproject, hkey, row, hrow, hflagId, henvironment, hle⟩ :=
    hversion.evolve hs' hevolves
  -- the row that is read is the one of this flag and environment
  have hflags : flag' = flag := List.inj_on_of_nodup_map hs'.keys.flagKeys hfinds.flagRow hflag
    (Prod.ext (hfinds.project.trans hproject.symm) (hfinds.key.trans hkey.symm))
  have hrows : row' = row := List.inj_on_of_nodup_map hs'.keys.configPairs hfinds.config hrow
    (Prod.ext (hfinds.flagId.symm.trans (hflags ▸ hflagId.symm))
      (hfinds.environment.trans henvironment.symm))
  rw [hfinds.compiledVersion, hrows]
  exact hle

/-- A flag that is archived is not served later. -/
theorem not_findsVersion_of_archived (hs' : s'.Consistent) (hevolves : s.Evolves [] s')
    {address : ConfigAddress} (harchived : s.Archived address.projectId address.flagKey)
    {c : FlagConfiguration} {row' : FlagConfigRow} {flag' : FeatureFlagRow} :
    ¬ s'.FindsVersion address.projectId address.environmentId address.flagKey c row' flag' := by
  intro hfinds
  obtain ⟨flag, hflag, hproject, hkey, ha⟩ := harchived
  have hidentity := flag_of_key hs' hevolves hflag hfinds.flagRow
    (hfinds.project.trans hproject.symm) (hfinds.key.trans hkey.symm)
  obtain ⟨flag₁, hflag₁, hid, ha₁⟩ := hevolves.archived flag hflag ha
  have hsame : flag' = flag₁ := List.inj_on_of_nodup_map hs'.keys.flagIds hfinds.flagRow hflag₁
    ((congrArg FeatureFlagRow.Identity.id hidentity).trans hid.symm)
  rw [← hsame, hfinds.live] at ha₁
  cases ha₁

/-- What an observation with a mapped result returned. -/
theorem map_observe_eq_ok {α β : Type} {f : α → β} {x : Option (Except PyError α)} {b : β}
    (h : x.map (Except.map f) = some (.ok b)) : ∃ a, x = some (.ok a) ∧ f a = b := by
  obtain ⟨y, rfl, hy⟩ := Option.map_eq_some_iff.mp h
  cases y with
  | error e => cases hy
  | ok a => exact ⟨a, rfl, Except.ok.inj hy⟩

/-- And what it raised. -/
theorem map_observe_eq_error {α β : Type} {f : α → β} {x : Option (Except PyError α)}
    {e : PyError} (h : x.map (Except.map f) = some (.error e)) : x = some (.error e) := by
  obtain ⟨y, rfl, hy⟩ := Option.map_eq_some_iff.mp h
  cases y with
  | error e' =>
    cases hy
    rfl
  | ok a => cases hy

/-- What either kind of load reads of a configuration. -/
theorem findsVersion_of_read {request : LoadRequest} {misses : List ConfigAddress}
    {views : List (View Database Row Choice)}
    {loaded : List (ConfigAddress × FlagConfiguration)}
    (h : (request.read misses).observe views = some (.ok loaded)) {address : ConfigAddress}
    {c : FlagConfiguration} (hc : (address, c) ∈ loaded) :
    ∃ v ∈ views, ∃ row flag,
      v.state.FindsVersion address.projectId address.environmentId address.flagKey c row flag := by
  cases request with
  | configuration projectId environmentId flagKey =>
    unfold LoadRequest.read at h
    rw [Prog.observe_map] at h
    obtain ⟨config, hconfig, hloaded⟩ := map_observe_eq_ok h
    rw [← hloaded] at hc
    cases List.mem_singleton.mp hc
    exact findsVersion_of_getConfigByKey hconfig
  | configurations projectId environmentId flagKeys =>
    unfold LoadRequest.read at h
    rw [Prog.observe_map] at h
    obtain ⟨items, hitems, hloaded⟩ := map_observe_eq_ok h
    obtain ⟨v, hv, hfinds⟩ := findsVersion_of_getConfigsByKeys hitems
    rw [← hloaded] at hc
    obtain ⟨item, hitem, heq⟩ := List.mem_map.mp hc
    cases heq
    exact ⟨v, hv, (hfinds item hitem).2⟩

/-- **What a call of `load_configuration` returns** comes from reads between two
states. -/
inductive LoadedBetween (s s' : Database) (atomic : Prop) (address : ConfigAddress) :
    Except PyError (List (ConfigAddress × FlagConfiguration)) → Prop
  | found (c : FlagConfiguration) (u : Database) (row : FlagConfigRow) (flag : FeatureFlagRow)
    (consistent : u.Consistent) (after : s.Evolves [] u) (before : u.Evolves [] s')
    (finds : u.FindsVersion address.projectId address.environmentId address.flagKey c row flag) :
    LoadedBetween s s' atomic address (.ok [(address, c)])
  | raised (e : PyError) (views : List (View Database Row Choice))
    (read : (getConfigByKey address.projectId address.environmentId address.flagKey).observe views
      = some (.error e))
    (between : ∀ v ∈ views, (∃ log, History v.state log) ∧ s.Evolves [] v.state
      ∧ v.state.Evolves [] s')
    (same : atomic → ∀ v ∈ views, ∀ u ∈ views, v.state = u.state) :
    LoadedBetween s s' atomic address (.error e)

/-- A call of `load_configuration` looks up one configuration. -/
theorem loadedBetween_of_served {ttl : ℕ} {atomic : Prop} {address : ConfigAddress}
    {result : Except PyError (List (ConfigAddress × FlagConfiguration))}
    (h : CacheAside.ServedBetween (configCache ttl) discipline History atomic s s'
      (.configuration address.projectId address.environmentId address.flagKey) address result) :
    LoadedBetween s s' atomic address result := by
  cases result with
  | error e =>
    obtain ⟨misses, views, hread, hbetween, hsame⟩ := h
    rw [configCache_read, LoadRequest.read, Prog.observe_map] at hread
    exact .raised e views (map_observe_eq_error hread) hbetween hsame
  | ok found =>
    obtain ⟨⟨sources, hcomplete, rfl⟩, hserved⟩ := h
    -- one label is looked up, so one source is found, in the cache or by the read
    have hone : ∃ source : CacheAside.Source Database Row Choice ConfigAddress FlagConfiguration,
        sources = [source] ∧ source.label = address := by
      rcases hcomplete with hlabels | ⟨hits, misses, r, loaded, rfl, ⟨hlabels, hne⟩, hread⟩
      · obtain ⟨source, rfl, hlabel⟩ :=
          List.map_eq_singleton_iff.mp (List.perm_singleton.mp hlabels)
        exact ⟨source, rfl, hlabel⟩
      · have hmisses := List.perm_singleton.mp hlabels
        obtain ⟨rfl, -⟩ : hits = [] ∧ misses = [address] := by
          rcases List.append_eq_singleton_iff.mp hmisses with ⟨h, h'⟩ | ⟨-, h'⟩
          · exact ⟨List.map_eq_nil_iff.mp h, h'⟩
          · exact absurd h' hne
        rw [configCache_read, LoadRequest.read, Prog.observe_map] at hread
        obtain ⟨c, -, rfl⟩ := map_observe_eq_ok hread
        exact ⟨_, rfl, rfl⟩
    obtain ⟨source, rfl, rfl⟩ := hone
    obtain ⟨request, misses, loaded, hmem, views, hread, hbetween, -⟩ :=
      hserved source.value (List.mem_singleton.mpr rfl)
    obtain ⟨v, hv, row, flag, hfinds⟩ := findsVersion_of_read hread hmem
    obtain ⟨⟨log, hhistory⟩, hafter, hbefore⟩ := hbetween v hv
    exact .found source.value v.state row flag hhistory.consistent hafter hbefore hfinds

end Loads

/-- **What is returned is no older than a version**: it is that version or a later
one, and an exception is that of a read from the database which saw no state
before the version. -/
def NoOlder (address : ConfigAddress) (version : ℕ) :
    Except PyError (List (ConfigAddress × FlagConfiguration)) → Prop
  | .ok found => ∃ c : FlagConfiguration, found = [(address, c)] ∧ version ≤ c.configVersion
  | .error e => ∃ views, (getConfigByKey address.projectId address.environmentId
        address.flagKey).observe views = some (.error e)
      ∧ ∀ v ∈ views, v.state.HasVersion address version

/-- The service in good order, before its first request. -/
theorem good_initial : initial.Good discipline History (fun _ => Commits) :=
  World.good_init history_initial

/-- The sample flag in its environment. -/
def sampleAddress : ConfigAddress := ⟨⟨20⟩, ⟨30⟩, "banner"⟩

/-- Steps of the service without the cache. -/
def served (actions : List (Action Choice Request)) : List CachedAction := actions.map .serve

/-- A call of `load_configuration` for the sample flag that misses, up to the end
of its read. -/
def sampleMiss (id : ℕ) : List CachedAction :=
  [.load (.configuration ⟨20⟩ ⟨30⟩ "banner"), .get id]
  ++ List.replicate 8 (.statement id (sampleChoice 0))

/-- The flag is created and cached; its update crashes before the deletion, and
two ticks pass. -/
def crashedUpdate : List CachedAction :=
  served sampleFlag ++ sampleMiss 0 ++ [.set 0] ++ served sampleReplacement
    ++ [.crash 4, .tick, .tick]

/-- What a call returned, where it is for the sample flag: the versions. -/
def sampleVersions (w : CachedService) (id : ℕ) : Option (List ℕ) :=
  w.loads[id]?.bind (fun load =>
    if load.request = .configuration ⟨20⟩ ⟨30⟩ "banner" then
      load.phase.result?.bind (fun result =>
        result.toOption.map (fun found => found.map (fun item => item.2.configVersion)))
    else none)

/-- What such a call returned. -/
theorem exists_of_sampleVersions {w : CachedService} {id : ℕ} {versions : List ℕ}
    (h : sampleVersions w id = some versions) : ∃ load found, w.loads[id]? = some load
      ∧ load.request = .configuration ⟨20⟩ ⟨30⟩ "banner"
      ∧ load.phase.result? = some (.ok found)
      ∧ found.map (fun item => item.2.configVersion) = versions := by
  obtain ⟨load, hload, hrest⟩ := Option.bind_eq_some_iff.mp h
  split at hrest
  · rename_i hrequest
    obtain ⟨result, hresult, hversions⟩ := Option.bind_eq_some_iff.mp hrest
    cases result with
    | error e => cases hversions
    | ok found => exact ⟨load, found, hload, hrequest, hresult, Option.some.inj hversions⟩
  · cases hrest

end CohortSwitch
