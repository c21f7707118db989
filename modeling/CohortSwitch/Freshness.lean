import CohortSwitch.Cache

/-!
# Loads after an invalidation

A reader puts what it read into the cache in a step of its own, and nothing
compares that with the deletions that came meanwhile. If the deletion for a
commit comes between the read of an older version and its set, the older version
stays in the cache after `invalidate_and_publish` has returned
(`load_after_invalidation_stale`). That is the only way: in a run in which no
entry is set after the deletion for a commit that its read came before, whoever
starts to load after the invalidation gets the version of the commit or a later
one, and nothing once the flag is archived (`loads_fresh`).

The condition is on the steps that set an entry, each in the state before it: the read
behind the entry came after every commit whose deletion for its label is done. It says
nothing of what a load returns. Under it the entries a later load can hit are no older
than the commit (`CacheAside.fresh_after_deletion`), and what remains is to see what an
answer read since that commit can be (`LoadedBetween.fresh`).
-/

namespace CohortSwitch

section Reads

variable {s s' : Database}

/-- **A read whose statements see one state** fails only where there is no such
flag or it is archived. -/
theorem not_found_of_same {u : Database} {log : List (Request × Outcome)} (hu : History u log)
    {projectId environmentId : UUID} {flagKey : String} {views : List (View Database Row Choice)}
    (hsame : ∀ v ∈ views, v.state = u) {e : PyError}
    (h : (getConfigByKey projectId environmentId flagKey).observe views = some (.error e)) :
    e = flagNotFound ∧ u.configOfKey projectId environmentId flagKey = none := by
  unfold getConfigByKey at h
  obtain ⟨v, rest, rfl, hrest⟩ := observe_read_bind h
  beta_reduce at hrest
  rw [hsame v List.mem_cons_self] at hrest
  cases hfound : u.configOfKey projectId environmentId flagKey with
  | none =>
    rw [hfound] at hrest
    cases rest <;> cases hrest
    exact ⟨rfl, rfl⟩
  | some item =>
    obtain ⟨row, flag, environment⟩ := item
    rw [hfound] at hrest
    obtain ⟨hrow, hflag, henvironment⟩ := configOfKey_eq_some hfound
    obtain ⟨loaded, _, rfl, rfl, rfl, hcompiled, hloads⟩ := observe_loadCollections hrest
    have hloads := hloads u.children (fun v' hv' => by
      rw [hsame v' (List.mem_cons_of_mem _ hv')])
    obtain ⟨c₀, hcurrent⟩ := (hu.configs _ hrow).current
    obtain ⟨saved, hstores⟩ := hcurrent.children
    have hdescribes := hcurrent.describes _ hflag.1 hflag.2 _ henvironment.1 henvironment.2
    obtain ⟨d, hd, -⟩ := compile_of_represents (fun _ _ hperm => hperm)
      (represents_of_loads hstores hloads hdescribes)
    rw [observe_attempt hcompiled] at hd
    cases hd

/-- A flag that has a configuration and is not archived is found. -/
theorem archived_of_not_found (hs : s.Consistent) {address : ConfigAddress} {version : ℕ}
    (hversion : s.HasVersion address version)
    (h : s.configOfKey address.projectId address.environmentId address.flagKey = none) :
    s.Archived address.projectId address.flagKey := by
  obtain ⟨flag, hflag, hproject, hkey, row, hrow, hflagId, henvironment, -⟩ := hversion
  obtain ⟨environment, he, heid⟩ :=
    List.mem_map.mp (hs.references.configEnvironments row hrow)
  have hjoined : s.joined row = some (row, flag, environment) :=
    joined_eq_some.mpr ⟨rfl, find?_eq_some_of_mem hs.keys.flagIds hflag hflagId.symm,
      find?_eq_some_of_mem hs.keys.environmentIds he heid⟩
  have hnone := List.find?_eq_none.mp h _ (List.mem_filterMap.mpr ⟨row, hrow, hjoined⟩)
  refine ⟨flag, hflag, hproject, hkey, ?_⟩
  cases ha : flag.archivedAt with
  | some t => rfl
  | none => exact absurd (decide_eq_true ⟨hproject, hkey, ha, henvironment⟩) hnone

/-- An archived flag stays archived. -/
theorem Database.Archived.evolve {projectId : UUID} {flagKey : String}
    (h : s.Archived projectId flagKey) (hs' : s'.Consistent) (hevolves : s.Evolves [] s') :
    s'.Archived projectId flagKey := by
  obtain ⟨flag, hflag, hproject, hkey, ha⟩ := h
  obtain ⟨flag', hflag', hid, ha'⟩ := hevolves.archived flag hflag ha
  have hidentity := flag_identity hs' hevolves.grows hflag' (List.mem_map_of_mem hflag) hid
  exact ⟨flag', hflag', (congrArg FeatureFlagRow.Identity.projectId hidentity).trans hproject,
    (congrArg FeatureFlagRow.Identity.key hidentity).trans hkey, ha'⟩

/-- What a notification tells: the flag is archived, or has reached a version. -/
theorem Database.Told.cases {n : Notification} (h : s.Told n) :
    s.Archived n.projectId n.flagKey ∨ s.HasVersion n.address n.version := by
  obtain ⟨flag, hflag, hproject, hkey, ⟨-, ha⟩ | ⟨-, hrow⟩⟩ := h
  · exact .inl ⟨flag, hflag, hproject, hkey, ha⟩
  · exact .inr ⟨flag, hflag, hproject, hkey, hrow⟩

/-- **What a call returns after a notification**: the version that was published
or a later one, and nothing once the flag is archived. `s` is the state the
notified commit left, `s'` a later one. -/
def LoadReturns (s s' : Database) (n : Notification) :
    Except PyError (List (ConfigAddress × FlagConfiguration)) → Prop
  | .ok loaded => ∃ c : FlagConfiguration, loaded = [(n.address, c)]
    ∧ n.version ≤ c.configVersion ∧ ¬ s.Archived n.projectId n.flagKey
  | .error e => e = flagNotFound ∧ s'.Archived n.projectId n.flagKey

/-- **A read after a commit that is notified** gives the version it notifies or a
later one, and fails only where the flag is archived. -/
theorem LoadedBetween.fresh {n : Notification} (htold : s.Told n)
    {result : Except PyError (List (ConfigAddress × FlagConfiguration))}
    (h : LoadedBetween s s' True n.address result) (hs' : s'.Consistent) :
    LoadReturns s s' n result := by
  cases h with
  | found c u row flag consistent after before finds =>
    have hnot : ¬ s.Archived n.projectId n.flagKey :=
      fun ha => not_findsVersion_of_archived consistent after ha finds
    have hversion := htold.cases.resolve_left hnot
    exact ⟨c, rfl, version_le_of_findsVersion consistent after hversion finds, hnot⟩
  | raised e views read between same =>
    obtain ⟨v, rest, rfl⟩ : ∃ v rest, views = v :: rest := by
      cases views with
      | nil => cases read
      | cons v rest => exact ⟨v, rest, rfl⟩
    obtain ⟨⟨log, hhistory⟩, hafter, hbefore⟩ := between v List.mem_cons_self
    obtain ⟨he, hnone⟩ := not_found_of_same hhistory
      (fun v' hv' => same trivial v' hv' v List.mem_cons_self) read
    refine ⟨he, Database.Archived.evolve ?_ hs' hbefore⟩
    rcases htold.cases with ha | hversion
    · exact ha.evolve hhistory.consistent hafter
    · exact archived_of_not_found hhistory.consistent
        (hversion.evolve hhistory.consistent hafter) hnone

end Reads

/-! ## Every run -/

/-- **Fresh after the invalidation.** Nothing fails, reads are atomic, and no
entry is set after the deletion for a commit that its read came before. A call
of `load_configuration` that starts after `invalidate_and_publish` has returned
gives the version it published or a later one, and nothing once the flag is
archived. -/
theorem loads_fresh {cacheTtlSeconds : ℕ} {actions actions' : List CachedAction}
    {w w' : CachedService}
    (hsmooth : (configCache cacheTtlSeconds).Meets service CacheAside.Smooth (.start initial)
      actions)
    (hsmooth' : (configCache cacheTtlSeconds).Meets service CacheAside.Smooth w actions')
    (hfresh : (configCache cacheTtlSeconds).Meets service CacheAside.StoresFresh (.start initial)
      actions)
    (hfresh' : (configCache cacheTtlSeconds).Meets service CacheAside.StoresFresh w actions')
    (hrun : (configCache cacheTtlSeconds).run service (.start initial) actions = some w)
    (hrun' : (configCache cacheTtlSeconds).run service w actions' = some w')
    {commit : CacheAside.Commit Database Outcome ConfigAddress Notification}
    (hcommit : commit ∈ w.commits) {n : Notification} (hreturned : n ∈ commit.returned)
    {id : ℕ} (hlater : w.loads.length ≤ id)
    {load : CacheAside.Load Database Write Row Choice PyError LoadRequest ConfigAddress
      FlagConfiguration} (hload : w'.loads[id]? = some load)
    (hrequest : load.request = .configuration n.projectId n.environmentId n.flagKey)
    {result : Except PyError (List (ConfigAddress × FlagConfiguration))}
    (hresult : load.phase.result? = some result) :
    LoadReturns commit.state w'.server.committed n result := by
  have hsound := configCache_sound cacheTtlSeconds
  obtain ⟨htold, hserved⟩ := CacheAside.fresh_after_deletion hsound good_initial
    (hsmooth.and hfresh) (hsmooth'.and hfresh') hrun hrun' hcommit hreturned hlater hload hresult
  have hgood := CacheAside.good_of_run hsound (CacheAside.CacheWorld.good_start good_initial) hrun
  have hgood' := CacheAside.good_of_run hsound hgood hrun'
  rw [hrequest] at hserved
  have hbetween : LoadedBetween commit.state w'.server.committed True n.address result :=
    loadedBetween_of_served hserved
  exact hbetween.fresh htold hgood'.server.invariant.consistent

/-! ## A set after the deletion -/

/-- A reader has read version 1 when version 2 is committed and the key is
deleted; then it sets what it read. -/
def lateSet : List CachedAction :=
  served sampleFlag ++ [.delete 3, .publish 3] ++ sampleMiss 0 ++ served sampleReplacement
    ++ [.delete 4, .publish 4, .set 0]

/-- The same calls, and the reader sets what it read before the commit. -/
def earlySet : List CachedAction :=
  served sampleFlag ++ [.delete 3, .publish 3] ++ sampleMiss 0 ++ [.set 0]
    ++ served sampleReplacement ++ [.delete 4, .publish 4]

theorem loads_fresh_early : ∃ w w' commit n load found,
    (configCache 60).run service (.start initial) earlySet = some w
    ∧ (configCache 60).run service w (sampleMiss 1 ++ [.set 1]) = some w'
    ∧ commit ∈ w.commits ∧ n ∈ commit.returned ∧ n.version = 2
    ∧ w'.loads[1]? = some load ∧ load.phase.result? = some (.ok found)
    ∧ LoadReturns commit.state w'.server.committed n (.ok found) := by
  have hfacts : ((configCache 60).run service (.start initial) earlySet).any (fun w =>
      w.commits[4]?.any (fun commit => commit.returned.any (fun n =>
        decide (n.version = 2 ∧ n.address = sampleAddress)))
      && decide (w.loads.length = 1)
      && (configCache 60).checkMeets service (fun w action =>
        decide (CacheAside.Smooth w action)) w (sampleMiss 1 ++ [.set 1])
      && (configCache 60).checkMeets service (fun w action =>
        decide (CacheAside.StoresFresh w action)) w (sampleMiss 1 ++ [.set 1])
      && ((configCache 60).run service w (sampleMiss 1 ++ [.set 1])).any (fun w' =>
        decide (sampleVersions w' 1 = some [2]))) = true := by
    decide +kernel
  have hsmooth : (configCache 60).checkMeets service
      (fun w action => decide (CacheAside.Smooth w action)) (.start initial) earlySet = true := by
    decide +kernel
  have hfresh : (configCache 60).checkMeets service
      (fun w action => decide (CacheAside.StoresFresh w action)) (.start initial) earlySet
        = true := by
    decide +kernel
  obtain ⟨w, hrun, hfacts⟩ := (Option.any_eq_true _ _).mp hfacts
  simp only [Bool.and_eq_true, decide_eq_true_eq] at hfacts
  obtain ⟨⟨⟨⟨hcommit, hloads⟩, hsmooth'⟩, hfresh'⟩, hrun'⟩ := hfacts
  obtain ⟨commit, hget, hcommit⟩ := (Option.any_eq_true _ _).mp hcommit
  obtain ⟨n, hn, hnote⟩ := List.any_eq_true.mp hcommit
  obtain ⟨hversion, haddress⟩ := of_decide_eq_true hnote
  obtain ⟨w', hrun', hversions⟩ := (Option.any_eq_true _ _).mp hrun'
  obtain ⟨load, found, hload, hrequest, hresult, -⟩ :=
    exists_of_sampleVersions (of_decide_eq_true hversions)
  have hmem := List.mem_of_getElem? hget
  have hrequest' : load.request = .configuration n.projectId n.environmentId n.flagKey :=
    hrequest.trans (congrArg (fun a : ConfigAddress =>
      LoadRequest.configuration a.projectId a.environmentId a.flagKey) haddress).symm
  exact ⟨w, w', commit, n, load, found, hrun, hrun', hmem, hn, hversion, hload, hresult,
    loads_fresh (CacheAside.meets_of_check _ _ hsmooth) (CacheAside.meets_of_check _ _ hsmooth')
      (CacheAside.meets_of_check _ _ hfresh) (CacheAside.meets_of_check _ _ hfresh') hrun hrun'
      hmem hn hloads.le hload hrequest' hresult⟩

/-- **A stale entry that outlives the invalidation**: nothing fails and every
read is atomic, and a call that starts after the invalidation for version 2 has
returned gives version 1. -/
theorem load_after_invalidation_stale : ∃ w w' commit n load found,
    (configCache 60).run service (.start initial) lateSet = some w
    ∧ (configCache 60).run service w [.load (.configuration ⟨20⟩ ⟨30⟩ "banner"), .get 1] = some w'
    ∧ (configCache 60).Meets service CacheAside.Smooth (.start initial) lateSet
    ∧ (configCache 60).Meets service CacheAside.Smooth w
      [.load (.configuration ⟨20⟩ ⟨30⟩ "banner"), .get 1]
    ∧ commit ∈ w.commits ∧ n ∈ commit.returned ∧ n.address = sampleAddress ∧ n.version = 2
    ∧ w.loads.length = 1 ∧ w'.loads[1]? = some load
    ∧ load.request = .configuration ⟨20⟩ ⟨30⟩ "banner"
    ∧ load.phase.result? = some (.ok found)
    ∧ found.map (fun item => item.2.configVersion) = [1]
    ∧ ¬ LoadReturns commit.state w'.server.committed n (.ok found) := by
  have hfacts : ((configCache 60).run service (.start initial) lateSet).any (fun w =>
      w.commits[4]?.any (fun commit => commit.returned.any (fun n =>
        decide (n.version = 2 ∧ n.address = sampleAddress)))
      && decide (w.loads.length = 1)
      && (configCache 60).checkMeets service (fun w action =>
        decide (CacheAside.Smooth w action)) w
        [.load (.configuration ⟨20⟩ ⟨30⟩ "banner"), .get 1]
      && ((configCache 60).run service w
        [.load (.configuration ⟨20⟩ ⟨30⟩ "banner"), .get 1]).any (fun w' =>
        decide (sampleVersions w' 1 = some [1]))) = true := by
    decide +kernel
  have hsmooth : (configCache 60).checkMeets service
      (fun w action => decide (CacheAside.Smooth w action)) (.start initial) lateSet = true := by
    decide +kernel
  obtain ⟨w, hrun, hfacts⟩ := (Option.any_eq_true _ _).mp hfacts
  simp only [Bool.and_eq_true, decide_eq_true_eq] at hfacts
  obtain ⟨⟨⟨hcommit, hloads⟩, hsmooth'⟩, hrun'⟩ := hfacts
  obtain ⟨commit, hget, hcommit⟩ := (Option.any_eq_true _ _).mp hcommit
  obtain ⟨n, hn, hnote⟩ := List.any_eq_true.mp hcommit
  obtain ⟨hversion, haddress⟩ := of_decide_eq_true hnote
  obtain ⟨w', hrun', hversions⟩ := (Option.any_eq_true _ _).mp hrun'
  obtain ⟨load, found, hload, hrequest, hresult, hfound⟩ :=
    exists_of_sampleVersions (of_decide_eq_true hversions)
  refine ⟨w, w', commit, n, load, found, hrun, hrun', CacheAside.meets_of_check _ _ hsmooth,
    CacheAside.meets_of_check _ _ hsmooth', List.mem_of_getElem? hget, hn, haddress, hversion,
    hloads, hload, hrequest, hresult, hfound, ?_⟩
  rintro ⟨c, rfl, hle, -⟩
  have hone : c.configVersion = 1 := List.singleton_inj.mp hfound
  omega

end CohortSwitch
