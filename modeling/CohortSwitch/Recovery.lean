import CohortSwitch.Export
import CohortSwitch.Freshness
import CohortSwitch.Publications

/-!
# Snapshots after a lost event

Streams are not durable: a client that was cut off fetches the bundle of its environment. An
export reads the database and no cache, so whatever was committed before it begins is in it,
published or not (`snapshot_after_commit`): each flag at the version the commit gave it or a
later one, and none is missing but for those that are archived.

## Why nothing has to be asked of the writers

A notification may be lost in three ways: the writer crashes between its commit and the
publication, Redis refuses it, or the stream of a client is not connected when it comes.
What the client misses then is in the database all the same, since the commit came first. The
statement therefore starts from the note a commit makes for itself, the first thing a
writer would publish, and not from what was published.

## What an export reads

An export selects the configurations of the environment with their flags, then what belongs to
them, one statement after the other, and others commit in between. The version a flag is listed
with is the one of its row in the first of these SELECTs (`exists_exported`): versions only
go up, so this is the version of the commit or a later one. A flag that is not found there,
although it has a version, is archived (`listed_of_hasVersion`), and archived flags are left
out on purpose.

`snapshot_after_commit_crashed` is a run in which the writer of a version crashes before it
publishes anything and the bundle has the version.
-/

namespace CohortSwitch

section Listing

variable {projectId environmentId : UUID}

/-- **Everything the main SELECT finds is listed**, in the version it finds: the later
statements read what belongs to the rows and drop none. -/
theorem exists_exported {views : List (View Database Row Choice)}
    {configs : List FlagConfiguration}
    (h : (getAllEnvironmentConfigs projectId environmentId).observe views = some (.ok configs)) :
    ∃ v ∈ views, ∀ item ∈ v.state.configsOfEnvironment projectId environmentId,
      ∃ c ∈ configs,
        v.state.FindsVersion projectId environmentId item.2.1.key c item.1 item.2.1 := by
  unfold getAllEnvironmentConfigs at h
  obtain ⟨v, rest, rfl, hrest⟩ := observe_read_bind h
  obtain ⟨loaded, rest', hfor, hcompiled, -⟩ := observe_loadAllCollections hrest
  refine ⟨v, List.mem_cons_self, fun item hitem => ?_⟩
  have hlisted := (arrange_perm v.choice.order
    (v.state.configsOfEnvironment projectId environmentId)).symm.subset hitem
  obtain ⟨config, hconfig, hof⟩ := (PermBy.of_forall₂ hfor).exists_left hlisted
  obtain ⟨c, hc, hcompile⟩ :=
    (PermBy.of_forall₂ (mapM_eq_ok.mp (observe_attempt hcompiled))).exists_right hconfig
  obtain ⟨hjoined, hselected⟩ := List.mem_filter.mp hitem
  obtain ⟨hproject, hlive, henvironment⟩ := of_decide_eq_true hselected
  exact ⟨c, hc, findsVersion_of_compile hjoined hproject rfl hlive henvironment hof hcompile⟩

/-- A flag that has reached a version is found there with that version or a later one, or it is
archived. -/
theorem listed_of_hasVersion {s : Database} (hs : s.Consistent) {flagKey : String} {version : ℕ}
    (h : s.HasVersion ⟨projectId, environmentId, flagKey⟩ version) :
    s.Archived projectId flagKey ∨ ∃ item ∈ s.configsOfEnvironment projectId environmentId,
      item.2.1.key = flagKey ∧ version ≤ item.1.currentVersion := by
  obtain ⟨flag, hflag, hproject, hkey, row, hrow, hflagId, henvironment, hle⟩ := h
  cases hlive : flag.archivedAt with
  | some t => exact Or.inl ⟨flag, hflag, hproject, hkey, by rw [hlive]; rfl⟩
  | none =>
    obtain ⟨⟨row', flag', environment⟩, hitem, hsame⟩ := exists_joined hs hrow
    obtain ⟨rfl, hflag', henvironment'⟩ := joined_eq_some.mp hitem
    obtain ⟨hmem, hid⟩ := mem_and_of_find? hflag'
    obtain rfl : flag' = flag :=
      List.inj_on_of_nodup_map hs.keys.flagIds hmem hflag (hid.trans hflagId)
    exact Or.inr ⟨_, List.mem_filter.mpr ⟨List.mem_filterMap.mpr ⟨row', hrow, hitem⟩,
      decide_eq_true ⟨hproject, hlive, henvironment⟩⟩, hkey, hle⟩

end Listing

/-- **A snapshot repairs what a stream has missed.** Every version that a commit notes,
whether it was published, lost or its writer crashed before it could publish, is in each
bundle that is read after the commit, or a later one is, unless the flag is archived. Writers
may commit while the bundle is read. -/
theorem snapshot_after_commit {cacheTtlSeconds : ℕ} {actions : List CachedAction}
    {w : CachedService}
    (hrun : (configCache cacheTtlSeconds).run service (.start initial) actions = some w)
    {commit : CacheAside.Commit Database Outcome ConfigAddress Notification}
    (hcommit : commit ∈ w.commits) {n : Notification} (hn : n ∈ commit.result.notifications)
    {views : List (View Database Row Choice)}
    (hmoments : service.Moments w.server (views.map View.state)) {principal : Principal}
    {ifNoneMatch : Option String} {etag : String} {bundle : ConfigBundle}
    (hexport : (exportConfiguration principal n.projectId n.environmentId ifNoneMatch).observe views
      = some (.ok (.bundle etag bundle))) :
    (∃ fields ∈ bundle.flags, fields.flagKey = n.flagKey ∧ n.version ≤ fields.configVersion)
      ∨ ∃ v ∈ views, v.state.Archived n.projectId n.flagKey := by
  have hsound := configCache_sound cacheTtlSeconds
  have hgood := CacheAside.good_of_run hsound (CacheAside.CacheWorld.good_start good_initial) hrun
  have htold := CacheAside.tells_of_run hsound good_initial hrun commit hcommit n hn
  obtain ⟨hinvariant, hlater, -⟩ :=
    service_respects.moments (fun _ _ _ => trivial) hgood.server hmoments
  obtain ⟨-, -, environment, -, -, -, -, hresponse⟩ := observe_exportConfiguration hexport
  obtain ⟨-, hnot⟩ | ⟨before, after, configs, rfl, hconfigs, hbundle⟩ := hresponse
  · cases hnot
  cases hbundle
  obtain ⟨v, hv, hlisted⟩ := exists_exported hconfigs
  have hmem := List.mem_append_right before hv
  obtain ⟨log, hhistory⟩ := hinvariant v.state (List.mem_map_of_mem hmem)
  -- the state that is read has evolved from the one the commit left
  have hevolves : commit.state.Evolves [] v.state :=
    (hgood.commits commit hcommit).2.trans (hlater v.state (List.mem_map_of_mem hmem))
  -- the commit archived the flag, or the flag has reached the version
  rcases htold.cases with harchived | hversion
  · exact Or.inr ⟨v, hmem, harchived.evolve hhistory.consistent hevolves⟩
  · have hnow := hversion.evolve hhistory.consistent hevolves
    rcases listed_of_hasVersion hhistory.consistent hnow with harchived | ⟨item, hitem, hkey, hle⟩
    · exact Or.inr ⟨v, hmem, harchived⟩
    · obtain ⟨c, hc, hfinds⟩ := hlisted item hitem
      refine Or.inl ⟨c.toConfigurationFields, List.mem_map_of_mem hc,
        hfinds.compiledKey.trans hkey, ?_⟩
      show n.version ≤ c.configVersion
      rw [hfinds.compiledVersion]
      exact hle

/-- The writer of version 2 crashes before it publishes anything. -/
def crashedWriter : List CachedAction :=
  served sampleFlag ++ served sampleReplacement ++ [.crash 4]

theorem snapshot_after_commit_crashed : ∃ w commit n etag bundle,
    (configCache 60).run service (.start initial) crashedWriter = some w
    ∧ w.published.length = 0 ∧ commit ∈ w.commits ∧ n ∈ commit.result.notifications
    ∧ n.version = 2
    ∧ (exportConfiguration sampleSdk n.projectId n.environmentId none).observe
      (List.replicate 9 (sampleView w.server)) = some (.ok (.bundle etag bundle))
    ∧ ∃ fields ∈ bundle.flags, fields.flagKey = n.flagKey ∧ n.version ≤ fields.configVersion := by
  have hfacts : ((configCache 60).run service (.start initial) crashedWriter).any (fun w =>
      decide (w.published.length = 0)
      && w.commits[4]?.any (fun commit => commit.result.notifications.any (fun n =>
        decide (n.version = 2 ∧ n.address = sampleAddress)))
      && w.server.committed.flags.all (fun flag => flag.archivedAt.isNone)
      && (sampleBundle w.server).isSome) = true := by
    decide +kernel
  obtain ⟨w, hrun, hfacts⟩ := (Option.any_eq_true _ _).mp hfacts
  simp only [Bool.and_eq_true, decide_eq_true_eq] at hfacts
  obtain ⟨⟨⟨hpublished, hcommit⟩, hlive⟩, hbundle⟩ := hfacts
  obtain ⟨commit, hget, hcommit⟩ := (Option.any_eq_true _ _).mp hcommit
  obtain ⟨n, hn, hnote⟩ := List.any_eq_true.mp hcommit
  obtain ⟨hversion, haddress⟩ := of_decide_eq_true hnote
  obtain ⟨⟨etag, bundle⟩, hbundle⟩ := Option.isSome_iff_exists.mp hbundle
  have hproject : n.projectId = ⟨20⟩ := congrArg ConfigAddress.projectId haddress
  have henvironment : n.environmentId = ⟨30⟩ := congrArg ConfigAddress.environmentId haddress
  have hexport := observe_of_sampleBundle hbundle
  rw [← hproject, ← henvironment] at hexport
  have hmem := List.mem_of_getElem? hget
  have hmoments : service.Moments w.server
      ((List.replicate 9 (sampleView w.server)).map View.state) := by
    rw [List.map_replicate, ← List.append_nil (List.replicate 9 _)]
    exact moments_replicate w.server 9 (.nil w.server)
  refine ⟨w, commit, n, etag, bundle, hrun, hpublished, hmem, hn, hversion, hexport, ?_⟩
  rcases snapshot_after_commit hrun hmem hn hmoments hexport with hfound | ⟨v, hv, flag, hflag,
    -, -, harchived⟩
  · exact hfound
  · rw [List.eq_of_mem_replicate hv] at hflag
    have hnone := List.all_eq_true.mp hlive flag hflag
    rw [Option.isNone_iff_eq_none.mp hnone] at harchived
    cases harchived

end CohortSwitch
