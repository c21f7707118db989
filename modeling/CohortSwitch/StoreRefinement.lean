import CohortSwitch.ManagementReads
import CohortSwitch.PublishedRevisions
import CohortSwitch.VersionedStore

/-!
# The tables as a versioned store

The tables, the locks and the conditional updates make up one thing: a store that keeps
under each flag and environment the configurations that were written, and takes a new one
from whoever names the version it follows. `Database.store` is the store the tables stand
for, and `refines_store` says that the service is one: its commits are batches of puts, in
the order of the commits, under every interleaving of the transactions.

A batch has one put for each configuration that a commit writes, so it is empty for what
touches none and has several where scheduled changes are applied together.

## The abstraction

The values under a place are the stored snapshots of its configuration, up to its current
version. That the list has no gap is an invariant of the tables (`length_snapshots`), and it
makes the version of a row the length of a list. A commit that updates a configuration raises
its version by one and stores one snapshot, so the list gets one value more
(`store_of_version`); every other commit leaves the list as it is. The version a put
follows is the one the conditional update of the transaction compared with, at a moment
before the commit, and the row was locked since.

## What is read

The history of a place is also what a client is shown: `listing_of_store` says that a listing
of versions is a read of the store, at one moment among its statements. It is read in two
statements, and the second one decides: it lists whatever was stored by then.
-/

namespace CohortSwitch

/-! ## The store of a state -/

/-- Where a configuration belongs: its flag and its environment. -/
def FlagConfigRow.place (row : FlagConfigRow) : UUID × UUID := (row.flagId, row.environmentId)

/-- The stored snapshot of a version. -/
def Database.snapshot? (s : Database) (configId : UUID) (version : ℕ) :
    Option ConfigurationFields :=
  (s.versions.find? (fun row => (row.configId, row.version) = (configId, version))).map
    FlagVersionRow.snapshot

/-- The stored snapshots of a configuration up to a version, the first one first. -/
def Database.snapshots (s : Database) (configId : UUID) (version : ℕ) :
    List ConfigurationFields :=
  (List.range' 1 version).filterMap (s.snapshot? configId)

/-- **The store the tables stand for.** -/
def Database.store (s : Database) : VersionedStore (UUID × UUID) ConfigurationFields := fun place =>
  ((s.configs.find? (fun row => row.place = place)).map (fun row =>
    s.snapshots row.id row.currentVersion)).getD []

section States

variable {s s' : Database}

/-- Under the place of a configuration are its snapshots. -/
theorem store_of_mem (hs : s.Consistent) {row : FlagConfigRow} (hrow : row ∈ s.configs) :
    s.store row.place = s.snapshots row.id row.currentVersion := by
  have hfind : s.configs.find? (fun row' => row'.place = row.place) = some row :=
    find?_eq_some_of_mem hs.keys.configPairs hrow rfl
  unfold Database.store
  rw [hfind]
  rfl

/-- Under any other place there is nothing. -/
theorem store_of_not_mem {place : UUID × UUID} (h : place ∉ s.configs.map FlagConfigRow.place) :
    s.store place = [] := by
  have hfind : s.configs.find? (fun row => row.place = place) = none :=
    List.find?_eq_none.mpr (fun row hrow hplace =>
      h (List.mem_map.mpr ⟨row, hrow, of_decide_eq_true hplace⟩))
  unfold Database.store
  rw [hfind]
  rfl

/-- One version more adds its snapshot, if there is one. -/
theorem snapshots_succ (s : Database) (configId : UUID) (version : ℕ) :
    s.snapshots configId (version + 1) = s.snapshots configId version
      ++ (s.snapshot? configId (version + 1)).toList := by
  unfold Database.snapshots
  rw [List.range'_1_concat, List.filterMap_append, Nat.add_comm 1 version, List.filterMap_cons,
    List.filterMap_nil]
  cases s.snapshot? configId (version + 1) <;> rfl

/-- A version that is stored is found. -/
theorem snapshot?_of_mem (hs : s.Consistent) {version : FlagVersionRow}
    (hv : version ∈ s.versions) :
    s.snapshot? version.configId version.version = some version.snapshot := by
  have hfind : s.versions.find? (fun row =>
      (row.configId, row.version) = (version.configId, version.version)) = some version :=
    find?_eq_some_of_mem hs.keys.versionNumbers hv rfl
  unfold Database.snapshot?
  rw [hfind]
  rfl

/-- A version that its configuration has reached is stored, and stays so. -/
theorem snapshot?_of_prefix {row : FlagConfigRow} (h : ConfigHistory s row)
    (hversions : s.versions <+: s'.versions) {n : ℕ} (hpos : 1 ≤ n)
    (hle : n ≤ row.currentVersion) : ∃ snapshot, s.snapshot? row.id n = some snapshot
      ∧ s'.snapshot? row.id n = some snapshot := by
  have hmem : n ∈ List.range' 1 row.currentVersion := List.mem_range'_1.mpr ⟨hpos, by omega⟩
  obtain ⟨version, hv, hn⟩ := List.mem_map.mp (h.versions.mem_iff.mpr hmem)
  obtain ⟨hv, hid⟩ := List.mem_filter.mp hv
  have hsome : (s.versions.find? (fun v => (v.configId, v.version) = (row.id, n))).isSome :=
    List.find?_isSome.mpr ⟨version, hv, decide_eq_true (Prod.ext (of_decide_eq_true hid) hn)⟩
  obtain ⟨found, hfound⟩ := Option.isSome_iff_exists.mp hsome
  obtain ⟨new, hnew⟩ := hversions
  refine ⟨found.snapshot, ?_, ?_⟩
  · unfold Database.snapshot?
    rw [hfound]
    rfl
  · unfold Database.snapshot?
    rw [← hnew, List.find?_append, hfound]
    rfl

/-- **A key has as many values as it has versions.** -/
theorem length_snapshots {row : FlagConfigRow} (h : ConfigHistory s row) :
    (s.snapshots row.id row.currentVersion).length = row.currentVersion := by
  have hupto : ∀ n ≤ row.currentVersion, (s.snapshots row.id n).length = n := by
    intro n
    induction n with
    | zero => exact fun _ => rfl
    | succ n ih =>
      intro hle
      obtain ⟨found, hfound, -⟩ :=
        snapshot?_of_prefix h List.prefix_rfl (Nat.le_add_left 1 n) hle
      rw [snapshots_succ, List.length_append, ih (Nat.le_of_succ_le hle), hfound]
      rfl
  exact hupto _ le_rfl

/-- **Stored snapshots stay**, whatever is stored after them. -/
theorem snapshots_of_prefix {row : FlagConfigRow} (h : ConfigHistory s row)
    (hversions : s.versions <+: s'.versions) :
    s'.snapshots row.id row.currentVersion = s.snapshots row.id row.currentVersion := by
  refine List.filterMap_congr (fun n hn => ?_)
  have hrange := List.mem_range'_1.mp hn
  obtain ⟨found, hfound, hlater⟩ := snapshot?_of_prefix h hversions hrange.1 (by omega)
  rw [hfound, hlater]

/-- A configuration whose version stays keeps what is under its place. -/
theorem store_eq_of_version (hs : s.Consistent) (hs' : s'.Consistent)
    (hversions : s.versions <+: s'.versions) {row row' : FlagConfigRow} (hrow : row ∈ s.configs)
    (h : ConfigHistory s row) (hrow' : row' ∈ s'.configs) (hidentity : row'.identity = row.identity)
    (hversion : row'.currentVersion = row.currentVersion) :
    s'.store row.place = s.store row.place := by
  have hplace : row'.place = row.place :=
    congrArg (fun i : FlagConfigRow.Identity => (i.flagId, i.environmentId)) hidentity
  have hid : row'.id = row.id := congrArg FlagConfigRow.Identity.id hidentity
  rw [store_of_mem hs hrow, ← hplace, store_of_mem hs' hrow', hid, hversion,
    snapshots_of_prefix h hversions]

/-- **A new version is put under its place**, after the ones from before. -/
theorem store_of_version (hs : s.Consistent) (hs' : s'.Consistent)
    (hversions : s.versions <+: s'.versions) {row row' : FlagConfigRow} (hrow : row ∈ s.configs)
    (h : ConfigHistory s row) (hrow' : row' ∈ s'.configs) (hidentity : row'.identity = row.identity)
    {version : FlagVersionRow} (hnew : version ∈ s'.versions) (hid : version.configId = row.id)
    (hnumber : version.version = row.currentVersion + 1)
    (hversion : row'.currentVersion = row.currentVersion + 1) :
    s'.store row.place = s.store row.place ++ [version.snapshot] := by
  have hplace : row'.place = row.place :=
    congrArg (fun i : FlagConfigRow.Identity => (i.flagId, i.environmentId)) hidentity
  have hid' : row'.id = row.id := congrArg FlagConfigRow.Identity.id hidentity
  have hfound := snapshot?_of_mem hs' hnew
  rw [hid, hnumber] at hfound
  rw [store_of_mem hs hrow, ← hplace, store_of_mem hs' hrow', hid', hversion, snapshots_succ,
    snapshots_of_prefix h hversions, hfound]
  rfl

/-- **What the tables show of a store**: the version of each configuration, and in its rows
the value that was put last, up to the order of the rows. -/
structure Database.Shows (s : Database)
    (store : VersionedStore (UUID × UUID) ConfigurationFields) : Prop where
  /-- A configuration has the version of its place. -/
  versions : ∀ row ∈ s.configs, (store row.place).length = row.currentVersion
  /-- And its rows compile to the last value, up to their order. -/
  latest : ∀ loaded : LoadedConfig, loaded.row ∈ s.configs →
    loaded.flag ∈ s.flags → loaded.flag.id = loaded.row.flagId →
    loaded.environment ∈ s.environments → loaded.environment.id = loaded.row.environmentId →
    Loads s.children loaded → ∀ compiled, compileConfiguration loaded = .ok compiled →
    ∃ fields, (store loaded.row.place).getLast? = some fields
      ∧ fields.Rearranged Eq List.Perm compiled.toConfigurationFields

/-- **The tables show the store they stand for.** -/
theorem shows_store {log : List (Request × Outcome)} (h : History s log) : s.Shows s.store where
  versions := by
    intro row hrow
    rw [store_of_mem h.consistent hrow, length_snapshots (h.configs row hrow)]
  latest := by
    intro loaded hrow hflag hflagId henvironment henvironmentId hloads compiled hcompiled
    obtain ⟨version, hv, hid, hcurrent, -, hrearranged⟩ := exists_version_of_loads h hrow
      ⟨hflag, hflagId⟩ ⟨henvironment, henvironmentId⟩ hloads hcompiled
    refine ⟨version.snapshot, ?_, hrearranged⟩
    have hpositive : 1 ≤ version.version := (List.mem_range'_1.mp
      ((h.configs _ hrow).versions.mem_iff.mp (List.mem_map_of_mem
        (List.mem_filter.mpr ⟨hv, decide_eq_true hid⟩)))).1
    obtain ⟨n, hn⟩ := Nat.exists_eq_add_of_le' hpositive
    have hfound := snapshot?_of_mem h.consistent hv
    rw [hid, hn] at hfound
    rw [store_of_mem h.consistent hrow, ← hcurrent, hn, snapshots_succ, hfound]
    exact List.getLast?_concat

end States

/-! ## The puts of a commit -/

/-- The put of an update. -/
def Update.put (u : Update) : Put (UUID × UUID) ConfigurationFields :=
  ⟨(u.flag.id, u.environment.id), u.payload.expectedVersion, u.compiled.toConfigurationFields⟩

/-- The put of a creation: nothing is there before it. -/
def Creation.put (k : Creation) : Put (UUID × UUID) ConfigurationFields :=
  ⟨(k.flagId, k.environment.id), 0, k.compiled.toConfigurationFields⟩

/-- **The puts of a commit.** -/
def Effect.puts : Effect → List (Put (UUID × UUID) ConfigurationFields)
  | .rounds rs => (updatesOf rs).map Update.put
  | .creation k => [k.put]
  | .archiving _ => []
  | .plain _ => []

section Commits

variable {s : Database} {locks : List Row} {log : List (Request × Outcome)}

/-- What changes no configuration and stores no version changes nothing under any place. -/
theorem store_of_untouched {writes : List Write} (hconfig : writes.filterMap Write.config? = [])
    (hversion : writes.filterMap Write.version? = []) :
    (service.view writes s).store = s.store := by
  unfold Database.store Database.snapshots Database.snapshot?
  rw [view_configs, hconfig, view_versions, hversion, List.append_nil]
  rfl

/-- The updates of a commit are at different places. -/
theorem nodup_places {rounds : List Round} (hfits : RoundsFit s locks rounds) :
    (((updatesOf rounds).map Update.put).map Put.key).Nodup := by
  rw [List.map_map]
  refine List.Nodup.map_on (fun u hu v hv heq => ?_) (List.Nodup.of_map _ hfits.separate)
  exact List.inj_on_of_nodup_map hfits.separate hu hv (congrArg Prod.snd heq)

/-- **A commit of updates puts their versions.** -/
theorem puts_rounds {rounds : List Round} (h : History s log) (hfits : RoundsFit s locks rounds)
    (hok : (service.view (roundWrites rounds) s).Consistent) :
    s.store.puts ((updatesOf rounds).map Update.put)
      = some (service.view (roundWrites rounds) s).store := by
  have hnd := hfits.nodup h.consistent
  have hgrows := (grows_view (roundWrites rounds) s).versions
  have hupdated : ∀ row ∈ s.configs, updatedRow (updatesOf rounds) row
      ∈ (service.view (roundWrites rounds) s).configs := by
    intro row hrow
    rw [configs_rounds]
    exact List.mem_map_of_mem hrow
  refine VersionedStore.puts_of_nodup (nodup_places hfits) (fun p hp => ?_)
    (fun place hplace => ?_)
  · obtain ⟨u, hu, rfl⟩ := List.mem_map.mp hp
    -- the row of an update still has the version the update was compared with
    obtain ⟨row, hrow, hid, hcurrent⟩ := hfits.current u hu
    obtain ⟨hflag, henvironment, -⟩ := (hfits.known u hu).row_eq h.consistent hrow hid
    have hplace : u.put.key = row.place := Prod.ext hflag.symm henvironment.symm
    have hstored : u.versionRow ∈ (service.view (roundWrites rounds) s).versions := by
      rw [versions_rounds]
      exact List.mem_append_right _ (List.mem_map_of_mem hu)
    rw [hplace]
    refine ⟨?_, store_of_version h.consistent hok hgrows hrow (h.configs row hrow)
      (hupdated row hrow) (identity_updatedRow _ row) hstored hid.symm ?_ ?_⟩
    · rw [store_of_mem h.consistent hrow, length_snapshots (h.configs row hrow)]
      exact hcurrent
    · rw [hcurrent]
      rfl
    · rw [updatedRow_of_mem hnd hu hid, hcurrent]
      rfl
  · by_cases hmem : place ∈ s.configs.map FlagConfigRow.place
    · obtain ⟨row, hrow, rfl⟩ := List.mem_map.mp hmem
      -- a configuration at another place is not updated
      have hother : row.id ∉ (updatesOf rounds).map Update.configId := by
        intro hin
        obtain ⟨u, hu, hid⟩ := List.mem_map.mp hin
        obtain ⟨hflag, henvironment, -⟩ := (hfits.known u hu).row_eq h.consistent hrow hid.symm
        exact hplace (List.mem_map.mpr ⟨u.put, List.mem_map_of_mem hu,
          Prod.ext hflag.symm henvironment.symm⟩)
      refine store_eq_of_version h.consistent hok hgrows hrow (h.configs row hrow)
        (hupdated row hrow) (identity_updatedRow _ row) ?_
      rw [updatedRow_of_not_mem hother]
    · rw [store_of_not_mem hmem, store_of_not_mem]
      rw [configs_rounds, List.map_map]
      intro hin
      obtain ⟨row, hrow, heq⟩ := List.mem_map.mp hin
      refine hmem (List.mem_map.mpr ⟨row, hrow, Eq.trans ?_ heq⟩)
      exact (congrArg (fun i : FlagConfigRow.Identity => (i.flagId, i.environmentId))
        (identity_updatedRow (updatesOf rounds) row)).symm

/-- **A creation puts a first version.** -/
theorem puts_creation {k : Creation} (h : History s log)
    (hok : (service.view k.writes s).Consistent) :
    s.store.puts [k.put] = some (service.view k.writes s).store := by
  have hfresh := fresh_of_ok hok
  have hconfigs : (service.view k.writes s).configs = s.configs ++ [k.configRow] := rfl
  have hversions : (service.view k.writes s).versions = s.versions ++ [k.versionRow] := rfl
  have hnew : k.configRow ∈ (service.view k.writes s).configs := by
    rw [hconfigs]
    exact List.mem_append_right _ (List.mem_singleton.mpr rfl)
  have hnone : k.configRow.place ∉ s.configs.map FlagConfigRow.place := by
    intro hmem
    obtain ⟨row, hrow, heq⟩ := List.mem_map.mp hmem
    have hflag : row.flagId = k.flagId := congrArg Prod.fst heq
    exact hfresh.flagId (hflag ▸ h.consistent.references.configFlags row hrow)
  refine VersionedStore.puts_of_nodup (List.nodup_singleton _) (fun p hp => ?_)
    (fun place hplace => ?_)
  · rw [List.mem_singleton.mp hp]
    show (s.store k.configRow.place).length = 0
      ∧ (service.view k.writes s).store k.configRow.place
        = s.store k.configRow.place ++ [k.compiled.toConfigurationFields]
    rw [store_of_not_mem hnone, store_of_mem hok hnew]
    refine ⟨rfl, ?_⟩
    have hstored : k.versionRow ∈ (service.view k.writes s).versions :=
      hversions ▸ List.mem_append_right _ (List.mem_singleton.mpr rfl)
    have hfound : (service.view k.writes s).snapshot? k.configRow.id (0 + 1)
        = some k.compiled.toConfigurationFields :=
      snapshot?_of_mem hok hstored
    show (service.view k.writes s).snapshots k.configRow.id (0 + 1) = _
    rw [snapshots_succ, hfound]
    rfl
  · by_cases hmem : place ∈ s.configs.map FlagConfigRow.place
    · obtain ⟨row, hrow, rfl⟩ := List.mem_map.mp hmem
      exact store_eq_of_version h.consistent hok (hversions ▸ List.prefix_append _ _) hrow
        (h.configs row hrow) (hconfigs ▸ List.mem_append_left _ hrow) rfl rfl
    · rw [store_of_not_mem hmem, store_of_not_mem]
      rw [hconfigs, List.map_append, List.mem_append, not_or]
      exact ⟨hmem, hplace⟩

/-- **Every commit is a batch of puts.** -/
theorem puts_commit {effect : Effect} (h : History s log) (hfits : effect.Fits s locks)
    (hok : (service.view effect.writes s).Consistent) :
    s.store.puts effect.puts = some (service.view effect.writes s).store := by
  cases effect with
  | rounds rs => exact puts_rounds h hfits hok
  | creation k => exact puts_creation h hok
  | archiving a =>
    exact congrArg some (store_of_untouched (filterMap_archiving a (fun _ => rfl) (fun _ _ => rfl)
      rfl) (filterMap_archiving a (fun _ => rfl) (fun _ _ => rfl) rfl)).symm
  | plain ws =>
    exact congrArg some (store_of_untouched (filterMap_plain hfits config?_of_isPlain)
      (filterMap_plain hfits version?_of_isPlain)).symm

end Commits

/-! ## Runs -/

/-- **A response reports a put**: where it was put, as which version, and the value. -/
structure FlagResponse.Reports (r : FlagResponse) (p : Put (UUID × UUID) ConfigurationFields) :
    Prop where
  /-- The flag, -/
  id : r.id = p.key.1
  /-- the environment, -/
  environmentId : r.environmentId = p.key.2.str
  /-- the version that was made, -/
  version : r.currentVersion = p.expected + 1
  /-- and the value. -/
  content : r.HasContent p.value

/-- **The answer to a request tells of its puts**, and one of them is after the version that
the request names. -/
structure TellsOfPuts (entry : Request × Outcome)
    (batch : List (Put (UUID × UUID) ConfigurationFields)) : Prop where
  /-- Each response reports a put, in their order. -/
  reported : List.Forall₂ FlagResponse.Reports entry.2.responses batch
  /-- The version the request names is the one its put follows. -/
  expected : ∀ target, entry.1.expects = some target →
    ∃ p ∈ batch, p.key = (target.1, target.2.1) ∧ p.expected = target.2.2

/-- What a commit responds with reports its puts. -/
theorem reports_puts {effect : Effect} {outcome : Outcome} (hreturns : effect.Returns outcome) :
    List.Forall₂ FlagResponse.Reports outcome.responses effect.puts := by
  cases effect with
  | rounds rs =>
    refine List.forall₂_map_right_iff.mpr (List.Forall₂.flip (hreturns.1.imp (fun u r h => ?_)))
    exact ⟨h.id, h.environmentId, h.version, h.content⟩
  | creation k =>
    obtain ⟨r, n, rfl, hid, henvironment, hversion, -, -, -, -, -, -, hcontent⟩ := hreturns
    exact .cons ⟨hid, henvironment, hversion, hcontent⟩ .nil
  | archiving a =>
    rw [hreturns.1]
    exact .nil
  | plain ws =>
    rw [hreturns.1]
    exact .nil

/-- Who is answered with a version has put it. -/
theorem tellsOfPuts_of_answered {entry : Request × Outcome} (h : entry.1.Answered entry.2)
    {batch : List (Put (UUID × UUID) ConfigurationFields)}
    (hreported : List.Forall₂ FlagResponse.Reports entry.2.responses batch) :
    TellsOfPuts entry batch where
  reported := hreported
  expected := by
    intro target htarget
    obtain ⟨r, hr, heq⟩ := List.mem_map.mp (h target htarget)
    obtain ⟨p, hp, hreports⟩ := (PermBy.of_forall₂ hreported).exists_right hr
    have hflag : r.id = target.1 := congrArg Prod.fst heq
    have henvironment : r.environmentId = target.2.1.str :=
      congrArg (fun r : UUID × String × ℕ => r.2.1) heq
    have hversion : r.currentVersion = target.2.2 + 1 :=
      congrArg (fun r : UUID × String × ℕ => r.2.2) heq
    refine ⟨p, hp, Prod.ext (hreports.id.symm.trans hflag) (UUID.str_injective
      (hreports.environmentId.symm.trans henvironment)), ?_⟩
    exact Nat.succ.inj (hreports.version.symm.trans hversion)

/-- A run is a sequence of batches, one for each commit. -/
theorem puts_of_good {actions : List (Action Choice Request)} {w w' : ServiceWorld}
    (hgood : w.Good discipline History (fun _ => Commits))
    (hrun : service.run w actions = some w') : ∃ entries batches, w'.log = w.log ++ entries
      ∧ List.Forall₂ (fun entry batch =>
        List.Forall₂ FlagResponse.Reports entry.2.responses batch) entries batches
      ∧ w.committed.store.puts batches.flatten = some w'.committed.store := by
  induction actions generalizing w with
  | nil =>
    cases hrun
    exact ⟨[], [], (List.append_nil _).symm, .nil, rfl⟩
  | cons action rest ih =>
    obtain ⟨w₁, hstep, hrest⟩ := Option.bind_eq_some_iff.mp hrun
    have hgood₁ := (service_respects.step hgood (fun _ _ _ _ => trivial) hstep).1
    obtain ⟨entries, batches, hlog, hreported, hputs⟩ := ih hgood₁ hrest
    rcases logged_step hgood hstep with ⟨hcommitted, hsame⟩ | ⟨id, tx, effect, locks, outcome, -,
      -, -, hfits, hreturns, hlogged, hcommitted⟩
    · rw [hsame] at hlog
      rw [hcommitted] at hputs
      exact ⟨entries, batches, hlog, hreported, hputs⟩
    · have hok := hgood₁.invariant.consistent
      rw [hcommitted] at hok hputs
      refine ⟨(tx.request, outcome) :: entries, effect.puts :: batches, ?_,
        .cons (reports_puts hreturns) hreported, ?_⟩
      · rw [hlog, hlogged, List.append_assoc]
        rfl
      · rw [List.flatten_cons, VersionedStore.puts_append,
          puts_commit hgood.invariant hfits hok]
        exact hputs

/-- **The service is a versioned store.** Whatever the transactions do in between, from one
state to a later one its commits are batches of puts, one for each answer and in the order of
the log, and the answers tell of the puts: who names a version that another commit has
followed is not answered. A value that was put stays under its version, and the rows of a
configuration are those of the value that was put last. -/
theorem refines_store {actions actions' : List (Action Choice Request)} {w w' : ServiceWorld}
    (hrun : service.run initial actions = some w) (hrun' : service.run w actions' = some w') :
    ∃ entries batches, w'.log = w.log ++ entries ∧ List.Forall₂ TellsOfPuts entries batches
      ∧ w.committed.store.puts batches.flatten = some w'.committed.store
      ∧ (∀ p ∈ batches.flatten, (w'.committed.store p.key)[p.expected]? = some p.value)
      ∧ w'.committed.Shows w'.committed.store := by
  have hgood := good_of_run hrun
  obtain ⟨hgood', -⟩ := service_respects.run_good hgood
    (service.commitsMeet_of_forall (fun _ _ _ => trivial) w actions') hrun'
  obtain ⟨entries, batches, hlog, hreported, hputs⟩ := puts_of_good hgood hrun'
  have hwhole : service.run initial (actions ++ actions') = some w' := by
    rw [System.run_append, hrun]
    exact hrun'
  have hanswered : ∀ entry ∈ w'.log, entry.1.Answered entry.2 :=
    System.run_yields Request.yields_answered (fun _ h => absurd h List.not_mem_nil)
      (fun _ h => absurd h List.not_mem_nil) hwhole
  have htells : ∀ entry ∈ entries, entry.1.Answered entry.2 :=
    fun entry hentry => hanswered entry (hlog ▸ List.mem_append_right _ hentry)
  refine ⟨entries, batches, hlog, ?_, hputs, fun p hp => VersionedStore.getElem?_of_puts hputs hp,
    shows_store hgood'.invariant⟩
  exact ((List.forall₂_and_left _ _).mpr ⟨htells, hreported⟩).imp (fun _ _ h =>
    tellsOfPuts_of_answered h.1 h.2)

/-- A flag is created and then updated. -/
theorem refines_store_sample : ∃ w w', service.run initial sampleFlag = some w
    ∧ service.run w sampleReplacement = some w'
    ∧ w.committed.configs.map (fun row => (w.committed.store row.place).length) = [1]
    ∧ w'.committed.configs.map (fun row => (w'.committed.store row.place).length) = [2]
    ∧ ∃ entries batches, w'.log = w.log ++ entries ∧ List.Forall₂ TellsOfPuts entries batches
      ∧ w.committed.store.puts batches.flatten = some w'.committed.store
      ∧ (∀ p ∈ batches.flatten, (w'.committed.store p.key)[p.expected]? = some p.value)
      ∧ w'.committed.Shows w'.committed.store := by
  have hfacts : (service.run initial sampleFlag).bind (fun w =>
      (service.run w sampleReplacement).map (fun w' => [w, w'].map (fun u =>
        u.committed.configs.map (fun row => (u.committed.store row.place).length))))
      = some [[1], [2]] := by
    decide +kernel
  obtain ⟨w, hrun, hfacts⟩ := Option.bind_eq_some_iff.mp hfacts
  obtain ⟨w', hrun', hfacts⟩ := Option.map_eq_some_iff.mp hfacts
  simp only [List.map_cons, List.map_nil, List.cons.injEq, and_true] at hfacts
  exact ⟨w, w', hrun, hrun', hfacts.1, hfacts.2, refines_store hrun hrun'⟩

/-! ## Reading the history -/

section Histories

variable {s s' : Database}

/-- The row of a configuration in a later state. -/
theorem place_of_id (hs' : s'.Consistent) {locks : List Row} (hevolves : s.Evolves locks s')
    {row row' : FlagConfigRow} (hrow : row ∈ s.configs) (hrow' : row' ∈ s'.configs)
    (hid : row'.id = row.id) : row'.place = row.place := by
  have hidentity := identity_of_id hs' (hevolves.grows.configs.subset (List.mem_map_of_mem hrow))
    (List.mem_map_of_mem hrow') hid.symm
  exact congrArg (fun i : FlagConfigRow.Identity => (i.flagId, i.environmentId)) hidentity.symm

/-- **The values under a place only grow.** -/
theorem store_prefix {log log' : List (Request × Outcome)} (h : History s log)
    (h' : History s' log') (hevolves : s.Evolves [] s') (place : UUID × UUID) :
    s.store place <+: s'.store place := by
  by_cases hmem : place ∈ s.configs.map FlagConfigRow.place
  · obtain ⟨row, hrow, rfl⟩ := List.mem_map.mp hmem
    obtain ⟨row', hrow', hid, hle, -, -⟩ := hevolves.configs row hrow
    have hplace := place_of_id h'.consistent hevolves hrow hrow' hid
    rw [store_of_mem h.consistent hrow, ← hplace, store_of_mem h'.consistent hrow', hid,
      ← snapshots_of_prefix (h.configs row hrow) hevolves.grows.versions]
    obtain ⟨n, hn⟩ := Nat.exists_eq_add_of_le hle
    unfold Database.snapshots
    rw [hn, List.range'_append_1.symm, List.filterMap_append]
    exact List.prefix_append _ _
  · rw [store_of_not_mem hmem]
    exact List.nil_prefix

/-- The versions of a configuration, listed with the latest first. -/
theorem snapshots_of_listing {log : List (Request × Outcome)} (h : History s log)
    {row : FlagConfigRow} (hrow : row ∈ s.configs) {versions : List FlagVersionRow}
    (hversions : versions.Perm (s.versions.filter (fun version => version.configId = row.id))) :
    let rows := sortedBy (fun version => OrderDual.toDual version.version) versions
    rows.reverse.map FlagVersionRow.version = List.range' 1 row.currentVersion
      ∧ rows.reverse.map FlagVersionRow.snapshot = s.store row.place := by
  intro rows
  have hperm : rows.reverse.Perm (s.versions.filter (fun version => version.configId = row.id)) :=
    (List.reverse_perm _).trans ((sortedBy_perm _ _).trans hversions)
  have hascending : (rows.reverse.map FlagVersionRow.version).Pairwise (· ≤ ·) := by
    rw [List.pairwise_map, List.pairwise_reverse]
    exact sortedBy_pairwise (fun version : FlagVersionRow => OrderDual.toDual version.version)
      versions
  have hnumbers : rows.reverse.map FlagVersionRow.version = List.range' 1 row.currentVersion :=
    ((hperm.map _).trans (h.configs row hrow).versions).eq_of_pairwise
      (fun _ _ _ _ => le_antisymm) hascending (List.pairwise_le_range' ..)
  refine ⟨hnumbers, ?_⟩
  rw [store_of_mem h.consistent hrow]
  unfold Database.snapshots
  rw [← hnumbers, List.filterMap_map]
  have hfound : ∀ version ∈ rows.reverse,
      (s.snapshot? row.id ∘ FlagVersionRow.version) version = some version.snapshot := by
    intro version hversion
    obtain ⟨hv, hid⟩ := List.mem_filter.mp (hperm.mem_iff.mp hversion)
    have hsnapshot := snapshot?_of_mem h.consistent hv
    rw [of_decide_eq_true hid] at hsnapshot
    exact hsnapshot
  rw [List.filterMap_congr hfound]
  exact (congrFun List.filterMap_eq_map _).symm

/-- **What a listing of versions reads**: a configuration, and later its versions. -/
theorem observe_flagVersions {principal : Principal} {flagId environmentId : UUID}
    {views : List (View Database Row Choice)} {rows : List FlagVersionRow}
    (h : (flagVersions principal flagId environmentId).observe views = some (.ok rows)) :
    ∃ first between last row versions, views = first :: between ++ [last]
      ∧ row ∈ first.state.configs ∧ row.place = (flagId, environmentId)
      ∧ versions.Perm (last.state.versions.filter (fun version => version.configId = row.id))
      ∧ rows = sortedBy (fun version => OrderDual.toDual version.version) versions := by
  unfold flagVersions at h
  obtain ⟨loading, after, config, rfl, hload, hrest⟩ := observe_bind h
  obtain ⟨authorizing, final, _, rfl, -, hlist⟩ := observe_bind hrest
  obtain ⟨last, versions, rfl, hversions, rfl⟩ := observe_selectAll hlist
  unfold getConfigByFlagEnvironment at hload
  obtain ⟨first, rest, rfl, hloaded⟩ := observe_read_bind hload
  beta_reduce at hloaded
  cases hfound : first.state.configOfFlag flagId environmentId with
  | none =>
    rw [hfound] at hloaded
    cases rest <;> cases hloaded
  | some found =>
    rw [hfound] at hloaded
    obtain ⟨row, flag, environment⟩ := found
    obtain ⟨loaded, rest', hrow, -, -, hreturn, -⟩ := observe_loadCollections hloaded
    have hsame : loaded = config := by
      split at hreturn
      · cases rest' <;> cases hreturn
      · cases rest' <;> cases hreturn
        rfl
    obtain ⟨⟨hmem, hflag, henvironment⟩, -, -⟩ := configOfFlag_eq_some hfound
    rw [← hsame, hrow] at hversions
    exact ⟨first, rest ++ authorizing, last, row, versions, by simp, hmem,
      Prod.ext hflag henvironment, hversions, rfl⟩

end Histories

/-- **A listing of versions is a read of the store.** While others write, what `flag_versions`
returns is all that was put under the flag and the environment up to one moment, the latest
version first and none left out, and everything that was put before the listing began is in
it. -/
theorem listing_of_store {actions : List (Action Choice Request)} {w : ServiceWorld}
    (hrun : service.run initial actions = some w) {views : List (View Database Row Choice)}
    (hmoments : service.Moments w (views.map View.state)) {principal : Principal}
    {flagId environmentId : UUID} {rows : List FlagVersionRow}
    (hread : (flagVersions principal flagId environmentId).observe views = some (.ok rows)) :
    (∃ v ∈ views, rows.reverse.map FlagVersionRow.snapshot
        = v.state.store (flagId, environmentId))
      ∧ rows.reverse.map FlagVersionRow.version = List.range' 1 rows.length
      ∧ w.committed.store (flagId, environmentId)
        <+: rows.reverse.map FlagVersionRow.snapshot := by
  have hgood := good_of_run hrun
  obtain ⟨hhistory, hlater, hpairs⟩ :=
    service_respects.moments (fun _ _ _ => trivial) hgood hmoments
  obtain ⟨first, between, last, row, versions, rfl, hrow, hplace, hversions, rfl⟩ :=
    observe_flagVersions hread
  have hlast : last ∈ first :: between ++ [last] :=
    List.mem_append_right _ (List.mem_singleton.mpr rfl)
  obtain ⟨log, hfinal⟩ := hhistory last.state (List.mem_map_of_mem hlast)
  -- the configuration is still there when its versions are selected
  rw [List.map_append, List.map_cons, List.cons_append, List.pairwise_cons] at hpairs
  have hevolves : first.state.Evolves [] last.state :=
    hpairs.1 _ (List.mem_append_right _ (List.mem_singleton.mpr rfl))
  obtain ⟨row', hrow', hid, -, -, -⟩ := hevolves.configs row hrow
  have hplace' : row'.place = (flagId, environmentId) :=
    (place_of_id hfinal.consistent hevolves hrow hrow' hid).trans hplace
  rw [← hid] at hversions
  obtain ⟨hnumbers, hsnapshots⟩ := snapshots_of_listing hfinal hrow' hversions
  have hlength := congrArg List.length hnumbers
  rw [List.length_map, List.length_reverse, List.length_range'] at hlength
  rw [hplace'] at hsnapshots
  refine ⟨⟨last, hlast, hsnapshots⟩, hlength ▸ hnumbers, ?_⟩
  rw [hsnapshots]
  exact store_prefix hgood.invariant hfinal (hlater _ (List.mem_map_of_mem hlast)) _

/-- The listing of the versions of the sample flag. -/
def sampleListing (views : List (View Database Row Choice)) : Option (List FlagVersionRow) :=
  match (flagVersions sampleUser ⟨40⟩ ⟨30⟩).observe views with
  | some (.ok rows) => some rows
  | _ => none

theorem observe_of_sampleListing {views : List (View Database Row Choice)}
    {rows : List FlagVersionRow} (h : sampleListing views = some rows) :
    (flagVersions sampleUser ⟨40⟩ ⟨30⟩).observe views = some (.ok rows) := by
  unfold sampleListing at h
  split at h
  · rename_i hread
    cases h
    exact hread
  · cases h

/-- The flag is updated just before its versions are selected. -/
theorem listing_of_store_sample : ∃ w w' views rows, service.run initial sampleFlag = some w
    ∧ service.run w sampleReplacement = some w'
    ∧ views = List.replicate 10 (sampleView w) ++ [sampleView w']
    ∧ (flagVersions sampleUser ⟨40⟩ ⟨30⟩).observe views = some (.ok rows)
    ∧ rows.map FlagVersionRow.version = [2, 1]
    ∧ (∃ v ∈ views, rows.reverse.map FlagVersionRow.snapshot = v.state.store (⟨40⟩, ⟨30⟩))
    ∧ rows.reverse.map FlagVersionRow.version = List.range' 1 rows.length
    ∧ w.committed.store (⟨40⟩, ⟨30⟩) <+: rows.reverse.map FlagVersionRow.snapshot := by
  have hfacts : (service.run initial sampleFlag).any (fun w =>
      (service.run w sampleReplacement).any (fun w' =>
        (sampleListing (List.replicate 10 (sampleView w) ++ [sampleView w'])).any (fun rows =>
          decide (rows.map FlagVersionRow.version = [2, 1])))) = true := by
    decide +kernel
  obtain ⟨w, hrun, hfacts⟩ := (Option.any_eq_true _ _).mp hfacts
  obtain ⟨w', hrun', hfacts⟩ := (Option.any_eq_true _ _).mp hfacts
  obtain ⟨rows, hrows, hversions⟩ := (Option.any_eq_true _ _).mp hfacts
  have hread := observe_of_sampleListing hrows
  have hmoments : service.Moments w
      ((List.replicate 10 (sampleView w) ++ [sampleView w']).map View.state) := by
    rw [List.map_append, List.map_replicate]
    exact moments_replicate w 10 (.cons hrun' (.nil w'))
  exact ⟨w, w', _, rows, hrun, hrun', rfl, hread, of_decide_eq_true hversions,
    listing_of_store hrun hmoments hread⟩

end CohortSwitch
