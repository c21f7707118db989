import CohortSwitch.Listings
import CohortSwitch.Runs

/-!
# The export of an environment

`export_configuration` reads the row of the environment and tags what it
returns with the revision; a client that sends the tag again is told that
nothing is new if the revision is still the same. The configurations are read
by later statements, so a bundle may hold more than its tag tells of.

`etag_sound`: while no commit assigns a stale revision of the environment, a
tag that still matches means that no commit touched the rows of the
environment since it was read, and then the bundle is what an export gives now.
After two creations that run side by side the revision of the first one is the
revision of both, and its tag matches although a flag is missing
(`etag_matches_late`).

## From a tag to a bundle

The tag was read by the first statement of the first request, the bundle by its later
ones, and the tag is compared by the first statement of the second request. These are
moments of one run (`System.Passes`). Equal revisions at the first and the last of them
mean that nothing touched the rows of the environment in between (`RevisionTells`), so
every SELECT of the listing found the rows that are there now.

## What an export should hold

`Database.IsExport` is the specification: one configuration for each flag of the
environment that is not archived, each a stored current version up to the order of rows.
It does not mention how an export is computed. `isExport_of_observe` shows that the
listing meets it when all its statements find the same rows; that a flag has
configurations only in environments of its own project is an invariant of every run
(`sharesProjects_of_run`), without which the listing would pass over some.
-/

namespace CohortSwitch

/-! ## The endpoint -/

/-- `ConfigBundle`. -/
structure ConfigBundle where
  projectId : UUID
  environmentId : UUID
  revision : ℕ
  flags : List ConfigurationFields

/-- What `export_configuration` answers, each with its `ETag`. -/
inductive ExportResponse where
  | notModified (etag : String)
  | bundle (etag : String) (bundle : ConfigBundle)

/-- The tag of a revision. -/
def exportEtag (revision : ℕ) : String := "\"" ++ Nat.repr revision ++ "\""

/-- Different revisions have different tags. -/
theorem exportEtag_inj {n m : ℕ} (h : exportEtag n = exportEtag m) : n = m := by
  have hlist := congrArg String.toList h
  unfold exportEtag at hlist
  simp only [String.toList_append, List.append_assoc, Nat.toList_repr] at hlist
  have hdigits := List.append_cancel_right (List.append_cancel_left hlist)
  have hnumber := congrArg (fun digits => Nat.ofDigitChars 10 digits 0) hdigits
  simpa only [Nat.ofDigitChars_toDigits (b := 10) (by decide) (by decide)] using hnumber

/-- The environment an export is allowed to read. -/
def exportEnvironment (principal : Principal) (projectId environmentId : UUID) :
    Tx (Option EnvironmentRow) :=
  if principal.kind = "SDK" then
    if principal.projectId ≠ some projectId ∨ principal.environmentId ≠ some environmentId
        ∨ "flags:read" ∉ principal.scopes then
      .raise (.apiError 403 "insufficient_scope"
        "SDK key is not scoped to this environment." [])
    else select (fun db => db.environments.find? (fun row => row.id = environmentId))
  else do
    let (environment, _, _) ← authorizeEnvironment principal environmentId .flagRead
    pure (some environment)

/-- **`export_configuration`.** -/
def exportConfiguration (principal : Principal) (projectId environmentId : UUID)
    (ifNoneMatch : Option String) : Tx ExportResponse := do
  let environment ← exportEnvironment principal projectId environmentId
  match environment with
  | none => .raise (.apiError 404 "environment_not_found" "Environment was not found." [])
  | some environment =>
    if environment.projectId ≠ projectId then
      .raise (.apiError 404 "environment_not_found" "Environment was not found." [])
    else if ifNoneMatch = some (exportEtag environment.revision) then
      pure (.notModified (exportEtag environment.revision))
    else do
      let configs ← getAllEnvironmentConfigs projectId environmentId
      pure (.bundle (exportEtag environment.revision) {
        projectId, environmentId
        revision := environment.revision
        flags := configs.map FlagConfiguration.toConfigurationFields })

/-! ## What it reads -/

/-- A program that returns took its statements one part after the other. -/
theorem observe_bind {V W R ε α β : Type} {m : Prog V W R ε α} {k : α → Prog V W R ε β}
    {views : List V} {b : β} (h : (m >>= k).observe views = some (.ok b)) :
    ∃ before after a, views = before ++ after ∧ m.observe before = some (.ok a)
      ∧ (k a).observe after = some (.ok b) := by
  induction m generalizing views with
  | ret a => exact ⟨[], views, a, rfl, rfl, h⟩
  | raise e => cases views <;> cases h
  | statement locks writes next ih =>
    cases views with
    | nil => cases h
    | cons v views =>
      obtain ⟨before, after, a, rfl, hm, hk⟩ := ih v h
      exact ⟨v :: before, after, a, rfl, hm, hk⟩

/-- An authorized environment is what the first statement finds. -/
theorem observe_exportEnvironment {principal : Principal} {projectId environmentId : UUID}
    {views : List (View Database Row Choice)} {found : Option EnvironmentRow}
    (h : (exportEnvironment principal projectId environmentId).observe views
      = some (.ok found)) :
    ∃ v rest, views = v :: rest
      ∧ found = v.state.environments.find? (fun row => row.id = environmentId) := by
  unfold exportEnvironment at h
  split at h
  · split at h
    · cases views <;> cases h
    · cases views with
      | nil => cases h
      | cons v rest =>
        cases rest with
        | nil =>
          cases h
          exact ⟨v, [], rfl, rfl⟩
        | cons _ _ => cases h
  · -- whoever is no SDK key is authorized, and the environment is read there
    obtain ⟨before, after, ⟨environment, project, membership⟩, rfl, hread, hrest⟩ := observe_bind h
    cases after with
    | cons _ _ => cases hrest
    | nil =>
      cases hrest
      unfold authorizeEnvironment at hread
      obtain ⟨v, rest, rfl, hrest⟩ := observe_read_bind hread
      refine ⟨v, rest, List.append_nil _, ?_⟩
      beta_reduce at hrest
      cases hfound : v.state.environments.find? (fun row => row.id = environmentId) with
      | none =>
        rw [hfound] at hrest
        cases rest <;> cases hrest
      | some row =>
        rw [hfound] at hrest
        dsimp only at hrest
        split at hrest
        · cases rest <;> cases hrest
        · obtain ⟨_, after, _, -, -, hpure⟩ := observe_bind hrest
          cases after with
          | nil =>
            cases hpure
            rfl
          | cons _ _ => cases hpure

/-- **What an export reads**: first the environment, and the configurations
after it where the tag does not match. -/
theorem observe_exportConfiguration {principal : Principal} {projectId environmentId : UUID}
    {ifNoneMatch : Option String} {views : List (View Database Row Choice)}
    {response : ExportResponse}
    (h : (exportConfiguration principal projectId environmentId ifNoneMatch).observe views
      = some (.ok response)) :
    ∃ v rest environment, views = v :: rest ∧ environment ∈ v.state.environments
      ∧ environment.id = environmentId ∧ environment.projectId = projectId
      ∧ ((ifNoneMatch = some (exportEtag environment.revision)
          ∧ response = .notModified (exportEtag environment.revision))
        ∨ ∃ before after configs, views = before ++ after
          ∧ (getAllEnvironmentConfigs projectId environmentId).observe after = some (.ok configs)
          ∧ response = .bundle (exportEtag environment.revision) ⟨projectId, environmentId,
            environment.revision, configs.map FlagConfiguration.toConfigurationFields⟩) := by
  unfold exportConfiguration at h
  obtain ⟨before, after, found, rfl, hread, hrest⟩ := observe_bind h
  obtain ⟨v, rest, rfl, hfound⟩ := observe_exportEnvironment hread
  cases found with
  | none => cases after <;> cases hrest
  | some environment =>
    obtain ⟨hmem, hid⟩ := mem_and_of_find? hfound.symm
    dsimp only at hrest
    split at hrest
    · cases after <;> cases hrest
    rename_i hproject
    refine ⟨v, rest ++ after, environment, rfl, hmem, hid, not_not.mp hproject, ?_⟩
    split at hrest
    · rename_i hmatch
      cases after with
      | cons _ _ => cases hrest
      | nil =>
        cases hrest
        exact .inl ⟨hmatch, rfl⟩
    · obtain ⟨during, after', configs, rfl, hconfigs, hpure⟩ := observe_bind hrest
      cases after' with
      | cons _ _ => cases hpure
      | nil =>
        cases hpure
        rw [List.append_nil]
        exact .inr ⟨v :: rest, during, configs, rfl, hconfigs, rfl⟩

/-! ## What an export should hold -/

/-- The configurations of an environment whose flags are not archived. -/
def Database.liveConfigs (db : Database) (environmentId : UUID) : List FlagConfigRow :=
  db.configs.filter (fun row => row.environmentId = environmentId
    ∧ ∃ flag ∈ db.flags, flag.id = row.flagId ∧ flag.archivedAt = none)

/-- A snapshot is the current version of a configuration, up to the order of
rows. -/
def Database.StoresCurrent (db : Database) (row : FlagConfigRow) (c : ConfigurationFields) :
    Prop :=
  ∃ version ∈ db.versions, version.configId = row.id ∧ version.version = row.currentVersion
    ∧ version.snapshot.Rearranged Eq List.Perm c

/-- **The flags are the current configurations of an environment**: one for each
of them whose flag is not archived, each in its current version. -/
def Database.IsExport (db : Database) (environmentId : UUID) (flags : List ConfigurationFields) :
    Prop :=
  PermBy (fun c row => db.StoresCurrent row c) flags (db.liveConfigs environmentId)

/-- A flag has configurations in environments of its own project only. -/
def Database.SharesProjects (db : Database) : Prop :=
  ∀ row ∈ db.configs, ∀ flag ∈ db.flags, flag.id = row.flagId →
    ∀ environment ∈ db.environments, environment.id = row.environmentId →
      flag.projectId = environment.projectId

section Rows

variable {s s' : Database} {environmentId : UUID}

/-- **A commit keeps the projects of flags and environments together.** -/
theorem sharesProjects_commit {effect : Effect} {locks : List Row} (hs : s.Consistent)
    (hfits : effect.Fits s locks) (hok : (service.view effect.writes s).Consistent)
    (h : s.SharesProjects) : (service.view effect.writes s).SharesProjects := by
  have hgrows := grows_view effect.writes s
  intro row hrow flag hflag hfid environment he heid
  have hidentity := List.mem_map_of_mem (f := FlagConfigRow.identity) hrow
  rw [Effect.identities hfits] at hidentity
  rcases List.mem_append.mp hidentity with hold | hnew
  · obtain ⟨row₀, hrow₀, heq⟩ := List.mem_map.mp hold
    have hflagId : row₀.flagId = row.flagId := congrArg FlagConfigRow.Identity.flagId heq
    have henvironmentId : row₀.environmentId = row.environmentId :=
      congrArg FlagConfigRow.Identity.environmentId heq
    obtain ⟨flag₀, hflag₀, hfid₀⟩ := List.mem_map.mp (hs.references.configFlags row₀ hrow₀)
    obtain ⟨environment₀, he₀, heid₀⟩ :=
      List.mem_map.mp (hs.references.configEnvironments row₀ hrow₀)
    have hsameFlag := flag_identity hok hgrows hflag (List.mem_map_of_mem hflag₀)
      (hfid.trans (hflagId.symm.trans hfid₀.symm))
    have hsameEnvironment := environment_identity hok hgrows he (List.mem_map_of_mem he₀)
      (heid.trans (henvironmentId.symm.trans heid₀.symm))
    have hproject := h row₀ hrow₀ flag₀ hflag₀ hfid₀ environment₀ he₀ heid₀
    calc flag.projectId = flag₀.projectId :=
          congrArg FeatureFlagRow.Identity.projectId hsameFlag
      _ = environment₀.projectId := hproject
      _ = environment.projectId :=
          (congrArg EnvironmentRow.Identity.projectId hsameEnvironment).symm
  · cases effect with
    | creation k =>
      -- the new flag is of the project whose environment was asked for
      have heq : row.identity = k.configRow.identity := List.mem_singleton.mp hnew
      have hknown : k.Known s := hfits
      have hflagId : flag.id = k.flagId := hfid.trans (congrArg FlagConfigRow.Identity.flagId heq)
      have henvironmentId : environment.id = k.environment.id :=
        heid.trans (congrArg FlagConfigRow.Identity.environmentId heq)
      have hmem : k.flag ∈ (service.view k.writes s).flags :=
        List.mem_append_right _ (List.mem_singleton.mpr rfl)
      have hsame : flag = k.flag := List.inj_on_of_nodup_map hok.keys.flagIds hflag hmem hflagId
      have hsameEnvironment :=
        environment_identity hok hgrows he hknown.environmentKnown henvironmentId
      calc flag.projectId = k.project.id := congrArg FeatureFlagRow.projectId hsame
        _ = k.environment.projectId := hknown.sameProject.symm
        _ = environment.projectId :=
            (congrArg EnvironmentRow.Identity.projectId hsameEnvironment).symm
    | _ => exact absurd hnew List.not_mem_nil

/-- **Flags and their environments share projects** in every run. -/
theorem sharesProjects_of_run {actions : List (Action Choice Request)} {w : ServiceWorld}
    (hrun : service.run initial actions = some w) : w.committed.SharesProjects :=
  committed_of_good (fun _ _ _ hs hfits hok h => sharesProjects_commit hs hfits hok h)
    (World.good_init history_initial) (fun _ hrow => absurd hrow List.not_mem_nil) hrun

/-- What is listed of some rows, where each of them has a listed item of its own. -/
theorem map_filter_filterMap {α β : Type} {f : α → Option β} {g : β → α} {p : β → Bool}
    {q : α → Bool} {xs : List α} (h : ∀ x ∈ xs, ∃ y, f x = some y ∧ g y = x ∧ p y = q x) :
    ((xs.filterMap f).filter p).map g = xs.filter q := by
  induction xs with
  | nil => rfl
  | cons x xs ih =>
    obtain ⟨y, hy, hg, hp⟩ := h x List.mem_cons_self
    have hrest := ih (fun z hz => h z (List.mem_cons_of_mem x hz))
    rw [List.filterMap_cons_some hy, List.filter_cons, List.filter_cons, ← hp]
    split
    · rw [List.map_cons, hg, hrest]
    · exact hrest

/-- A live configuration is joined with its flag and its environment. -/
theorem exists_joined (hs : s.Consistent) {row : FlagConfigRow} (hrow : row ∈ s.configs) :
    ∃ item, s.joined row = some item ∧ item.1 = row := by
  obtain ⟨flag, hflag, hfid⟩ := List.mem_map.mp (hs.references.configFlags row hrow)
  obtain ⟨environment, he, heid⟩ :=
    List.mem_map.mp (hs.references.configEnvironments row hrow)
  exact ⟨(row, flag, environment), joined_eq_some.mpr ⟨rfl,
    find?_eq_some_of_mem hs.keys.flagIds hflag hfid,
    find?_eq_some_of_mem hs.keys.environmentIds he heid⟩, rfl⟩

/-- A state has its own rows. -/
theorem SameRows.refl (hs : s.Consistent) (environmentId : UUID) : SameRows s s environmentId where
  configs := rfl
  rows := by
    intro row hrow _
    obtain ⟨item, hitem, -⟩ := exists_joined hs hrow
    exact ⟨item, item, hitem, hitem, .refl s item⟩

/-- A row of the environment is one of both states. -/
theorem SameRows.mem_iff (h : SameRows s s' environmentId) {row : FlagConfigRow}
    (he : row.environmentId = environmentId) : row ∈ s'.configs ↔ row ∈ s.configs := by
  have hfilter := congrArg (fun rows => row ∈ rows) h.configs
  simpa [he] using hfilter

/-- **The main SELECT finds the live configurations** of a state that has the
same rows. -/
theorem configsOfEnvironment_eq (hs : s.Consistent) (hs' : s'.Consistent)
    (h : SameRows s s' environmentId) (hshares : s'.SharesProjects)
    {environment : EnvironmentRow} (he : environment ∈ s'.environments)
    (hid : environment.id = environmentId) :
    (s.configsOfEnvironment environment.projectId environmentId).map Prod.fst
      = s'.liveConfigs environmentId := by
  -- both states have the same rows, so they differ in the flags alone
  have hlive : s'.liveConfigs environmentId = s.configs.filter (fun row =>
      row.environmentId = environmentId
        ∧ ∃ flag ∈ s'.flags, flag.id = row.flagId ∧ flag.archivedAt = none) := by
    unfold Database.liveConfigs
    rw [List.filter_congr (fun row _ => Bool.decide_and _ _),
      List.filter_congr (fun row _ => Bool.decide_and _ _)]
    have hsplit : ∀ rows : List FlagConfigRow, rows.filter (fun row =>
        decide (row.environmentId = environmentId)
          && decide (∃ flag ∈ s'.flags, flag.id = row.flagId ∧ flag.archivedAt = none))
        = (rows.filter (fun row => row.environmentId = environmentId)).filter (fun row =>
          ∃ flag ∈ s'.flags, flag.id = row.flagId ∧ flag.archivedAt = none) :=
      fun rows => (List.filter_filter.trans (List.filter_congr (fun _ _ => Bool.and_comm _ _))).symm
    rw [hsplit, hsplit, h.configs]
  rw [hlive]
  refine map_filter_filterMap (fun row hrow => ?_)
  obtain ⟨item, hitem, hfst⟩ := exists_joined hs hrow
  refine ⟨item, hitem, hfst, decide_eq_decide.mpr ?_⟩
  rw [hfst]
  constructor
  · rintro ⟨-, ha, heid⟩
    obtain ⟨item₀, item', hitem₀, hitem', hsame⟩ := h.rows row hrow heid
    rw [hitem] at hitem₀
    cases hitem₀
    obtain ⟨row', flag', environment'⟩ := item'
    obtain ⟨rfl, hflag', -⟩ := joined_eq_some.mp hitem'
    obtain ⟨hmem, hfid⟩ := mem_and_of_find? hflag'
    exact ⟨heid, flag', hmem, hfid, hsame.archivedAt.trans ha⟩
  · rintro ⟨heid, flag, hflag, hfid, ha⟩
    obtain ⟨item₀, item', hitem₀, hitem', hsame⟩ := h.rows row hrow heid
    rw [hitem] at hitem₀
    cases hitem₀
    obtain ⟨row', flag', environment'⟩ := item'
    obtain ⟨rfl, hflag', -⟩ := joined_eq_some.mp hitem'
    obtain ⟨hmem, hfid'⟩ := mem_and_of_find? hflag'
    have heq : flag' = flag :=
      List.inj_on_of_nodup_map hs'.keys.flagIds hmem hflag (hfid'.trans hfid.symm)
    have hproject := hshares _ ((h.mem_iff heid).mpr hrow) flag hflag hfid environment he
      (hid.trans heid.symm)
    refine ⟨?_, hsame.archivedAt.symm.trans (heq ▸ ha), heid⟩
    rw [← hproject, ← heq]
    exact (congrArg FeatureFlagRow.Identity.projectId hsame.flag).symm

/-- **What is compiled from the rows of one state** is the version it stores. -/
theorem storesCurrent_of_compile {log : List (Request × Outcome)} (hs : History s log)
    {item : FlagConfigRow × FeatureFlagRow × EnvironmentRow} (hrow : item.1 ∈ s.configs)
    (hjoined : s.joined item.1 = some item) {config : LoadedConfig} (hfor : config.IsFor item)
    (hloads : Loads s.children config) {c : FlagConfiguration}
    (hc : compileConfiguration config = .ok c) :
    s.StoresCurrent item.1 c.toConfigurationFields := by
  obtain ⟨row, flag, environment⟩ := item
  obtain ⟨rfl, rfl, rfl⟩ := hfor
  obtain ⟨-, hflag, henvironment⟩ := joined_eq_some.mp hjoined
  obtain ⟨version, hversion, hid, hnumber, -, hrearranged⟩ := exists_version_of_loads hs hrow
    (mem_and_of_find? hflag) (mem_and_of_find? henvironment) hloads hc
  exact ⟨version, hversion, hid, hnumber, hrearranged⟩

/-- The row of a configuration and its children in two states that have the same
rows. -/
theorem SameRows.children_eq (h : SameRows s s' environmentId) {row : FlagConfigRow}
    (hrow : row ∈ s.configs) (he : row.environmentId = environmentId) :
    s'.children.of row.id = s.children.of row.id := by
  obtain ⟨item, _, hitem, -, hsame⟩ := h.rows row hrow he
  have hchildren := hsame.children
  rw [(joined_eq_some.mp hitem).1] at hchildren
  exact hchildren

/-- **What the SELECTs list is the export of a state** if every one of them finds
the rows of that state. -/
theorem isExport_of_observe {u : Database} {log : List (Request × Outcome)} (hu : History u log)
    (hshares : u.SharesProjects) {environment : EnvironmentRow}
    (he : environment ∈ u.environments) {views : List (View Database Row Choice)}
    (hviews : ∀ v ∈ views, (∃ log, History v.state log) ∧ v.state.Grows u
      ∧ SameRows v.state u environment.id) {configs : List FlagConfiguration}
    (h : (getAllEnvironmentConfigs environment.projectId environment.id).observe views
      = some (.ok configs)) :
    u.IsExport environment.id (configs.map FlagConfiguration.toConfigurationFields) := by
  unfold getAllEnvironmentConfigs at h
  obtain ⟨v, rest, rfl, hrest⟩ := observe_read_bind h
  beta_reduce at hrest
  obtain ⟨⟨log', hv⟩, hgrows, hsame⟩ := hviews v List.mem_cons_self
  have hlisted := arrange_perm v.choice.order
    (v.state.configsOfEnvironment environment.projectId environment.id)
  obtain ⟨loaded, rest', hfor, hcompiled, hloads⟩ := observe_loadAllCollections hrest
  have hitems : ∀ item ∈ v.state.configsOfEnvironment environment.projectId environment.id,
      item.1 ∈ v.state.configs ∧ item.1.environmentId = environment.id
        ∧ v.state.joined item.1 = some item := by
    intro item hitem
    obtain ⟨hjoined, hselected⟩ := List.mem_filter.mp hitem
    obtain ⟨row, hrow, hjoin⟩ := List.mem_filterMap.mp hjoined
    obtain ⟨row', flag, environment'⟩ := item
    obtain ⟨rfl, -, -⟩ := joined_eq_some.mp hjoin
    exact ⟨hrow, (of_decide_eq_true hselected).2.2, hjoin⟩
  -- every later SELECT finds the children the first one would find
  have hloads := hloads v.state.children (fun item hitem v' hv' => by
    obtain ⟨hrow, heid, -⟩ := hitems item (hlisted.subset hitem)
    obtain ⟨-, -, hsame'⟩ := hviews v' (List.mem_cons_of_mem v hv')
    have hrow' : item.1 ∈ v'.state.configs :=
      (hsame'.mem_iff heid).mp ((hsame.mem_iff heid).mpr hrow)
    exact (hsame'.children_eq hrow' heid).symm.trans (hsame.children_eq hrow heid))
  have hmade : PermBy (fun c config => compileConfiguration config = .ok c) configs loaded :=
    .of_forall₂ (mapM_eq_ok.mp (observe_attempt hcompiled)).flip
  have hof : PermBy (fun config item => LoadedConfig.IsFor config item
      ∧ Loads v.state.children config) loaded _ :=
    (PermBy.of_forall₂ hfor).mono_mem (fun config hconfig _ _ hfor =>
      ⟨hfor, hloads config hconfig⟩)
  have hrows := configsOfEnvironment_eq hv.consistent hu.consistent hsame hshares he rfl
  unfold Database.IsExport
  rw [← hrows, PermBy.map_left, PermBy.map_right]
  refine ((hmade.trans hof).perm_right hlisted).mono_mem (fun c _ item hitem hcompile => ?_)
  obtain ⟨config, hc, hfor, hloads⟩ := hcompile
  obtain ⟨hrow, -, hjoined⟩ := hitems item hitem
  obtain ⟨version, hversion, hrest⟩ :=
    storesCurrent_of_compile hv hrow hjoined hfor hloads hc
  exact ⟨version, hgrows.versions.subset hversion, hrest⟩

end Rows

/-! ## Every run -/

/-- **The transaction assigns no stale revision of the environment**: the first
value it assigns is the committed revision plus one. -/
def ReadsCurrentIn (environmentId : UUID) (writes : List Write) (s : Database) : Prop :=
  ∀ environment ∈ s.environments, environment.id = environmentId →
    ∀ revision ∈ (assignedRevisions environment.id writes).head?,
      revision = environment.revision + 1

instance (environmentId : UUID) (writes : List Write) (s : Database) :
    Decidable (ReadsCurrentIn environmentId writes s) :=
  inferInstanceAs (Decidable (∀ environment ∈ s.environments, environment.id = environmentId →
    ∀ revision ∈ (assignedRevisions environment.id writes).head?,
      revision = environment.revision + 1))

/-- A revision tells that nothing has changed. -/
theorem RevisionTells.refl {s : Database} (hs : s.Consistent) (environmentId : UUID) :
    RevisionTells s s environmentId :=
  fun environment he hid => ⟨environment, he, hid, le_rfl, fun _ => .refl hs environmentId⟩

/-- And it tells over several changes. -/
theorem RevisionTells.trans {s s' s'' : Database} {environmentId : UUID}
    (h : RevisionTells s s' environmentId) (h' : RevisionTells s' s'' environmentId) :
    RevisionTells s s'' environmentId := by
  intro environment he hid
  obtain ⟨environment₁, he₁, hid₁, hle₁, hsame₁⟩ := h environment he hid
  obtain ⟨environment₂, he₂, hid₂, hle₂, hsame₂⟩ := h' environment₁ he₁ hid₁
  refine ⟨environment₂, he₂, hid₂, hle₁.trans hle₂, fun heq => ?_⟩
  exact (hsame₁ (by omega)).trans (hsame₂ (by omega))

/-- What a step of a run that assigns no stale revision does. -/
theorem revisionTells_step {w w' : ServiceWorld} {action : Action Choice Request}
    {environmentId : UUID} (hgood : w.Good discipline History (fun _ => Commits))
    (hreads : ∀ id tx, action = .commit id → w.running? id = some tx →
      ReadsCurrentIn environmentId tx.writes w.committed)
    (hstep : service.step w action = some w') :
    w.committed.Grows w'.committed ∧ RevisionTells w.committed w'.committed environmentId := by
  have hs := hgood.invariant.consistent
  rcases committed_step hgood hstep with hsame | ⟨id, tx, effect, locks, rfl, htx, hwrites, hfits,
    hcommitted, hok⟩
  · rw [hsame]
    exact ⟨.refl _, .refl hs environmentId⟩
  · have hreads := hreads id tx rfl htx
    rw [hwrites] at hreads
    rw [hcommitted]
    exact ⟨grows_view _ _, revisionTells_commit hs hfits hok hreads⟩

/-- **A tag that still matches is the tag of the current export**: while no
commit assigns a stale revision of the environment, the flags of the bundle that
came with the tag are the current ones at the moment the tag is compared. -/
theorem etag_sound {actions actions' : List (Action Choice Request)} {w : ServiceWorld}
    (hrun : service.run initial actions = some w) {projectId environmentId : UUID}
    (hmeets : service.CommitsMeet (fun _ => ReadsCurrentIn environmentId) w actions')
    {fetched checked : List (View Database Row Choice)}
    (hpasses : service.Passes w actions' ((fetched ++ checked).map View.state))
    {principal principal' : Principal} {ifNoneMatch : Option String} {etag etag' : String}
    {bundle : ConfigBundle}
    (hfetch : (exportConfiguration principal projectId environmentId ifNoneMatch).observe fetched
      = some (.ok (.bundle etag bundle)))
    (hcheck : (exportConfiguration principal' projectId environmentId (some etag)).observe checked
      = some (.ok (.notModified etag'))) :
    ∀ v ∈ checked.head?, v.state.IsExport environmentId bundle.flags := by
  -- the states are reached by runs, and revisions tell what changes between them
  obtain ⟨hreached, hpairs⟩ := hpasses.related
    (P := fun w => ∃ actions, service.run initial actions = some w)
    (T := fun s s' => s.Grows s' ∧ RevisionTells s s' environmentId)
    (fun _ ⟨_, hrun⟩ => ⟨.refl _, .refl (good_of_run hrun).invariant.consistent environmentId⟩)
    (fun _ _ _ h h' => ⟨h.1.trans h'.1, h.2.trans h'.2⟩)
    (fun w w' action ⟨actions, hrun⟩ hreads hstep => by
      refine ⟨⟨actions ++ [action], ?_⟩, revisionTells_step (good_of_run hrun) hreads hstep⟩
      rw [System.run_append, hrun]
      show (service.step w action).bind _ = _
      rw [hstep]
      rfl)
    ⟨actions, hrun⟩ hmeets
  have hgood : ∀ v ∈ fetched ++ checked,
      (∃ log, History v.state log) ∧ v.state.SharesProjects := by
    intro v hv
    obtain ⟨⟨w', ⟨_, hrun'⟩, hstate⟩, -⟩ := hreached v.state (List.mem_map_of_mem hv)
    rw [← hstate]
    exact ⟨⟨_, (good_of_run hrun').invariant⟩, sharesProjects_of_run hrun'⟩
  obtain ⟨v, rest, environment, rfl, he, rfl, rfl, hresponse⟩ := observe_exportConfiguration hfetch
  obtain ⟨u, rest', environment', rfl, he', hid', hproject', hresponse'⟩ :=
    observe_exportConfiguration hcheck
  obtain ⟨-, hnot⟩ | ⟨before, after, configs, hsplit, hconfigs, hbundle⟩ := hresponse
  · cases hnot
  cases hbundle
  obtain ⟨hmatch, -⟩ | ⟨_, _, _, -, -, hnot⟩ := hresponse'
  swap
  · cases hnot
  have hrevision : environment'.revision = environment.revision :=
    (exportEtag_inj (Option.some.inj hmatch)).symm
  rintro u' hu'
  cases hu'
  obtain ⟨⟨log, hu⟩, hshares⟩ := hgood u (List.mem_append_right _ List.mem_cons_self)
  rw [List.map_append, List.pairwise_append] at hpairs
  obtain ⟨hfetched, -, hacross⟩ := hpairs
  have hfirst : ∀ x ∈ v :: rest, RevisionTells v.state x.state environment.id := by
    intro x hx
    rcases List.mem_cons.mp hx with rfl | hx
    · obtain ⟨⟨_, hhistory⟩, -⟩ := hgood x List.mem_cons_self
      exact .refl hhistory.consistent environment.id
    · exact ((List.pairwise_cons.mp hfetched).1 _ (List.mem_map_of_mem hx)).2
  -- the rows stay the same from the moment the tag was read to the one it is compared
  have hsame : ∀ x ∈ v :: rest, SameRows x.state u.state environment.id := by
    intro x hx
    obtain ⟨-, hlast⟩ := hacross x.state (List.mem_map_of_mem hx) u.state List.mem_cons_self
    obtain ⟨environment₁, he₁, hid₁, hle₁, -⟩ := hfirst x hx environment he rfl
    obtain ⟨environment₂, he₂, hid₂, hle₂, hsame⟩ := hlast environment₁ he₁ hid₁
    have heq : environment₂ = environment' := List.inj_on_of_nodup_map
      hu.consistent.keys.environmentIds he₂ he' (hid₂.trans hid'.symm)
    rw [heq] at hle₂ hsame
    exact hsame (by omega)
  rw [← hproject', ← hid'] at hconfigs
  have hexport := isExport_of_observe hu hshares he' (fun x hx => ?_) hconfigs
  · rw [hid'] at hexport
    exact hexport
  · have hx : x ∈ v :: rest := hsplit ▸ List.mem_append_right before hx
    obtain ⟨hhistory, -⟩ := hgood x (List.mem_append_left _ hx)
    obtain ⟨hgrows, -⟩ := hacross x.state (List.mem_map_of_mem hx) u.state List.mem_cons_self
    exact ⟨hhistory, hgrows, hid' ▸ hsame x hx⟩

/-- An SDK key of the sample environment. -/
def sampleSdk : Principal :=
  ⟨none, some ⟨99⟩, "SDK", some ⟨10⟩, some ⟨20⟩, some ⟨30⟩, ["flags:read", "evaluate"]⟩

/-- An update of the sample flag that is given up before its last statement. -/
def abandoned : List (Action Choice Request) :=
  .start (.replaceFlagConfiguration sampleUser none ⟨40⟩
    (sampleUpdate sampleContent 1 Nat.one_pos)) :: advances 4 50 14 ++ [.abort 4]

/-- The bundle the sample key gets in one state. -/
def sampleBundle (w : ServiceWorld) : Option (String × ConfigBundle) :=
  match (exportConfiguration sampleSdk ⟨20⟩ ⟨30⟩ none).observe
    (List.replicate 9 (sampleView w)) with
  | some (.ok (.bundle etag bundle)) => some (etag, bundle)
  | _ => none

/-- Whether the sample key is told that nothing is new. -/
def sampleMatches (etag : String) (w : ServiceWorld) : Bool :=
  match (exportConfiguration sampleSdk ⟨20⟩ ⟨30⟩ (some etag)).observe [sampleView w] with
  | some (.ok (.notModified etag')) => etag' = etag
  | _ => false

/-- What the fetch has observed. -/
theorem observe_of_sampleBundle {w : ServiceWorld} {etag : String} {bundle : ConfigBundle}
    (h : sampleBundle w = some (etag, bundle)) :
    (exportConfiguration sampleSdk ⟨20⟩ ⟨30⟩ none).observe (List.replicate 9 (sampleView w))
      = some (.ok (.bundle etag bundle)) := by
  unfold sampleBundle at h
  split at h
  · rename_i hread
    cases h
    exact hread
  · cases h

/-- And the check. -/
theorem observe_of_sampleMatches {w : ServiceWorld} {etag : String}
    (h : sampleMatches etag w = true) :
    (exportConfiguration sampleSdk ⟨20⟩ ⟨30⟩ (some etag)).observe [sampleView w]
      = some (.ok (.notModified etag)) := by
  unfold sampleMatches at h
  split at h
  · rename_i etag' hread
    rw [hread, of_decide_eq_true h]
  · exact absurd h Bool.false_ne_true

/-- A fetch in one state and a check in a later one are moments of the run
between them. -/
theorem passes_sample {w w' : ServiceWorld} {actions : List (Action Choice Request)}
    (hrun : service.run w actions = some w') :
    service.Passes w actions
      ((List.replicate 9 (sampleView w) ++ [sampleView w']).map View.state) := by
  have hlast : service.Passes w (actions ++ []) [w'.committed] :=
    .of_run hrun (.now (.nil w' []))
  rw [List.append_nil] at hlast
  rw [List.map_append, List.map_replicate]
  exact hlast.replicate 9

theorem etag_sound_sample : ∃ w w' etag bundle, service.run initial sampleFlag = some w
    ∧ service.run w abandoned = some w'
    ∧ (exportConfiguration sampleSdk ⟨20⟩ ⟨30⟩ none).observe (List.replicate 9 (sampleView w))
      = some (.ok (.bundle etag bundle))
    ∧ (exportConfiguration sampleSdk ⟨20⟩ ⟨30⟩ (some etag)).observe [sampleView w']
      = some (.ok (.notModified etag))
    ∧ bundle.flags.length = 1 ∧ w'.committed.IsExport ⟨30⟩ bundle.flags := by
  have hfacts : (service.run initial sampleFlag).any (fun w =>
      service.checkCommits (fun _ writes s => decide (ReadsCurrentIn ⟨30⟩ writes s)) w abandoned
      && (service.run w abandoned).any (fun w' => (sampleBundle w).any (fun item =>
        decide (item.2.flags.length = 1) && sampleMatches item.1 w'))) = true := by
    decide +kernel
  obtain ⟨w, hrun, hfacts⟩ := (Option.any_eq_true _ _).mp hfacts
  obtain ⟨hcheck, hfacts⟩ := Bool.and_eq_true_iff.mp hfacts
  obtain ⟨w', hrun', hfacts⟩ := (Option.any_eq_true _ _).mp hfacts
  obtain ⟨⟨etag, bundle⟩, hbundle, hfacts⟩ := (Option.any_eq_true _ _).mp hfacts
  obtain ⟨hlength, hmatch⟩ := Bool.and_eq_true_iff.mp hfacts
  have hfetch := observe_of_sampleBundle hbundle
  have hmatch := observe_of_sampleMatches hmatch
  exact ⟨w, w', etag, bundle, hrun, hrun', hfetch, hmatch, of_decide_eq_true hlength,
    etag_sound hrun (System.commitsMeet_of_check service hcheck) (passes_sample hrun') hfetch
      hmatch _ rfl⟩

/-! ## A tag that matches too late -/

/-- **A stale bundle whose tag matches**: it was fetched between the commits of
two creations that run side by side, and both of them left revision 1. -/
theorem etag_matches_late : ∃ w w' etag bundle,
    service.run initial (sideBySide ++ [.commit 3]) = some w
    ∧ service.run w [.advance 4 (sampleChoice 60), .commit 4] = some w'
    ∧ (exportConfiguration sampleSdk ⟨20⟩ ⟨30⟩ none).observe (List.replicate 9 (sampleView w))
      = some (.ok (.bundle etag bundle))
    ∧ (exportConfiguration sampleSdk ⟨20⟩ ⟨30⟩ (some etag)).observe [sampleView w']
      = some (.ok (.notModified etag))
    ∧ bundle.flags.length = 1 ∧ (w'.committed.liveConfigs ⟨30⟩).length = 2
    ∧ ¬ w'.committed.IsExport ⟨30⟩ bundle.flags := by
  have hfacts : (service.run initial (sideBySide ++ [.commit 3])).any (fun w =>
      (service.run w [.advance 4 (sampleChoice 60), .commit 4]).any (fun w' =>
        decide ((w'.committed.liveConfigs ⟨30⟩).length = 2)
        && (sampleBundle w).any (fun item =>
          decide (item.2.flags.length = 1) && sampleMatches item.1 w'))) = true := by
    decide +kernel
  obtain ⟨w, hrun, hfacts⟩ := (Option.any_eq_true _ _).mp hfacts
  obtain ⟨w', hrun', hfacts⟩ := (Option.any_eq_true _ _).mp hfacts
  obtain ⟨hlive, hfacts⟩ := Bool.and_eq_true_iff.mp hfacts
  obtain ⟨⟨etag, bundle⟩, hbundle, hfacts⟩ := (Option.any_eq_true _ _).mp hfacts
  obtain ⟨hlength, hmatch⟩ := Bool.and_eq_true_iff.mp hfacts
  have hlive := of_decide_eq_true hlive
  have hlength : bundle.flags.length = 1 := of_decide_eq_true hlength
  refine ⟨w, w', etag, bundle, hrun, hrun', observe_of_sampleBundle hbundle,
    observe_of_sampleMatches hmatch, hlength, hlive, fun hexport => ?_⟩
  obtain ⟨flags, hperm, hall⟩ := hexport
  have hsize := hperm.length_eq.trans hall.length_eq
  omega

end CohortSwitch
