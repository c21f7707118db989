import CohortSwitch.Effects

/-!
# What each transaction ensures

The transactions of the service, followed statement by statement while others
commit. `Database.Evolves` is what a transaction may rely on: rows keep their
identity, versions only grow, a configuration whose row is locked keeps its
version, and one whose version stays keeps its row and its children.

The last clause is the one that carries the conditional update. A transaction
compares the version of the row it is about to change, and everything it read
before is still true if the version is: the row is the one it loaded, and its
children are those it deletes.

## Knowledge

One rule per statement (`ensures_select` and its siblings) takes a program to
the rest of it; what is read is remembered in a form that stays true
(`Database.KnowsConfig` and its siblings), since every later statement may see
another state. Knowledge is of identities: a row that was read is there still, under
the ids it was read with, while its other columns may have changed.

`ensures_updateFlag` is the center: where the conditional update matched, the row
it matched is the committed one and stays so to the end. The programs of the
endpoints are assembled from it in `CohortSwitch.Endpoints`.
-/

namespace CohortSwitch

/-! ## What others may do -/

/-- **What the commits of others may do** to a state while some rows are locked. Nothing is
lost, and a configuration that changes gets a new version. So a transaction that has locked the
row of a configuration finds its version unchanged at its commit, and one that has not can still
rely on what a row says for good. -/
structure Database.Evolves (locks : List Row) (s s' : Database) : Prop where
  grows : s.Grows s'
  configs : ∀ row ∈ s.configs, ∃ row' ∈ s'.configs, row'.id = row.id
    ∧ row.currentVersion ≤ row'.currentVersion
    ∧ (row'.currentVersion = row.currentVersion →
      row' = row ∧ s'.children.of row.id = s.children.of row.id)
    ∧ (.config row.id ∈ locks → row'.currentVersion = row.currentVersion)
  archived : ∀ flag ∈ s.flags, flag.archivedAt.isSome = true →
    ∃ flag' ∈ s'.flags, flag'.id = flag.id ∧ flag'.archivedAt.isSome = true
  created : ∀ identity ∈ s'.configs.map FlagConfigRow.identity,
    identity.flagId ∈ s.flags.map FeatureFlagRow.id →
    identity ∈ s.configs.map FlagConfigRow.identity

/-- Nothing happened. -/
theorem Database.Evolves.refl (locks : List Row) (s : Database) : s.Evolves locks s :=
  ⟨.refl s, fun row hr => ⟨row, hr, rfl, le_rfl, fun _ => ⟨rfl, rfl⟩, fun _ => rfl⟩,
    fun flag hf ha => ⟨flag, hf, rfl, ha⟩, fun _ hi _ => hi⟩

theorem map_id_subset_of_grows {s s' : Database} (h : s.Grows s') :
    s.flags.map FeatureFlagRow.id ⊆ s'.flags.map FeatureFlagRow.id := by
  have hsub := (h.flags.map FeatureFlagRow.Identity.id).subset
  rw [List.map_map, List.map_map] at hsub
  exact hsub

/-- One commit after another. -/
theorem Database.Evolves.trans {locks : List Row} {s s' s'' : Database}
    (h : s.Evolves locks s') (h' : s'.Evolves locks s'') : s.Evolves locks s'' where
  grows := h.grows.trans h'.grows
  configs := by
    intro row hr
    obtain ⟨row₁, hr₁, hid₁, hle₁, hsame₁, hlock₁⟩ := h.configs row hr
    obtain ⟨row₂, hr₂, hid₂, hle₂, hsame₂, hlock₂⟩ := h'.configs row₁ hr₁
    refine ⟨row₂, hr₂, hid₂.trans hid₁, hle₁.trans hle₂, fun heq => ?_, fun hl => ?_⟩
    · have heq₁ : row₁.currentVersion = row.currentVersion :=
        le_antisymm (heq ▸ hle₂) hle₁
      obtain ⟨hrow₁, hchildren₁⟩ := hsame₁ heq₁
      obtain ⟨hrow₂, hchildren₂⟩ := hsame₂ (heq.trans heq₁.symm)
      rw [hid₁] at hchildren₂
      exact ⟨hrow₂.trans hrow₁, hchildren₂.trans hchildren₁⟩
    · exact (hlock₂ (hid₁ ▸ hl)).trans (hlock₁ hl)
  archived := by
    intro flag hf ha
    obtain ⟨flag₁, hf₁, hid₁, ha₁⟩ := h.archived flag hf ha
    obtain ⟨flag₂, hf₂, hid₂, ha₂⟩ := h'.archived flag₁ hf₁ ha₁
    exact ⟨flag₂, hf₂, hid₂.trans hid₁, ha₂⟩
  created := fun identity hi hf =>
    h.created identity (h'.created identity hi (map_id_subset_of_grows h.grows hf)) hf

/-- **What the transactions of the service rely on.** -/
def discipline : Discipline Database Write Row where
  apply := Database.apply
  invariant := Database.Consistent
  rely := Database.Evolves
  rely_refl := Database.Evolves.refl
  rely_trans := fun _ _ _ _ h h' => h.trans h'

/-! ## Knowledge that stays true -/

/-- A configuration that was read is there; its version may be a later one by now. -/
def Database.KnowsConfig (s : Database) (row : FlagConfigRow) : Prop :=
  row.identity ∈ s.configs.map FlagConfigRow.identity

/-- A flag that was read is there. -/
def Database.KnowsFlag (s : Database) (row : FeatureFlagRow) : Prop :=
  row.identity ∈ s.flags.map FeatureFlagRow.identity

/-- So is an environment. -/
def Database.KnowsEnvironment (s : Database) (row : EnvironmentRow) : Prop :=
  row.identity ∈ s.environments.map EnvironmentRow.identity

section Knowledge

variable {s s' : Database} {locks : List Row}

/-- What is known stays known. -/
theorem Database.KnowsConfig.evolve {row : FlagConfigRow} (h : s.KnowsConfig row)
    (hs : s.Evolves locks s') : s'.KnowsConfig row :=
  hs.grows.configs.subset h

theorem Database.KnowsFlag.evolve {row : FeatureFlagRow} (h : s.KnowsFlag row)
    (hs : s.Evolves locks s') : s'.KnowsFlag row :=
  hs.grows.flags.subset h

theorem Database.KnowsEnvironment.evolve {row : EnvironmentRow} (h : s.KnowsEnvironment row)
    (hs : s.Evolves locks s') : s'.KnowsEnvironment row :=
  hs.grows.environments.subset h

/-- The committed row of a configuration that is known. -/
theorem Database.KnowsConfig.exists_row {row : FlagConfigRow} (h : s.KnowsConfig row) :
    ∃ row' ∈ s.configs, row'.id = row.id ∧ row'.flagId = row.flagId
      ∧ row'.environmentId = row.environmentId ∧ row'.salt = row.salt := by
  obtain ⟨row', hr, heq⟩ := List.mem_map.mp h
  exact ⟨row', hr, congrArg FlagConfigRow.Identity.id heq,
    congrArg FlagConfigRow.Identity.flagId heq,
    congrArg FlagConfigRow.Identity.environmentId heq,
    congrArg FlagConfigRow.Identity.salt heq⟩

end Knowledge

/-! ## Writes in place -/

/-- A write that adds no row but children. -/
def Write.isInPlace : Write → Bool
  | .environment (.increment _) | .environment (.setRevision _ _)
  | .flag (.setName _ _) | .flag (.setDescription _ _) | .flag (.setArchivedAt _ _)
  | .config (.update _ _ _ _) | .child _ => true
  | _ => false

/-- The same projects, environments, flags and configurations. -/
structure Database.SameIdentities (s s' : Database) : Prop where
  projects : s'.projects = s.projects
  environments : s'.environments.map EnvironmentRow.identity
    = s.environments.map EnvironmentRow.identity
  flags : s'.flags.map FeatureFlagRow.identity = s.flags.map FeatureFlagRow.identity
  configs : s'.configs.map FlagConfigRow.identity = s.configs.map FlagConfigRow.identity

/-- A map that keeps the identities. -/
theorem map_identity_map {α ι : Type} {identity : α → ι} {g : α → α}
    (h : ∀ row, identity (g row) = identity row) (rows : List α) :
    (rows.map g).map identity = rows.map identity := by
  rw [List.map_map]
  exact List.map_congr_left (fun row _ => h row)

/-- What depends on the identity of a row stays. -/
theorem map_of_identity {α ι β : Type} {identity : α → ι} {rows rows' : List α}
    (h : rows'.map identity = rows.map identity) (f : ι → β) :
    rows'.map (fun row => f (identity row)) = rows.map (fun row => f (identity row)) := by
  have hmap := congrArg (List.map f) h
  rwa [List.map_map, List.map_map] at hmap

theorem sameIdentities_apply (db : Database) {w : Write} (h : w.isInPlace = true) :
    db.SameIdentities (db.apply w) := by
  have hself : db.SameIdentities db := ⟨rfl, rfl, rfl, rfl⟩
  cases w with
  | environment op =>
    cases op with
    | insert row => cases h
    | increment id =>
      exact { hself with environments := map_identity_map (fun row => by split <;> rfl) _ }
    | setRevision id n =>
      exact { hself with environments := map_identity_map (fun row => by split <;> rfl) _ }
  | flag op =>
    cases op with
    | insert row => cases h
    | setName id name =>
      exact { hself with flags := map_identity_map (fun row => by split <;> rfl) _ }
    | setDescription id text =>
      exact { hself with flags := map_identity_map (fun row => by split <;> rfl) _ }
    | setArchivedAt id t =>
      exact { hself with flags := map_identity_map (fun row => by split <;> rfl) _ }
  | config op =>
    cases op with
    | insert row => cases h
    | update id enabled key version =>
      exact { hself with configs := map_identity_map (fun row => by split <;> rfl) _ }
  | child op => exact { hself with }
  | _ => cases h

/-- **A transaction that only writes in place sees the rows that are
committed.** -/
theorem sameIdentities_view {writes : List Write} (h : ∀ w ∈ writes, w.isInPlace = true)
    (db : Database) : db.SameIdentities (service.view writes db) := by
  induction writes generalizing db with
  | nil => exact ⟨rfl, rfl, rfl, rfl⟩
  | cons w writes ih =>
    have hfirst := sameIdentities_apply db (h w List.mem_cons_self)
    have hrest := ih (fun w' hw => h w' (List.mem_cons_of_mem w hw)) (db.apply w)
    exact ⟨hrest.projects.trans hfirst.projects,
      hrest.environments.trans hfirst.environments, hrest.flags.trans hfirst.flags,
      hrest.configs.trans hfirst.configs⟩

/-- What a lookup found. -/
theorem mem_and_of_find? {α : Type} {p : α → Prop} [DecidablePred p] {xs : List α} {a : α}
    (h : xs.find? (fun x => decide (p x)) = some a) : a ∈ xs ∧ p a :=
  ⟨List.mem_of_find?_eq_some h, by simpa using List.find?_some h⟩

theorem Database.SameIdentities.knowsFlag {s s' : Database} (h : s.SameIdentities s')
    {row : FeatureFlagRow} (hrow : row ∈ s'.flags) : s.KnowsFlag row := by
  show row.identity ∈ s.flags.map _
  rw [← h.flags]
  exact List.mem_map_of_mem hrow

theorem Database.SameIdentities.knowsEnvironment {s s' : Database} (h : s.SameIdentities s')
    {row : EnvironmentRow} (hrow : row ∈ s'.environments) : s.KnowsEnvironment row := by
  show row.identity ∈ s.environments.map _
  rw [← h.environments]
  exact List.mem_map_of_mem hrow

theorem Database.SameIdentities.knowsConfig {s s' : Database} (h : s.SameIdentities s')
    {row : FlagConfigRow} (hrow : row ∈ s'.configs) : s.KnowsConfig row := by
  show row.identity ∈ s.configs.map _
  rw [← h.configs]
  exact List.mem_map_of_mem hrow

/-! ## One rule per statement -/

section Rules

variable {α β : Type} {writes : List Write} {locks : List Row} {s : Database}
  {post : List Write → List Row → Database → β → Prop} {k : α → Tx β}

/-- A lookup, with what it found at the state it saw. -/
theorem ensures_select {query : Database → α}
    (h : ∀ s', s.Evolves locks s' → s'.Consistent →
      (k (query (service.view writes s'))).Ensures discipline post writes locks s') :
    (select query >>= k).Ensures discipline post writes locks s := by
  intro s' hrely hinv locked choice _
  show (k _).Ensures discipline post (writes ++ []) (locks ++ []) s'
  rw [List.append_nil, List.append_nil]
  exact h s' hrely hinv

/-- A query, with the rows in any order. -/
theorem ensures_selectAll {query : Database → List α} {k : List α → Tx β}
    (h : ∀ s' rows, s.Evolves locks s' → s'.Consistent →
      rows.Perm (query (service.view writes s')) →
      (k rows).Ensures discipline post writes locks s') :
    (selectAll query >>= k).Ensures discipline post writes locks s := by
  intro s' hrely hinv locked choice _
  show (k _).Ensures discipline post (writes ++ []) (locks ++ []) s'
  rw [List.append_nil, List.append_nil]
  exact h s' _ hrely hinv (arrange_perm _ _)

/-- What the environment chooses may be anything. -/
theorem ensures_choose {k : Choice → Tx β}
    (h : ∀ s' chosen, s.Evolves locks s' → s'.Consistent →
      (k chosen).Ensures discipline post writes locks s') :
    (choose >>= k).Ensures discipline post writes locks s := by
  intro s' hrely hinv locked choice _
  show (k _).Ensures discipline post (writes ++ []) (locks ++ []) s'
  rw [List.append_nil, List.append_nil]
  exact h s' choice hrely hinv

/-- A statement that writes: it waits for the rows it locks, and they are locked from then on.
-/
theorem ensures_execute {new : Database → List Write} {returning : Database → α}
    (h : ∀ s', s.Evolves locks s' → s'.Consistent →
      (k (returning (service.view writes s'))).Ensures discipline post
        (writes ++ new (service.view writes s'))
        (locks ++ (new (service.view writes s')).flatMap Write.locks) s') :
    (execute new returning >>= k).Ensures discipline post writes locks s := by
  intro s' hrely hinv locked choice _
  exact h s' hrely hinv

/-- The statements of what is pending, one after the other. -/
theorem ensures_flush {pending : List Write} {k : Unit → Tx β}
    (h : ∀ s', s.Evolves locks s' → s'.Consistent →
      (k ()).Ensures discipline post (writes ++ pending)
        (locks ++ pending.flatMap Write.locks) s') :
    (flush pending >>= k).Ensures discipline post writes locks s :=
  ensures_execute h

/-- A computation without statements. -/
theorem ensures_attempt_bind {x : Except PyError α}
    (h : ∀ a, x = .ok a → (k a).Ensures discipline post writes locks s) :
    (Prog.attempt x >>= k).Ensures discipline post writes locks s := by
  cases x with
  | ok a => exact h a rfl
  | error e => exact trivial

/-- A check that raises. -/
theorem ensures_raiseIf {condition : Prop} [Decidable condition] {error : PyError}
    {k : Unit → Tx β}
    (h : ¬ condition → (k ()).Ensures discipline post writes locks s) :
    (Tx.raiseIf condition error >>= k).Ensures discipline post writes locks s := by
  refine ensures_attempt_bind (fun u hu => h (fun hc => ?_))
  rw [CohortSwitch.raiseIf, if_pos hc] at hu
  cases hu

end Rules

/-! ## Transactions that only read -/

/-- **The outcome of a part that only reads**: what it returns is as described
at the state it ends in. -/
def Reads {α : Type} (P : Database → α → Prop) (writes : List Write) (locks : List Row)
    (s : Database) : List Write → List Row → Database → α → Prop :=
  fun writes' locks' s' a => writes' = writes ∧ locks' = locks ∧ s.Evolves locks s' ∧ P s' a

section Reading

variable {α β : Type} {writes : List Write} {locks : List Row} {s s₀ : Database}
  {P : Database → α → Prop}

theorem Reads.since {m : Tx α} (hs : s₀.Evolves locks s)
    (h : m.Ensures discipline (Reads P writes locks s) writes locks s) :
    m.Ensures discipline (Reads P writes locks s₀) writes locks s :=
  h.mono (fun _ _ _ _ ⟨hw, hl, he, hp⟩ => ⟨hw, hl, hs.trans he, hp⟩)

theorem Reads.pure {a : α} (hs : s₀.Evolves locks s) (h : P s a) :
    (pure a : Tx α).Ensures discipline (Reads P writes locks s₀) writes locks s :=
  ⟨rfl, rfl, hs, h⟩

/-- Going on after a part that only reads. -/
theorem ensures_reads {m : Tx α} {k : α → Tx β}
    {post : List Write → List Row → Database → β → Prop}
    (hm : m.Ensures discipline (Reads P writes locks s) writes locks s)
    (hk : ∀ s' a, s.Evolves locks s' → P s' a →
      (k a).Ensures discipline post writes locks s') :
    (m >>= k).Ensures discipline post writes locks s := by
  refine hm.bind (fun writes' locks' s' a h => ?_)
  obtain ⟨rfl, rfl, he, hp⟩ := h
  exact hk s' a he hp

/-- The SELECTs of the collections only read; what they find is not needed to
know which configuration it is. -/
theorem ensures_loadCollections (row : FlagConfigRow) (flag : FeatureFlagRow)
    (environment : EnvironmentRow) :
    (loadCollections row flag environment).Ensures discipline
      (Reads (fun _ config => config.row = row ∧ config.flag = flag
        ∧ config.environment = environment) writes locks s) writes locks s := by
  unfold loadCollections
  refine ensures_selectAll (fun s₁ _ h₁ _ _ => ensures_selectAll (fun s₂ _ h₂ _ _ => ?_))
  refine ensures_selectAll (fun s₃ _ h₃ _ _ => ensures_selectAll (fun s₄ _ h₄ _ _ => ?_))
  refine ensures_selectAll (fun s₅ _ h₅ _ _ => ensures_selectAll (fun s₆ _ h₆ _ _ => ?_))
  refine ensures_selectAll (fun s₇ _ h₇ _ _ => ?_)
  exact Reads.pure ((((((h₁.trans h₂).trans h₃).trans h₄).trans h₅).trans h₆).trans h₇)
    ⟨rfl, rfl, rfl⟩

theorem ensures_membershipFor (principal : Principal) (organizationId : UUID) :
    (membershipFor principal organizationId).Ensures discipline
      (Reads (fun _ _ => True) writes locks s) writes locks s := by
  unfold membershipFor
  split
  · split
    · exact trivial
    · exact Reads.pure (.refl _ _) trivial
  · split
    · exact trivial
    · refine ensures_select (fun s₁ h₁ _ => ?_)
      split
      · exact trivial
      · exact Reads.pure h₁ trivial

theorem ensures_authorizeOrganization (principal : Principal) (organizationId : UUID)
    (permission : Permission) :
    (authorizeOrganization principal organizationId permission).Ensures discipline
      (Reads (fun _ _ => True) writes locks s) writes locks s := by
  unfold authorizeOrganization
  refine ensures_reads (ensures_membershipFor principal organizationId) (fun s₁ _ h₁ _ => ?_)
  split
  · split
    · exact trivial
    · exact Reads.pure h₁ trivial
  · refine ensures_attempt_bind (fun _ _ => ?_)
    exact Reads.pure h₁ trivial

/-- The project a principal may use is one that is stored. -/
theorem ensures_authorizeProject (hplace : ∀ w ∈ writes, w.isInPlace = true)
    (principal : Principal) (projectId : UUID) (permission : Permission) :
    (authorizeProject principal projectId permission).Ensures discipline
      (Reads (fun s' found => found.1 ∈ s'.projects ∧ found.1.id = projectId
        ∧ principal.MayUseProject projectId) writes locks s) writes locks s := by
  unfold authorizeProject
  refine ensures_select (fun s₁ h₁ _ => ?_)
  cases hfind : (service.view writes s₁).projects.find? (fun row => row.id = projectId) with
  | none => exact trivial
  | some project =>
    obtain ⟨hmem, hid⟩ := mem_and_of_find? hfind
    rw [(sameIdentities_view hplace s₁).projects] at hmem
    dsimp only
    split
    · exact trivial
    · rename_i hscope
      refine Reads.since h₁ (ensures_reads (ensures_authorizeOrganization principal
        project.organizationId permission) (fun s₂ _ h₂ _ => ?_))
      exact Reads.pure h₂ ⟨h₂.grows.projects.subset hmem, hid, eq_of_not_any_ne hscope⟩

theorem ensures_authorizeEnvironment (hplace : ∀ w ∈ writes, w.isInPlace = true)
    (principal : Principal) (environmentId : UUID) (permission : Permission) :
    (authorizeEnvironment principal environmentId permission).Ensures discipline
      (Reads (fun s' found => s'.KnowsEnvironment found.1 ∧ found.1.id = environmentId
        ∧ principal.MayUseEnvironment environmentId) writes locks s) writes locks s := by
  unfold authorizeEnvironment
  refine ensures_select (fun s₁ h₁ _ => ?_)
  cases hfind : (service.view writes s₁).environments.find?
      (fun row => row.id = environmentId) with
  | none => exact trivial
  | some environment =>
    obtain ⟨hmem, hid⟩ := mem_and_of_find? hfind
    have hknows := (sameIdentities_view hplace s₁).knowsEnvironment hmem
    dsimp only
    split
    · exact trivial
    · rename_i hscope
      refine Reads.since h₁ (ensures_reads (ensures_authorizeProject hplace principal
        environment.projectId permission) (fun s₂ _ h₂ _ => ?_))
      exact Reads.pure h₂ ⟨hknows.evolve h₂, hid, eq_of_not_any_ne hscope⟩

/-- `session.get(FeatureFlag, …)`. -/
theorem ensures_getFlag (hplace : ∀ w ∈ writes, w.isInPlace = true) (flagId : UUID) :
    (getFlag flagId).Ensures discipline
      (Reads (fun s' found => ∀ flag, found = some flag → s'.KnowsFlag flag ∧ flag.id = flagId)
        writes locks s) writes locks s := by
  refine Prog.ensures_read (fun s₁ h₁ _ locked choice => ⟨rfl, rfl, h₁, fun flag hf => ?_⟩)
  obtain ⟨hmem, hid⟩ := mem_and_of_find? hf
  exact ⟨(sameIdentities_view hplace s₁).knowsFlag hmem, hid⟩

/-- What is known of a configuration, its flag and its environment after the
SELECT that joins them. -/
structure Database.KnowsJoined (s : Database) (row : FlagConfigRow) (flag : FeatureFlagRow)
    (environment : EnvironmentRow) : Prop where
  /-- All three exist, -/
  configKnown : s.KnowsConfig row
  flagKnown : s.KnowsFlag flag
  environmentKnown : s.KnowsEnvironment environment
  /-- and belong together. -/
  flagId : row.flagId = flag.id
  environmentId : row.environmentId = environment.id

theorem Database.KnowsJoined.evolve {s' : Database} {row : FlagConfigRow} {flag : FeatureFlagRow}
    {environment : EnvironmentRow} (h : s.KnowsJoined row flag environment)
    (hs : s.Evolves locks s') : s'.KnowsJoined row flag environment :=
  ⟨h.configKnown.evolve hs, h.flagKnown.evolve hs, h.environmentKnown.evolve hs, h.flagId,
    h.environmentId⟩

/-- The join of the main SELECT. -/
theorem joined_eq_some {db : Database} {row row' : FlagConfigRow} {flag : FeatureFlagRow}
    {environment : EnvironmentRow} :
    db.joined row = some (row', flag, environment)
      ↔ row' = row ∧ db.flags.find? (fun item => item.id = row.flagId) = some flag
        ∧ db.environments.find? (fun item => item.id = row.environmentId)
          = some environment := by
  unfold Database.joined
  simp only [Option.bind_eq_bind, Option.bind_eq_some_iff, Option.pure_def, Option.some.injEq,
    Prod.mk.injEq]
  constructor
  · rintro ⟨flag', hf, environment', he, rfl, rfl, rfl⟩
    exact ⟨rfl, hf, he⟩
  · rintro ⟨rfl, hf, he⟩
    exact ⟨flag, hf, environment, he, rfl, rfl, rfl⟩

theorem knowsJoined_of_joined (hplace : ∀ w ∈ writes, w.isInPlace = true)
    {row row' : FlagConfigRow} {flag : FeatureFlagRow} {environment : EnvironmentRow}
    (hrow : row ∈ (service.view writes s).configs)
    (h : (service.view writes s).joined row = some (row', flag, environment)) :
    s.KnowsJoined row' flag environment := by
  obtain ⟨rfl, hf, he⟩ := joined_eq_some.mp h
  have hsame := sameIdentities_view hplace s
  obtain ⟨hfmem, hfid⟩ := mem_and_of_find? hf
  obtain ⟨hemem, heid⟩ := mem_and_of_find? he
  exact ⟨hsame.knowsConfig hrow, hsame.knowsFlag hfmem, hsame.knowsEnvironment hemem, hfid.symm,
    heid.symm⟩

theorem knowsJoined_of_configOfFlag (hplace : ∀ w ∈ writes, w.isInPlace = true)
    {flagId environmentId : UUID} {row : FlagConfigRow} {flag : FeatureFlagRow}
    {environment : EnvironmentRow}
    (h : (service.view writes s).configOfFlag flagId environmentId
      = some (row, flag, environment)) :
    s.KnowsJoined row flag environment ∧ flag.id = flagId ∧ environment.id = environmentId := by
  unfold Database.configOfFlag at h
  obtain ⟨found, hfind, hjoin⟩ := Option.bind_eq_some_iff.mp h
  have hknows := knowsJoined_of_joined hplace (List.mem_of_find?_eq_some hfind) hjoin
  obtain ⟨rfl, -, -⟩ := joined_eq_some.mp hjoin
  have hpair : row.flagId = flagId ∧ row.environmentId = environmentId := by
    simpa using List.find?_some hfind
  exact ⟨hknows, hknows.flagId.symm.trans hpair.1, hknows.environmentId.symm.trans hpair.2⟩

theorem ensures_getConfigByFlagEnvironment (hplace : ∀ w ∈ writes, w.isInPlace = true)
    (flagId environmentId : UUID) :
    (getConfigByFlagEnvironment flagId environmentId).Ensures discipline
      (Reads (fun s' config => s'.KnowsJoined config.row config.flag config.environment
        ∧ config.flag.id = flagId ∧ config.environment.id = environmentId
        ∧ config.flag.archivedAt.isSome = false) writes locks s) writes locks s := by
  unfold getConfigByFlagEnvironment
  refine ensures_select (fun s₁ h₁ _ => ?_)
  cases hfound : (service.view writes s₁).configOfFlag flagId environmentId with
  | none => exact trivial
  | some found =>
    obtain ⟨row, flag, environment⟩ := found
    obtain ⟨hknows, hfid, heid⟩ := knowsJoined_of_configOfFlag hplace hfound
    refine Reads.since h₁ (ensures_reads (ensures_loadCollections row flag environment)
      (fun s₂ config h₂ hconfig => ?_))
    obtain ⟨rfl, rfl, rfl⟩ := hconfig
    split
    · exact trivial
    · rename_i harchived
      exact Reads.pure h₂ ⟨hknows.evolve h₂, hfid, heid, by simpa using harchived⟩

end Reading

end CohortSwitch
