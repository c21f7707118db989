import CohortSwitch.LinearHistory

/-!
# Revisions of an environment

`Environment.revision` is what a client compares to learn whether the exported
configuration of the environment is still the one it has. A writer increments
it in SQL, or assigns one more than what it read; an assignment overwrites what
was committed since the read.

## What an export depends on

An export lists the configurations of an environment whose flags are not archived,
compiled from their rows. `SameRows` says that two states have the same rows of an
environment, and `SameRows.exported` that they export alike. A commit that assigns
no revision of the environment leaves its rows alone (`sameRows_of_unassigned`): the
endpoints never change a flag without touching the revision of every environment it
stands in, and this is where that is checked, effect by effect.

## What a revision counts

So a commit that changes the export assigns a revision. If the revision it read is
still the committed one, the value it assigns is a new one, and the revision grows
(`revision_commit`). `ReadsCurrent` is that condition on a commit; `revisions_count`
is the exact loss: while every transaction that assigns a revision still finds
committed what it read, the revision grows with each commit that changes the export.
`revisions_lost` is an interleaving of two creations after which it does not.

The number of changes is `noncomputable`: whether two exports are equal is a question
about compiled configurations, and it is only ever reasoned about.
-/

namespace CohortSwitch

/-! ## The exported configuration -/

/-- The collections of a configuration in one state, in the order of the
tables. -/
def ChildTables.load (tables : ChildTables) (row : FlagConfigRow) (flag : FeatureFlagRow)
    (environment : EnvironmentRow) : LoadedConfig where
  row := row
  flag := flag
  environment := environment
  variations := tables.variations.filter (fun item => item.configId = row.id)
  rollouts := tables.rollouts.filter (fun item => item.parent = .config row.id)
  progressiveStages := tables.progressiveStages.filter (fun item => item.parent = .config row.id)
  rules := (tables.rules.filter (fun item => item.configId = row.id)).map (fun rule => {
    row := rule
    conditions := tables.conditions.filter (fun item => item.ruleId = rule.id)
    rollouts := tables.rollouts.filter (fun item => item.parent = .rule rule.id)
    progressiveStages :=
      tables.progressiveStages.filter (fun item => item.parent = .rule rule.id) })

/-- A configuration that an export of a project lists. -/
def Database.exportedRow (db : Database) (projectId : UUID) (row : FlagConfigRow) :
    Option (FlagConfigRow × FeatureFlagRow × EnvironmentRow) :=
  (db.joined row).filter (fun item =>
    item.2.1.projectId = projectId ∧ item.2.1.archivedAt = none)

/-- `get_all_environment_configs`, read in one state. -/
def Database.exported (db : Database) (projectId environmentId : UUID) :
    Except PyError (List FlagConfiguration) :=
  (sortedBy (fun item => item.2.1.key)
    ((db.configs.filter (fun row => row.environmentId = environmentId)).filterMap
      (db.exportedRow projectId))).mapM
    (fun item => compileConfiguration (db.children.load item.1 item.2.1 item.2.2))

section Export

variable {tables tables' : ChildTables} {row : FlagConfigRow} {flag flag' : FeatureFlagRow}
  {environment environment' : EnvironmentRow}

/-- **What is loaded of a configuration is a matter of its own rows.** -/
theorem load_of_eq (heq : tables'.of row.id = tables.of row.id) (flag : FeatureFlagRow)
    (environment : EnvironmentRow) :
    tables'.load row flag environment = tables.load row flag environment := by
  have hrules : (tables'.load row flag environment).rules
      = (tables.load row flag environment).rules := by
    show (tables'.rules.filter _).map _ = (tables.rules.filter _).map _
    rw [rules_of_eq heq]
    refine List.map_congr_left (fun rule hrule => ?_)
    have hid : rule.id ∈ tables.ruleIds row.id := List.mem_map_of_mem hrule
    rw [conditions_of_eq heq hid, rollouts_of_eq heq (belongsTo_rule hid),
      stages_of_eq heq (belongsTo_rule hid)]
  have hown := belongsTo_config row.id (tables.ruleIds row.id)
  show LoadedConfig.mk row flag environment (tables'.variations.filter _)
    (tables'.rollouts.filter _) (tables'.progressiveStages.filter _) _ = _
  rw [variations_of_eq heq, rollouts_of_eq heq hown, stages_of_eq heq hown]
  exact congrArg (LoadedConfig.mk row flag environment _ _ _) hrules

/-- A configuration is compiled from the identities of its flag and its
environment. -/
theorem compile_load_congr (hflag : flag'.identity = flag.identity)
    (henvironment : environment'.identity = environment.identity)
    (hchildren : tables'.of row.id = tables.of row.id) :
    compileConfiguration (tables'.load row flag' environment')
      = compileConfiguration (tables.load row flag environment) := by
  have hproject : flag'.projectId = flag.projectId :=
    congrArg FeatureFlagRow.Identity.projectId hflag
  have hkey : flag'.key = flag.key := congrArg FeatureFlagRow.Identity.key hflag
  have htype : flag'.flagType = flag.flagType := congrArg FeatureFlagRow.Identity.flagType hflag
  have henvironmentKey : environment'.key = environment.key :=
    congrArg EnvironmentRow.Identity.key henvironment
  rw [load_of_eq hchildren]
  unfold compileConfiguration ChildTables.load
  simp only [hproject, hkey, htype, henvironmentKey]

/-- Two rows of two exports that give the same configuration. The name and the description of a
flag are not exported, so the flags need only have the same identity. -/
structure SameExport (s s' : Database)
    (item item' : FlagConfigRow × FeatureFlagRow × EnvironmentRow) : Prop where
  /-- The row is the same, with its version. -/
  row : item'.1 = item.1
  /-- Of the flag the columns that are exported are the same, -/
  flag : item'.2.1.identity = item.2.1.identity
  /-- and whether it is archived. -/
  archivedAt : item'.2.1.archivedAt = item.2.1.archivedAt
  /-- Of the environment only the identity counts; its revision is not in the document of a
  flag. -/
  environment : item'.2.2.identity = item.2.2.identity
  /-- The child tables give the same rows, in the same order. -/
  children : s'.children.of item.1.id = s.children.of item.1.id

/-- Comprehensions over related lists agree where their bodies do. -/
theorem mapM_congr_forall₂ {ε α β γ : Type} {R : α → β → Prop} {f : α → Except ε γ}
    {g : β → Except ε γ} (hfg : ∀ x y, R x y → f x = g y) {xs : List α} {ys : List β}
    (h : List.Forall₂ R xs ys) : xs.mapM f = ys.mapM g := by
  induction h with
  | nil => rfl
  | cons hxy _ ih => rw [List.mapM_cons, List.mapM_cons, hfg _ _ hxy, ih]

/-- A row exports as itself. -/
theorem SameExport.refl (s : Database) (item : FlagConfigRow × FeatureFlagRow × EnvironmentRow) :
    SameExport s s item item :=
  ⟨rfl, rfl, rfl, rfl, rfl⟩

/-- And as what it exports as later. -/
theorem SameExport.trans {s s' s'' : Database}
    {item item' item'' : FlagConfigRow × FeatureFlagRow × EnvironmentRow}
    (h : SameExport s s' item item') (h' : SameExport s' s'' item' item'') :
    SameExport s s'' item item'' where
  row := h'.row.trans h.row
  flag := h'.flag.trans h.flag
  archivedAt := h'.archivedAt.trans h.archivedAt
  environment := h'.environment.trans h.environment
  children := by
    have hchildren := h'.children
    rw [h.row] at hchildren
    exact hchildren.trans h.children

/-- **Two states have the same rows of an environment**: the same
configurations, and of each of them the same flag and the same children. -/
structure SameRows (s s' : Database) (environmentId : UUID) : Prop where
  configs : s'.configs.filter (fun row => row.environmentId = environmentId)
    = s.configs.filter (fun row => row.environmentId = environmentId)
  rows : ∀ row ∈ s.configs, row.environmentId = environmentId → ∃ item item',
    s.joined row = some item ∧ s'.joined row = some item' ∧ SameExport s s' item item'

/-- Nothing changed twice. -/
theorem SameRows.trans {s s' s'' : Database} {environmentId : UUID}
    (h : SameRows s s' environmentId) (h' : SameRows s' s'' environmentId) :
    SameRows s s'' environmentId where
  configs := h'.configs.trans h.configs
  rows := by
    intro row hrow he
    have hrow' : row ∈ s'.configs.filter (fun row => row.environmentId = environmentId) := by
      rw [h.configs]
      exact List.mem_filter.mpr ⟨hrow, decide_eq_true he⟩
    obtain ⟨item, item₁, hitem, hitem₁, hsame⟩ := h.rows row hrow he
    obtain ⟨item₂, item', hitem₂, hitem', hsame'⟩ := h'.rows row (List.mem_filter.mp hrow').1 he
    rw [hitem₁] at hitem₂
    cases hitem₂
    exact ⟨item, item', hitem, hitem', hsame.trans hsame'⟩

/-- **An export depends on the rows of its environment only.** -/
theorem SameRows.exported {s s' : Database} {environmentId : UUID}
    (h : SameRows s s' environmentId) (projectId : UUID) :
    s'.exported projectId environmentId = s.exported projectId environmentId := by
  obtain ⟨hconfigs, hrows⟩ := h
  have hlisted : List.Forall₂ (fun item' item => SameExport s s' item item')
      ((s.configs.filter (fun row => row.environmentId = environmentId)).filterMap
        (s'.exportedRow projectId))
      ((s.configs.filter (fun row => row.environmentId = environmentId)).filterMap
        (s.exportedRow projectId)) := by
    -- every row is joined with a flag and an environment that export the same
    have hall : ∀ row ∈ s.configs.filter (fun row => row.environmentId = environmentId),
        ∃ item item', s.joined row = some item ∧ s'.joined row = some item'
          ∧ SameExport s s' item item' := by
      intro row hr
      obtain ⟨hmem, he⟩ := List.mem_filter.mp hr
      exact hrows row hmem (of_decide_eq_true he)
    generalize s.configs.filter (fun row => row.environmentId = environmentId) = rows at hall ⊢
    induction rows with
    | nil => exact .nil
    | cons row rows ih =>
      obtain ⟨item, item', hitem, hitem', hsame⟩ := hall row List.mem_cons_self
      have hproject : item'.2.1.projectId = item.2.1.projectId :=
        congrArg FeatureFlagRow.Identity.projectId hsame.flag
      have hrest := ih (fun other hm => hall other (List.mem_cons_of_mem row hm))
      -- a row is listed in both states, or in none
      by_cases hlist : item.2.1.projectId = projectId ∧ item.2.1.archivedAt = none
      · have hlist' : item'.2.1.projectId = projectId ∧ item'.2.1.archivedAt = none := by
          rw [hproject, hsame.archivedAt]
          exact hlist
        have h : s.exportedRow projectId row = some item := by
          rw [Database.exportedRow, hitem, Option.filter_some, if_pos (decide_eq_true hlist)]
        have h' : s'.exportedRow projectId row = some item' := by
          rw [Database.exportedRow, hitem', Option.filter_some, if_pos (decide_eq_true hlist')]
        rw [List.filterMap_cons_some h, List.filterMap_cons_some h']
        exact .cons hsame hrest
      · have hlist' : ¬ (item'.2.1.projectId = projectId ∧ item'.2.1.archivedAt = none) := by
          rw [hproject, hsame.archivedAt]
          exact hlist
        have h : s.exportedRow projectId row = none := by
          rw [Database.exportedRow, hitem, Option.filter_some, if_neg (by simpa using hlist)]
        have h' : s'.exportedRow projectId row = none := by
          rw [Database.exportedRow, hitem', Option.filter_some, if_neg (by simpa using hlist')]
        rw [List.filterMap_cons_none h, List.filterMap_cons_none h']
        exact hrest
  unfold Database.exported
  rw [hconfigs]
  refine mapM_congr_forall₂ (R := fun item' item => SameExport s s' item item') ?_
    (forall₂_sortedBy (fun item' item h => congrArg FeatureFlagRow.Identity.key h.flag) hlisted)
  intro item' item hsame
  rw [hsame.row]
  exact compile_load_congr hsame.flag hsame.environment hsame.children

end Export

/-! ## What a commit does to a revision -/

/-- The value a write assigns to the revision of an environment. -/
def Write.assigned? (id : UUID) : Write → Option ℕ
  | .environment (.setRevision id' revision) => if id' = id then some revision else none
  | _ => none

/-- The values some writes assign to the revision of an environment. -/
def assignedRevisions (id : UUID) (writes : List Write) : List ℕ :=
  writes.filterMap (Write.assigned? id)

/-- The revision of an environment after a write. -/
def Write.revisionAfter (id : UUID) (revision : ℕ) : Write → ℕ
  | .environment (.increment id') => if id' = id then revision + 1 else revision
  | .environment (.setRevision id' revision') => if id' = id then revision' else revision
  | _ => revision

/-- Where the revision of an environment is found after a write. -/
theorem exists_revision_apply (s : Database) (w : Write) {row : EnvironmentRow}
    (hrow : row ∈ s.environments) : ∃ row' ∈ (s.apply w).environments, row'.id = row.id
      ∧ row'.revision = w.revisionAfter row.id row.revision := by
  have hsame : row ∈ s.environments → ∃ row' ∈ s.environments, row'.id = row.id
      ∧ row'.revision = row.revision := fun h => ⟨row, h, rfl, rfl⟩
  cases w with
  | environment op =>
    cases op with
    | insert new => exact ⟨row, List.mem_append_left _ hrow, rfl, rfl⟩
    | increment id =>
      refine ⟨_, List.mem_map_of_mem hrow, ?_⟩
      by_cases h : row.id = id
      · rw [if_pos h]
        exact ⟨rfl, (if_pos h.symm).symm⟩
      · rw [if_neg h]
        exact ⟨rfl, (if_neg (fun h' => h h'.symm)).symm⟩
    | setRevision id revision =>
      refine ⟨_, List.mem_map_of_mem hrow, ?_⟩
      by_cases h : row.id = id
      · rw [if_pos h]
        exact ⟨rfl, (if_pos h.symm).symm⟩
      · rw [if_neg h]
        exact ⟨rfl, (if_neg (fun h' => h h'.symm)).symm⟩
  | _ => exact hsame hrow

/-- And after several. -/
theorem exists_revision_view (s : Database) (writes : List Write) {row : EnvironmentRow}
    (hrow : row ∈ s.environments) :
    ∃ row' ∈ (service.view writes s).environments, row'.id = row.id
      ∧ row'.revision = writes.foldl (Write.revisionAfter row.id) row.revision := by
  induction writes generalizing s row with
  | nil => exact ⟨row, hrow, rfl, rfl⟩
  | cons w writes ih =>
    obtain ⟨row₁, hr₁, hid₁, hrevision₁⟩ := exists_revision_apply s w hrow
    obtain ⟨row₂, hr₂, hid₂, hrevision₂⟩ := ih (s.apply w) hr₁
    refine ⟨row₂, hr₂, hid₂.trans hid₁, ?_⟩
    rw [hrevision₂, hid₁, hrevision₁]
    rfl

/-- **A revision ends no lower than its assignments**, and without any it only
grows. -/
theorem le_foldl_revisionAfter {id : UUID} {bound : ℕ} {writes : List Write}
    (hbound : ∀ n ∈ assignedRevisions id writes, bound ≤ n) {revision : ℕ}
    (h : assignedRevisions id writes ≠ [] ∨ bound ≤ revision) :
    bound ≤ writes.foldl (Write.revisionAfter id) revision := by
  induction writes generalizing revision with
  | nil => exact h.resolve_left (fun hne => hne rfl)
  | cons w writes ih =>
    rw [List.foldl_cons]
    have hother : w.assigned? id = none → revision ≤ w.revisionAfter id revision →
        bound ≤ writes.foldl (Write.revisionAfter id) (w.revisionAfter id revision) := by
      intro hnone hle
      have hsame : assignedRevisions id (w :: writes) = assignedRevisions id writes :=
        List.filterMap_cons_none hnone
      rw [hsame] at hbound h
      exact ih hbound (h.imp_right (fun hb => le_trans hb hle))
    cases w with
    | environment op =>
      cases op with
      | insert row => exact hother rfl (le_refl _)
      | increment id' =>
        refine hother rfl ?_
        show revision ≤ if id' = id then revision + 1 else revision
        split <;> omega
      | setRevision id' revision' =>
        by_cases hid : id' = id
        · -- what was there before the assignment does not matter
          have hsome : assignedRevisions id (.environment (.setRevision id' revision') :: writes)
              = revision' :: assignedRevisions id writes :=
            List.filterMap_cons_some (if_pos hid)
          rw [hsome] at hbound
          have hafter : Write.revisionAfter id revision (.environment (.setRevision id' revision'))
              = revision' := if_pos hid
          rw [hafter]
          exact ih (fun n hn => hbound n (List.mem_cons_of_mem _ hn))
            (Or.inr (hbound revision' List.mem_cons_self))
        · refine hother (if_neg hid) ?_
          show revision ≤ if id' = id then revision' else revision
          rw [if_neg hid]
    | _ => exact hother rfl (le_refl _)

/-! ## What the effects assign -/

section Assigned

variable {s : Database} {locks : List Row} (id : UUID)

/-- The value an update assigns, where it is one of the environment. -/
def Update.assigned? (u : Update) : Option ℕ :=
  if u.environment.id = id then some (u.environment.revision + 1) else none

/-- No statement of a round assigns a revision. -/
theorem assigned_statements (rounds : List Round) :
    assignedRevisions id (rounds.flatMap Round.statements) = [] := by
  refine List.filterMap_eq_nil_iff.mpr (fun w hw => ?_)
  obtain ⟨r, -, hw⟩ := List.mem_flatMap.mp hw
  obtain ⟨u, -, hw⟩ := List.mem_flatMap.mp hw
  simp only [Update.statements, List.mem_cons, List.not_mem_nil, or_false] at hw
  rcases hw with rfl | rfl | rfl | rfl | rfl | rfl <;> rfl

/-- Rounds assign the revisions of their updates. -/
theorem assigned_rounds (rounds : List Round) :
    assignedRevisions id (roundWrites rounds)
      = (updatesOf rounds).filterMap (Update.assigned? id) := by
  have hsplit : assignedRevisions id (roundWrites rounds)
      = assignedRevisions id (rounds.flatMap Round.statements)
        ++ assignedRevisions id (rounds.flatMap Round.pending) := List.filterMap_append
  rw [hsplit, assigned_statements, List.nil_append]
  unfold assignedRevisions updatesOf
  rw [List.filterMap_filterMap]
  induction rounds with
  | nil => rfl
  | cons r rounds ih =>
    have hrest : assignedRevisions id (roundWrites rounds)
        = assignedRevisions id (rounds.flatMap Round.statements)
          ++ assignedRevisions id (rounds.flatMap Round.pending) := List.filterMap_append
    rw [List.flatMap_cons, List.filterMap_append, ih hrest, List.filterMap_cons]
    have hmark : (r.applied.toList.map (fun item =>
        Write.change (.setAppliedAt item.1 item.2))).filterMap (Write.assigned? id) = [] := by
      cases r.applied with
      | none => rfl
      | some item => rfl
    unfold Round.pending
    rw [List.filterMap_append, hmark, List.append_nil]
    cases r.update with
    | none => rfl
    | some u =>
      have hpending : u.pending.filterMap (Write.assigned? id) = [] :=
        pending_filterMap (Write.assigned? id) u (fun _ => rfl)
      show (u.pending ++ [_] ++ []).filterMap _ ++ _ = _
      rw [List.append_nil, List.filterMap_append, hpending, List.nil_append]
      unfold Update.assigned?
      by_cases hid : u.environment.id = id
      · simp [Write.assigned?, hid]
      · simp [Write.assigned?, hid]

/-- A creation assigns one. -/
theorem assigned_creation (k : Creation) :
    assignedRevisions id k.writes
      = (if k.environment.id = id then some (k.environment.revision + 1) else none).toList := by
  show [Write.environment (.setRevision k.environment.id
    (k.environment.revision + 1))].filterMap (Write.assigned? id) = _
  by_cases hid : k.environment.id = id
  · simp [Write.assigned?, hid]
  · simp [Write.assigned?, hid]

/-- An archiving assigns one for each configuration of the flag. -/
theorem assigned_archiving (a : Archiving) :
    assignedRevisions id a.writes = a.touched.filterMap (fun item =>
      if item.2.id = id then some (item.2.revision + 1) else none) := by
  unfold assignedRevisions Archiving.writes
  rw [List.filterMap_append, List.filterMap_cons_none rfl, List.filterMap_map]
  exact List.append_nil _

/-- Other writes assign none. -/
theorem assigned_plain {ws : List Write} (h : ∀ w ∈ ws, w.isPlain = true) :
    assignedRevisions id ws = [] := by
  refine filterMap_plain h (fun w hw => ?_)
  cases w with
  | environment op =>
    cases op with
    | insert row => rfl
    | increment id' => cases hw
    | setRevision id' n => cases hw
  | _ => rfl

/-- **No later assignment of a transaction is below an earlier one.** -/
theorem pairwise_assigned {effect : Effect} (hs : s.Consistent) (hfits : effect.Fits s locks) :
    (assignedRevisions id effect.writes).Pairwise (· ≤ ·) := by
  cases effect with
  | rounds rs =>
    show (assignedRevisions id (roundWrites rs)).Pairwise _
    rw [assigned_rounds, List.pairwise_filterMap]
    -- two updates are in different environments, so at most one of them assigns
    refine (List.pairwise_map.mp hfits.separate).imp (fun {u v} hne n hn m hm => ?_)
    unfold Update.assigned? at hn hm
    split at hn
    · rename_i hu
      split at hm
      · rename_i hv
        exact absurd (hu.trans hv.symm) hne
      · cases hm
    · cases hn
  | creation k =>
    show (assignedRevisions id k.writes).Pairwise _
    rw [assigned_creation]
    split
    · exact List.pairwise_singleton _ _
    · exact .nil
  | archiving a =>
    show (assignedRevisions id a.writes).Pairwise _
    rw [assigned_archiving, List.pairwise_filterMap]
    have hdistinct := List.pairwise_map.mp hfits.distinct
    refine hdistinct.imp_of_mem (fun {item other} hi ho hne n hn m hm => absurd ?_ hne)
    -- a flag has one configuration in an environment
    split at hn
    · rename_i hi'
      split at hm
      · rename_i ho'
        obtain ⟨hk, hflag, henvironment⟩ := hfits.touchedKnown item hi
        obtain ⟨hk', hflag', henvironment'⟩ := hfits.touchedKnown other ho
        have heq := identity_of_pair hs hk hk' (hflag.trans hflag'.symm)
          (((henvironment.trans hi').trans ho'.symm).trans henvironment'.symm)
        exact congrArg FlagConfigRow.Identity.id heq
      · cases hm
    · cases hn
  | plain ws =>
    show (assignedRevisions id ws).Pairwise _
    rw [assigned_plain id hfits]
    exact .nil

end Assigned

/-! ## Exports a commit leaves alone -/

section Frame

variable {s : Database} {locks : List Row} {id : UUID}

/-- An archiving of another flag leaves a flag as it is. -/
theorem exists_archivedAt_view {writes : List Write} {flagId : UUID}
    (h : ∀ t, .flag (.setArchivedAt flagId t) ∉ writes) {flag : FeatureFlagRow}
    (hflag : flag ∈ s.flags) (hid : flag.id = flagId) :
    ∃ flag' ∈ (service.view writes s).flags, flag'.id = flagId
      ∧ flag'.archivedAt = flag.archivedAt := by
  induction writes generalizing s flag with
  | nil => exact ⟨flag, hflag, hid, rfl⟩
  | cons w writes ih =>
    have hrest : ∀ t, .flag (.setArchivedAt flagId t) ∉ writes :=
      fun t hm => h t (List.mem_cons_of_mem w hm)
    have hfirst : ∃ flag₁ ∈ (s.apply w).flags, flag₁.id = flagId
        ∧ flag₁.archivedAt = flag.archivedAt := by
      cases w with
      | flag op =>
        cases op with
        | insert row => exact ⟨flag, List.mem_append_left _ hflag, hid, rfl⟩
        | setName id' name =>
          refine ⟨_, List.mem_map_of_mem hflag, ?_⟩
          split <;> exact ⟨hid, rfl⟩
        | setDescription id' text =>
          refine ⟨_, List.mem_map_of_mem hflag, ?_⟩
          split <;> exact ⟨hid, rfl⟩
        | setArchivedAt id' t =>
          refine ⟨_, List.mem_map_of_mem hflag, ?_⟩
          have hne : flag.id ≠ id' := by
            rintro rfl
            exact h t (hid ▸ List.mem_cons_self)
          rw [if_neg hne]
          exact ⟨hid, rfl⟩
      | _ => exact ⟨flag, hflag, hid, rfl⟩
    obtain ⟨flag₁, hflag₁, hid₁, harchived₁⟩ := hfirst
    obtain ⟨flag₂, hflag₂, hid₂, harchived₂⟩ := ih hrest hflag₁ hid₁
    exact ⟨flag₂, hflag₂, hid₂, harchived₂.trans harchived₁⟩

/-- The row a lookup by a unique key finds. -/
theorem find?_eq_some_of_mem {α κ : Type} [DecidableEq κ] {f : α → κ} {xs : List α}
    (hnd : (xs.map f).Nodup) {a : α} (ha : a ∈ xs) {k : κ} (hk : f a = k) :
    xs.find? (fun x => f x = k) = some a := by
  cases hfind : xs.find? (fun x => f x = k) with
  | none =>
    have hnone := List.find?_eq_none.mp hfind a ha
    exact absurd (decide_eq_true hk) hnone
  | some b =>
    obtain ⟨hb, hkey⟩ := mem_and_of_find? hfind
    rw [List.inj_on_of_nodup_map hnd hb ha (hkey.trans hk.symm)]

/-- **A row of an export stays what it is** where the writes touch neither its
children nor the archiving of its flag. -/
theorem exists_sameExport {writes : List Write} (hs : s.Consistent)
    (hok : (service.view writes s).Consistent) {row : FlagConfigRow} (hrow : row ∈ s.configs)
    (harchive : ∀ t, .flag (.setArchivedAt row.flagId t) ∉ writes)
    (hchildren : (service.view writes s).children.of row.id = s.children.of row.id) :
    ∃ item item', s.joined row = some item ∧ (service.view writes s).joined row = some item'
      ∧ SameExport s (service.view writes s) item item' := by
  have hgrows := grows_view writes s
  obtain ⟨flag, hf, hfid⟩ := List.mem_map.mp (hs.references.configFlags row hrow)
  obtain ⟨environment, he, heid⟩ :=
    List.mem_map.mp (hs.references.configEnvironments row hrow)
  obtain ⟨flag', hf', hfid', harchived⟩ := exists_archivedAt_view harchive hf hfid
  obtain ⟨environment', he', hidentity⟩ :=
    List.mem_map.mp (hgrows.environments.subset (List.mem_map_of_mem he))
  have heid' : environment'.id = row.environmentId :=
    (congrArg EnvironmentRow.Identity.id hidentity).trans heid
  refine ⟨(row, flag, environment), (row, flag', environment'), ?_, ?_, rfl, ?_, harchived,
    hidentity, hchildren⟩
  · exact joined_eq_some.mpr ⟨rfl, find?_eq_some_of_mem hs.keys.flagIds hf hfid,
      find?_eq_some_of_mem hs.keys.environmentIds he heid⟩
  · exact joined_eq_some.mpr ⟨rfl, find?_eq_some_of_mem hok.keys.flagIds hf' hfid',
      find?_eq_some_of_mem hok.keys.environmentIds he' heid'⟩
  · exact flag_identity hok hgrows hf' (List.mem_map_of_mem hf) (hfid'.trans hfid.symm)

theorem not_mem_setArchivedAt_rounds (rounds : List Round) (flagId : UUID) (t : Instant) :
    .flag (.setArchivedAt flagId t) ∉ roundWrites rounds := by
  intro hm
  rcases List.mem_append.mp hm with hm | hm
  · obtain ⟨r, -, hm⟩ := List.mem_flatMap.mp hm
    obtain ⟨u, -, hm⟩ := List.mem_flatMap.mp hm
    simp [Update.statements] at hm
  · obtain ⟨r, -, hm⟩ := List.mem_flatMap.mp hm
    simp [Round.pending, Update.pending, updatePending, recordAudit] at hm

/-- Rounds that assign no revision of an environment update no configuration of it. -/
theorem sameRows_rounds {rs : List Round} (hs : s.Consistent)
    (hfits : (Effect.rounds rs).Fits s locks)
    (hok : (service.view (roundWrites rs) s).Consistent)
    (hnone : assignedRevisions id (roundWrites rs) = []) :
    SameRows s (service.view (roundWrites rs) s) id := by
  rw [assigned_rounds, List.filterMap_eq_nil_iff] at hnone
  -- the configurations of the environment are none of the updated ones
  have hother : ∀ row ∈ s.configs, row.environmentId = id →
      row.id ∉ (updatesOf rs).map Update.configId := by
    intro row hr he hm
    obtain ⟨u, hu, hid⟩ := List.mem_map.mp hm
    have henvironment := (Update.Known.row_eq hs (hfits.known u hu) hr hid.symm).2.1
    have hunassigned := hnone u hu
    rw [Update.assigned?, if_pos (henvironment.symm.trans he)] at hunassigned
    cases hunassigned
  refine ⟨?_, fun row hr he => ?_⟩
  · rw [configs_rounds, List.filter_map]
    have hkeep : ∀ row : FlagConfigRow,
        (updatedRow (updatesOf rs) row).environmentId = row.environmentId :=
      fun row => congrArg FlagConfigRow.Identity.environmentId (identity_updatedRow _ row)
    have hpredicate : ((fun row : FlagConfigRow => decide (row.environmentId = id))
        ∘ updatedRow (updatesOf rs)) = (fun row => decide (row.environmentId = id)) := by
      funext row
      exact congrArg (fun e => decide (e = id)) (hkeep row)
    rw [hpredicate]
    refine (List.map_congr_left (fun row hr => ?_)).trans (List.map_id _)
    obtain ⟨hmem, he⟩ := List.mem_filter.mp hr
    exact updatedRow_of_not_mem (hother row hmem (of_decide_eq_true he))
  · exact exists_sameExport hs hok hr (not_mem_setArchivedAt_rounds rs _)
      ((children_of_ok hs hfits hok).2 _ (hother row hr he))

/-- A creation that assigns no revision of an environment is one in another. -/
theorem sameRows_creation {k : Creation} (hs : s.Consistent)
    (hok : (service.view k.writes s).Consistent) (hnone : assignedRevisions id k.writes = []) :
    SameRows s (service.view k.writes s) id := by
  rw [assigned_creation] at hnone
  have hne : ¬ k.environment.id = id := by
    intro heq
    rw [if_pos heq] at hnone
    cases hnone
  refine ⟨?_, fun row hr he => ?_⟩
  · show (s.configs ++ [k.configRow]).filter _ = _
    rw [List.filter_append, List.filter_cons_of_neg (by simp [Creation.configRow, hne])]
    exact List.append_nil _
  · refine exists_sameExport hs hok hr (fun t hm => ?_)
      ((children_creation hs hok).2 _ (fun heq => ?_))
    · simp [Creation.writes] at hm
    · exact (fresh_of_ok hok).configId (heq ▸ List.mem_map_of_mem hr)

/-- An archiving assigns a revision of every environment its flag is in. -/
theorem sameRows_archiving {a : Archiving} (hs : s.Consistent)
    (hfits : (Effect.archiving a).Fits s locks) (hok : (service.view a.writes s).Consistent)
    (hnone : assignedRevisions id a.writes = []) :
    SameRows s (service.view a.writes s) id := by
  have hconfigs : (service.view a.writes s).configs = s.configs := by
    rw [view_configs, filterMap_archiving a (fun _ => rfl) (fun _ _ => rfl) rfl]
    rfl
  have hchildren : (service.view a.writes s).children = s.children := by
    rw [view_children, filterMap_archiving a (fun _ => rfl) (fun _ _ => rfl) rfl]
    rfl
  refine ⟨by rw [hconfigs], fun row hr he => exists_sameExport hs hok hr (fun t hm => ?_)
    (by rw [hchildren])⟩
  have hflag : row.flagId = a.flag.id := by
    simp only [Archiving.writes, List.cons_append, List.mem_cons, List.mem_append,
      List.mem_map, reduceCtorEq, and_false, exists_false, List.not_mem_nil,
      or_false, Write.flag.injEq, FlagWrite.setArchivedAt.injEq] at hm
    exact hm.1
  obtain ⟨item, hi, heq⟩ := hfits.complete row.identity (List.mem_map_of_mem hr) hflag
  obtain ⟨-, -, henvironment⟩ := hfits.touchedKnown item hi
  have hid : item.2.id = id := by
    rw [← henvironment, ← he]
    exact congrArg FlagConfigRow.Identity.environmentId heq
  rw [assigned_archiving, List.filterMap_eq_nil_iff] at hnone
  have hunassigned := hnone item hi
  rw [if_pos hid] at hunassigned
  cases hunassigned

/-- Other writes touch no row of an export. -/
theorem sameRows_plain {ws : List Write} (hs : s.Consistent)
    (hfits : (Effect.plain ws).Fits s locks) (hok : (service.view ws s).Consistent) :
    SameRows s (service.view ws s) id := by
  have hconfigs : (service.view ws s).configs = s.configs := by
    rw [view_configs, filterMap_plain hfits config?_of_isPlain]
    rfl
  have hchildren : (service.view ws s).children = s.children := by
    rw [view_children, filterMap_plain hfits child?_of_isPlain]
    rfl
  refine ⟨by rw [hconfigs], fun row hr he => exists_sameExport hs hok hr (fun t hm => ?_)
    (by rw [hchildren])⟩
  exact absurd (hfits _ hm) (by simp [Write.isPlain])

/-- **A commit that assigns no revision of an environment leaves its rows
alone.** -/
theorem sameRows_of_unassigned {effect : Effect} (hs : s.Consistent)
    (hfits : effect.Fits s locks) (hok : (service.view effect.writes s).Consistent)
    (hnone : assignedRevisions id effect.writes = []) :
    SameRows s (service.view effect.writes s) id := by
  cases effect with
  | rounds rs => exact sameRows_rounds hs hfits hok hnone
  | creation k => exact sameRows_creation hs hok hnone
  | archiving a => exact sameRows_archiving hs hfits hok hnone
  | plain ws => exact sameRows_plain hs hfits hok

end Frame

/-! ## Every run -/

/-- **The transaction assigns no stale revision**: the first value it assigns is
the committed revision plus one, that is, the revision it read is still the
committed one. -/
def ReadsCurrent (writes : List Write) (s : Database) : Prop :=
  ∀ environment ∈ s.environments,
    ∀ revision ∈ (assignedRevisions environment.id writes).head?,
      revision = environment.revision + 1

instance (writes : List Write) (s : Database) : Decidable (ReadsCurrent writes s) :=
  inferInstanceAs (Decidable (∀ environment ∈ s.environments,
    ∀ revision ∈ (assignedRevisions environment.id writes).head?,
      revision = environment.revision + 1))

open Classical in
/-- Whether an export changes. -/
noncomputable def exportChange (projectId environmentId : UUID) (s s' : Database) : ℕ :=
  if s'.exported projectId environmentId = s.exported projectId environmentId then 0 else 1

/-- **The number of steps of a run that change an export.** -/
noncomputable def exportChanges (projectId environmentId : UUID) (w : ServiceWorld) :
    List (Action Choice Request) → ℕ
  | [] => 0
  | action :: rest =>
    match service.step w action with
    | none => 0
    | some w' => exportChange projectId environmentId w.committed w'.committed
        + exportChanges projectId environmentId w' rest

/-- A step that commits nothing changes no export. -/
theorem exportChange_self (projectId environmentId : UUID) (s : Database) :
    exportChange projectId environmentId s s = 0 :=
  if_pos rfl

/-- **A revision tells a change**: of two states, the later one has the higher
revision of an environment, or has the same rows of it. -/
def RevisionTells (s s' : Database) (environmentId : UUID) : Prop :=
  ∀ environment ∈ s.environments, environment.id = environmentId →
    ∃ environment' ∈ s'.environments, environment'.id = environmentId
      ∧ environment.revision ≤ environment'.revision
      ∧ (environment'.revision = environment.revision → SameRows s s' environmentId)

/-- **A commit that assigns no stale revision of an environment raises it** where
it touches the rows of the environment. -/
theorem revisionTells_commit {s : Database} {locks : List Row} {effect : Effect}
    (hs : s.Consistent) (hfits : effect.Fits s locks)
    (hok : (service.view effect.writes s).Consistent) {environmentId : UUID}
    (hreads : ∀ environment ∈ s.environments, environment.id = environmentId →
      ∀ revision ∈ (assignedRevisions environment.id effect.writes).head?,
        revision = environment.revision + 1) :
    RevisionTells s (service.view effect.writes s) environmentId := by
  rintro environment he rfl
  obtain ⟨environment', he', hid, hrevision⟩ := exists_revision_view s effect.writes he
  refine ⟨environment', he', hid, ?_⟩
  rw [hrevision]
  cases hassigned : assignedRevisions environment.id effect.writes with
  | nil =>
    refine ⟨le_foldl_revisionAfter ?_ (Or.inr (le_refl _)),
      fun _ => sameRows_of_unassigned hs hfits hok hassigned⟩
    rw [hassigned]
    exact fun _ hn => absurd hn List.not_mem_nil
  | cons first rest =>
    -- the first assignment is of the committed revision plus one, no later one is lower
    have hfirst : first = environment.revision + 1 :=
      hreads environment he rfl first (by rw [hassigned]; exact rfl)
    have hpairwise := pairwise_assigned environment.id hs hfits
    rw [hassigned, List.pairwise_cons] at hpairwise
    have hbound : ∀ n ∈ assignedRevisions environment.id effect.writes,
        environment.revision + 1 ≤ n := by
      rw [hassigned]
      refine List.forall_mem_cons.mpr ⟨le_of_eq hfirst.symm, fun n hn => ?_⟩
      exact hfirst ▸ hpairwise.1 n hn
    have hle : environment.revision + 1 ≤ effect.writes.foldl
        (Write.revisionAfter environment.id) environment.revision :=
      le_foldl_revisionAfter hbound (Or.inl (by rw [hassigned]; exact List.cons_ne_nil _ _))
    exact ⟨Nat.le_of_succ_le hle, fun heq => absurd heq (by omega)⟩

/-- **A commit that changes an export raises the revision.** -/
theorem revision_commit {s : Database} {locks : List Row} {effect : Effect}
    (hs : s.Consistent) (hfits : effect.Fits s locks)
    (hok : (service.view effect.writes s).Consistent) (hreads : ReadsCurrent effect.writes s)
    {environment : EnvironmentRow} (he : environment ∈ s.environments) (projectId : UUID) :
    ∃ environment' ∈ (service.view effect.writes s).environments,
      environment'.id = environment.id
        ∧ environment.revision
          + exportChange projectId environment.id s (service.view effect.writes s)
          ≤ environment'.revision := by
  obtain ⟨environment', he', hid, hle, hsame⟩ :=
    revisionTells_commit hs hfits hok (fun row hrow _ => hreads row hrow) environment he rfl
  refine ⟨environment', he', hid, ?_⟩
  unfold exportChange
  split
  · exact hle
  · rename_i hchanges
    have hne : environment'.revision ≠ environment.revision :=
      fun heq => hchanges ((hsame heq).exported projectId)
    omega

/-- **What the revisions count** in a run: at least the commits that change the export of their
environment. -/
def CountsRevisions (w : ServiceWorld) (actions : List (Action Choice Request))
    (w' : ServiceWorld) : Prop :=
  ∀ environment ∈ w.committed.environments, ∃ environment' ∈ w'.committed.environments,
    environment'.id = environment.id
      ∧ environment.revision + exportChanges environment.projectId environment.id w actions
        ≤ environment'.revision

/-- The count, carried along a run from a state in good order. -/
theorem revisions_of_good {actions : List (Action Choice Request)} {w w' : ServiceWorld}
    (hgood : w.Good discipline History (fun _ => Commits))
    (hmeets : service.CommitsMeet (fun _ => ReadsCurrent) w actions)
    (hrun : service.run w actions = some w') (projectId : UUID) {environment : EnvironmentRow}
    (he : environment ∈ w.committed.environments) :
    ∃ environment' ∈ w'.committed.environments, environment'.id = environment.id
      ∧ environment.revision + exportChanges projectId environment.id w actions
        ≤ environment'.revision := by
  induction actions generalizing w environment with
  | nil =>
    cases hrun
    exact ⟨environment, he, rfl, le_refl _⟩
  | cons action rest ih =>
    obtain ⟨w₁, hstep, hrest⟩ := Option.bind_eq_some_iff.mp hrun
    have hgood₁ := (service_respects.step hgood (fun _ _ _ _ => trivial) hstep).1
    have hfirst : ∃ environment₁ ∈ w₁.committed.environments, environment₁.id = environment.id
        ∧ environment.revision
          + exportChange projectId environment.id w.committed w₁.committed
          ≤ environment₁.revision := by
      rcases committed_step hgood hstep with hsame | ⟨id, tx, effect, locks, rfl, htx, hwrites,
        hfits, hcommitted, hok⟩
      · rw [hsame, exportChange_self]
        exact ⟨environment, he, rfl, le_refl _⟩
      · have hreads := hmeets.1 id tx rfl htx
        rw [hwrites] at hreads
        rw [hcommitted]
        exact revision_commit hgood.invariant.consistent hfits hok hreads he projectId
    obtain ⟨environment₁, he₁, hid₁, hle₁⟩ := hfirst
    obtain ⟨environment', he', hid', hle'⟩ := ih hgood₁ (hmeets.2 w₁ hstep) hrest he₁
    refine ⟨environment', he', hid'.trans hid₁, ?_⟩
    rw [hid₁] at hle'
    rw [exportChanges, hstep]
    show environment.revision + (exportChange _ _ _ _ + exportChanges _ _ _ _) ≤ _
    omega

/-- **While no stale revision is assigned the revisions count the exports.** -/
theorem revisions_count {actions actions' : List (Action Choice Request)} {w w' : ServiceWorld}
    (hrun : service.run initial actions = some w) (hrun' : service.run w actions' = some w')
    (hmeets : service.CommitsMeet (fun _ => ReadsCurrent) w actions') :
    CountsRevisions w actions' w' :=
  fun environment he => revisions_of_good (good_of_run hrun) hmeets hrun' environment.projectId he

theorem revisions_count_sample : ∃ w w', service.run initial sampleFlag = some w
    ∧ service.run w sampleReplacement = some w'
    ∧ w'.committed.environments.map EnvironmentRow.revision = [2]
    ∧ CountsRevisions w sampleReplacement w' := by
  have hrevisions : (service.run initial (sampleFlag ++ sampleReplacement)).map
      (fun w' => w'.committed.environments.map EnvironmentRow.revision) = some [2] := by
    decide +kernel
  have hcheck : (service.run initial sampleFlag).all (fun w =>
      service.checkCommits (fun _ writes s => decide (ReadsCurrent writes s)) w
        sampleReplacement) = true := by
    decide +kernel
  obtain ⟨w', hrun, hrevision⟩ := Option.map_eq_some_iff.mp hrevisions
  rw [System.run_append] at hrun
  obtain ⟨w, hrun, hrun'⟩ := Option.bind_eq_some_iff.mp hrun
  rw [hrun] at hcheck
  exact ⟨w, w', hrun, hrun', hrevision,
    revisions_count hrun hrun' (System.commitsMeet_of_check service hcheck)⟩

/-! ## A lost revision -/

/-- Two creations in the sample environment, side by side until the second one
waits for the lock of the environment. -/
def sideBySide : List (Action Choice Request) :=
  sampleTenant
  ++ [.start (.createFeatureFlag sampleUser none ⟨20⟩ (sampleCreate "banner" isFlagKey_banner)),
    .start (.createFeatureFlag sampleUser none ⟨20⟩ (sampleCreate "footer" isFlagKey_footer))]
  ++ advances 3 40 12 ++ advances 4 60 11

/-- The first creation commits, the second one goes on and commits. -/
def oneAfterTheOther : List (Action Choice Request) :=
  [.commit 3, .advance 4 (sampleChoice 60), .commit 4]

/-- How many configurations the sample environment exports. -/
def exportSize (w : ServiceWorld) : Option ℕ :=
  (w.committed.exported ⟨20⟩ ⟨30⟩).toOption.map List.length

/-- Exports of different sizes are different. -/
theorem exportChange_of_size {w w' : ServiceWorld} (h : exportSize w ≠ exportSize w') :
    exportChange ⟨20⟩ ⟨30⟩ w.committed w'.committed = 1 :=
  if_neg (fun heq => h (by rw [exportSize, exportSize, heq]))

/-- **A revision is lost**: both creations read revision 0 and assign 1. -/
theorem revisions_lost : ∃ w w', service.run initial sideBySide = some w
    ∧ service.run w oneAfterTheOther = some w' ∧ ¬ CountsRevisions w oneAfterTheOther w' := by
  have hfacts : (service.run initial sideBySide).bind (fun w =>
      (service.step w (.commit 3)).bind (fun w₁ =>
        (service.step w₁ (.advance 4 (sampleChoice 60))).bind (fun w₂ =>
          (service.step w₂ (.commit 4)).map (fun w₃ => ([w, w₁, w₂, w₃].map exportSize,
            w.committed.environments.map (fun row => (row.id, row.projectId, row.revision)),
            w₃.committed.environments.map EnvironmentRow.revision)))))
      = some ([some 0, some 1, some 1, some 2], [(⟨30⟩, ⟨20⟩, 0)], [1]) := by
    decide +kernel
  obtain ⟨w, hrun, hfacts⟩ := Option.bind_eq_some_iff.mp hfacts
  obtain ⟨w₁, hstep₁, hfacts⟩ := Option.bind_eq_some_iff.mp hfacts
  obtain ⟨w₂, hstep₂, hfacts⟩ := Option.bind_eq_some_iff.mp hfacts
  obtain ⟨w₃, hstep₃, hfacts⟩ := Option.map_eq_some_iff.mp hfacts
  simp only [List.map_cons, List.map_nil, Prod.mk.injEq, List.cons.injEq, and_true] at hfacts
  obtain ⟨⟨hsize, hsize₁, hsize₂, hsize₃⟩, henvironments, hrevision⟩ := hfacts
  have hrun₃ : service.run w oneAfterTheOther = some w₃ := by
    show (service.step w _).bind _ = _
    rw [hstep₁]
    show (service.step w₁ _).bind _ = _
    rw [hstep₂]
    show (service.step w₂ _).bind _ = _
    rw [hstep₃]
    rfl
  refine ⟨w, w₃, hrun, hrun₃, fun hcounts => ?_⟩
  obtain ⟨environment, he, hfields⟩ :=
    List.mem_map.mp (henvironments ▸ List.mem_singleton.mpr rfl :
      ((⟨30⟩, ⟨20⟩, 0) : UUID × UUID × ℕ) ∈ w.committed.environments.map _)
  simp only [Prod.mk.injEq] at hfields
  obtain ⟨hid, hproject, hzero⟩ := hfields
  obtain ⟨environment', he', -, hle⟩ := hcounts environment he
  have hone : environment'.revision = 1 := by
    have hm := List.mem_map_of_mem (f := EnvironmentRow.revision) he'
    rw [hrevision] at hm
    exact List.mem_singleton.mp hm
  have hchange₁ : exportChange ⟨20⟩ ⟨30⟩ w.committed w₁.committed = 1 :=
    exportChange_of_size (by rw [hsize, hsize₁]; decide)
  have hchange₃ : exportChange ⟨20⟩ ⟨30⟩ w₂.committed w₃.committed = 1 :=
    exportChange_of_size (by rw [hsize₂, hsize₃]; decide)
  rw [hid, hproject, hzero, hone] at hle
  unfold oneAfterTheOther at hle
  rw [exportChanges, hstep₁] at hle
  dsimp only at hle
  rw [exportChanges, hstep₂] at hle
  dsimp only at hle
  rw [exportChanges, hstep₃] at hle
  dsimp only at hle
  omega

end CohortSwitch
