import CohortSwitch.Batches

/-!
# What a commit does to the tables

The effect of a transaction is known when it commits, and the database has
accepted the result. From both together follows what the commit does: the
configurations it updated were distinct (`RoundsFit.nodup`), their rows carry the
new version and their child rows are those of the new configuration, and of
every other configuration nothing changed. `Effect.evolves` sums this up as
the change that other transactions rely on.

## Children

The writes of a batch come in two waves: the deletions of all rounds run as the
rounds go, the insertions come with the commit. So the tables of children go
through a state in which every updated configuration has none (`clearAll`), and
are filled from there (`insertAll`). Each wave is an induction over the updates
with the frame lemmas of `CohortSwitch.ChildRows`: a step does what it does to its
own configuration and nothing to the others.

What has to be new is new because the database accepted the commit: rule ids are
unique in the result, so the ids of the new rules were none that rows referred to.

## Frames

`Effect.keepsConfigs` is the statement for what is left alone, by kinds of
configurations: all those of a flag, say, or of an environment. A kind that an
effect neither updates nor creates keeps its rows, its versions and its children.
-/

namespace CohortSwitch

/-! ## Child rows after a round of updates -/

/-- The tables without the children of the updated configurations. -/
def clearAll (us : List Update) (tables : ChildTables) : ChildTables :=
  us.foldl (fun tables u => tables.clear u.configId) tables

/-- The tables with the children of the new versions. -/
def insertAll (us : List Update) (tables : ChildTables) : ChildTables :=
  us.foldl (fun tables u => tables.append u.children) tables

/-- The tables hold no row of a configuration but conditions. -/
structure ChildTables.Lacks (tables : ChildTables) (configId : UUID) : Prop where
  variations : ∀ row ∈ tables.variations, row.configId ≠ configId
  rules : ∀ row ∈ tables.rules, row.configId ≠ configId
  rollouts : ∀ row ∈ tables.rollouts, row.parent ≠ .config configId
  progressiveStages : ∀ row ∈ tables.progressiveStages, row.parent ≠ .config configId

/-- After its deletion a configuration has no rows. -/
theorem lacks_clear (tables : ChildTables) (configId : UUID) :
    (tables.clear configId).Lacks configId where
  variations := fun _ hr => of_decide_eq_true (List.mem_filter.mp hr).2
  rules := fun _ hr => of_decide_eq_true (List.mem_filter.mp hr).2
  rollouts := fun _ hr heq =>
    of_decide_eq_true (List.mem_filter.mp hr).2 (belongsTo_eq_true.mpr (Or.inl heq))
  progressiveStages := fun _ hr heq =>
    of_decide_eq_true (List.mem_filter.mp hr).2 (belongsTo_eq_true.mpr (Or.inl heq))

/-- And it has none after other deletions. -/
theorem ChildTables.Lacks.clear {tables : ChildTables} {configId : UUID}
    (h : tables.Lacks configId) (other : UUID) : (tables.clear other).Lacks configId where
  variations := fun row hr => h.variations row (List.mem_of_mem_filter hr)
  rules := fun row hr => h.rules row (List.mem_of_mem_filter hr)
  rollouts := fun row hr => h.rollouts row (List.mem_of_mem_filter hr)
  progressiveStages := fun row hr => h.progressiveStages row (List.mem_of_mem_filter hr)

/-- Nor after insertions for others. -/
theorem ChildTables.Lacks.append {tables : ChildTables} {configId other : UUID}
    (h : tables.Lacks configId) (hne : other ≠ configId) (ruleIds : ℕ → UUID)
    (c : FlagConfiguration) :
    (tables.append (persistChildren ruleIds other c)).Lacks configId := by
  have hparent : ∀ parent : Parent, parent.belongsTo other (newRuleIds ruleIds c) = true →
      parent ≠ .config configId := by
    rintro parent hp rfl
    rcases belongsTo_eq_true.mp hp with hp | ⟨_, _, hp⟩
    · exact hne (Parent.config.inj hp).symm
    · cases hp
  refine ⟨?_, ?_, ?_, ?_⟩
  · intro row hr
    rcases List.mem_append.mp hr with hr | hr
    · exact h.variations row hr
    · obtain ⟨item, -, rfl⟩ := List.mem_map.mp hr
      exact hne
  · intro row hr
    rcases List.mem_append.mp hr with hr | hr
    · exact h.rules row hr
    · exact mem_rules_persistChildren hr ▸ hne
  · intro row hr
    rcases List.mem_append.mp hr with hr | hr
    · exact h.rollouts row hr
    · exact hparent _ (parent_of_mem_rollouts hr)
  · intro row hr
    rcases List.mem_append.mp hr with hr | hr
    · exact h.progressiveStages row hr
    · exact hparent _ (parent_of_mem_stages hr)

/-- **Deleting the children of several configurations.** -/
theorem clearAll_spec (us : List Update) {tables : ChildTables} (hclosed : tables.Closed)
    (hids : (tables.rules.map TargetingRuleRow.id).Nodup) :
    (clearAll us tables).Closed
      ∧ (∀ u ∈ us, (clearAll us tables).Lacks u.configId)
      ∧ (∀ configId, tables.Lacks configId → (clearAll us tables).Lacks configId)
      ∧ ∀ configId, configId ∉ us.map Update.configId →
        (clearAll us tables).of configId = tables.of configId := by
  induction us generalizing tables with
  | nil => exact ⟨hclosed, fun _ h => (by cases h), fun _ h => h, fun _ _ => rfl⟩
  | cons u us ih =>
    obtain ⟨hc, hl, hk, ho⟩ := @ih (tables.clear u.configId) (closed_clear hclosed)
      (hids.sublist (rules_clear_sublist.map _))
    refine ⟨hc, ?_, fun configId h => hk configId (h.clear u.configId), fun configId hn => ?_⟩
    · exact List.forall_mem_cons.mpr ⟨hk _ (lacks_clear tables u.configId), hl⟩
    · rw [List.map_cons, List.mem_cons, not_or] at hn
      exact (ho configId hn.2).trans (of_clear hids hn.1)

theorem rules_insertAll (us : List Update) (tables : ChildTables) :
    (insertAll us tables).rules = tables.rules ++ us.flatMap (fun u => u.children.rules) := by
  unfold insertAll
  induction us generalizing tables with
  | nil => exact (List.append_nil _).symm
  | cons u us ih =>
    rw [List.foldl_cons, ih, List.flatMap_cons, ← List.append_assoc]
    rfl

theorem variations_insertAll (us : List Update) (tables : ChildTables) :
    (insertAll us tables).variations
      = tables.variations ++ us.flatMap (fun u => u.children.variations) := by
  unfold insertAll
  induction us generalizing tables with
  | nil => exact (List.append_nil _).symm
  | cons u us ih =>
    rw [List.foldl_cons, ih, List.flatMap_cons, ← List.append_assoc]
    rfl

/-- **New children among rows of others**: where the rule ids stay unique, the
tables come to store the new configuration. -/
theorem stores_append {tables : ChildTables} {configId : UUID} {ruleIds : ℕ → UUID}
    {c : FlagConfiguration} (hclosed : tables.Closed) (hlacks : tables.Lacks configId)
    (hids : ((tables.append (persistChildren ruleIds configId c)).rules.map
      TargetingRuleRow.id).Nodup) :
    Stores (tables.append (persistChildren ruleIds configId c)) configId
        (identified ruleIds c.rules) c.toConfigurationFields
      ∧ ∀ ruleId ∈ tables.rules.map TargetingRuleRow.id, ruleId ∉ newRuleIds ruleIds c := by
  have happend : (tables.append (persistChildren ruleIds configId c)).rules.map
      TargetingRuleRow.id
      = tables.rules.map TargetingRuleRow.id ++ newRuleIds ruleIds c := by
    rw [← map_id_persistChildren ruleIds configId c]
    exact List.map_append
  rw [happend] at hids
  obtain ⟨-, hnew, hdisjoint⟩ := List.nodup_append.mp hids
  have hold : ∀ ruleId ∈ tables.rules.map TargetingRuleRow.id,
      ruleId ∉ newRuleIds ruleIds c := fun ruleId hm hn => hdisjoint ruleId hm ruleId hn rfl
  refine ⟨stores_persistChildren ⟨hlacks.variations, hlacks.rules, ?_, ?_, ?_⟩ hnew, hold⟩
  · exact fun row hr => hold _ (hclosed.conditions row hr)
  · exact fun row hr => ⟨hlacks.rollouts row hr, fun ruleId hm heq =>
      hold ruleId (hclosed.rollouts row hr ruleId heq) hm⟩
  · exact fun row hr => ⟨hlacks.progressiveStages row hr, fun ruleId hm heq =>
      hold ruleId (hclosed.progressiveStages row hr ruleId heq) hm⟩

/-- **Inserting the children of several configurations.** -/
theorem insertAll_spec {us : List Update} {tables : ChildTables} (hclosed : tables.Closed)
    (hlacks : ∀ u ∈ us, tables.Lacks u.configId) (hnd : (us.map Update.configId).Nodup)
    (hids : ((insertAll us tables).rules.map TargetingRuleRow.id).Nodup) :
    (∀ u ∈ us, ∃ saved, Stores (insertAll us tables) u.configId saved
        u.compiled.toConfigurationFields)
      ∧ ∀ configId, configId ∉ us.map Update.configId →
        (insertAll us tables).of configId = tables.of configId := by
  induction us generalizing tables with
  | nil => exact ⟨fun _ h => (by cases h), fun _ _ => rfl⟩
  | cons u us ih =>
    rw [List.map_cons, List.nodup_cons] at hnd
    have hfirst : ((tables.append u.children).rules.map TargetingRuleRow.id).Nodup := by
      have hsub := hids
      rw [show insertAll (u :: us) tables = insertAll us (tables.append u.children) from rfl,
        rules_insertAll, List.map_append] at hsub
      exact hsub.of_append_left
    obtain ⟨hstores, hdisjoint⟩ :=
      stores_append hclosed (hlacks u List.mem_cons_self) hfirst
    obtain ⟨hrest, hother⟩ := @ih (tables.append u.children) (closed_append hclosed)
      (fun v hv => (hlacks v (List.mem_cons_of_mem u hv)).append (fun heq =>
        hnd.1 (List.mem_map.mpr ⟨v, hv, heq.symm⟩)) _ _) hnd.2 hids
    refine ⟨List.forall_mem_cons.mpr ⟨?_, hrest⟩, fun configId hn => ?_⟩
    · exact ⟨_, hstores.of_eq (hother u.configId hnd.1)⟩
    · rw [List.map_cons, List.mem_cons, not_or] at hn
      refine (hother configId hn.2).trans (of_append hn.1 (fun ruleId hm => ?_))
      exact hdisjoint ruleId (ruleIds_subset hm)

/-! ## Rows of configurations -/

/-- The row of a configuration after an update of it. -/
def Update.newRow (u : Update) (row : FlagConfigRow) : FlagConfigRow :=
  { row with
    enabled := u.payload.enabled
    defaultVariationKey := u.payload.defaultVariation
    currentVersion := u.version }

/-- The row of a configuration after some updates. -/
def updatedRow (us : List Update) (row : FlagConfigRow) : FlagConfigRow :=
  us.foldl (fun row u => if row.id = u.configId then u.newRow row else row) row

/-- Updates of configurations, row by row. -/
theorem configs_foldl (us : List Update) (rows : List FlagConfigRow) :
    (us.map Update.configWrite).foldl (fun rows op => op.apply rows) rows
      = rows.map (updatedRow us) := by
  induction us generalizing rows with
  | nil => exact (List.map_id rows).symm
  | cons u us ih =>
    rw [List.map_cons, List.foldl_cons, ih]
    show (rows.map _).map _ = _
    rw [List.map_map]
    rfl

/-- A row that no update is of stays. -/
theorem updatedRow_of_not_mem {us : List Update} {row : FlagConfigRow}
    (h : row.id ∉ us.map Update.configId) : updatedRow us row = row := by
  induction us with
  | nil => rfl
  | cons u us ih =>
    rw [List.map_cons, List.mem_cons, not_or] at h
    show updatedRow us (if row.id = u.configId then u.newRow row else row) = row
    rw [if_neg h.1]
    exact ih h.2

/-- A row that one update is of becomes its new row. -/
theorem updatedRow_of_mem {us : List Update} {row : FlagConfigRow} {u : Update}
    (hnd : (us.map Update.configId).Nodup) (hu : u ∈ us) (hid : row.id = u.configId) :
    updatedRow us row = u.newRow row := by
  induction us with
  | nil => cases hu
  | cons v us ih =>
    rw [List.map_cons, List.nodup_cons] at hnd
    show updatedRow us (if row.id = v.configId then v.newRow row else row) = _
    rcases List.mem_cons.mp hu with rfl | hu
    · rw [if_pos hid]
      refine updatedRow_of_not_mem ?_
      show row.id ∉ _
      rw [hid]
      exact hnd.1
    · rw [if_neg (fun h => hnd.1 (List.mem_map.mpr ⟨u, hu, hid.symm.trans h⟩))]
      exact ih hnd.2 hu

/-- An update leaves the identity of a configuration. -/
theorem identity_updatedRow (us : List Update) (row : FlagConfigRow) :
    (updatedRow us row).identity = row.identity := by
  induction us generalizing row with
  | nil => rfl
  | cons u us ih =>
    show (updatedRow us (if row.id = u.configId then u.newRow row else row)).identity = _
    rw [ih]
    split <;> rfl

/-! ## The tables after rounds -/

section Rounds

variable {s : Database} {locks : List Row} {rounds : List Round}

theorem pending_filterMap {κ : Type} (op : Write → Option κ) (u : Update)
    (hflag : ∀ w, op (.flag w) = none) :
    u.pending.filterMap op = [.child (.insert u.children), .version u.versionRow,
      .audit u.auditRow].filterMap op := by
  have hnames : ∀ (names : Option String) (f : String → FlagWrite),
      (names.toList.map (fun name => Write.flag (f name))).filterMap op = [] := by
    intro names f
    cases names with
    | none => rfl
    | some name => simp [hflag]
  show (_ ++ _ ++ [_, _, _]).filterMap op = _
  rw [List.filterMap_append, List.filterMap_append, hnames, hnames]
  rfl

/-- Rounds project to a statement of every update. -/
theorem filterMap_rounds_statement {κ : Type} {op : Write → Option κ} {f : Update → List κ}
    (hset : ∀ id n, op (.environment (.setRevision id n)) = none)
    (happlied : ∀ id t, op (.change (.setAppliedAt id t)) = none)
    (hflag : ∀ w, op (.flag w) = none)
    (hstatements : ∀ u : Update, u.statements.filterMap op = f u)
    (hpending : ∀ u : Update, [Write.child (.insert u.children), .version u.versionRow,
      .audit u.auditRow].filterMap op = []) :
    (roundWrites rounds).filterMap op = (updatesOf rounds).flatMap f := by
  rw [filterMap_rounds rounds hset happlied]
  simp only [pending_filterMap op _ hflag, hpending, hstatements]
  rw [List.flatMap_eq_nil_iff.mpr (fun _ _ => rfl), List.append_nil]

/-- Rounds project to what is pending of every update. -/
theorem filterMap_rounds_pending {κ : Type} {op : Write → Option κ} {f : Update → κ}
    (hset : ∀ id n, op (.environment (.setRevision id n)) = none)
    (happlied : ∀ id t, op (.change (.setAppliedAt id t)) = none)
    (hflag : ∀ w, op (.flag w) = none)
    (hstatements : ∀ u : Update, u.statements.filterMap op = [])
    (hpending : ∀ u : Update, [Write.child (.insert u.children), .version u.versionRow,
      .audit u.auditRow].filterMap op = [f u]) :
    (roundWrites rounds).filterMap op = (updatesOf rounds).map f := by
  rw [filterMap_rounds rounds hset happlied]
  simp only [pending_filterMap op _ hflag, hpending, hstatements]
  rw [List.flatMap_eq_nil_iff.mpr (fun _ _ => rfl), List.nil_append, ← List.map_eq_flatMap]

/-- **The rows of configurations after rounds.** -/
theorem configs_rounds : (service.view (roundWrites rounds) s).configs
    = s.configs.map (updatedRow (updatesOf rounds)) := by
  rw [view_configs, filterMap_rounds_statement (f := fun u => [u.configWrite]) (fun _ _ => rfl)
    (fun _ _ => rfl) (fun _ => rfl) (fun _ => rfl) (fun _ => rfl), ← List.map_eq_flatMap]
  exact configs_foldl _ _

/-- **The stored versions after rounds**: one more for each update. -/
theorem versions_rounds : (service.view (roundWrites rounds) s).versions
    = s.versions ++ (updatesOf rounds).map Update.versionRow := by
  rw [view_versions, filterMap_rounds_pending (fun _ _ => rfl) (fun _ _ => rfl) (fun _ => rfl)
    (fun _ => rfl) (fun _ => rfl)]

/-- **The audit log after rounds**: one more event for each update. -/
theorem audits_rounds : (service.view (roundWrites rounds) s).audits
    = s.audits ++ (updatesOf rounds).map Update.auditRow := by
  rw [view_audits, filterMap_rounds_pending (fun _ _ => rfl) (fun _ _ => rfl) (fun _ => rfl)
    (fun _ => rfl) (fun _ => rfl)]

/-- **The child tables after rounds.** -/
theorem children_rounds : (service.view (roundWrites rounds) s).children
    = insertAll (updatesOf rounds) (clearAll (updatesOf rounds) s.children) := by
  rw [view_children, filterMap_rounds rounds (fun _ _ => rfl) (fun _ _ => rfl)]
  simp only [pending_filterMap Write.child? _ (fun _ => rfl)]
  have hpending : ∀ u : Update, [Write.child (.insert u.children), .version u.versionRow,
      .audit u.auditRow].filterMap Write.child? = [.insert u.children] := fun _ => rfl
  have hstatements : ∀ u : Update, u.statements.filterMap Write.child?
      = [.deleteRollouts u.configId, .deleteStages u.configId, .deleteRules u.configId,
        .deleteVariations u.configId] := fun _ => rfl
  simp only [hpending, hstatements]
  rw [List.foldl_append, List.foldl_flatMap, List.foldl_flatMap]
  simp only [clear_eq]
  rfl

/-! ## What the constraints give -/

/-- The foreign keys keep the rows of rules together. -/
theorem closed_of_references (h : s.References) : s.children.Closed where
  conditions := h.conditionRules
  rollouts := by
    intro row hr ruleId hp
    have hparent := h.rolloutParents row hr
    rw [hp] at hparent
    exact hparent
  progressiveStages := by
    intro row hr ruleId hp
    have hparent := h.stageParents row hr
    rw [hp] at hparent
    exact hparent

/-- The children after the rounds of a transaction that the database
accepts. -/
theorem children_of_ok (hs : s.Consistent) (hfits : RoundsFit s locks rounds)
    (hok : (service.view (roundWrites rounds) s).Consistent) :
    (∀ u ∈ updatesOf rounds, ∃ saved,
        Stores (service.view (roundWrites rounds) s).children u.configId saved
          u.compiled.toConfigurationFields)
      ∧ ∀ configId, configId ∉ (updatesOf rounds).map Update.configId →
        (service.view (roundWrites rounds) s).children.of configId
          = s.children.of configId := by
  have hids := hok.keys.ruleIds
  rw [children_rounds] at hids ⊢
  obtain ⟨hclosed, hlacks, -, hsame⟩ := clearAll_spec (updatesOf rounds)
    (closed_of_references hs.references) hs.keys.ruleIds
  obtain ⟨hstores, hother⟩ := insertAll_spec hclosed hlacks (hfits.nodup hs) hids
  exact ⟨hstores, fun configId hn => (hother configId hn).trans (hsame configId hn)⟩

/-- The row of a configuration that is updated. -/
theorem Update.Current.eq_row (hs : s.Consistent) {u : Update} (h : u.Current s)
    {row : FlagConfigRow} (hrow : row ∈ s.configs) (hid : row.id = u.configId) :
    row.currentVersion = u.payload.expectedVersion := by
  obtain ⟨row', hr', hid', hver⟩ := h
  rw [List.inj_on_of_nodup_map hs.keys.configIds hrow hr' (hid.trans hid'.symm)]
  exact hver

end Rounds

/-! ## What others see of a commit -/

section Evolves

variable {s : Database} {locks locks' : List Row}

/-- An archived flag stays archived. -/
theorem archived_apply (s : Database) (w : Write) :
    ∀ flag ∈ s.flags, flag.archivedAt.isSome = true →
      ∃ flag' ∈ (s.apply w).flags, flag'.id = flag.id ∧ flag'.archivedAt.isSome = true := by
  intro flag hf ha
  have hsame : flag ∈ s.flags → ∃ flag' ∈ s.flags, flag'.id = flag.id
      ∧ flag'.archivedAt.isSome = true := fun h => ⟨flag, h, rfl, ha⟩
  cases w with
  | flag op =>
    cases op with
    | insert row => exact ⟨flag, List.mem_append_left _ hf, rfl, ha⟩
    | setName id name =>
      refine ⟨_, List.mem_map_of_mem hf, ?_⟩
      split <;> exact ⟨rfl, ha⟩
    | setDescription id text =>
      refine ⟨_, List.mem_map_of_mem hf, ?_⟩
      split <;> exact ⟨rfl, ha⟩
    | setArchivedAt id t =>
      refine ⟨_, List.mem_map_of_mem hf, ?_⟩
      split
      · exact ⟨rfl, rfl⟩
      · exact ⟨rfl, ha⟩
  | _ => exact hsame hf

theorem archived_view (writes : List Write) (s : Database) :
    ∀ flag ∈ s.flags, flag.archivedAt.isSome = true →
      ∃ flag' ∈ (service.view writes s).flags, flag'.id = flag.id
        ∧ flag'.archivedAt.isSome = true := by
  induction writes generalizing s with
  | nil => exact fun flag hf ha => ⟨flag, hf, rfl, ha⟩
  | cons w writes ih =>
    intro flag hf ha
    obtain ⟨flag₁, hf₁, hid₁, ha₁⟩ := archived_apply s w flag hf ha
    obtain ⟨flag₂, hf₂, hid₂, ha₂⟩ := ih (s.apply w) flag₁ hf₁ ha₁
    exact ⟨flag₂, hf₂, hid₂.trans hid₁, ha₂⟩

/-- The flag after it is archived. -/
theorem exists_archived_view {a : Archiving} (h : s.KnowsFlag a.flag) :
    ∃ flag ∈ (service.view a.writes s).flags, flag.id = a.flag.id
      ∧ flag.archivedAt.isSome = true := by
  obtain ⟨row, hrow, hidentity⟩ := List.mem_map.mp h
  have hid : row.id = a.flag.id := congrArg FeatureFlagRow.Identity.id hidentity
  have hmarked : { row with archivedAt := some a.now }
      ∈ (s.apply (.flag (.setArchivedAt a.flag.id a.now))).flags :=
    List.mem_map.mpr ⟨row, hrow, if_pos hid⟩
  obtain ⟨flag, hflag, hflagId, harchived⟩ := archived_view (a.touched.map (fun item =>
    .environment (.setRevision item.2.id (item.2.revision + 1))) ++ [.audit a.auditRow])
    _ _ hmarked rfl
  exact ⟨flag, hflag, hflagId.trans hid, harchived⟩

/-- **A commit of updates is a change the others rely on.** Nobody else holds the rows it
updated. -/
theorem evolves_rounds {rounds : List Round} (hs : s.Consistent)
    (hfits : RoundsFit s locks rounds)
    (hok : (service.view (roundWrites rounds) s).Consistent)
    (hfree : ∀ row ∈ locks, row ∉ locks') :
    s.Evolves locks' (service.view (roundWrites rounds) s) where
  grows := grows_view _ s
  configs := by
    intro row hr
    have hnd := hfits.nodup hs
    have hmem : updatedRow (updatesOf rounds) row
        ∈ (service.view (roundWrites rounds) s).configs := by
      rw [configs_rounds]
      exact List.mem_map_of_mem hr
    refine ⟨_, hmem, ?_⟩
    by_cases hin : row.id ∈ (updatesOf rounds).map Update.configId
    · obtain ⟨u, hu, hid⟩ := List.mem_map.mp hin
      have hver := (hfits.current u hu).eq_row hs hr hid.symm
      rw [updatedRow_of_mem hnd hu hid.symm]
      refine ⟨rfl, ?_, ?_, ?_⟩
      · show row.currentVersion ≤ u.payload.expectedVersion + 1
        omega
      · intro heq
        have heq' : u.payload.expectedVersion + 1 = row.currentVersion := heq
        omega
      · exact fun hl => absurd (hid ▸ hl) (hfree _ (hfits.locked u hu))
    · rw [updatedRow_of_not_mem hin]
      exact ⟨rfl, le_rfl, fun _ => ⟨rfl, (children_of_ok hs hfits hok).2 _ hin⟩, fun _ => rfl⟩
  archived := archived_view _ s
  created := by
    intro identity hi _
    rw [configs_rounds, map_identity_map (identity_updatedRow _)] at hi
    exact hi

/-- A commit that touches no configuration. -/
theorem evolves_of_untouched {writes : List Write} (hconfig : writes.filterMap Write.config? = [])
    (hchild : writes.filterMap Write.child? = []) :
    s.Evolves locks' (service.view writes s) where
  grows := grows_view _ s
  configs := by
    intro row hr
    refine ⟨row, ?_, rfl, le_rfl, fun _ => ⟨rfl, ?_⟩, fun _ => rfl⟩
    · rw [view_configs, hconfig]
      exact hr
    · rw [view_children, hchild]
      rfl
  archived := archived_view _ s
  created := by
    intro identity hi _
    rw [view_configs, hconfig] at hi
    exact hi

/-- The new ids of a creation are new. -/
structure Creation.Fresh (s : Database) (k : Creation) : Prop where
  flagId : k.flagId ∉ s.flags.map FeatureFlagRow.id
  configId : k.configId ∉ s.configs.map FlagConfigRow.id

/-- The database accepts no id twice. -/
theorem fresh_of_ok {k : Creation} (hok : (service.view k.writes s).Consistent) :
    k.Fresh s where
  flagId := by
    have hnd := hok.keys.flagIds
    rw [view_flags] at hnd
    have hsplit : ((s.flags ++ [k.flag]).map FeatureFlagRow.id).Nodup := hnd
    rw [List.map_append, List.nodup_append] at hsplit
    exact fun hm => hsplit.2.2 _ hm _ (List.mem_singleton.mpr rfl) rfl
  configId := by
    have hnd := hok.keys.configIds
    rw [view_configs] at hnd
    have hsplit : ((s.configs ++ [k.configRow]).map FlagConfigRow.id).Nodup := hnd
    rw [List.map_append, List.nodup_append] at hsplit
    exact fun hm => hsplit.2.2 _ hm _ (List.mem_singleton.mpr rfl) rfl

/-- The children after a creation. -/
theorem children_creation {k : Creation} (hs : s.Consistent)
    (hok : (service.view k.writes s).Consistent) :
    (∃ saved, Stores (service.view k.writes s).children k.configId saved
        k.compiled.toConfigurationFields)
      ∧ ∀ configId, configId ≠ k.configId →
        (service.view k.writes s).children.of configId = s.children.of configId := by
  have hids := hok.keys.ruleIds
  have hchildren : (service.view k.writes s).children
      = s.children.append (persistChildren k.final.ids k.configId k.compiled) := rfl
  rw [hchildren] at hids ⊢
  have hfresh := (fresh_of_ok hok).configId
  -- no child row refers to a configuration that is not there
  have hlacks : s.children.Lacks k.configId := by
    refine ⟨?_, ?_, ?_, ?_⟩
    · exact fun row hr heq => hfresh (heq ▸ hs.references.variationConfigs row hr)
    · exact fun row hr heq => hfresh (heq ▸ hs.references.ruleConfigs row hr)
    · intro row hr heq
      have hparent := hs.references.rolloutParents row hr
      rw [heq] at hparent
      exact hfresh hparent
    · intro row hr heq
      have hparent := hs.references.stageParents row hr
      rw [heq] at hparent
      exact hfresh hparent
  obtain ⟨hstores, hold⟩ :=
    stores_append (closed_of_references hs.references) hlacks hids
  exact ⟨⟨_, hstores⟩, fun configId hne =>
    of_append hne (fun ruleId hm => hold ruleId (ruleIds_subset hm))⟩

/-- **So is a creation.** -/
theorem evolves_creation {k : Creation} (hs : s.Consistent)
    (hok : (service.view k.writes s).Consistent) :
    s.Evolves locks' (service.view k.writes s) where
  grows := grows_view _ s
  configs := by
    intro row hr
    refine ⟨row, ?_, rfl, le_rfl, fun _ => ⟨rfl, ?_⟩, fun _ => rfl⟩
    · show row ∈ s.configs ++ [k.configRow]
      exact List.mem_append_left _ hr
    · refine (children_creation hs hok).2 _ (fun heq => (fresh_of_ok hok).configId ?_)
      exact heq ▸ List.mem_map_of_mem hr
  archived := archived_view _ s
  created := by
    intro identity hi hflag
    have hi : identity ∈ (s.configs ++ [k.configRow]).map FlagConfigRow.identity := hi
    rw [List.map_append, List.mem_append] at hi
    rcases hi with hi | hi
    · exact hi
    · rw [List.map_singleton, List.mem_singleton] at hi
      rw [hi] at hflag
      exact absurd hflag (fresh_of_ok hok).flagId

theorem filterMap_archiving {κ : Type} {op : Write → Option κ} (a : Archiving)
    (hflag : ∀ w, op (.flag w) = none) (hset : ∀ id n, op (.environment (.setRevision id n)) = none)
    (haudit : op (.audit a.auditRow) = none) : a.writes.filterMap op = [] := by
  unfold Archiving.writes
  rw [List.filterMap_eq_nil_iff]
  intro w hw
  rcases List.mem_append.mp hw with hw | hw
  · rcases List.mem_cons.mp hw with rfl | hw
    · exact hflag _
    · obtain ⟨item, -, rfl⟩ := List.mem_map.mp hw
      exact hset _ _
  · rw [List.mem_singleton.mp hw]
    exact haudit

/-- Plain writes project to nothing of a flag. -/
theorem filterMap_plain {κ : Type} {op : Write → Option κ} {writes : List Write}
    (h : ∀ w ∈ writes, w.isPlain = true) (hop : ∀ w : Write, w.isPlain = true → op w = none) :
    writes.filterMap op = [] :=
  List.filterMap_eq_nil_iff.mpr (fun w hw => hop w (h w hw))

theorem config?_of_isPlain (w : Write) (h : w.isPlain = true) : w.config? = none := by
  cases w <;> first | rfl | cases h

theorem child?_of_isPlain (w : Write) (h : w.isPlain = true) : w.child? = none := by
  cases w <;> first | rfl | cases h

theorem version?_of_isPlain (w : Write) (h : w.isPlain = true) : w.version? = none := by
  cases w <;> first | rfl | cases h

/-- The configurations an effect creates. -/
def Effect.created : Effect → List FlagConfigRow.Identity
  | .creation k => [k.configRow.identity]
  | _ => []

/-- **The configurations after a commit** are those from before and what was
created. -/
theorem Effect.identities {effect : Effect} (hfits : effect.Fits s locks) :
    (service.view effect.writes s).configs.map FlagConfigRow.identity
      = s.configs.map FlagConfigRow.identity ++ effect.created := by
  cases effect with
  | rounds rs =>
    show (service.view (roundWrites rs) s).configs.map _ = s.configs.map _ ++ []
    rw [configs_rounds, map_identity_map (identity_updatedRow _), List.append_nil]
  | creation k => exact List.map_append
  | archiving a =>
    show (service.view a.writes s).configs.map _ = s.configs.map _ ++ []
    rw [view_configs, filterMap_archiving a (fun _ => rfl) (fun _ _ => rfl) rfl, List.append_nil]
    rfl
  | plain ws =>
    show (service.view ws s).configs.map _ = s.configs.map _ ++ []
    rw [view_configs, filterMap_plain hfits config?_of_isPlain, List.append_nil]
    rfl

/-- **Every commit is a change the others rely on.** This closes the circle of the discipline:
what each transaction relied on is what the commits of the others did. -/
theorem Effect.evolves {effect : Effect} (hs : s.Consistent) (hfits : effect.Fits s locks)
    (hok : (service.view effect.writes s).Consistent) (hfree : ∀ row ∈ locks, row ∉ locks') :
    s.Evolves locks' (service.view effect.writes s) := by
  cases effect with
  | rounds rs => exact evolves_rounds hs hfits hok hfree
  | creation k => exact evolves_creation hs hok
  | archiving a =>
    exact evolves_of_untouched (filterMap_archiving a (fun _ => rfl) (fun _ _ => rfl) rfl)
      (filterMap_archiving a (fun _ => rfl) (fun _ _ => rfl) rfl)
  | plain ws =>
    exact evolves_of_untouched (filterMap_plain hfits config?_of_isPlain)
      (filterMap_plain hfits child?_of_isPlain)

end Evolves

/-! ## What a commit leaves alone -/

/-- The configurations of a kind. -/
def Database.configsWhere (s : Database) (kind : FlagConfigRow.Identity → Bool) :
    List FlagConfigRow :=
  s.configs.filter (fun row => kind row.identity)

/-- The versions of these configurations. -/
def Database.versionsWhere (s : Database) (kind : FlagConfigRow.Identity → Bool) :
    List FlagVersionRow :=
  s.versions.filter (fun row => row.configId ∈ (s.configsWhere kind).map FlagConfigRow.id)

/-- **The configurations of a kind stay as they are**, with their versions and their
children. -/
structure Database.KeepsConfigs (kind : FlagConfigRow.Identity → Bool) (s s' : Database) :
    Prop where
  configs : s'.configsWhere kind = s.configsWhere kind
  versions : s'.versionsWhere kind = s.versionsWhere kind
  children : ∀ row ∈ s.configsWhere kind, s'.children.of row.id = s.children.of row.id

section Keeps

variable {s s' : Database} {locks : List Row} {kind : FlagConfigRow.Identity → Bool}

theorem mem_configsWhere {row : FlagConfigRow} :
    row ∈ s.configsWhere kind ↔ row ∈ s.configs ∧ kind row.identity = true :=
  List.mem_filter

/-- A configuration that is known and of another kind. -/
theorem not_mem_configsWhere (hs : s.Consistent) {identity : FlagConfigRow.Identity}
    (hknown : identity ∈ s.configs.map FlagConfigRow.identity) (hkind : kind identity = false) :
    identity.id ∉ (s.configsWhere kind).map FlagConfigRow.id := by
  intro hmem
  obtain ⟨row, hrow, hid⟩ := List.mem_map.mp hmem
  obtain ⟨hrow, htrue⟩ := mem_configsWhere.mp hrow
  rw [← identity_of_id hs hknown (List.mem_map_of_mem hrow) hid.symm, hkind] at htrue
  exact Bool.false_ne_true htrue

/-- Where only versions of other configurations are added. -/
theorem versionsWhere_append (new : List FlagVersionRow)
    (hconfigs : s'.configsWhere kind = s.configsWhere kind)
    (hversions : s'.versions = s.versions ++ new)
    (hnew : ∀ row ∈ new, row.configId ∉ (s.configsWhere kind).map FlagConfigRow.id) :
    s'.versionsWhere kind = s.versionsWhere kind := by
  unfold Database.versionsWhere
  rw [hconfigs, hversions, List.filter_append, List.append_right_eq_self]
  exact List.filter_eq_nil_iff.mpr (fun row hrow => by simpa using hnew row hrow)

/-- The configurations of a kind that is not updated. -/
theorem configsWhere_rounds {rounds : List Round}
    (hnone : ∀ u ∈ updatesOf rounds, u.configId ∉ (s.configsWhere kind).map FlagConfigRow.id) :
    (service.view (roundWrites rounds) s).configsWhere kind = s.configsWhere kind := by
  unfold Database.configsWhere
  rw [configs_rounds, List.filter_map]
  have hkind : (fun row : FlagConfigRow => kind row.identity) ∘ updatedRow (updatesOf rounds)
      = fun row => kind row.identity := by
    funext row
    exact congrArg kind (identity_updatedRow _ _)
  rw [hkind]
  refine (List.map_congr_left (fun row hrow => ?_)).trans (List.map_id _)
  refine updatedRow_of_not_mem (fun hmem => ?_)
  obtain ⟨u, hu, hid⟩ := List.mem_map.mp hmem
  exact hnone u hu (hid ▸ List.mem_map_of_mem hrow)

/-- The identity of the configuration an update is of. -/
def Update.identity (u : Update) : FlagConfigRow.Identity :=
  ⟨u.configId, u.flag.id, u.environment.id, u.salt⟩

/-- **What a commit leaves as it is**: the configurations of every kind it neither
updates nor creates. -/
theorem Effect.keepsConfigs {effect : Effect} (hs : s.Consistent) (hfits : effect.Fits s locks)
    (hok : (service.view effect.writes s).Consistent)
    (hupdates : ∀ rounds, effect = .rounds rounds → ∀ u ∈ updatesOf rounds,
      kind u.identity = false)
    (hcreated : ∀ identity ∈ effect.created, kind identity = false) :
    s.KeepsConfigs kind (service.view effect.writes s) := by
  -- a commit that touches no configuration keeps all of them
  have huntouched : effect.writes.filterMap Write.config? = [] →
      effect.writes.filterMap Write.child? = [] → effect.writes.filterMap Write.version? = [] →
      s.KeepsConfigs kind (service.view effect.writes s) := by
    intro hconfig hchild hversion
    have hconfigs : (service.view effect.writes s).configsWhere kind = s.configsWhere kind := by
      unfold Database.configsWhere
      rw [view_configs, hconfig]
      rfl
    refine ⟨hconfigs, ?_, fun row _ => ?_⟩
    · refine versionsWhere_append [] hconfigs ?_ (fun _ h => absurd h List.not_mem_nil)
      rw [view_versions, hversion]
    · rw [view_children, hchild]
      rfl
  cases effect with
  | rounds rs =>
    -- the updated configurations are not of this kind
    have hnone : ∀ u ∈ updatesOf rs, u.configId ∉ (s.configsWhere kind).map FlagConfigRow.id :=
      fun u hu => not_mem_configsWhere hs (hfits.known u hu).config (hupdates rs rfl u hu)
    refine ⟨configsWhere_rounds hnone,
      versionsWhere_append _ (configsWhere_rounds hnone) versions_rounds ?_,
      fun row hrow => (children_of_ok hs hfits hok).2 row.id (fun hmem => ?_)⟩
    · intro row hrow
      obtain ⟨u, hu, rfl⟩ := List.mem_map.mp hrow
      exact hnone u hu
    · obtain ⟨u, hu, hid⟩ := List.mem_map.mp hmem
      exact hnone u hu (hid ▸ List.mem_map_of_mem hrow)
  | creation k =>
    -- nor is the new one
    have hfresh := fresh_of_ok hok
    have hother : k.configId ∉ (s.configsWhere kind).map FlagConfigRow.id := by
      intro hmem
      obtain ⟨row, hrow, hid⟩ := List.mem_map.mp hmem
      exact hfresh.configId (hid ▸ List.mem_map_of_mem (mem_configsWhere.mp hrow).1)
    have hconfigs : (service.view k.writes s).configsWhere kind = s.configsWhere kind := by
      show (s.configs ++ [k.configRow]).filter _ = s.configs.filter _
      rw [List.filter_append, List.append_right_eq_self]
      refine List.filter_eq_nil_iff.mpr (fun row hrow => ?_)
      rw [List.mem_singleton.mp hrow, hcreated _ (List.mem_singleton.mpr rfl)]
      exact Bool.false_ne_true
    refine ⟨hconfigs, versionsWhere_append [k.versionRow] hconfigs rfl ?_,
      fun row hrow => (children_creation hs hok).2 row.id (fun hid => ?_)⟩
    · intro row hrow
      rw [List.mem_singleton.mp hrow]
      exact hother
    · exact hother (hid ▸ List.mem_map_of_mem hrow)
  | archiving a =>
    exact huntouched (filterMap_archiving a (fun _ => rfl) (fun _ _ => rfl) rfl)
      (filterMap_archiving a (fun _ => rfl) (fun _ _ => rfl) rfl)
      (filterMap_archiving a (fun _ => rfl) (fun _ _ => rfl) rfl)
  | plain ws =>
    exact huntouched (filterMap_plain hfits config?_of_isPlain)
      (filterMap_plain hfits child?_of_isPlain) (filterMap_plain hfits version?_of_isPlain)

end Keeps

end CohortSwitch
