import CohortSwitch.Database

/-!
# The child rows of one configuration among those of others

Writers delete all child rows of a configuration and insert new ones.
`ChildTables.of` is what the tables hold of one configuration, the rows of its
rules included, and everything a reader finds is a function of that
(`Stores.of_eq`).

The frame lemmas say that deleting or inserting the rows of one configuration
leaves the part of every other one as it was (`of_clear`, `of_append`). They rest
on two constraints of the schema: rule ids are unique, so that the cascade of a
deleted rule reaches no other configuration, and every row of a rule has its rule
(`ChildTables.Closed`), so that a new rule finds no rows waiting under its id. Both
survive the writers themselves (`closed_clear`, `closed_append`).

With these, what a configuration consists of is a value that changes when that
configuration is written and at no other time. That is what the invariants on runs
carry along: not the tables, but `ChildTables.of` of each configuration.
-/

namespace CohortSwitch

/-- A row belongs to a configuration or to one of the given rules of it. -/
def Parent.belongsTo (configId : UUID) (ids : List UUID) (parent : Parent) : Bool :=
  decide (parent = .config configId) || parent.isRuleOf ids

/-- **What the tables hold of a configuration.** -/
def ChildTables.of (tables : ChildTables) (configId : UUID) : ChildTables where
  variations := tables.variations.filter (fun row => row.configId = configId)
  rules := tables.rules.filter (fun row => row.configId = configId)
  conditions := tables.conditions.filter (fun row => row.ruleId ∈ tables.ruleIds configId)
  rollouts := tables.rollouts.filter
    (fun row => row.parent.belongsTo configId (tables.ruleIds configId))
  progressiveStages := tables.progressiveStages.filter
    (fun row => row.parent.belongsTo configId (tables.ruleIds configId))

/-- The tables after `_delete_children`. -/
def ChildTables.clear (tables : ChildTables) (configId : UUID) : ChildTables where
  variations := tables.variations.filter (fun row => row.configId ≠ configId)
  rules := tables.rules.filter (fun row => row.configId ≠ configId)
  conditions := tables.conditions.filter (fun row => row.ruleId ∉ tables.ruleIds configId)
  rollouts := tables.rollouts.filter
    (fun row => ¬ row.parent.belongsTo configId (tables.ruleIds configId))
  progressiveStages := tables.progressiveStages.filter
    (fun row => ¬ row.parent.belongsTo configId (tables.ruleIds configId))

/-- The four deletions clear the configuration. -/
theorem clear_eq (tables : ChildTables) (configId : UUID) :
    [ChildWrite.deleteRollouts configId, .deleteStages configId, .deleteRules configId,
      .deleteVariations configId].foldl (fun tables op => op.apply tables) tables
      = tables.clear configId := by
  simp only [List.foldl_cons, List.foldl_nil, ChildWrite.apply, ChildTables.clear,
    ChildTables.ruleIds, List.filter_filter, Parent.belongsTo, ChildTables.mk.injEq]
  refine ⟨trivial, trivial, rfl, ?_, ?_⟩
  · refine List.filter_congr (fun row _ => ?_)
    simp [Bool.and_comm]
  · refine List.filter_congr (fun row _ => ?_)
    simp [Bool.and_comm]

/-- Every row of a rule has its rule. -/
structure ChildTables.Closed (tables : ChildTables) : Prop where
  conditions : ∀ row ∈ tables.conditions, row.ruleId ∈ tables.rules.map TargetingRuleRow.id
  rollouts : ∀ row ∈ tables.rollouts, ∀ ruleId, row.parent = .rule ruleId →
    ruleId ∈ tables.rules.map TargetingRuleRow.id
  progressiveStages : ∀ row ∈ tables.progressiveStages, ∀ ruleId, row.parent = .rule ruleId →
    ruleId ∈ tables.rules.map TargetingRuleRow.id

/-! ## Which rows are a configuration's -/

section Ids

variable {tables tables' : ChildTables} {configId other : UUID}

/-- The ids of the rules of a configuration are those of its rows. -/
theorem mem_ruleIds {ruleId : UUID} :
    ruleId ∈ tables.ruleIds configId
      ↔ ∃ row ∈ tables.rules, row.configId = configId ∧ row.id = ruleId := by
  simp [ChildTables.ruleIds, and_assoc]

/-- They are among the ids of all rules. -/
theorem ruleIds_subset :
    tables.ruleIds configId ⊆ tables.rules.map TargetingRuleRow.id :=
  (List.filter_sublist.map _).subset

/-- No rule belongs to two configurations. -/
theorem not_mem_ruleIds_of_ne (hids : (tables.rules.map TargetingRuleRow.id).Nodup)
    (hne : other ≠ configId) {ruleId : UUID} (h : ruleId ∈ tables.ruleIds other) :
    ruleId ∉ tables.ruleIds configId := by
  intro h'
  obtain ⟨row, hrow, hc, hid⟩ := mem_ruleIds.mp h
  obtain ⟨row', hrow', hc', hid'⟩ := mem_ruleIds.mp h'
  have heq : row = row' := List.inj_on_of_nodup_map hids hrow hrow' (hid.trans hid'.symm)
  exact hne (hc.symm.trans (heq ▸ hc'))

theorem ruleIds_clear (hne : other ≠ configId) :
    (tables.clear configId).ruleIds other = tables.ruleIds other := by
  show ((tables.rules.filter _).filter _).map _ = (tables.rules.filter _).map _
  rw [List.filter_filter]
  refine congrArg (List.map TargetingRuleRow.id) (List.filter_congr (fun row _ => ?_))
  by_cases h : row.configId = other
  · simp [h, hne]
  · simp [h]

/-- When a row belongs to one of the rules. -/
theorem isRuleOf_eq_true {ids : List UUID} {parent : Parent} :
    parent.isRuleOf ids = true ↔ ∃ ruleId ∈ ids, parent = .rule ruleId := by
  cases parent <;> simp [Parent.isRuleOf]

/-- When a row belongs to a configuration. -/
theorem belongsTo_eq_true {ids : List UUID} {parent : Parent} :
    parent.belongsTo configId ids = true
      ↔ parent = .config configId ∨ ∃ ruleId ∈ ids, parent = .rule ruleId := by
  rw [Parent.belongsTo, Bool.or_eq_true, decide_eq_true_iff, isRuleOf_eq_true]

/-- A row belongs to one configuration only. -/
theorem not_belongsTo_of_ne (hids : (tables.rules.map TargetingRuleRow.id).Nodup)
    (hne : other ≠ configId) {parent : Parent}
    (h : parent.belongsTo other (tables.ruleIds other) = true) :
    ¬ parent.belongsTo configId (tables.ruleIds configId) = true := by
  rw [belongsTo_eq_true] at h ⊢
  rintro (rfl | ⟨ruleId', hm', rfl⟩)
  · rcases h with h | ⟨_, _, h⟩
    · exact hne (Parent.config.inj h).symm
    · cases h
  · rcases h with h | ⟨ruleId, hm, h⟩
    · cases h
    · exact not_mem_ruleIds_of_ne hids hne hm (Parent.rule.inj h ▸ hm')

end Ids

/-! ## Deleting the rows of another configuration -/

section Clear

variable {tables : ChildTables} {configId other : UUID}

/-- What passes one filter passes a second one that only drops others. -/
theorem filter_filter_of_imp {α : Type} {p q : α → Bool} (xs : List α)
    (h : ∀ x ∈ xs, p x = true → q x = true) : (xs.filter q).filter p = xs.filter p := by
  rw [List.filter_filter]
  refine List.filter_congr (fun x hx => ?_)
  cases hp : p x with
  | true => rw [h x hx hp]; rfl
  | false => rfl

/-- **Deleting the children of one configuration keeps those of another.** -/
theorem of_clear (hids : (tables.rules.map TargetingRuleRow.id).Nodup)
    (hne : other ≠ configId) : (tables.clear configId).of other = tables.of other := by
  unfold ChildTables.of
  rw [ruleIds_clear hne, ChildTables.mk.injEq]
  refine ⟨?_, ?_, ?_, ?_, ?_⟩
  · exact filter_filter_of_imp _ (fun row _ h => by simp_all)
  · exact filter_filter_of_imp _ (fun row _ h => by simp_all)
  · refine filter_filter_of_imp _ (fun row _ h => ?_)
    exact decide_eq_true (not_mem_ruleIds_of_ne hids hne (of_decide_eq_true h))
  · refine filter_filter_of_imp _ (fun row _ h => ?_)
    exact decide_eq_true (not_belongsTo_of_ne hids hne h)
  · refine filter_filter_of_imp _ (fun row _ h => ?_)
    exact decide_eq_true (not_belongsTo_of_ne hids hne h)

/-- A deletion only drops rules. -/
theorem rules_clear_sublist : (tables.clear configId).rules.Sublist tables.rules :=
  List.filter_sublist

/-- A rule that is not deleted stays. -/
theorem mem_map_id_clear {ruleId : UUID} (hm : ruleId ∈ tables.rules.map TargetingRuleRow.id)
    (hn : ruleId ∉ tables.ruleIds configId) :
    ruleId ∈ (tables.clear configId).rules.map TargetingRuleRow.id := by
  obtain ⟨row, hrow, rfl⟩ := List.mem_map.mp hm
  refine List.mem_map_of_mem (List.mem_filter.mpr ⟨hrow, decide_eq_true ?_⟩)
  exact fun h => hn (mem_ruleIds.mpr ⟨row, hrow, h, rfl⟩)

/-- **The cascade leaves no row without its rule.** -/
theorem closed_clear (h : tables.Closed) : (tables.clear configId).Closed where
  conditions := by
    intro row hr
    obtain ⟨hr, hn⟩ := List.mem_filter.mp hr
    exact mem_map_id_clear (h.conditions row hr) (of_decide_eq_true hn)
  rollouts := by
    intro row hr ruleId hp
    obtain ⟨hr, hn⟩ := List.mem_filter.mp hr
    refine mem_map_id_clear (h.rollouts row hr ruleId hp) (fun hm => of_decide_eq_true hn ?_)
    exact belongsTo_eq_true.mpr (Or.inr ⟨ruleId, hm, hp⟩)
  progressiveStages := by
    intro row hr ruleId hp
    obtain ⟨hr, hn⟩ := List.mem_filter.mp hr
    refine mem_map_id_clear (h.progressiveStages row hr ruleId hp)
      (fun hm => of_decide_eq_true hn ?_)
    exact belongsTo_eq_true.mpr (Or.inr ⟨ruleId, hm, hp⟩)

end Clear

/-! ## Inserting the rows of another configuration -/

/-- What no new row passes. -/
theorem filter_append_of_none {α : Type} {p : α → Bool} {ys : List α} (xs : List α)
    (h : ∀ y ∈ ys, ¬ p y = true) : (xs ++ ys).filter p = xs.filter p := by
  rw [List.filter_append, List.filter_eq_nil_iff.mpr h, List.append_nil]

section Append

variable {tables : ChildTables} {configId other : UUID} {ruleIds : ℕ → UUID}
  {c : FlagConfiguration}

/-- The ids of the new rules. -/
def newRuleIds (ruleIds : ℕ → UUID) (c : FlagConfiguration) : List UUID :=
  (identified ruleIds c.rules).map Prod.fst

/-- The new rules have the new ids. -/
theorem map_id_persistChildren (ruleIds : ℕ → UUID) (configId : UUID) (c : FlagConfiguration) :
    (persistChildren ruleIds configId c).rules.map TargetingRuleRow.id
      = newRuleIds ruleIds c := by
  show List.map _ (List.map _ _) = _
  rw [List.map_map]
  rfl

/-- A new rule is one of the configuration that is written. -/
theorem mem_rules_persistChildren {row : TargetingRuleRow}
    (h : row ∈ (persistChildren ruleIds configId c).rules) : row.configId = configId := by
  obtain ⟨item, -, rfl⟩ := List.mem_map.mp h
  rfl

/-- A new condition belongs to a new rule. -/
theorem mem_conditions_persistChildren {row : RuleConditionRow}
    (h : row ∈ (persistChildren ruleIds configId c).conditions) :
    row.ruleId ∈ newRuleIds ruleIds c := by
  obtain ⟨item, hi, hr⟩ := List.mem_flatMap.mp h
  obtain ⟨condition, -, rfl⟩ := List.mem_map.mp hr
  exact List.mem_map_of_mem hi

/-- A new row of a configuration is its own or one of its new rules'. -/
theorem parent_of_mem_rollouts {row : RolloutAllocationRow}
    (h : row ∈ (persistChildren ruleIds configId c).rollouts) :
    row.parent.belongsTo configId (newRuleIds ruleIds c) = true := by
  refine belongsTo_eq_true.mpr ?_
  rcases List.mem_append.mp h with h | h
  · obtain ⟨allocation, -, rfl⟩ := List.mem_map.mp h
    exact Or.inl rfl
  · obtain ⟨item, hi, hr⟩ := List.mem_flatMap.mp h
    obtain ⟨allocation, -, rfl⟩ := List.mem_map.mp hr
    exact Or.inr ⟨item.1, List.mem_map_of_mem hi, rfl⟩

theorem parent_of_mem_stages {row : ProgressiveStageRow}
    (h : row ∈ (persistChildren ruleIds configId c).progressiveStages) :
    row.parent.belongsTo configId (newRuleIds ruleIds c) = true := by
  refine belongsTo_eq_true.mpr ?_
  rcases List.mem_append.mp h with h | h
  · obtain ⟨stage, -, rfl⟩ := List.mem_map.mp h
    exact Or.inl rfl
  · obtain ⟨item, hi, hr⟩ := List.mem_flatMap.mp h
    obtain ⟨stage, -, rfl⟩ := List.mem_map.mp hr
    exact Or.inr ⟨item.1, List.mem_map_of_mem hi, rfl⟩

theorem ruleIds_append (hne : other ≠ configId) :
    (tables.append (persistChildren ruleIds configId c)).ruleIds other
      = tables.ruleIds other := by
  refine congrArg (List.map TargetingRuleRow.id)
    (filter_append_of_none tables.rules (fun row hr heq => ?_))
  exact hne ((of_decide_eq_true heq).symm.trans (mem_rules_persistChildren hr))

/-- **Inserting the children of one configuration keeps those of another.** The new rules have
ids that no row refers to yet. -/
theorem of_append (hne : other ≠ configId)
    (hids : ∀ ruleId ∈ tables.ruleIds other, ruleId ∉ newRuleIds ruleIds c) :
    (tables.append (persistChildren ruleIds configId c)).of other = tables.of other := by
  have hparent : ∀ parent : Parent,
      parent.belongsTo configId (newRuleIds ruleIds c) = true →
      ¬ parent.belongsTo other (tables.ruleIds other) = true := by
    intro parent hp ho
    rw [belongsTo_eq_true] at hp ho
    rcases ho with rfl | ⟨ruleId, hm, rfl⟩
    · rcases hp with hp | ⟨_, _, hp⟩
      · exact hne (Parent.config.inj hp)
      · cases hp
    · rcases hp with hp | ⟨ruleId', hm', hp⟩
      · cases hp
      · exact hids _ hm (Parent.rule.inj hp ▸ hm')
  unfold ChildTables.of
  rw [ruleIds_append hne, ChildTables.mk.injEq]
  refine ⟨?_, ?_, ?_, ?_, ?_⟩
  · refine filter_append_of_none _ (fun row hr heq => ?_)
    obtain ⟨item, -, rfl⟩ := List.mem_map.mp hr
    exact hne (of_decide_eq_true heq).symm
  · refine filter_append_of_none _ (fun row hr heq => ?_)
    exact hne ((of_decide_eq_true heq).symm.trans (mem_rules_persistChildren hr))
  · exact filter_append_of_none _ (fun row hr hm =>
      hids _ (of_decide_eq_true hm) (mem_conditions_persistChildren hr))
  · exact filter_append_of_none _ (fun row hr => hparent _ (parent_of_mem_rollouts hr))
  · exact filter_append_of_none _ (fun row hr => hparent _ (parent_of_mem_stages hr))

/-- New rows come with their rules. -/
theorem closed_append (h : tables.Closed) :
    (tables.append (persistChildren ruleIds configId c)).Closed := by
  have hrules : (tables.append (persistChildren ruleIds configId c)).rules.map
      TargetingRuleRow.id
      = tables.rules.map TargetingRuleRow.id ++ newRuleIds ruleIds c := by
    rw [← map_id_persistChildren ruleIds configId c]
    exact List.map_append
  have hnew : ∀ {parent : Parent}, parent.belongsTo configId (newRuleIds ruleIds c) = true →
      ∀ ruleId, parent = .rule ruleId → ruleId ∈ newRuleIds ruleIds c := by
    intro parent hp ruleId heq
    rw [belongsTo_eq_true, heq] at hp
    rcases hp with hp | ⟨ruleId', hm, hp⟩
    · cases hp
    · exact Parent.rule.inj hp ▸ hm
  refine ⟨?_, ?_, ?_⟩ <;> rw [hrules]
  · intro row hr
    rcases List.mem_append.mp hr with hr | hr
    · exact List.mem_append_left _ (h.conditions row hr)
    · exact List.mem_append_right _ (mem_conditions_persistChildren hr)
  · intro row hr ruleId hp
    rcases List.mem_append.mp hr with hr | hr
    · exact List.mem_append_left _ (h.rollouts row hr ruleId hp)
    · exact List.mem_append_right _ (hnew (parent_of_mem_rollouts hr) ruleId hp)
  · intro row hr ruleId hp
    rcases List.mem_append.mp hr with hr | hr
    · exact List.mem_append_left _ (h.progressiveStages row hr ruleId hp)
    · exact List.mem_append_right _ (hnew (parent_of_mem_stages hr) ruleId hp)

end Append

/-! ## What is found of a configuration -/

/-- A filter inside parts that agree. -/
theorem filter_eq_of_parts {α : Type} {p q q' : α → Bool} {xs ys : List α}
    (hparts : xs.filter q' = ys.filter q) (hp : ∀ x, p x = true → q x = true)
    (hp' : ∀ x, p x = true → q' x = true) : xs.filter p = ys.filter p := by
  rw [← filter_filter_of_imp xs (fun x _ => hp' x), hparts,
    filter_filter_of_imp ys (fun x _ => hp x)]

section Same

variable {tables tables' : ChildTables} {configId ruleId : UUID}

theorem variations_of_eq (heq : tables'.of configId = tables.of configId) :
    tables'.variations.filter (fun row => row.configId = configId)
      = tables.variations.filter (fun row => row.configId = configId) :=
  congrArg ChildTables.variations heq

theorem rules_of_eq (heq : tables'.of configId = tables.of configId) :
    tables'.rules.filter (fun row => row.configId = configId)
      = tables.rules.filter (fun row => row.configId = configId) :=
  congrArg ChildTables.rules heq

theorem ruleIds_of_eq (heq : tables'.of configId = tables.of configId) :
    tables'.ruleIds configId = tables.ruleIds configId :=
  congrArg (List.map TargetingRuleRow.id) (rules_of_eq heq)

theorem rollouts_of_eq (heq : tables'.of configId = tables.of configId) {parent : Parent}
    (hparent : parent.belongsTo configId (tables.ruleIds configId) = true) :
    tables'.rollouts.filter (fun row => row.parent = parent)
      = tables.rollouts.filter (fun row => row.parent = parent) := by
  refine filter_eq_of_parts (congrArg ChildTables.rollouts heq) (fun row hp => ?_)
    (fun row hp => ?_)
  · rw [of_decide_eq_true hp]
    exact hparent
  · rw [of_decide_eq_true hp, ruleIds_of_eq heq]
    exact hparent

theorem stages_of_eq (heq : tables'.of configId = tables.of configId) {parent : Parent}
    (hparent : parent.belongsTo configId (tables.ruleIds configId) = true) :
    tables'.progressiveStages.filter (fun row => row.parent = parent)
      = tables.progressiveStages.filter (fun row => row.parent = parent) := by
  refine filter_eq_of_parts (congrArg ChildTables.progressiveStages heq) (fun row hp => ?_)
    (fun row hp => ?_)
  · rw [of_decide_eq_true hp]
    exact hparent
  · rw [of_decide_eq_true hp, ruleIds_of_eq heq]
    exact hparent

theorem conditions_of_eq (heq : tables'.of configId = tables.of configId)
    (hid : ruleId ∈ tables.ruleIds configId) :
    tables'.conditions.filter (fun row => row.ruleId = ruleId)
      = tables.conditions.filter (fun row => row.ruleId = ruleId) := by
  refine filter_eq_of_parts (congrArg ChildTables.conditions heq) (fun row hp => ?_)
    (fun row hp => ?_)
  · rw [of_decide_eq_true hp]
    exact decide_eq_true hid
  · rw [of_decide_eq_true hp, ruleIds_of_eq heq]
    exact decide_eq_true hid

theorem belongsTo_config (configId : UUID) (ids : List UUID) :
    (Parent.config configId).belongsTo configId ids = true :=
  belongsTo_eq_true.mpr (Or.inl rfl)

theorem belongsTo_rule {ids : List UUID} (hid : ruleId ∈ ids) :
    (Parent.rule ruleId).belongsTo configId ids = true :=
  belongsTo_eq_true.mpr (Or.inr ⟨ruleId, hid, rfl⟩)

/-- **What is stored of a configuration is a matter of its own rows.** Tables that agree on them
store the same configuration. -/
theorem Stores.of_eq {saved : List (UUID × TargetingRule)} {c : ConfigurationFields}
    (h : Stores tables configId saved c) (heq : tables'.of configId = tables.of configId) :
    Stores tables' configId saved c := by
  have hsaved : ∀ item ∈ saved, item.1 ∈ tables.ruleIds configId := by
    intro item hi
    refine List.mem_map.mpr ⟨dbRule configId item.1 item.2, ?_, rfl⟩
    exact h.rules.mem_iff.mpr (List.mem_map_of_mem hi)
  refine ⟨h.savedRules, ?_, ?_, ?_, ?_, ?_, ?_, ?_⟩
  · rw [variations_of_eq heq]
    exact h.variations
  · rw [rules_of_eq heq]
    exact h.rules
  · rw [rollouts_of_eq heq (belongsTo_config configId _)]
    exact h.rollouts
  · rw [stages_of_eq heq (belongsTo_config configId _)]
    exact h.progressiveStages
  · intro item hi
    rw [conditions_of_eq heq (hsaved item hi)]
    exact h.ruleConditions item hi
  · intro item hi
    rw [rollouts_of_eq heq (belongsTo_rule (hsaved item hi))]
    exact h.ruleRollouts item hi
  · intro item hi
    rw [stages_of_eq heq (belongsTo_rule (hsaved item hi))]
    exact h.ruleStages item hi

end Same

end CohortSwitch
