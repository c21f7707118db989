import CohortSwitch.Flags
import CohortSwitch.Rearranged

/-!
# The order of the rows of a configuration

`persistChildren` writes the children of a configuration as rows, and the ORM
loads them back in whatever order the database returns them. `Stores` says
that the tables hold exactly the rows of a configuration, and `Represents P`
that a loaded object graph is that configuration with its collections
arranged; `represents_of_loads` connects the two.

## What compiling gives back

Compiling a loaded graph succeeds and gives the configuration back up to order
(`compile_of_represents`). Rules and rollouts are sorted on the way, stages
are not, so the stages keep the order of the rows. A rollout is restored exactly,
since its boundaries increase strictly and are what it is sorted by
(`sortedAllocations`); the rules are restored because no two share a priority.

## What a subject can see

The order of the stages is the one thing a subject can see:
`rowOrder_irrelevant_iff` says that no order of the rows changes an evaluation
exactly when the stages that share the decisive timestamp agree. One direction is
that of `CohortSwitch.Rearranged`. For the other, a stage that may count is
brought to the front of every list it stands in (`bringFirst`): this is an order
the database may return, the stages that are consulted stay the same, and the
stage decides. Where two such stages differ, the two orders are two answers.
`rowOrder_tiedStages` is a flag on which they do.
-/

namespace CohortSwitch

/-! ## Rows of one configuration -/

/-- **The columns of a configuration and its parents hold its scalars.** -/
structure Describes (row : FlagConfigRow) (flag : FeatureFlagRow)
    (environment : EnvironmentRow) (c : ConfigurationFields) : Prop where
  projectId : c.projectId = flag.projectId.str
  environmentId : c.environmentId = row.environmentId.str
  environmentKey : c.environmentKey = environment.key
  flagId : c.flagId = row.flagId.str
  flagKey : c.flagKey = flag.key
  flagType : c.flagType = flag.flagType
  enabled : c.enabled = row.enabled
  defaultVariation : c.defaultVariation = row.defaultVariationKey
  configVersion : c.configVersion = row.currentVersion
  salt : c.salt = row.salt

/-- What is compiled has the scalars of its rows. -/
theorem describes_of_compile {config : LoadedConfig} {c : FlagConfiguration}
    (h : compileConfiguration config = .ok c) :
    Describes config.row config.flag config.environment c.toConfigurationFields := by
  obtain ⟨rules, -, h⟩ := bind_eq_ok.mp h
  obtain ⟨rollout, -, h⟩ := bind_eq_ok.mp h
  obtain ⟨stages, -, h⟩ := bind_eq_ok.mp h
  rw [FlagConfiguration.create_eq_ok_iff.mp h]
  exact ⟨rfl, rfl, rfl, rfl, rfl, rfl, rfl, rfl, rfl, rfl⟩

/-- **The tables hold the children of a configuration**, its rules under the ids of `saved`, and
nothing else of it. The ids of the rules were chosen when the version was written and are in no
snapshot. -/
structure Stores (tables : ChildTables) (configId : UUID)
    (saved : List (UUID × TargetingRule)) (c : ConfigurationFields) : Prop where
  /-- The ids are beside the rules of the version. -/
  savedRules : saved.map Prod.snd = c.rules
  /-- The rows under the configuration are those of its collections, in any order. -/
  variations : (tables.variations.filter (fun row => row.configId = configId)).Perm
    (c.variations.items.map (dbVariation configId))
  rules : (tables.rules.filter (fun row => row.configId = configId)).Perm
    (saved.map (fun item => dbRule configId item.1 item.2))
  rollouts : (tables.rollouts.filter (fun row => row.parent = .config configId)).Perm
    (c.rollout.map (dbAllocation (.config configId)))
  progressiveStages :
    (tables.progressiveStages.filter (fun row => row.parent = .config configId)).Perm
      (c.progressiveStages.map (dbStage (.config configId)))
  /-- The rows under a rule are those of its collections. -/
  ruleConditions : ∀ item ∈ saved,
    (tables.conditions.filter (fun row => row.ruleId = item.1)).Perm
      (item.2.conditions.map (dbCondition item.1))
  ruleRollouts : ∀ item ∈ saved,
    (tables.rollouts.filter (fun row => row.parent = .rule item.1)).Perm
      (item.2.rollout.map (dbAllocation (.rule item.1)))
  ruleStages : ∀ item ∈ saved,
    (tables.progressiveStages.filter (fun row => row.parent = .rule item.1)).Perm
      (item.2.progressiveStages.map (dbStage (.rule item.1)))

/-- Two sets of tables side by side. -/
def ChildTables.append (tables rows : ChildTables) : ChildTables where
  variations := tables.variations ++ rows.variations
  rules := tables.rules ++ rows.rules
  conditions := tables.conditions ++ rows.conditions
  rollouts := tables.rollouts ++ rows.rollouts
  progressiveStages := tables.progressiveStages ++ rows.progressiveStages

/-- **The tables hold nothing of a configuration**, and nothing of a rule with
one of the given ids. -/
structure ChildTables.Free (tables : ChildTables) (configId : UUID) (ruleIds : List UUID) :
    Prop where
  variations : ∀ row ∈ tables.variations, row.configId ≠ configId
  rules : ∀ row ∈ tables.rules, row.configId ≠ configId
  conditions : ∀ row ∈ tables.conditions, row.ruleId ∉ ruleIds
  rollouts : ∀ row ∈ tables.rollouts, row.parent ≠ .config configId
    ∧ ∀ ruleId ∈ ruleIds, row.parent ≠ .rule ruleId
  progressiveStages : ∀ row ∈ tables.progressiveStages, row.parent ≠ .config configId
    ∧ ∀ ruleId ∈ ruleIds, row.parent ≠ .rule ruleId

/-- Rows written under distinct ids: those of one id are its own. -/
theorem filter_flatMap_of_nodup {ι κ α β : Type} [DecidableEq κ] {items : List (ι × α)}
    {key : ι → κ} (hkey : Function.Injective key) (rowKey : β → κ) (rows : ι → α → List β)
    (hrows : ∀ i a, ∀ row ∈ rows i a, rowKey row = key i)
    (hnd : (items.map Prod.fst).Nodup) {item : ι × α} (hm : item ∈ items) :
    (items.flatMap (fun p => rows p.1 p.2)).filter (fun row => rowKey row = key item.1)
      = rows item.1 item.2 := by
  induction items with
  | nil => cases hm
  | cons p rest ih =>
    rw [List.map_cons, List.nodup_cons] at hnd
    rw [List.flatMap_cons, List.filter_append]
    rcases List.mem_cons.mp hm with rfl | hm
    · have hown : (rows item.1 item.2).filter (fun row => rowKey row = key item.1)
          = rows item.1 item.2 :=
        List.filter_eq_self.mpr (fun row hr => decide_eq_true (hrows _ _ row hr))
      have hrest : (rest.flatMap (fun p => rows p.1 p.2)).filter
          (fun row => rowKey row = key item.1) = [] := by
        refine List.filter_eq_nil_iff.mpr (fun row hr hk => ?_)
        obtain ⟨q, hq, hr⟩ := List.mem_flatMap.mp hr
        have heq : q.1 = item.1 :=
          hkey ((hrows _ _ row hr).symm.trans (of_decide_eq_true hk))
        exact hnd.1 (heq ▸ List.mem_map_of_mem hq)
      rw [hown, hrest, List.append_nil]
    · have hp : (rows p.1 p.2).filter (fun row => rowKey row = key item.1) = [] := by
        refine List.filter_eq_nil_iff.mpr (fun row hr hk => ?_)
        have heq : p.1 = item.1 :=
          hkey ((hrows _ _ row hr).symm.trans (of_decide_eq_true hk))
        exact hnd.1 (heq ▸ List.mem_map_of_mem hm)
      rw [hp, List.nil_append]
      exact ih hnd.2 hm

/-- The rules of the pairs are the rules. -/
theorem map_snd_identified (ruleIds : ℕ → UUID) (rules : List TargetingRule) :
    (identified ruleIds rules).map Prod.snd = rules := by
  unfold identified
  rw [List.map_map]
  exact List.zipIdx_map_fst 0 rules

/-- Rows of one kind stay apart from rows of another. -/
theorem filter_eq_nil_of_ne {α β : Type} [DecidableEq β] {f : α → β} {b : β} {xs : List α}
    (h : ∀ x ∈ xs, f x ≠ b) : xs.filter (fun x => f x = b) = [] :=
  List.filter_eq_nil_iff.mpr (fun x hx hb => h x hx (of_decide_eq_true hb))

/-- And those of one kind are all of it. -/
theorem filter_map_of_eq {α β γ : Type} [DecidableEq β] (f : α → β) {b : β} (g : γ → α)
    (h : ∀ x, f (g x) = b) (xs : List γ) :
    (xs.map g).filter (fun row => f row = b) = xs.map g := by
  refine List.filter_eq_self.mpr (fun row hr => decide_eq_true ?_)
  obtain ⟨x, -, rfl⟩ := List.mem_map.mp hr
  exact h x

/-- **`_persist_children` stores the configuration** in tables that held
nothing of it. -/
theorem stores_persistChildren {tables : ChildTables} {configId : UUID} {ruleIds : ℕ → UUID}
    {c : FlagConfiguration}
    (hfree : tables.Free configId ((identified ruleIds c.rules).map Prod.fst))
    (hids : ((identified ruleIds c.rules).map Prod.fst).Nodup) :
    Stores (tables.append (persistChildren ruleIds configId c)) configId
      (identified ruleIds c.rules) c.toConfigurationFields := by
  -- the rows of a rule are found by its id, and no two rules have one
  have hruleParent : Function.Injective Parent.rule := fun _ _ h => Parent.rule.inj h
  refine ⟨map_snd_identified ruleIds c.rules, ?_, ?_, ?_, ?_, ?_, ?_, ?_⟩
  · show ((tables.variations ++ _).filter _).Perm _
    rw [List.filter_append, filter_eq_nil_of_ne hfree.variations, List.nil_append]
    exact .of_eq (filter_map_of_eq FlagVariationRow.configId (dbVariation configId)
      (fun _ => rfl) _)
  · show ((tables.rules ++ _).filter _).Perm _
    rw [List.filter_append, filter_eq_nil_of_ne hfree.rules, List.nil_append]
    exact .of_eq (filter_map_of_eq TargetingRuleRow.configId
      (fun item : UUID × TargetingRule => dbRule configId item.1 item.2) (fun _ => rfl) _)
  · show ((tables.rollouts ++ (_ ++ _)).filter _).Perm _
    rw [List.filter_append, List.filter_append,
      filter_eq_nil_of_ne (fun row hr => (hfree.rollouts row hr).1), List.nil_append,
      filter_map_of_eq RolloutAllocationRow.parent (dbAllocation (.config configId))
        (fun _ => rfl), filter_eq_nil_of_ne (by simp [dbAllocation]; grind), List.append_nil]
  · show ((tables.progressiveStages ++ (_ ++ _)).filter _).Perm _
    rw [List.filter_append, List.filter_append,
      filter_eq_nil_of_ne (fun row hr => (hfree.progressiveStages row hr).1), List.nil_append,
      filter_map_of_eq ProgressiveStageRow.parent (dbStage (.config configId))
        (fun _ => rfl), filter_eq_nil_of_ne (by simp [dbStage]; grind), List.append_nil]
  · intro item hi
    show ((tables.conditions ++ _).filter _).Perm _
    have hnone : tables.conditions.filter (fun row => row.ruleId = item.1) = [] :=
      filter_eq_nil_of_ne (fun row hr heq =>
        hfree.conditions row hr (heq ▸ List.mem_map_of_mem hi))
    rw [List.filter_append, hnone, List.nil_append]
    have hinj : Function.Injective (fun ruleId : UUID => ruleId) := fun _ _ h => h
    have hown := filter_flatMap_of_nodup hinj RuleConditionRow.ruleId
      (fun i (r : TargetingRule) => r.conditions.map (dbCondition i)) (by simp [dbCondition])
      hids hi
    exact .of_eq hown
  · intro item hi
    show ((tables.rollouts ++ (_ ++ _)).filter _).Perm _
    have hnone : tables.rollouts.filter (fun row => row.parent = .rule item.1) = [] :=
      filter_eq_nil_of_ne (fun row hr =>
        (hfree.rollouts row hr).2 _ (List.mem_map_of_mem hi))
    rw [List.filter_append, List.filter_append, hnone, List.nil_append,
      filter_eq_nil_of_ne (by simp [dbAllocation]), List.nil_append]
    exact .of_eq (filter_flatMap_of_nodup hruleParent RolloutAllocationRow.parent
      (fun i r => r.rollout.map (dbAllocation (.rule i))) (by simp [dbAllocation]) hids hi)
  · intro item hi
    show ((tables.progressiveStages ++ (_ ++ _)).filter _).Perm _
    have hnone : tables.progressiveStages.filter (fun row => row.parent = .rule item.1) = [] :=
      filter_eq_nil_of_ne (fun row hr =>
        (hfree.progressiveStages row hr).2 _ (List.mem_map_of_mem hi))
    rw [List.filter_append, List.filter_append, hnone, List.nil_append,
      filter_eq_nil_of_ne (by simp [dbStage]), List.nil_append]
    exact .of_eq (filter_flatMap_of_nodup hruleParent ProgressiveStageRow.parent
      (fun i r => r.progressiveStages.map (dbStage (.rule i))) (by simp [dbStage]) hids hi)

/-! ## Loaded graphs of one configuration -/

/-- A loaded rule is the given one with its collections arranged. -/
structure RepresentsRule (P : List ProgressiveStage → List ProgressiveStage → Prop)
    (rule : TargetingRule) (loaded : LoadedRule) : Prop where
  /-- The columns of the row are the fields of the rule. -/
  name : loaded.row.name = rule.name
  priority : loaded.row.priority = rule.priority
  /-- `update_flag` stores no rule that is disabled. -/
  enabled : loaded.row.enabled = true
  variation : loaded.row.serveVariationKey = rule.variation
  /-- The collections are loaded in any order. -/
  conditions : ∃ ruleId, loaded.conditions.Perm (rule.conditions.map (dbCondition ruleId))
  rollouts : ∃ parent, loaded.rollouts.Perm (rule.rollout.map (dbAllocation parent))
  /-- Stages are loaded in an order that is allowed. -/
  progressiveStages : ∃ parent stages, P rule.progressiveStages stages
    ∧ loaded.progressiveStages = stages.map (dbStage parent)

/-- **A loaded graph is the given configuration** with its collections arranged, and its stage
lists arranged as `P` allows. The stages have a relation of their own since their order is the
one that an evaluation may see, where two of them have one timestamp. -/
structure Represents (P : List ProgressiveStage → List ProgressiveStage → Prop)
    (c : ConfigurationFields) (loaded : LoadedConfig) : Prop where
  /-- The row, the flag and the environment say what the configuration says. -/
  describes : Describes loaded.row loaded.flag loaded.environment c
  /-- The collections are loaded in any order, -/
  variations : ∃ configId,
    loaded.variations.Perm (c.variations.items.map (dbVariation configId))
  rollouts : ∃ parent, loaded.rollouts.Perm (c.rollout.map (dbAllocation parent))
  /-- the stages in one that is allowed, -/
  progressiveStages : ∃ parent stages, P c.progressiveStages stages
    ∧ loaded.progressiveStages = stages.map (dbStage parent)
  /-- and the rules in any order, each arranged within. -/
  rules : PermBy (RepresentsRule P) c.rules loaded.rules

/-- Rows that are an arrangement of the rows of some items are the rows of an
arrangement of the items. -/
theorem exists_map_of_perm_map {α β : Type} {f : α → β} {ys : List β} {xs : List α}
    (h : ys.Perm (xs.map f)) : ∃ xs', xs.Perm xs' ∧ ys = xs'.map f := by
  obtain ⟨zs, hp, hz⟩ := PermBy.map_left.mp (PermBy.of_perm (fun _ => rfl) h.symm)
  refine ⟨zs, hp, ?_⟩
  rw [← List.forall₂_map_left_iff, List.forall₂_eq_eq_eq] at hz
  exact hz.symm

/-- **What the tables give is the stored configuration up to order.** -/
theorem represents_of_loads {tables : ChildTables} {loaded : LoadedConfig}
    {saved : List (UUID × TargetingRule)} {c : ConfigurationFields}
    (hstores : Stores tables loaded.row.id saved c) (hloads : Loads tables loaded)
    (hdesc : Describes loaded.row loaded.flag loaded.environment c) :
    Represents List.Perm c loaded where
  describes := hdesc
  variations := ⟨_, hloads.variations.trans hstores.variations⟩
  rollouts := ⟨_, hloads.rollouts.trans hstores.rollouts⟩
  progressiveStages := by
    obtain ⟨stages, hp, hs⟩ :=
      exists_map_of_perm_map (hloads.progressiveStages.trans hstores.progressiveStages)
    exact ⟨_, stages, hp, hs⟩
  rules := by
    have hrows : PermBy (fun item rule => dbRule loaded.row.id item.1 item.2 = rule.row)
        saved loaded.rules :=
      PermBy.map_left.mp (PermBy.map_right.mp
        (PermBy.of_perm (R := Eq) (fun _ => rfl) (hloads.rules.trans hstores.rules).symm))
    rw [← hstores.savedRules, PermBy.map_left]
    refine hrows.mono_mem (fun item hi rule hr hrow => ?_)
    have hid : rule.row.id = item.1 := by rw [← hrow]; rfl
    have hchild := hloads.children rule hr
    have hconditions := hchild.conditions
    have hrollouts := hchild.rollouts
    have hstages := hchild.progressiveStages
    rw [hid] at hconditions hrollouts hstages
    obtain ⟨stages, hp, hs⟩ := exists_map_of_perm_map (hstages.trans (hstores.ruleStages item hi))
    exact {
      name := by rw [← hrow]; rfl
      priority := by rw [← hrow]; rfl
      enabled := by rw [← hrow]; rfl
      variation := by rw [← hrow]; rfl
      conditions := ⟨_, hconditions.trans (hstores.ruleConditions item hi)⟩
      rollouts := ⟨_, hrollouts.trans (hstores.ruleRollouts item hi)⟩
      progressiveStages := ⟨_, stages, hp, hs⟩ }

/-! ## Compiling a loaded graph -/

section Compile

variable {P : List ProgressiveStage → List ProgressiveStage → Prop}

/-- Reading the rows of items back gives the items. -/
theorem mapM_map_eq_ok {ε α β : Type} {f : β → Except ε α} {g : α → β}
    (h : ∀ x, f (g x) = .ok x) (xs : List α) : (xs.map g).mapM f = .ok xs := by
  rw [mapM_eq_ok, List.forall₂_map_left_iff]
  exact List.forall₂_same.mpr (fun x _ => h x)

/-- A stage is read back from its row. -/
theorem engineStage_dbStage (parent : Parent) (stage : ProgressiveStage) :
    engineStage (dbStage parent stage) = .ok stage :=
  stage.create_self

/-- So is an allocation. -/
theorem engineAllocation_dbAllocation (parent : Parent) (allocation : RolloutAllocation) :
    engineAllocation (dbAllocation parent allocation) = .ok allocation :=
  dif_pos allocation.endBucketRange

/-- So is a condition. -/
theorem engineCondition_dbCondition (ruleId : UUID) (condition : Condition) :
    engineCondition (dbCondition ruleId condition) = .ok condition :=
  dif_pos condition.attributeLength

/-- **Sorting the rows of a valid rollout restores it**, whatever order they come in. -/
theorem sortedAllocations {rollout : List RolloutAllocation} (hvalid : ValidRollout rollout)
    {parent : Parent} {rows : List RolloutAllocationRow}
    (h : rows.Perm (rollout.map (dbAllocation parent))) :
    (sortedBy RolloutAllocationRow.endBucket rows).mapM engineAllocation = .ok rollout := by
  have hkeys : (rollout.map (dbAllocation parent)).map RolloutAllocationRow.endBucket
      = rollout.map RolloutAllocation.endBucket := by
    rw [List.map_map]
    rfl
  have hlt : (rollout.map RolloutAllocation.endBucket).Pairwise (· < ·) := by
    rcases hvalid with rfl | ⟨hlt, -⟩
    · exact .nil
    · exact hlt
  have hnd : (rows.map RolloutAllocationRow.endBucket).Nodup := by
    rw [(h.map _).nodup_iff, hkeys]
    exact hlt.imp (fun hab => ne_of_lt hab)
  have hle : (rollout.map (dbAllocation parent)).Pairwise
      (fun a b => a.endBucket ≤ b.endBucket) := by
    rw [← List.pairwise_map (f := RolloutAllocationRow.endBucket) (R := (· ≤ ·)), hkeys]
    exact hlt.imp (fun hab => le_of_lt hab)
  rw [sortedBy_eq_of_perm _ h hnd, sortedBy_eq_self _ hle]
  exact mapM_map_eq_ok (engineAllocation_dbAllocation parent) rollout

/-- A list of stages and its arrangement are empty together. -/
theorem isEmpty_of_perm {α : Type} {xs ys : List α} (h : xs.Perm ys) :
    xs.isEmpty = ys.isEmpty := by
  rw [Bool.eq_iff_iff, List.isEmpty_iff, List.isEmpty_iff]
  exact ⟨fun h' => List.nil_perm.mp (h' ▸ h), fun h' => List.perm_nil.mp (h' ▸ h)⟩

/-- **Compiling a loaded rule gives the rule up to order.** -/
theorem exists_compileRule (hP : ∀ stages stages', P stages stages' → stages.Perm stages')
    {rule : TargetingRule} {loaded : LoadedRule} (h : RepresentsRule P rule loaded)
    (hvalid : ValidRollout rule.rollout) :
    ∃ compiled, compileRule loaded = .ok compiled ∧ rule.Rearranged Eq P compiled := by
  obtain ⟨ruleId, hconditions⟩ := h.conditions
  obtain ⟨parent, hrollouts⟩ := h.rollouts
  obtain ⟨parent', stages, hstages, hrows⟩ := h.progressiveStages
  obtain ⟨conditions, hcond, hrow⟩ := exists_map_of_perm_map hconditions
  have haction : actionCount loaded.row.serveVariationKey rule.rollout stages = 1 := by
    have hempty := isEmpty_of_perm (hP _ _ hstages)
    have hrule := rule.requireAction
    unfold actionCount at hrule ⊢
    rw [h.variation, ← hempty]
    exact hrule
  refine ⟨⟨loaded.row.name, loaded.row.priority, conditions, loaded.row.serveVariationKey,
    rule.rollout, stages, haction⟩, ?_, ?_⟩
  · unfold compileRule
    rw [hrow, hrows, mapM_map_eq_ok (engineCondition_dbCondition ruleId),
      sortedAllocations hvalid hrollouts, mapM_map_eq_ok (engineStage_dbStage parent')]
    exact dif_pos haction
  · exact ⟨h.name.symm, h.priority.symm, PermBy.of_perm (fun _ => ⟨rfl, rfl, rfl⟩) hcond,
      h.variation.symm, rfl, hstages⟩

/-- **Compiling a loaded graph gives the configuration up to order.** -/
theorem compile_of_represents (hP : ∀ stages stages', P stages stages' → stages.Perm stages')
    {c : FlagConfiguration} {loaded : LoadedConfig}
    (h : Represents P c.toConfigurationFields loaded) :
    ∃ d, compileConfiguration loaded = .ok d
      ∧ c.toConfigurationFields.Rearranged Eq P d.toConfigurationFields := by
  obtain ⟨configId, hvariations⟩ := h.variations
  obtain ⟨parent, hrollouts⟩ := h.rollouts
  obtain ⟨parent', stages, hstages, hrows⟩ := h.progressiveStages
  obtain ⟨items, hitems, hvrows⟩ := exists_map_of_perm_map hvariations
  have hsorted : PermBy (RepresentsRule P) c.rules
      (sortedBy (fun rule => rule.row.priority) loaded.rules) :=
    h.rules.perm_right (sortedBy_perm _ _).symm
  have hfilter : (sortedBy (fun rule => rule.row.priority) loaded.rules).filter
      (fun rule => rule.row.enabled) = sortedBy (fun rule => rule.row.priority) loaded.rules := by
    refine List.filter_eq_self.mpr (fun rule hr => ?_)
    obtain ⟨_, -, hrep⟩ := hsorted.exists_left hr
    exact hrep.enabled
  obtain ⟨rules, hrules, hrel⟩ := exists_mapM_of_permBy hsorted
    (fun rule hm loadedRule hrep =>
      exists_compileRule hP hrep (c.valid.ruleRolloutsValid rule hm))
  have hpairs : loaded.variations.map (fun item => (item.key, item.value)) = items := by
    rw [hvrows, List.map_map]
    exact List.map_id' items
  have hdict : (Dict.ofPairs items).items = items :=
    Dict.items_ofPairs ((hitems.map Prod.fst).nodup_iff.mp c.variations.nodup)
  -- the fields the compilation collects
  let fields : ConfigurationFields := {
    projectId := loaded.flag.projectId.str
    environmentId := loaded.row.environmentId.str
    environmentKey := loaded.environment.key
    flagId := loaded.row.flagId.str
    flagKey := loaded.flag.key
    flagType := loaded.flag.flagType
    enabled := loaded.row.enabled
    defaultVariation := loaded.row.defaultVariationKey
    variations := Dict.ofPairs items
    configVersion := loaded.row.currentVersion
    salt := loaded.row.salt
    rules := rules
    rollout := c.rollout
    progressiveStages := stages }
  have hrearranged : c.toConfigurationFields.Rearranged Eq P fields := by
    refine ⟨⟨h.describes.projectId, h.describes.environmentId, h.describes.environmentKey,
      h.describes.flagId, h.describes.flagKey, h.describes.flagType, h.describes.enabled,
      h.describes.defaultVariation, ?_, h.describes.salt, hrel, rfl, hstages⟩,
      h.describes.configVersion⟩
    show PermBy _ c.variations.items (Dict.ofPairs items).items
    rw [hdict]
    exact PermBy.of_perm (fun _ => ⟨rfl, rfl⟩) hitems
  have hvalid : fields.Valid :=
    hrearranged.valid Json.reordered_of_eq hP c.valid
  refine ⟨⟨fields, validateConfiguration_eq_ok_iff.mpr hvalid⟩, ?_, hrearranged⟩
  unfold compileConfiguration
  rw [hfilter, hrules, sortedAllocations c.valid.rolloutValid hrollouts, hrows,
    mapM_map_eq_ok (engineStage_dbStage parent'), hpairs]
  exact FlagConfiguration.create_of_valid hvalid

end Compile

/-! ## Bringing a stage to the front -/

/-- The list with a stage of it first. -/
def bringFirst (stage : ProgressiveStage) (stages : List ProgressiveStage) :
    List ProgressiveStage :=
  if stage ∈ stages then stage :: stages.erase stage else stages

/-- This is an arrangement of the list. -/
theorem bringFirst_perm (stage : ProgressiveStage) (stages : List ProgressiveStage) :
    stages.Perm (bringFirst stage stages) := by
  unfold bringFirst
  split
  · rename_i h
    exact List.perm_cons_erase h
  · exact .refl stages

/-- The rule with a stage of it first. -/
def TargetingRule.bringFirst (stage : ProgressiveStage) (rule : TargetingRule) :
    TargetingRule where
  name := rule.name
  priority := rule.priority
  conditions := rule.conditions
  variation := rule.variation
  rollout := rule.rollout
  progressiveStages := CohortSwitch.bringFirst stage rule.progressiveStages
  requireAction := by
    have hempty := isEmpty_of_perm (bringFirst_perm stage rule.progressiveStages)
    have hrule := rule.requireAction
    unfold actionCount at hrule ⊢
    rw [← hempty]
    exact hrule

/-- The fields with a stage first wherever it stands. -/
def ConfigurationFields.bringFirst (stage : ProgressiveStage) (c : ConfigurationFields) :
    ConfigurationFields :=
  { c with
    rules := c.rules.map (TargetingRule.bringFirst stage)
    progressiveStages := CohortSwitch.bringFirst stage c.progressiveStages }

/-- Bringing a stage first rearranges a rule. -/
theorem TargetingRule.rearranged_bringFirst (stage : ProgressiveStage) (rule : TargetingRule) :
    rule.Rearranged Eq List.Perm (rule.bringFirst stage) :=
  ⟨rfl, rfl, PermBy.of_perm (fun _ => ⟨rfl, rfl, rfl⟩) (.refl _), rfl, rfl,
    bringFirst_perm stage rule.progressiveStages⟩

/-- And a configuration. -/
theorem ConfigurationFields.rearranged_bringFirst (stage : ProgressiveStage)
    (c : ConfigurationFields) : c.Rearranged Eq List.Perm (c.bringFirst stage) :=
  ⟨⟨rfl, rfl, rfl, rfl, rfl, rfl, rfl, rfl, PermBy.of_perm (fun _ => ⟨rfl, rfl⟩) (.refl _), rfl,
    PermBy.map_right.mpr (PermBy.of_perm (TargetingRule.rearranged_bringFirst stage)
      (.refl _)), rfl, bringFirst_perm stage c.progressiveStages⟩, rfl⟩

/-- The configuration with a stage first wherever it stands. -/
def FlagConfiguration.bringFirst (stage : ProgressiveStage) (c : FlagConfiguration) :
    FlagConfiguration where
  toConfigurationFields := c.toConfigurationFields.bringFirst stage
  accepted := validateConfiguration_eq_ok_iff.mpr
    ((c.rearranged_bringFirst stage).valid Json.reordered_of_eq (fun _ _ h => h) c.valid)

/-- The graph in which every collection keeps the order of the configuration,
but for a stage that comes first wherever it stands. -/
def loadBringingFirst (row : FlagConfigRow) (flag : FeatureFlagRow)
    (environment : EnvironmentRow) (saved : List (UUID × TargetingRule))
    (stage : ProgressiveStage) (c : ConfigurationFields) : LoadedConfig where
  row := row
  flag := flag
  environment := environment
  variations := c.variations.items.map (dbVariation row.id)
  rollouts := c.rollout.map (dbAllocation (.config row.id))
  progressiveStages := (bringFirst stage c.progressiveStages).map (dbStage (.config row.id))
  rules := saved.map (fun item => {
    row := dbRule row.id item.1 item.2
    conditions := item.2.conditions.map (dbCondition item.1)
    rollouts := item.2.rollout.map (dbAllocation (.rule item.1))
    progressiveStages :=
      (bringFirst stage item.2.progressiveStages).map (dbStage (.rule item.1)) })

/-- The tables may give this graph. -/
theorem loads_loadBringingFirst {tables : ChildTables} {row : FlagConfigRow}
    {saved : List (UUID × TargetingRule)} {c : ConfigurationFields}
    (hstores : Stores tables row.id saved c) (flag : FeatureFlagRow)
    (environment : EnvironmentRow) (stage : ProgressiveStage) :
    Loads tables (loadBringingFirst row flag environment saved stage c) where
  variations := hstores.variations.symm
  rollouts := hstores.rollouts.symm
  progressiveStages := ((bringFirst_perm stage _).symm.map _).trans hstores.progressiveStages.symm
  rules := by
    show (List.map LoadedRule.row (saved.map _)).Perm _
    rw [List.map_map]
    exact hstores.rules.symm
  children := by
    intro rule hr
    obtain ⟨item, hi, rfl⟩ := List.mem_map.mp hr
    exact {
      conditions := (hstores.ruleConditions item hi).symm
      rollouts := (hstores.ruleRollouts item hi).symm
      progressiveStages :=
        ((bringFirst_perm stage _).symm.map _).trans (hstores.ruleStages item hi).symm }

/-- It is the configuration with the stage first. -/
theorem represents_loadBringingFirst {tables : ChildTables} {row : FlagConfigRow}
    {flag : FeatureFlagRow} {environment : EnvironmentRow}
    {saved : List (UUID × TargetingRule)} {c : ConfigurationFields}
    (hstores : Stores tables row.id saved c) (hdesc : Describes row flag environment c)
    (stage : ProgressiveStage) :
    Represents Eq (c.bringFirst stage)
      (loadBringingFirst row flag environment saved stage c) where
  describes := ⟨hdesc.projectId, hdesc.environmentId, hdesc.environmentKey, hdesc.flagId,
    hdesc.flagKey, hdesc.flagType, hdesc.enabled, hdesc.defaultVariation, hdesc.configVersion,
    hdesc.salt⟩
  variations := ⟨_, .refl _⟩
  rollouts := ⟨_, .refl _⟩
  progressiveStages := ⟨_, _, rfl, rfl⟩
  rules := by
    show PermBy _ (c.rules.map _) (saved.map _)
    rw [← hstores.savedRules, PermBy.map_left, PermBy.map_left, PermBy.map_right]
    exact PermBy.of_perm (fun item => ⟨rfl, rfl, rfl, rfl, ⟨_, .refl _⟩, ⟨_, .refl _⟩,
      ⟨_, _, rfl, rfl⟩⟩) (.refl saved)

section Selection

variable [Packaging]

/-- **The stages that are consulted decide the variation.** -/
theorem progressiveVariation_of_evaluateRules {c : FlagConfiguration}
    {context : EvaluationContext} {now : Instant} {rules : List TargetingRule} {bucket : ℕ}
    {result : EvaluationResult} (hb : getBucket c context = .ok bucket)
    (hne : consultedByRules c context rules ≠ [])
    (h : evaluateRules c context now rules = .ok result) :
    progressiveVariation (consultedByRules c context rules) bucket now
      = .ok result.variation := by
  have hexit : ∀ {variation reason matchedRule},
      evaluationResult c variation reason matchedRule now = .ok result →
      result.variation = variation := by
    intro variation reason matchedRule hr
    unfold evaluationResult at hr
    split at hr
    · cases hr
      rfl
    · cases hr
  -- an exit through a stage list names the variation the list selects
  have hstages : ∀ {stages : List ProgressiveStage} {reason matchedRule},
      (do
        let bucket ← getBucket c context
        let variation ← progressiveVariation stages bucket now
        evaluationResult c variation reason matchedRule now) = .ok result →
      progressiveVariation stages bucket now = .ok result.variation := by
    intro stages reason matchedRule hr
    obtain ⟨bucket', hb', hrest⟩ := bind_eq_ok.mp hr
    obtain ⟨variation, hv, hexited⟩ := bind_eq_ok.mp hrest
    rw [hb] at hb'
    cases hb'
    rw [hv, hexit hexited]
  induction rules with
  | nil =>
    unfold consultedByRules at hne ⊢
    unfold evaluateRules flagAction at h
    rw [if_pos (by simpa using hne)] at h
    exact hstages h
  | cons rule rest ih =>
    unfold consultedByRules at hne ⊢
    unfold evaluateRules at h
    cases hcond : conditionsHold context rule.conditions with
    | error e =>
      rw [hcond] at h
      cases h
    | ok holds =>
      rw [hcond] at h hne
      cases holds with
      | false => exact ih hne h
      | true =>
        have hact : ruleAction c context now rule = .ok result := h
        have hvar : ¬ isTruthy rule.variation = true := by
          intro hv
          have hone := rule.requireAction
          have hs : rule.progressiveStages.isEmpty = false := by
            rw [List.isEmpty_eq_false_iff]
            exact hne
          rw [actionCount, hv, hs, Bool.toNat_true, Bool.not_false, Bool.toNat_true] at hone
          omega
        unfold ruleAction at hact
        rw [if_neg hvar, if_pos (by simpa using hne)] at hact
        exact hstages hact

/-- Bringing a stage first keeps which list is consulted. -/
theorem consultedByRules_bringFirst (c : FlagConfiguration) (context : EvaluationContext)
    (stage : ProgressiveStage) (rules : List TargetingRule) :
    consultedByRules (c.bringFirst stage) context (rules.map (TargetingRule.bringFirst stage))
      = bringFirst stage (consultedByRules c context rules) := by
  induction rules with
  | nil => rfl
  | cons rule rest ih =>
    rw [List.map_cons]
    unfold consultedByRules
    have hconditions : (rule.bringFirst stage).conditions = rule.conditions := rfl
    rw [hconditions]
    rcases conditionsHold context rule.conditions with e | holds
    · exact (if_neg (by simp) : bringFirst stage [] = []).symm
    · cases holds with
      | true => rfl
      | false => exact ih

/-- Nor does it change the stages an evaluation selects from, but for their order. -/
theorem consultedStages_bringFirst (c : FlagConfiguration) (context : EvaluationContext)
    (stage : ProgressiveStage) :
    consultedStages (c.bringFirst stage) context
      = bringFirst stage (consultedStages c context) := by
  have hsorted : sortedBy TargetingRule.priority (c.rules.map (TargetingRule.bringFirst stage))
      = (sortedBy TargetingRule.priority c.rules).map (TargetingRule.bringFirst stage) := by
    have hrel : List.Forall₂ (fun r s => r.bringFirst stage = s) c.rules
        (c.rules.map (TargetingRule.bringFirst stage)) :=
      List.forall₂_map_right_iff.mpr (List.forall₂_same.mpr (fun _ _ => rfl))
    have hboth : List.Forall₂ (fun r s => r.bringFirst stage = s)
        (sortedBy TargetingRule.priority c.rules) (sortedBy TargetingRule.priority
          (c.rules.map (TargetingRule.bringFirst stage))) :=
      forall₂_sortedBy (fun r s hrs => by rw [← hrs]; rfl) hrel
    rw [← List.forall₂_map_left_iff, List.forall₂_eq_eq_eq] at hboth
    exact hboth.symm
  unfold consultedStages
  show (if c.enabled then consultedByRules (c.bringFirst stage) context
    (sortedBy TargetingRule.priority (c.rules.map (TargetingRule.bringFirst stage))) else []) = _
  rw [hsorted, consultedByRules_bringFirst]
  split
  · rfl
  · exact (if_neg (by simp) : bringFirst stage [] = []).symm

/-- The variation of an evaluation that consults stages. -/
theorem progressiveVariation_of_evaluateFlag {c : FlagConfiguration}
    {context : EvaluationContext} {now : Instant} {bucket : ℕ} {result : EvaluationResult}
    (hb : getBucket c context = .ok bucket) (hne : consultedStages c context ≠ [])
    (h : evaluateFlag c context now = .ok result) :
    progressiveVariation (consultedStages c context) bucket now = .ok result.variation := by
  unfold consultedStages at hne ⊢
  unfold evaluateFlag at h
  by_cases hen : c.enabled = true
  · rw [if_pos hen] at hne ⊢
    rw [if_neg (by simp [hen])] at h
    exact progressiveVariation_of_evaluateRules hb hne h
  · rw [if_neg hen] at hne
    exact absurd rfl hne

end Selection

/-! ## Which orders a subject can see -/

section Order

variable [Packaging] {tables : ChildTables} {row : FlagConfigRow} {flag : FeatureFlagRow}
  {environment : EnvironmentRow} {saved : List (UUID × TargetingRule)} {c : FlagConfiguration}
  {context : EvaluationContext} {now : Instant}

/-- **Every order of the rows evaluates alike where the ties agree.** -/
theorem sameOutcome_of_ties {loaded : LoadedConfig}
    (hrep : Represents List.Perm c.toConfigurationFields loaded)
    (hpriority : (c.rules.map TargetingRule.priority).Nodup)
    (hraise : ∀ error, ¬ RaisedByCondition c context error)
    (hties : StageTiesAgree c context now) :
    ∃ d, compileConfiguration loaded = .ok d
      ∧ SameOutcome Eq (evaluateFlag c context now) (evaluateFlag d context now) := by
  obtain ⟨d, hd, hrel⟩ := compile_of_represents (fun _ _ h => h) hrep
  refine ⟨d, hd, ?_⟩
  refine evaluateFlag_alike Json.reordered_of_eq (fun _ _ h => h) hrel.toAlike hpriority ?_
    hties.selectsAlike
  exact fun rule hr condition hc error he => hraise error ⟨rule, hr, condition, hc, he⟩

/-- An evaluation of a valid configuration whose bucket exists returns, as
long as no condition raises. -/
theorem exists_evaluateFlag (now : Instant)
    (hbucket : ∃ bucket, getBucket c context = .ok bucket)
    (hraise : ∀ error, ¬ RaisedByCondition c context error) :
    ∃ result, evaluateFlag c context now = .ok result := by
  have hrules : ∀ rule ∈ sortedBy TargetingRule.priority c.rules, rule ∈ c.rules :=
    fun _ hr => (mem_sortedBy _).mp hr
  unfold evaluateFlag
  split
  · obtain ⟨result, hr, -⟩ := exists_evaluationResult c.valid.defaultKnown .flagDisabled none now
    exact ⟨result, hr⟩
  · rcases evaluateRules_sound hbucket now hrules with ⟨error, -, he⟩ | ⟨result, hr, -⟩
    · exact absurd he (hraise error)
    · exact ⟨result, hr⟩

/-- **Where two tied stages differ some order of the rows shows it.** Each of the two is brought
first in turn. -/
theorem exists_order_of_not_ties (hstores : Stores tables row.id saved c.toConfigurationFields)
    (hdesc : Describes row flag environment c.toConfigurationFields)
    (hpriority : (c.rules.map TargetingRule.priority).Nodup)
    (hraise : ∀ error, ¬ RaisedByCondition c context error)
    (hties : ¬ StageTiesAgree c context now) :
    ∃ stage, ∀ d, compileConfiguration
        (loadBringingFirst row flag environment saved stage c.toConfigurationFields) = .ok d →
      ∀ R, ¬ SameOutcome R (evaluateFlag c context now) (evaluateFlag d context now) := by
  unfold StageTiesAgree at hties
  push Not at hties
  obtain ⟨bucket, hb, hdiffer⟩ := hties
  obtain ⟨result, hresult⟩ := exists_evaluateFlag now ⟨bucket, hb⟩ hraise
  unfold TiesAgree at hdiffer
  push Not at hdiffer
  obtain ⟨s, hs, t, ht, hne⟩ := hdiffer
  -- one of the two serves another variation than the evaluation did
  obtain ⟨stage, hstage, hserves⟩ : ∃ stage ∈ currentStages (consultedStages c context) now,
      stage.servesAt bucket now ≠ result.variation := by
    by_cases hsv : s.servesAt bucket now = result.variation
    · exact ⟨t, ht, fun htv => hne (hsv.trans htv.symm)⟩
    · exact ⟨s, hs, hsv⟩
  refine ⟨stage, fun d hd R hsame => hserves ?_⟩
  obtain ⟨d', hd', hrel⟩ := compile_of_represents (c := c.bringFirst stage)
    (fun _ _ h => .of_eq h) (represents_loadBringingFirst hstores hdesc stage)
  rw [hd] at hd'
  cases hd'
  -- the graph with the stage first evaluates as the configuration with the stage first
  have hfirst : SameOutcome Eq (evaluateFlag (c.bringFirst stage) context now)
      (evaluateFlag d context now) := by
    refine evaluateFlag_alike Json.reordered_of_eq (fun _ _ h => .of_eq h) hrel.toAlike ?_ ?_
      (fun _ h _ _ => h ▸ rfl)
    · show ((c.rules.map _).map _).Nodup
      rw [List.map_map]
      exact hpriority
    · rintro rule hr condition hc error he
      obtain ⟨rule', hr', rfl⟩ := List.mem_map.mp hr
      exact hraise error ⟨rule', hr', condition, hc, he⟩
  rw [hresult] at hsame
  cases hdr : evaluateFlag d context now with
  | error e =>
    rw [hdr] at hsame
    exact hsame.elim
  | ok r =>
    rw [hdr] at hsame hfirst
    cases hfr : evaluateFlag (c.bringFirst stage) context now with
    | error e =>
      rw [hfr] at hfirst
      exact hfirst.elim
    | ok r' =>
      rw [hfr] at hfirst
      have hmem : stage ∈ consultedStages c context := by
        unfold currentStages at hstage
        dsimp only at hstage
        split at hstage
        · exact List.mem_of_mem_filter hstage
        · exact List.mem_of_mem_filter (List.mem_of_mem_filter hstage)
      have hconsulted : consultedStages (c.bringFirst stage) context
          = stage :: (consultedStages c context).erase stage :=
        (consultedStages_bringFirst c context stage).trans (if_pos hmem)
      have hcurrent := (currentStages_perm (List.perm_cons_erase hmem) now).mem_iff.mp hstage
      have hb' : getBucket (c.bringFirst stage) context = .ok bucket := hb
      have hvar := progressiveVariation_of_evaluateFlag hb'
        (by rw [hconsulted]; exact List.cons_ne_nil _ _) hfr
      rw [hconsulted, progressiveVariation_of_first hcurrent] at hvar
      rw [hsame.variation, ← hfirst.variation]
      exact Except.ok.inj hvar

/-- **The order of the rows is irrelevant to an evaluation exactly when the
tied stages agree.** The configuration is one `_build_configuration` accepts
for the row, the tables hold the rows `_persist_children` writes for it among
rows of others, and the rows may come back in any order. -/
theorem rowOrder_irrelevant_iff {content : FlagContent} {ruleIds : ℕ → UUID}
    (hbuild : buildConfiguration flag.projectId environment flag content row.currentVersion
      row.salt = .ok c)
    (hflag : row.flagId = flag.id) (henvironment : row.environmentId = environment.id)
    (henabled : row.enabled = content.enabled)
    (hdefault : row.defaultVariationKey = content.defaultVariation)
    (hfree : tables.Free row.id ((identified ruleIds c.rules).map Prod.fst))
    (hids : ((identified ruleIds c.rules).map Prod.fst).Nodup)
    (hraise : ∀ error, ¬ RaisedByCondition c context error) :
    (∀ loaded : LoadedConfig, loaded.row = row → loaded.flag = flag →
        loaded.environment = environment →
        Loads (tables.append (persistChildren ruleIds row.id c)) loaded →
      ∃ d, compileConfiguration loaded = .ok d
        ∧ SameOutcome Eq (evaluateFlag c context now) (evaluateFlag d context now))
      ↔ StageTiesAgree c context now := by
  have hbuilt := buildConfiguration_eq_ok_iff.mp hbuild
  have hstores := stores_persistChildren hfree hids
  have hdesc : Describes row flag environment c.toConfigurationFields :=
    ⟨hbuilt.projectId, henvironment ▸ hbuilt.environmentId, hbuilt.environmentKey,
      hflag ▸ hbuilt.flagId, hbuilt.flagKey, hbuilt.flagType, henabled ▸ hbuilt.enabled,
      hdefault ▸ hbuilt.defaultVariation, hbuilt.configVersion, hbuilt.salt⟩
  constructor
  · intro hall
    by_contra hties
    obtain ⟨stage, hstage⟩ :=
      exists_order_of_not_ties hstores hdesc hbuilt.priorities hraise hties
    obtain ⟨d, hd, hsame⟩ :=
      hall _ rfl rfl rfl (loads_loadBringingFirst hstores flag environment stage)
    exact hstage d hd Eq hsame
  · rintro hties loaded rfl rfl rfl hloads
    exact sameOutcome_of_ties (represents_of_loads hstores hloads hdesc) hbuilt.priorities hraise
      hties

end Order

/-! ## Two stages with one timestamp -/

/-- A payload whose two stages start at the same time. -/
def tiedContent : FlagContent where
  enabled := true
  defaultVariation := "a"
  variations := [⟨"a", .str "A", by decide⟩, ⟨"b", .str "B", by decide⟩]
  rules := []
  rollout := []
  progressiveStages := [
    ⟨10000, "a", "a", .ofInstant 0, by decide, by decide⟩,
    ⟨10000, "b", "b", .ofInstant 0, by decide, by decide⟩]
  variationsNonempty := by simp

/-- The environment of the flag below. -/
def tiedEnvironment : EnvironmentRow := ⟨⟨2⟩, ⟨1⟩, "production", "Production", 0⟩

/-- The flag itself. -/
def tiedFlag : FeatureFlagRow := ⟨⟨3⟩, ⟨1⟩, "banner", "Banner", "", .string, none⟩

/-- Its configuration. -/
def tiedRow : FlagConfigRow := ⟨⟨4⟩, ⟨3⟩, ⟨2⟩, true, "a", 1, "salt"⟩

/-- The configuration of `tiedContent`. -/
def tiedConfiguration : FlagConfiguration where
  projectId := (UUID.mk 1).str
  environmentId := (UUID.mk 2).str
  environmentKey := "production"
  flagId := (UUID.mk 3).str
  flagKey := "banner"
  flagType := .string
  enabled := true
  defaultVariation := "a"
  variations := ⟨[("a", .str "A"), ("b", .str "B")], by decide⟩
  configVersion := 1
  salt := "salt"
  rules := []
  rollout := []
  progressiveStages := [⟨10000, "a", "a", 0, by decide⟩, ⟨10000, "b", "b", 0, by decide⟩]
  accepted := rfl

/-- The service builds it. -/
theorem buildConfiguration_tiedContent :
    buildConfiguration ⟨1⟩ tiedEnvironment tiedFlag tiedContent 1 "salt" = .ok tiedConfiguration :=
  buildConfiguration_eq_ok_iff.mpr ⟨rfl, rfl, rfl, rfl, rfl, rfl, rfl, rfl, rfl, rfl, rfl, .nil,
    rfl, .cons rfl (.cons rfl .nil), by decide, by decide, Or.inl rfl⟩

/-- No tables at all. -/
def ChildTables.empty : ChildTables := ⟨[], [], [], [], []⟩

/-- It has no conditions, so none raises. -/
theorem not_raisedByCondition_tied [Packaging] (context : EvaluationContext) (error : PyError) :
    ¬ RaisedByCondition tiedConfiguration context error := by
  rintro ⟨rule, hr, -⟩
  exact List.not_mem_nil hr

theorem rowOrder_irrelevant_iff_tied :
    (∀ loaded : LoadedConfig, loaded.row = tiedRow → loaded.flag = tiedFlag →
        loaded.environment = tiedEnvironment →
        Loads (ChildTables.empty.append
          (persistChildren UUID.mk tiedRow.id tiedConfiguration)) loaded →
      ∃ d, compileConfiguration loaded = .ok d
        ∧ SameOutcome Eq (@evaluateFlag .refusing tiedConfiguration sampleContext 0)
          (@evaluateFlag .refusing d sampleContext 0))
      ↔ @StageTiesAgree .refusing tiedConfiguration sampleContext 0 :=
  @rowOrder_irrelevant_iff .refusing .empty tiedRow tiedFlag tiedEnvironment tiedConfiguration
    sampleContext 0 tiedContent UUID.mk buildConfiguration_tiedContent rfl rfl rfl rfl
    ⟨by simp [ChildTables.empty], by simp [ChildTables.empty], by simp [ChildTables.empty],
      by simp [ChildTables.empty], by simp [ChildTables.empty]⟩
    (by decide) (@not_raisedByCondition_tied .refusing sampleContext)

/-- Two stages that start together and serve different variations to every
bucket do not agree. -/
theorem not_stageTiesAgree_of_tied [Packaging] {c : FlagConfiguration}
    {context : EvaluationContext} {now : Instant} {a b : String} (hab : a ≠ b)
    (henabled : c.enabled = true) (hrules : c.rules = [])
    (hstages : c.progressiveStages = [⟨10000, a, a, 0, le_rfl⟩, ⟨10000, b, b, 0, le_rfl⟩])
    (hbucket : ∃ bucket, getBucket c context = .ok bucket) : ¬ StageTiesAgree c context now := by
  intro h
  obtain ⟨bucket, hb⟩ := hbucket
  have hlt : bucket < 10000 := stableBucket_lt hb
  have hle : (0 : Instant) ≤ now := Fin.zero_le now
  have hconsulted : consultedStages c context = c.progressiveStages := by
    unfold consultedStages
    rw [if_pos henabled, hrules]
    rfl
  have hcurrent : currentStages (consultedStages c context) now
      = [⟨10000, a, a, 0, le_rfl⟩, ⟨10000, b, b, 0, le_rfl⟩] := by
    rw [hconsulted, hstages]
    simp [currentStages, hle]
  have heq := h bucket hb ⟨10000, a, a, 0, le_rfl⟩
    (by rw [hcurrent]; exact List.mem_cons_self) ⟨10000, b, b, 0, le_rfl⟩
    (by rw [hcurrent]; exact List.mem_cons_of_mem _ List.mem_cons_self)
  simp only [ProgressiveStage.servesAt, ProgressiveStage.serves, hlt, hle, if_true] at heq
  exact hab heq

theorem not_stageTiesAgree_tied [Packaging] (context : EvaluationContext)
    (hsubject : FitsHash context.subjectKey) (now : Instant) :
    ¬ StageTiesAgree tiedConfiguration context now :=
  not_stageTiesAgree_of_tied (by decide) rfl rfl rfl
    (exists_stableBucket (by decide) (by decide) (by decide) hsubject (by decide))

/-- **A subject sees the order of the rows of two tied stages**: the
configuration the service built and stored, and the one it compiles from the
same rows in another order, evaluate differently. -/
theorem rowOrder_tiedStages :
    buildConfiguration ⟨1⟩ tiedEnvironment tiedFlag tiedContent 1 "salt" = .ok tiedConfiguration
      ∧ (∀ error, ¬ @RaisedByCondition .refusing tiedConfiguration sampleContext error)
      ∧ ∃ loaded d, loaded.row = tiedRow ∧ loaded.flag = tiedFlag
        ∧ loaded.environment = tiedEnvironment
        ∧ Loads (persistChildren UUID.mk tiedRow.id tiedConfiguration) loaded
        ∧ compileConfiguration loaded = .ok d
        ∧ ¬ SameOutcome Eq (@evaluateFlag .refusing tiedConfiguration sampleContext 0)
          (@evaluateFlag .refusing d sampleContext 0) := by
  have hstores : Stores (persistChildren UUID.mk tiedRow.id tiedConfiguration) tiedRow.id
      (identified UUID.mk tiedConfiguration.rules) tiedConfiguration.toConfigurationFields :=
    ⟨rfl, .of_eq rfl, .of_eq rfl, .of_eq rfl, .of_eq rfl, by simp [identified, tiedConfiguration],
      by simp [identified, tiedConfiguration], by simp [identified, tiedConfiguration]⟩
  have hdesc : Describes tiedRow tiedFlag tiedEnvironment tiedConfiguration.toConfigurationFields :=
    ⟨rfl, rfl, rfl, rfl, rfl, rfl, rfl, rfl, rfl, rfl⟩
  obtain ⟨stage, hstage⟩ := @exists_order_of_not_ties .refusing _ _ _ _ _ _ _ 0 hstores hdesc
    List.nodup_nil (@not_raisedByCondition_tied .refusing sampleContext)
    (@not_stageTiesAgree_tied .refusing sampleContext (by decide) 0)
  obtain ⟨d, hd, -⟩ := compile_of_represents (c := tiedConfiguration.bringFirst stage)
    (fun _ _ h => .of_eq h) (represents_loadBringingFirst hstores hdesc stage)
  exact ⟨buildConfiguration_tiedContent, @not_raisedByCondition_tied .refusing sampleContext, _, d,
    rfl, rfl, rfl, loads_loadBringingFirst hstores tiedFlag tiedEnvironment stage, hd,
    hstage d hd Eq⟩

end CohortSwitch
