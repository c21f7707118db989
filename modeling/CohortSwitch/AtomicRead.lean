import CohortSwitch.Revisions

/-!
# Reading a configuration

`getConfigByKey` takes a SELECT for the row and one for each relation, and each
of them sees what is committed when it starts. What it compiles is a committed
version if no writer of the configuration committed between the first SELECT
and the last: `getConfigByKey_atomic`. Otherwise the old row meets new
children, and since the rules of a new version have new ids, a rule that was
listed before the commit is loaded without its conditions after it:
`getConfigByKey_torn`.

The reader is placed on the moments of a run (`System.Moments`): one committed state
for each of its statements, in order, with any number of commits in between. That the
version is the same at the first and the last moment is enough, because versions only
grow: then it is the same at all of them, and with the version the children are
(`children_between`).

What is compiled is a committed version up to the order of its rows. `IsCommitted`
says so without naming a moment, since a version that was committed once is stored for
good (`IsCommitted.later`).
-/

namespace CohortSwitch

/-! ## What the SELECTs load -/

/-- The first statement of a program is one that reads. -/
theorem observe_read_bind {V W R ε α β : Type} {f : V → α} {k : α → Prog V W R ε β}
    {views : List V} {result : Except ε β}
    (h : (Prog.read f >>= k).observe views = some result) :
    ∃ v rest, views = v :: rest ∧ (k (f v)).observe rest = some result := by
  cases views with
  | nil => cases h
  | cons v rest => exact ⟨v, rest, rfl, h⟩

/-- The rest of a program without statements. -/
theorem observe_attempt {V W R ε α : Type} {x result : Except ε α} {views : List V}
    (h : (Prog.attempt x : Prog V W R ε α).observe views = some result) : x = result := by
  cases x <;> cases views <;> cases h <;> rfl

/-- The SELECTs of the collections, each on its own tables. -/
theorem loads_of_selects {T T₁ T₂ T₃ T₄ T₅ T₆ T₇ : ChildTables} {row : FlagConfigRow}
    (hsame : ∀ T' ∈ [T₁, T₂, T₃, T₄, T₅, T₆, T₇], T'.of row.id = T.of row.id)
    {flag : FeatureFlagRow} {environment : EnvironmentRow} {variations : List FlagVariationRow}
    {rollouts ruleRollouts : List RolloutAllocationRow}
    {stages ruleStages : List ProgressiveStageRow} {rules : List TargetingRuleRow}
    {conditions : List RuleConditionRow}
    (hvariations : variations.Perm
      (T₁.variations.filter (fun item => item.configId = row.id)))
    (hrollouts : rollouts.Perm (T₂.rollouts.filter (fun item => item.parent = .config row.id)))
    (hstages : stages.Perm
      (T₃.progressiveStages.filter (fun item => item.parent = .config row.id)))
    (hrules : rules.Perm (T₄.rules.filter (fun item => item.configId = row.id)))
    (hconditions : conditions.Perm
      (T₅.conditions.filter (fun item => item.ruleId ∈ rules.map TargetingRuleRow.id)))
    (hruleRollouts : ruleRollouts.Perm (T₆.rollouts.filter (fun item =>
      item.parent.isRuleOf (rules.map TargetingRuleRow.id))))
    (hruleStages : ruleStages.Perm (T₇.progressiveStages.filter (fun item =>
      item.parent.isRuleOf (rules.map TargetingRuleRow.id)))) :
    Loads T {
      row, flag, environment, variations, rollouts
      progressiveStages := stages
      rules := rules.map (fun rule => {
        row := rule
        conditions := conditions.filter (fun item => item.ruleId = rule.id)
        rollouts := ruleRollouts.filter (fun item => item.parent = .rule rule.id)
        progressiveStages := ruleStages.filter (fun item => item.parent = .rule rule.id) }) } := by
  simp only [List.forall_mem_cons] at hsame
  obtain ⟨h₁, h₂, h₃, h₄, h₅, h₆, h₇, -⟩ := hsame
  have hown := belongsTo_config row.id (T.ruleIds row.id)
  rw [variations_of_eq h₁] at hvariations
  rw [rollouts_of_eq h₂ hown] at hrollouts
  rw [stages_of_eq h₃ hown] at hstages
  rw [rules_of_eq h₄] at hrules
  refine ⟨hvariations, hrollouts, hstages, ?_, ?_⟩
  · show ((rules.map _).map LoadedRule.row).Perm _
    rw [List.map_map, show (LoadedRule.row ∘ _ : TargetingRuleRow → _) = fun rule => rule from rfl,
      List.map_id']
    exact hrules
  · intro loaded hloaded
    obtain ⟨rule, hrule, rfl⟩ := List.mem_map.mp hloaded
    -- the rules that were listed are those of the configuration in every state
    have hid : rule.id ∈ T.ruleIds row.id :=
      List.mem_map_of_mem (hrules.mem_iff.mp hrule)
    have hlisted : rule.id ∈ rules.map TargetingRuleRow.id := List.mem_map_of_mem hrule
    have hparent : (Parent.rule rule.id).isRuleOf (rules.map TargetingRuleRow.id) = true :=
      decide_eq_true hlisted
    refine ⟨?_, ?_, ?_⟩
    · show (conditions.filter (fun item => item.ruleId = rule.id)).Perm _
      rw [← conditions_of_eq h₅ hid]
      refine (hconditions.filter _).trans (.of_eq (filter_filter_of_imp _ (fun item _ h => ?_)))
      rw [of_decide_eq_true h]
      exact decide_eq_true hlisted
    · show (ruleRollouts.filter (fun item => item.parent = .rule rule.id)).Perm _
      rw [← rollouts_of_eq h₆ (belongsTo_rule hid)]
      refine (hruleRollouts.filter _).trans (.of_eq (filter_filter_of_imp _ (fun item _ h => ?_)))
      rw [of_decide_eq_true h]
      exact hparent
    · show (ruleStages.filter (fun item => item.parent = .rule rule.id)).Perm _
      rw [← stages_of_eq h₇ (belongsTo_rule hid)]
      refine (hruleStages.filter _).trans (.of_eq (filter_filter_of_imp _ (fun item _ h => ?_)))
      rw [of_decide_eq_true h]
      exact hparent

/-- **What the SELECTs of the collections load** if every one of them finds the
same children. -/
theorem observe_loadCollections {β : Type} {row : FlagConfigRow} {flag : FeatureFlagRow}
    {environment : EnvironmentRow} {k : LoadedConfig → Tx β}
    {views : List (View Database Row Choice)} {result : Except PyError β}
    (h : (loadCollections row flag environment >>= k).observe views = some result) :
    ∃ loaded rest, loaded.row = row ∧ loaded.flag = flag ∧ loaded.environment = environment
      ∧ (k loaded).observe rest = some result
      ∧ ∀ T : ChildTables, (∀ v ∈ views, v.state.children.of row.id = T.of row.id) →
        Loads T loaded := by
  unfold loadCollections at h
  rw [Prog.bind_assoc] at h
  obtain ⟨v₁, views₁, rfl, h₁⟩ := observe_read_bind h
  beta_reduce at h₁
  rw [Prog.bind_assoc] at h₁
  obtain ⟨v₂, views₂, rfl, h₂⟩ := observe_read_bind h₁
  beta_reduce at h₂
  rw [Prog.bind_assoc] at h₂
  obtain ⟨v₃, views₃, rfl, h₃⟩ := observe_read_bind h₂
  beta_reduce at h₃
  rw [Prog.bind_assoc] at h₃
  obtain ⟨v₄, views₄, rfl, h₄⟩ := observe_read_bind h₃
  beta_reduce at h₄
  rw [Prog.bind_assoc] at h₄
  obtain ⟨v₅, views₅, rfl, h₅⟩ := observe_read_bind h₄
  beta_reduce at h₅
  rw [Prog.bind_assoc] at h₅
  obtain ⟨v₆, views₆, rfl, h₆⟩ := observe_read_bind h₅
  beta_reduce at h₆
  rw [Prog.bind_assoc] at h₆
  obtain ⟨v₇, views₇, rfl, h₇⟩ := observe_read_bind h₆
  refine ⟨_, views₇, rfl, rfl, rfl, h₇, fun T hsame => ?_⟩
  simp only [List.forall_mem_cons] at hsame
  obtain ⟨hs₁, hs₂, hs₃, hs₄, hs₅, hs₆, hs₇, -⟩ := hsame
  refine loads_of_selects ?_ (arrange_perm _ _) (arrange_perm _ _) (arrange_perm _ _)
    (arrange_perm _ _) (arrange_perm _ _) (arrange_perm _ _) (arrange_perm _ _)
  simp only [List.forall_mem_cons]
  exact ⟨hs₁, hs₂, hs₃, hs₄, hs₅, hs₆, hs₇, fun _ hT => absurd hT List.not_mem_nil⟩

/-- What the SELECTs of the collections load, where nothing comes after them. -/
theorem loaded_of_observe {row : FlagConfigRow} {flag : FeatureFlagRow}
    {environment : EnvironmentRow} {views : List (View Database Row Choice)}
    {config : LoadedConfig}
    (h : (loadCollections row flag environment).observe views = some (.ok config)) :
    config.row = row ∧ config.flag = flag ∧ config.environment = environment
      ∧ ∀ T : ChildTables, (∀ v ∈ views, v.state.children.of row.id = T.of row.id) →
        Loads T config := by
  have hbind : (loadCollections row flag environment >>= fun loaded =>
      pure (id loaded)).observe views
      = some (.ok config) := by
    rw [Prog.observe_map, h]
    rfl
  obtain ⟨loaded, rest, hrow, hflag, henvironment, hrest, hloads⟩ := observe_loadCollections hbind
  have hsame : loaded = config := by
    cases rest with
    | nil => exact Except.ok.inj (Option.some.inj hrest)
    | cons v rest => cases hrest
  subst hsame
  exact ⟨hrow, hflag, henvironment, hloads⟩

/-! ## What is read -/

/-- **A configuration is a committed version** of the flag and the environment
it names, the one whose number it carries. -/
def IsCommitted (s : Database) (c : FlagConfiguration) : Prop :=
  ∃ row ∈ s.configs, row.flagId.str = c.flagId ∧ row.environmentId.str = c.environmentId
    ∧ ∃ version ∈ s.versions, version.configId = row.id ∧ version.version = c.configVersion
      ∧ version.snapshot.Rearranged Eq List.Perm c.toConfigurationFields

/-- **No writer of the configuration committed between the first SELECT and the
last**: the version the first one found is still the current one at the last. -/
def ReadsOneVersion (projectId environmentId : UUID) (flagKey : String)
    (states : List Database) : Prop :=
  ∀ first ∈ states.head?, ∀ last ∈ states.getLast?,
    ∀ item, first.configOfKey projectId environmentId flagKey = some item →
      ∃ row ∈ last.configs, row.id = item.1.id ∧ row.currentVersion = item.1.currentVersion

section Read

variable {s s' : Database}

/-- What the main SELECT by a key finds. -/
theorem configOfKey_eq_some {projectId environmentId : UUID} {flagKey : String}
    {row : FlagConfigRow} {flag : FeatureFlagRow} {environment : EnvironmentRow}
    (h : s.configOfKey projectId environmentId flagKey = some (row, flag, environment)) :
    row ∈ s.configs ∧ (flag ∈ s.flags ∧ flag.id = row.flagId)
      ∧ environment ∈ s.environments ∧ environment.id = row.environmentId := by
  obtain ⟨row', hrow, hjoined⟩ := List.mem_filterMap.mp (List.mem_of_find?_eq_some h)
  obtain ⟨rfl, hflag, henvironment⟩ := joined_eq_some.mp hjoined
  exact ⟨hrow, mem_and_of_find? hflag, mem_and_of_find? henvironment⟩

/-- And the one by a flag. -/
theorem configOfFlag_eq_some {flagId environmentId : UUID} {row : FlagConfigRow}
    {flag : FeatureFlagRow} {environment : EnvironmentRow}
    (h : s.configOfFlag flagId environmentId = some (row, flag, environment)) :
    (row ∈ s.configs ∧ row.flagId = flagId ∧ row.environmentId = environmentId)
      ∧ (flag ∈ s.flags ∧ flag.id = row.flagId)
      ∧ environment ∈ s.environments ∧ environment.id = row.environmentId := by
  obtain ⟨row', hfind, hjoined⟩ := Option.bind_eq_some_iff.mp h
  obtain ⟨rfl, hflag, henvironment⟩ := joined_eq_some.mp hjoined
  exact ⟨mem_and_of_find? hfind, mem_and_of_find? hflag, mem_and_of_find? henvironment⟩

/-- **A load within one version** compiles to that version, up to order. -/
theorem exists_version_of_loads {log : List (Request × Outcome)} (h : History s log)
    {loaded : LoadedConfig} (hrow : loaded.row ∈ s.configs)
    (hflag : loaded.flag ∈ s.flags ∧ loaded.flag.id = loaded.row.flagId)
    (henvironment : loaded.environment ∈ s.environments
      ∧ loaded.environment.id = loaded.row.environmentId)
    (hloads : Loads s.children loaded) {compiled : FlagConfiguration}
    (hcompiled : compileConfiguration loaded = .ok compiled) :
    ∃ version ∈ s.versions, version.configId = loaded.row.id
      ∧ version.version = loaded.row.currentVersion
      ∧ Describes loaded.row loaded.flag loaded.environment version.snapshot
      ∧ version.snapshot.Rearranged Eq List.Perm compiled.toConfigurationFields := by
  obtain ⟨c, hcurrent⟩ := (h.configs _ hrow).current
  obtain ⟨version, hversion, hid, hnumber, hsnapshot⟩ := hcurrent.stored
  obtain ⟨saved, hstores⟩ := hcurrent.children
  have hdescribes := hcurrent.describes _ hflag.1 hflag.2 _ henvironment.1 henvironment.2
  obtain ⟨d, hd, hrearranged⟩ := compile_of_represents (fun _ _ hperm => hperm)
    (represents_of_loads hstores hloads hdescribes)
  rw [hd] at hcompiled
  cases hcompiled
  exact ⟨version, hversion, hid, hnumber, hsnapshot ▸ hdescribes, hsnapshot ▸ hrearranged⟩

/-- **What does not change between two states does not change in between**: versions only grow,
and the children change with the version. -/
theorem children_between {row : FlagConfigRow} {last : Database} (hrow : row ∈ s.configs)
    (hfirst : s.Evolves [] s') (hlast : s'.Evolves [] last) (hok : last.Consistent)
    (hversion : ∃ row' ∈ last.configs, row'.id = row.id
      ∧ row'.currentVersion = row.currentVersion) :
    s'.children.of row.id = s.children.of row.id := by
  obtain ⟨row₁, hr₁, hid₁, hle₁, hsame, -⟩ := hfirst.configs row hrow
  obtain ⟨row₂, hr₂, hid₂, hle₂, -, -⟩ := hlast.configs row₁ hr₁
  obtain ⟨row', hr', hid', hversion'⟩ := hversion
  have heq : row₂ = row' :=
    List.inj_on_of_nodup_map hok.keys.configIds hr₂ hr' ((hid₂.trans hid₁).trans hid'.symm)
  refine (hsame (le_antisymm ?_ hle₁)).2
  rw [heq, hversion'] at hle₂
  exact hle₂

/-- The last of some states in order comes after each of them. -/
theorem evolves_getLast {states : List Database} (h : states.Pairwise (Database.Evolves []))
    (hs : s ∈ states) {last : Database} (hlast : last ∈ states.getLast?) :
    s.Evolves [] last := by
  obtain ⟨earlier, rfl⟩ := List.getLast?_eq_some_iff.mp hlast
  rcases List.mem_append.mp hs with hs | hs
  · exact (List.pairwise_append.mp h).2.2 s hs last (List.mem_singleton.mpr rfl)
  · rw [List.mem_singleton.mp hs]
    exact .refl [] last

/-- A committed version stays one. -/
theorem IsCommitted.later {c : FlagConfiguration} (h : IsCommitted s c)
    (hevolves : s.Evolves [] s') : IsCommitted s' c := by
  obtain ⟨row, hr, hflag, henvironment, version, hv, hid, hrest⟩ := h
  obtain ⟨row', hr', heq⟩ :=
    List.mem_map.mp (hevolves.grows.configs.subset (List.mem_map_of_mem hr))
  refine ⟨row', hr', ?_, ?_, version, hevolves.grows.versions.subset hv, ?_, hrest⟩
  · rw [← hflag]
    exact congrArg (fun i => i.flagId.str) heq
  · rw [← henvironment]
    exact congrArg (fun i => i.environmentId.str) heq
  · exact hid.trans (congrArg FlagConfigRow.Identity.id heq).symm

/-- **A read within one version is atomic.** The SELECTs see what is committed
at successive moments of any run; if the version of the configuration is the
same at the first and at the last of them, what is compiled is that version. -/
theorem getConfigByKey_atomic {actions : List (Action Choice Request)} {w : ServiceWorld}
    (hrun : service.run initial actions = some w) {projectId environmentId : UUID}
    {flagKey : String} {views : List (View Database Row Choice)} {c : FlagConfiguration}
    (hmoments : service.Moments w (views.map View.state))
    (hread : (getConfigByKey projectId environmentId flagKey).observe views = some (.ok c))
    (hone : ReadsOneVersion projectId environmentId flagKey (views.map View.state)) :
    ∀ s ∈ views.map View.state, IsCommitted s c := by
  obtain ⟨hhistory, -, hpairs⟩ :=
    service_respects.moments (fun _ _ _ => trivial) (good_of_run hrun) hmoments
  unfold getConfigByKey at hread
  obtain ⟨v, rest, rfl, hrest⟩ := observe_read_bind hread
  obtain ⟨log, hfirst⟩ := hhistory v.state List.mem_cons_self
  beta_reduce at hrest
  cases hfound : v.state.configOfKey projectId environmentId flagKey with
  | none =>
    rw [hfound] at hrest
    cases rest <;> cases hrest
  | some item =>
    obtain ⟨row, flag, environment⟩ := item
    rw [hfound] at hrest
    obtain ⟨hrow, hflag, henvironment⟩ := configOfKey_eq_some hfound
    have hlater := List.pairwise_cons.mp hpairs
    -- every SELECT of the collections sees the children the first state has
    have hsame : ∀ u ∈ rest, u.state.children.of row.id = v.state.children.of row.id := by
      intro u hu
      have hmem : u.state ∈ rest.map View.state := List.mem_map_of_mem hu
      obtain ⟨last, hlast⟩ : ∃ last, last ∈ (v.state :: rest.map View.state).getLast? :=
        ⟨_, List.getLast?_eq_some_getLast (List.cons_ne_nil _ _)⟩
      obtain ⟨log', hhistory'⟩ := hhistory last (List.mem_of_mem_getLast? hlast)
      exact children_between hrow (hlater.1 _ hmem)
        (evolves_getLast hpairs (List.mem_cons_of_mem _ hmem) hlast) hhistory'.consistent
        (hone v.state rfl last hlast _ hfound)
    obtain ⟨loaded, _, rfl, rfl, rfl, hcompiled, hloads⟩ := observe_loadCollections hrest
    obtain ⟨version, hv, hid, hversion, hdescribes, hrearranged⟩ := exists_version_of_loads hfirst
      hrow hflag henvironment (hloads _ hsame) (observe_attempt hcompiled)
    have hcommitted : IsCommitted v.state c := by
      refine ⟨_, hrow, ?_, ?_, version, hv, hid, ?_, hrearranged⟩
      · rw [← hrearranged.flagId, hdescribes.flagId]
      · rw [← hrearranged.environmentId, hdescribes.environmentId]
      · rw [← hrearranged.configVersion, hdescribes.configVersion, hversion]
    exact List.forall_mem_cons.mpr
      ⟨hcommitted, fun s hs => hcommitted.later (hlater.1 s hs)⟩

end Read

/-! ## A read across a commit -/

/-- What a SELECT of the sample reader sees. -/
def sampleView (w : ServiceWorld) : View Database Row Choice := ⟨w.committed, [], sampleChoice 0⟩

/-- Moments at which nothing happens. -/
theorem moments_replicate (w : ServiceWorld) (n : ℕ) {states : List Database}
    (h : service.Moments w states) :
    service.Moments w (List.replicate n w.committed ++ states) := by
  induction n with
  | zero => exact h
  | succ n ih =>
    have hstay : service.run w [] = some w := rfl
    exact .cons hstay ih

/-- Its name is in order. -/
theorem sampleRule_name : 1 ≤ "beta".length ∧ "beta".length ≤ 200 := by decide

/-- A rule that serves `off` to those who have the plan `beta`. -/
def sampleRule : RuleInput where
  name := "beta"
  priority := 0
  conditions := [⟨"plan", "equals", .str "beta", by decide, by decide⟩]
  variation := some "off"
  rollout := []
  progressiveStages := []
  nameLength := sampleRule_name
  priorityRange := by decide
  requireSingleAction := by decide

/-- A flag with one rule for those who have the plan `beta`. -/
def ruledContent : FlagContent :=
  { sampleContent with rules := [sampleRule] }

/-- The sample tenant with a flag that has a rule. -/
def ruledFlag : List (Action Choice Request) :=
  sampleTenant
  ++ alone 3 40 12 (.createFeatureFlag sampleUser none ⟨20⟩
    { sampleCreate "banner" isFlagKey_banner with toFlagContent := ruledContent })

/-- An update of that flag, which keeps its content. -/
def ruledReplacement : List (Action Choice Request) :=
  alone 4 50 15
    (.replaceFlagConfiguration sampleUser none ⟨40⟩ (sampleUpdate ruledContent 1 Nat.one_pos))

/-- The read of the sample flag, and how many conditions its rules have. -/
def readConditions (views : List (View Database Row Choice)) : Option (List ℕ) :=
  ((getConfigByKey ⟨20⟩ ⟨30⟩ "banner").observe views).bind (fun result =>
    result.toOption.map (fun c => c.rules.map (fun rule => rule.conditions.length)))

/-- What the read returns, where it returns. -/
theorem exists_read {views : List (View Database Row Choice)} {counts : List ℕ}
    (h : readConditions views = some counts) :
    ∃ c, (getConfigByKey ⟨20⟩ ⟨30⟩ "banner").observe views = some (.ok c)
      ∧ c.rules.map (fun rule => rule.conditions.length) = counts := by
  obtain ⟨result, hread, hcounts⟩ := Option.bind_eq_some_iff.mp h
  cases result with
  | error e => cases hcounts
  | ok c => exact ⟨c, hread, Option.some.inj hcounts⟩

theorem getConfigByKey_atomic_sample : ∃ w c, service.run initial ruledFlag = some w
    ∧ (getConfigByKey ⟨20⟩ ⟨30⟩ "banner").observe (List.replicate 8 (sampleView w))
      = some (.ok c)
    ∧ c.rules.map (fun rule => rule.conditions.length) = [1]
    ∧ ∀ s ∈ (List.replicate 8 (sampleView w)).map View.state, IsCommitted s c := by
  have hread : (service.run initial ruledFlag).bind (fun w =>
      readConditions (List.replicate 8 (sampleView w))) = some [1] := by
    decide +kernel
  obtain ⟨w, hrun, hread⟩ := Option.bind_eq_some_iff.mp hread
  obtain ⟨c, hread, hcounts⟩ := exists_read hread
  have hmoments := moments_replicate w 8 (.nil w)
  rw [List.append_nil] at hmoments
  refine ⟨w, c, hrun, hread, hcounts, getConfigByKey_atomic hrun hmoments hread ?_⟩
  rintro first hfirst last hlast ⟨row, flag, environment⟩ hfound
  cases hfirst
  cases hlast
  exact ⟨row, (configOfKey_eq_some hfound).1, rfl, rfl⟩

/-- A rule that lost its conditions is in no committed version. -/
theorem not_isCommitted_of_lost {s : Database} {c : FlagConfiguration}
    (hstored : ∀ version ∈ s.versions, ∀ rule ∈ version.snapshot.rules, rule.conditions ≠ [])
    {rule : TargetingRule} (hrule : rule ∈ c.rules) (hlost : rule.conditions = []) :
    ¬ IsCommitted s c := by
  rintro ⟨row, -, -, -, version, hv, -, -, hrearranged⟩
  obtain ⟨stored, hs, hsame⟩ := hrearranged.rules.exists_left hrule
  exact hstored version hv stored hs (hsame.conditions.nil_iff.mpr hlost)

/-- **A rule loses its conditions**: the rules are listed before the commit of an update, their
conditions after it. The new rules have new ids, so the old ids find nothing, and a rule without
conditions acts on everyone. -/
theorem getConfigByKey_torn : ∃ w w' views c, service.run initial ruledFlag = some w
    ∧ service.run w ruledReplacement = some w'
    ∧ views = List.replicate 5 (sampleView w) ++ List.replicate 3 (sampleView w')
    ∧ service.Moments w (views.map View.state)
    ∧ (getConfigByKey ⟨20⟩ ⟨30⟩ "banner").observe views = some (.ok c)
    ∧ ∀ s ∈ views.map View.state, ¬ IsCommitted s c := by
  have hfacts : (service.run initial ruledFlag).bind (fun w =>
      (service.run w ruledReplacement).bind (fun w' =>
        (readConditions (List.replicate 5 (sampleView w) ++ List.replicate 3 (sampleView w'))).map
          (fun counts => (counts, [w, w'].map (fun u => u.committed.versions.map (fun version =>
            version.snapshot.rules.map (fun rule => rule.conditions.isEmpty)))))))
      = some ([0], [[[false]], [[false], [false]]]) := by
    decide +kernel
  obtain ⟨w, hrun, hfacts⟩ := Option.bind_eq_some_iff.mp hfacts
  obtain ⟨w', hrun', hfacts⟩ := Option.bind_eq_some_iff.mp hfacts
  obtain ⟨counts, hread, hfacts⟩ := Option.map_eq_some_iff.mp hfacts
  simp only [List.map_cons, List.map_nil, Prod.mk.injEq, List.cons.injEq, and_true] at hfacts
  obtain ⟨rfl, hstored, hstored'⟩ := hfacts
  obtain ⟨c, hread, hcounts⟩ := exists_read hread
  obtain ⟨rule, hrule, hlost⟩ := List.mem_map.mp (hcounts ▸ List.mem_singleton.mpr rfl :
    0 ∈ c.rules.map (fun rule => rule.conditions.length))
  -- no rule of a stored version is without conditions
  have hall : ∀ {u : ServiceWorld} {flags : List (List Bool)},
      u.committed.versions.map (fun version =>
        version.snapshot.rules.map (fun rule => rule.conditions.isEmpty)) = flags →
      (∀ each ∈ flags, true ∉ each) → ¬ IsCommitted u.committed c := by
    intro u flags hflags hnone
    refine not_isCommitted_of_lost (fun version hv stored hs hempty => ?_) hrule
      (List.eq_nil_of_length_eq_zero hlost)
    refine hnone _ (hflags ▸ List.mem_map_of_mem hv) (List.mem_map.mpr ⟨stored, hs, ?_⟩)
    rw [hempty]
    rfl
  have hmoments : service.Moments w
      ((List.replicate 5 (sampleView w) ++ List.replicate 3 (sampleView w')).map View.state) := by
    have hlater : service.Moments w (List.replicate 3 w'.committed) := by
      have h := moments_replicate w' 2 (.nil w')
      rw [List.append_nil] at h
      exact .cons hrun' h
    rw [List.map_append, List.map_replicate, List.map_replicate]
    exact moments_replicate w 5 hlater
  refine ⟨w, w', _, c, hrun, hrun', rfl, hmoments, hread, fun s hs => ?_⟩
  rw [List.map_append, List.map_replicate, List.map_replicate, List.mem_append,
    List.mem_replicate, List.mem_replicate] at hs
  rcases hs with ⟨-, rfl⟩ | ⟨-, rfl⟩
  · exact hall hstored (by decide)
  · exact hall hstored' (by decide)

end CohortSwitch
