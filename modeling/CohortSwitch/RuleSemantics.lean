import CohortSwitch.Rearranged

/-!
# Which rule acts

The loop of `evaluateFlag` sorts the rules, tests them one after another and
returns from the first one that holds. Read declaratively there is no loop: of
the rules whose conditions all hold, the one with the smallest priority acts
(`Decides`), and where there is none the flag itself does.

The two readings agree when no condition raises and no two rules share a
priority (`ruleSemantics`). The declarative one mentions neither the order of
the rules nor that of the conditions of a rule, so no permutation of them
changes the outcome.

## From the loop to a search

Where no condition raises, the conjunction of the engine has a truth value, and the
loop is a search for the first satisfied rule among the sorted ones
(`evaluateRules_eq_find?`). The first item with a property in a list sorted by a key
has the least key among the items with it (`find?_sortedBy`), which is the declarative
reading; that it is the only one comes from the priorities being distinct.

An exception would break both: a condition that raises is not reached behind a rule
that acts, nor behind a condition that is false, so the order would be seen.

## What an outcome is

`Returns`, `ReturnsSelected`, `ReturnsRule` and `ReturnsFlag` describe outcomes without
the functions that compute them, as a reader of the documentation would: the variation
with its stored value, or what a selection gives for the bucket of the subject.
-/

namespace CohortSwitch

/-- **The first of the sorted items with a property has the least key among
those with it.** -/
theorem find?_sortedBy {α β : Type} [LinearOrder β] {key : α → β} {p : α → Bool} {xs : List α}
    {a : α} (hkey : (xs.map key).Nodup) (ha : a ∈ xs) (hp : p a = true)
    (hleast : ∀ b ∈ xs, p b = true → key a ≤ key b) :
    (sortedBy key xs).find? p = some a := by
  cases hf : (sortedBy key xs).find? p with
  | none => exact absurd hp (List.find?_eq_none.mp hf a ((mem_sortedBy key).mpr ha))
  | some b =>
    obtain ⟨hb, before, after, hsplit, hbefore⟩ := List.find?_eq_some_iff_append.mp hf
    have hmem : b ∈ xs := (mem_sortedBy key).mp (List.mem_of_find?_eq_some hf)
    have ha' : a ∈ before ++ b :: after := hsplit ▸ (mem_sortedBy key).mpr ha
    have hnot : a ∉ before := fun h => by simpa [hp] using hbefore a h
    -- so `a` is `b` or stands after it, and what stands after has no smaller key
    have hle : key b ≤ key a := by
      have hsorted := hsplit ▸ sortedBy_pairwise key xs
      rcases List.mem_cons.mp ((List.mem_append.mp ha').resolve_left hnot) with rfl | h
      · exact le_rfl
      · exact List.rel_of_pairwise_cons (List.pairwise_append.mp hsorted).2.1 h
    have heq : key b = key a := le_antisymm hle (hleast b hmem hb)
    rw [List.inj_on_of_nodup_map hkey hmem ha heq]

variable [Packaging]

/-! ## The loop is a search -/

/-- All conditions of the rule hold. -/
def Satisfied (context : EvaluationContext) (rule : TargetingRule) : Prop :=
  ∀ condition ∈ rule.conditions, condition.holds context = .ok true

instance (context : EvaluationContext) (condition : Condition) :
    Decidable (condition.holds context = .ok true) :=
  decidable_of_iff ((condition.holds context).toOption = some true)
    (by cases condition.holds context <;> simp [Except.toOption])

instance (context : EvaluationContext) (rule : TargetingRule) :
    Decidable (Satisfied context rule) :=
  List.decidableBAll _ _

/-- Where no condition raises, the conjunction of the engine says whether the
rule is satisfied. -/
theorem conditionsHold_eq_satisfied {context : EvaluationContext} {rule : TargetingRule}
    (h : RaisesNothing context rule) :
    conditionsHold context rule.conditions = .ok (decide (Satisfied context rule)) := by
  rw [conditionsHold_eq_all h]
  congr 1
  rw [Bool.eq_iff_iff, List.all_eq_true, decide_eq_true_iff]
  refine forall₂_congr (fun condition hc => ?_)
  cases hh : condition.holds context with
  | error e => exact absurd hh (h condition hc e)
  | ok holds => simp [Except.toOption]

/-- **The loop over the rules acts on the first one that is satisfied.** -/
theorem evaluateRules_eq_find? {config : FlagConfiguration} {context : EvaluationContext}
    {now : Instant} {rules : List TargetingRule}
    (h : ∀ rule ∈ rules, RaisesNothing context rule) :
    evaluateRules config context now rules
      = ((rules.find? (fun rule => decide (Satisfied context rule))).map
          (ruleAction config context now)).getD (flagAction config context now) := by
  induction rules with
  | nil => rfl
  | cons rule rest ih =>
    unfold evaluateRules
    rw [conditionsHold_eq_satisfied (h rule List.mem_cons_self), List.find?_cons]
    by_cases hs : Satisfied context rule
    · rw [decide_eq_true hs]
      rfl
    · rw [decide_eq_false hs]
      exact ih (fun r hr => h r (List.mem_cons_of_mem _ hr))

/-! ## The declarative reading -/

/-- **The rule that acts**: it is satisfied, and no satisfied rule has a smaller priority.
Nothing is said of the order in which the rules stand or are tried, and priorities are distinct,
so there is at most one such rule. -/
structure Decides (config : FlagConfiguration) (context : EvaluationContext)
    (rule : TargetingRule) : Prop where
  mem : rule ∈ config.rules
  satisfied : Satisfied context rule
  least : ∀ other ∈ config.rules, Satisfied context other → rule.priority ≤ other.priority

/-- The outcome is a variation with its value in the configuration, the reason given, and the
version of the configuration. -/
def Returns (config : FlagConfiguration) (context : EvaluationContext) (now : Instant)
    (variation : String) (reason : Reason) (matchedRule : Option String) : Prop :=
  ∃ value, config.variations.get? variation = some value
    ∧ evaluateFlag config context now = .ok ⟨config.flagKey, value, variation, reason, matchedRule,
      config.configVersion, now⟩

/-- The outcome is what a selection gives for the subject's bucket, and an
exception only when the subject has no bucket. -/
structure ReturnsSelected (config : FlagConfiguration) (context : EvaluationContext)
    (now : Instant) (select : ℕ → Except PyError String) (reason : Reason)
    (matchedRule : Option String) : Prop where
  selected : ∀ bucket, getBucket config context = .ok bucket →
    ∃ variation, select bucket = .ok variation
      ∧ Returns config context now variation reason matchedRule
  raised : ∀ error, getBucket config context = .error error →
    evaluateFlag config context now = .error error

/-- The outcome is the action of a rule: its variation, else its stages, else
its rollout. -/
structure ReturnsRule (config : FlagConfiguration) (context : EvaluationContext) (now : Instant)
    (rule : TargetingRule) : Prop where
  variation : ∀ variation, rule.variation = some variation → variation ≠ "" →
    Returns config context now variation .targetingMatch (some rule.name)
  stages : (rule.variation = none ∨ rule.variation = some "") → rule.progressiveStages ≠ [] →
    ReturnsSelected config context now
      (fun bucket => progressiveVariation rule.progressiveStages bucket now)
      .progressiveRollout (some rule.name)
  rollout : (rule.variation = none ∨ rule.variation = some "") → rule.progressiveStages = [] →
    ReturnsSelected config context now (rolloutVariation rule.rollout) .percentageRollout
      (some rule.name)

/-- The outcome is the action of the flag: its stages, else its rollout, else
the default. -/
structure ReturnsFlag (config : FlagConfiguration) (context : EvaluationContext)
    (now : Instant) : Prop where
  stages : config.progressiveStages ≠ [] →
    ReturnsSelected config context now
      (fun bucket => progressiveVariation config.progressiveStages bucket now)
      .progressiveRollout none
  rollout : config.progressiveStages = [] → config.rollout ≠ [] →
    ReturnsSelected config context now (rolloutVariation config.rollout) .percentageRollout none
  default : config.progressiveStages = [] → config.rollout = [] →
    Returns config context now config.defaultVariation .default none

/-- Two rules that differ in the order of their conditions. -/
structure TargetingRule.Permuted (r s : TargetingRule) : Prop where
  name : r.name = s.name
  priority : r.priority = s.priority
  conditions : r.conditions.Perm s.conditions
  variation : r.variation = s.variation
  rollout : r.rollout = s.rollout
  progressiveStages : r.progressiveStages = s.progressiveStages

/-- Two configurations that differ in the order of the rules and of the
conditions inside them. -/
structure FlagConfiguration.Permuted (c d : FlagConfiguration) : Prop where
  rules : PermBy TargetingRule.Permuted c.rules d.rules
  others : d.toConfigurationFields = { c.toConfigurationFields with rules := d.rules }

/-- **What the rules of a configuration mean**, one field for each case: the flag is disabled, a
rule decides, none does. The cases exclude each other and leave nothing out. The last field says
that neither the order of the rules nor that of their conditions plays a role. -/
structure RuleSemantics (config : FlagConfiguration) (context : EvaluationContext)
    (now : Instant) : Prop where
  /-- A disabled flag serves its default. -/
  disabled : config.enabled = false →
    Returns config context now config.defaultVariation .flagDisabled none
  /-- If some rule is satisfied, just one decides. -/
  decided : config.enabled = true → (∃ rule ∈ config.rules, Satisfied context rule) →
    ∃! rule, Decides config context rule
  /-- What it does is done. -/
  matched : config.enabled = true → ∀ rule, Decides config context rule →
    ReturnsRule config context now rule
  /-- Otherwise the flag acts itself. -/
  unmatched : config.enabled = true → (∀ rule ∈ config.rules, ¬ Satisfied context rule) →
    ReturnsFlag config context now
  /-- No order plays a role. -/
  permuted : ∀ d, config.Permuted d → evaluateFlag d context now = evaluateFlag config context now

/-! ## The exits -/

section Exits

variable {config : FlagConfiguration} {context : EvaluationContext} {now : Instant}

/-- An evaluation that ends in a known variation returns it. -/
theorem returns_of_evaluationResult {variation : String} {reason : Reason}
    {matchedRule : Option String} (hknown : variation ∈ config.variations.keys)
    (h : evaluateFlag config context now
      = evaluationResult config variation reason matchedRule now) :
    Returns config context now variation reason matchedRule := by
  obtain ⟨value, hv⟩ := Dict.exists_get?_of_mem_keys hknown
  refine ⟨value, hv, ?_⟩
  rw [h]
  unfold evaluationResult
  rw [hv]

/-- An evaluation that ends in a bucketed exit returns what is selected. -/
theorem returnsSelected_of_bucketed {select : ℕ → Except PyError String} {reason : Reason}
    {matchedRule : Option String}
    (hselect : ∀ bucket < BUCKET_COUNT, ∃ variation ∈ config.variations.keys,
      select bucket = .ok variation)
    (h : evaluateFlag config context now = (do
      let bucket ← getBucket config context
      let variation ← select bucket
      evaluationResult config variation reason matchedRule now)) :
    ReturnsSelected config context now select reason matchedRule where
  selected := by
    intro bucket hb
    obtain ⟨variation, hknown, hs⟩ := hselect bucket (stableBucket_lt hb)
    refine ⟨variation, hs, returns_of_evaluationResult hknown ?_⟩
    rw [h, hb]
    show (select bucket >>= _) = _
    rw [hs]
    rfl
  raised := by
    intro error hb
    rw [h, hb]
    rfl

omit [Packaging] in
/-- A rule variation the engine takes for none. -/
theorem isTruthy_eq_false_of_empty {variation : Option String}
    (h : variation = none ∨ variation = some "") : ¬ isTruthy variation = true := by
  rcases h with rfl | rfl <;> decide

/-- **The action of a rule.** -/
theorem returnsRule_of_ruleAction {rule : TargetingRule} (hrule : rule ∈ config.rules)
    (h : evaluateFlag config context now = ruleAction config context now rule) :
    ReturnsRule config context now rule := by
  unfold ruleAction at h
  refine ⟨fun variation hv hne => ?_, fun hv hs => ?_, fun hv hs => ?_⟩
  · have htruthy : isTruthy rule.variation = true := by simp [hv, isTruthy, hne]
    have hknown := rule_variation_known hrule htruthy
    rw [if_pos htruthy] at h
    rw [hv] at h hknown
    exact returns_of_evaluationResult hknown h
  · rw [if_neg (isTruthy_eq_false_of_empty hv), if_pos (by simp [hs])] at h
    exact returnsSelected_of_bucketed (fun _ _ => rule_stages_select hrule hs now) h
  · have htruthy := isTruthy_eq_false_of_empty hv
    rw [if_neg htruthy, if_neg (by simp [hs])] at h
    exact returnsSelected_of_bucketed (fun _ => rule_rollout_selects hrule htruthy hs) h

/-- **The action of the flag.** -/
theorem returnsFlag_of_flagAction
    (h : evaluateFlag config context now = flagAction config context now) :
    ReturnsFlag config context now := by
  unfold flagAction at h
  refine ⟨fun hs => ?_, fun hs hr => ?_, fun hs hr => ?_⟩
  · rw [if_pos (by simp [hs])] at h
    exact returnsSelected_of_bucketed (fun _ _ => flag_stages_select hs now) h
  · rw [if_neg (by simp [hs]), if_pos (by simp [hr])] at h
    exact returnsSelected_of_bucketed (fun _ => flag_rollout_selects hr) h
  · rw [if_neg (by simp [hs]), if_neg (by simp [hr])] at h
    exact returns_of_evaluationResult config.valid.defaultKnown h

end Exits

/-! ## The two readings agree -/

section Agree

variable {config : FlagConfiguration} {context : EvaluationContext} {now : Instant}

/-- **A satisfied rule has one that decides among the satisfied ones**, and
with distinct priorities it is the only one. -/
theorem existsUnique_decides (hpriority : (config.rules.map TargetingRule.priority).Nodup)
    (h : ∃ rule ∈ config.rules, Satisfied context rule) : ∃! rule, Decides config context rule := by
  obtain ⟨rule, hr, hs⟩ := h
  have hne : config.rules.filter (fun r => decide (Satisfied context r)) ≠ [] :=
    List.ne_nil_of_mem (List.mem_filter.mpr ⟨hr, decide_eq_true hs⟩)
  cases hmin : (config.rules.filter (fun r => decide (Satisfied context r))).argmin
      TargetingRule.priority with
  | none => exact absurd (List.argmin_eq_none.mp hmin) hne
  | some winner =>
    obtain ⟨hw, hsw⟩ := List.mem_filter.mp (List.argmin_mem hmin)
    have hleast : ∀ other ∈ config.rules, Satisfied context other →
        winner.priority ≤ other.priority :=
      fun other ho hso =>
        List.le_of_mem_argmin (List.mem_filter.mpr ⟨ho, decide_eq_true hso⟩) hmin
    refine ⟨winner, ⟨hw, of_decide_eq_true hsw, hleast⟩, fun other ho => ?_⟩
    have heq := le_antisymm (ho.least winner hw (of_decide_eq_true hsw))
      (hleast other ho.mem ho.satisfied)
    exact List.inj_on_of_nodup_map hpriority ho.mem hw heq

/-- The rule that decides is the one the loop comes to. -/
theorem evaluateFlag_of_decides {rule : TargetingRule} (hen : config.enabled = true)
    (hpriority : (config.rules.map TargetingRule.priority).Nodup)
    (hraise : ∀ rule ∈ config.rules, RaisesNothing context rule)
    (h : Decides config context rule) :
    evaluateFlag config context now = ruleAction config context now rule := by
  unfold evaluateFlag
  rw [if_neg (by simp [hen]),
    evaluateRules_eq_find? (fun r hr => hraise r ((mem_sortedBy _).mp hr)),
    find?_sortedBy hpriority h.mem (decide_eq_true h.satisfied)
      (fun other ho hs => h.least other ho (of_decide_eq_true hs))]
  rfl

/-- Where no rule is satisfied the loop ends at the flag. -/
theorem evaluateFlag_of_unmatched (hen : config.enabled = true)
    (hraise : ∀ rule ∈ config.rules, RaisesNothing context rule)
    (h : ∀ rule ∈ config.rules, ¬ Satisfied context rule) :
    evaluateFlag config context now = flagAction config context now := by
  have hnone : (sortedBy TargetingRule.priority config.rules).find?
      (fun rule => decide (Satisfied context rule)) = none :=
    List.find?_eq_none.mpr (fun rule hr => by simp [h rule ((mem_sortedBy _).mp hr)])
  unfold evaluateFlag
  rw [if_neg (by simp [hen]),
    evaluateRules_eq_find? (fun r hr => hraise r ((mem_sortedBy _).mp hr)),
    hnone]
  rfl

omit [Packaging] in
/-- The action of a rule does not look at its conditions. -/
theorem TargetingRule.Permuted.ruleAction_eq {r s : TargetingRule} (h : r.Permuted s) :
    ruleAction config context now r = ruleAction config context now s := by
  unfold ruleAction
  rw [h.variation, h.name, h.rollout, h.progressiveStages]

/-- The conditions of a rule are a conjunction in any order. -/
theorem TargetingRule.Permuted.conditionsHold_eq {r s : TargetingRule} (h : r.Permuted s)
    (hraise : RaisesNothing context r) :
    conditionsHold context r.conditions = conditionsHold context s.conditions := by
  have hraise' : RaisesNothing context s :=
    fun condition hc => hraise condition (h.conditions.mem_iff.mpr hc)
  rw [conditionsHold_eq_all hraise, conditionsHold_eq_all hraise', h.conditions.all_eq]

/-- The loop over rules that differ in the order of their conditions. -/
theorem evaluateRules_permuted {rules rules' : List TargetingRule}
    (h : List.Forall₂ TargetingRule.Permuted rules rules')
    (hraise : ∀ rule ∈ rules, RaisesNothing context rule) :
    evaluateRules config context now rules = evaluateRules config context now rules' := by
  induction h with
  | nil => rfl
  | @cons r s rest rest' hrs _ ih =>
    unfold evaluateRules
    rw [hrs.conditionsHold_eq (hraise r List.mem_cons_self), hrs.ruleAction_eq,
      ih (fun rule hm => hraise rule (List.mem_cons_of_mem _ hm))]

/-- The loop of two configurations that differ in their rules only is one
loop. -/
theorem evaluateRules_of_others {d : FlagConfiguration}
    (h : d.toConfigurationFields = { config.toConfigurationFields with rules := d.rules })
    (rules : List TargetingRule) :
    evaluateRules d context now rules = evaluateRules config context now rules := by
  have hresult : evaluationResult d = evaluationResult config := by
    funext variation reason matchedRule evaluatedAt
    unfold evaluationResult
    rw [h]
  have hbucket : getBucket d context = getBucket config context := by
    unfold getBucket
    rw [h]
  induction rules with
  | nil =>
    show flagAction d context now = flagAction config context now
    unfold flagAction
    rw [hresult, hbucket, h]
  | cons rule rest ih =>
    unfold evaluateRules
    rw [ih]
    unfold ruleAction
    rw [hresult, hbucket]

/-- **No permutation of the rules or of their conditions changes the outcome.** Sorting by
distinct priorities undoes the one, and a conjunction does not see the other. -/
theorem evaluateFlag_permuted {d : FlagConfiguration} (h : config.Permuted d)
    (hpriority : (config.rules.map TargetingRule.priority).Nodup)
    (hraise : ∀ rule ∈ config.rules, RaisesNothing context rule) :
    evaluateFlag d context now = evaluateFlag config context now := by
  have hsorted : List.Forall₂ TargetingRule.Permuted
      (sortedBy TargetingRule.priority config.rules) (sortedBy TargetingRule.priority d.rules) :=
    h.rules.forall₂_sortedBy (fun _ _ hrs => hrs.priority) hpriority
  have hloop : evaluateRules config context now (sortedBy TargetingRule.priority config.rules)
      = evaluateRules config context now (sortedBy TargetingRule.priority d.rules) :=
    evaluateRules_permuted hsorted (fun rule hr => hraise rule ((mem_sortedBy _).mp hr))
  unfold evaluateFlag
  rw [evaluateRules_of_others h.others, ← hloop]
  unfold evaluationResult
  rw [h.others]

/-- **The rule semantics of the engine.** For distinct priorities and a
context on which no condition raises, the loop and the declarative reading
give the same outcome. -/
theorem ruleSemantics (config : FlagConfiguration) (context : EvaluationContext) (now : Instant)
    (hpriority : (config.rules.map TargetingRule.priority).Nodup)
    (hraise : ∀ rule ∈ config.rules, RaisesNothing context rule) :
    RuleSemantics config context now where
  disabled := by
    intro hen
    refine returns_of_evaluationResult config.valid.defaultKnown ?_
    unfold evaluateFlag
    rw [if_pos (by simp [hen])]
  decided := fun _ h => existsUnique_decides hpriority h
  matched := fun hen _ h =>
    returnsRule_of_ruleAction h.mem (evaluateFlag_of_decides hen hpriority hraise h)
  unmatched := fun hen h => returnsFlag_of_flagAction (evaluateFlag_of_unmatched hen hraise h)
  permuted := fun _ h => evaluateFlag_permuted h hpriority hraise

end Agree

/-- Two rules of different priority that both match `sampleContext`: the one
with the smaller priority stands second. -/
def rivalConfiguration : FlagConfiguration where
  projectId := "project"
  environmentId := "production"
  environmentKey := "production"
  flagId := "flag"
  flagKey := "new_checkout"
  flagType := .boolean
  enabled := true
  defaultVariation := "disabled"
  variations := ⟨[("enabled", .bool true), ("disabled", .bool false)], sampleVariations_nodup⟩
  configVersion := 3
  salt := "stable-salt"
  rules := [
    { name := "everyone"
      priority := 10
      conditions := [⟨"country", "exists", .null, country_length⟩]
      variation := some "disabled"
      rollout := []
      progressiveStages := []
      requireAction := rfl },
    { name := "kazakhstan"
      priority := 1
      conditions := [⟨"country", "equals", .str "KZ", country_length⟩]
      variation := some "enabled"
      rollout := []
      progressiveStages := []
      requireAction := rfl }]
  rollout := []
  progressiveStages := []
  accepted := rfl

omit [Packaging] in
theorem ruleSemantics_rivals : @RuleSemantics .refusing rivalConfiguration sampleContext 0 :=
  @ruleSemantics .refusing rivalConfiguration sampleContext 0 (by decide) (by
    intro rule hr condition hc error
    simp only [rivalConfiguration, List.mem_cons, List.not_mem_nil, or_false] at hr
    rcases hr with rfl | rfl <;> obtain rfl := List.mem_singleton.mp hc <;> exact nofun)

end CohortSwitch
