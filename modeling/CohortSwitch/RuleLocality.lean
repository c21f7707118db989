import CohortSwitch.AddRule
import CohortSwitch.RolloutGrowth
import CohortSwitch.RuleSemantics

/-!
# An added rule acts where it decides

A rule is appended to the rules of a loaded configuration, and the payload is
built anew. It takes effect through the sort of the engine alone: it acts on the
subjects that match it and no rule of smaller priority, and for all others the
decision is the one before (`add_rule_local`).

What the rebuilt configuration serves is compared with the loaded one exit by
exit; the two differ in the version and the rules only (`SameButRules`), and none of the
exits looks at the rest. The bucket of a subject in particular depends on the project, the
environment, the flag and the salt, and the payload that is read back carries all of them.

Which rule decides is not followed through the loop but taken from the declarative
meaning: a rule decides if it matches and none of smaller priority does. No two rules of a
configuration that was built have one priority, so the added rule is before or
behind any other one, and a rule that decided still does unless the added one is before
it and matches (`Decides.ofAppended`).
-/

namespace CohortSwitch

/-- **The same but for the rules**: one flag with the same variations and the same
action of its own. -/
structure ConfigurationFields.SameButRules (c d : ConfigurationFields) : Prop where
  /-- One project, environment, flag and salt. -/
  sameFlag : c.SameFlag d
  /-- Switched on in both, or in none. -/
  enabled : c.enabled = d.enabled
  /-- The same default. -/
  defaultVariation : c.defaultVariation = d.defaultVariation
  /-- The same values. -/
  variations : c.variations.items = d.variations.items
  /-- The same shares. -/
  rollout : c.rollout = d.rollout
  /-- The same stages. -/
  progressiveStages : c.progressiveStages = d.progressiveStages

section Exits

variable {c d : FlagConfiguration} {context : EvaluationContext} {now : Instant}

/-- Equal outcomes are the same. -/
theorem SameOutcome.refl (x : Except PyError EvaluationResult) : SameOutcome Eq x x := by
  cases x with
  | error e => rfl
  | ok r => exact ⟨rfl, rfl, rfl, rfl⟩

section SameButRules

variable (h : c.toConfigurationFields.SameButRules d.toConfigurationFields)
include h

/-- A variation has the same value in both. -/
theorem evaluationResult_same (variation : String) (reason : Reason)
    (matchedRule : Option String) :
    SameOutcome Eq (evaluationResult c variation reason matchedRule now)
      (evaluationResult d variation reason matchedRule now) := by
  have hget : c.variations.get? variation = d.variations.get? variation :=
    congrArg (List.lookup variation) h.variations
  unfold evaluationResult
  rw [← hget]
  cases c.variations.get? variation with
  | none => rfl
  | some value => exact ⟨rfl, rfl, rfl, rfl⟩

/-- A selection by the bucket gives the same in both. -/
theorem bucketed_same (select : ℕ → Except PyError String) (reason : Reason)
    (matchedRule : Option String) :
    SameOutcome Eq
      (do
        let bucket ← getBucket c context
        let variation ← select bucket
        evaluationResult c variation reason matchedRule now)
      (do
        let bucket ← getBucket d context
        let variation ← select bucket
        evaluationResult d variation reason matchedRule now) := by
  rw [h.sameFlag.getBucket_eq context]
  exact SameOutcome.bind (fun bucket _ => SameOutcome.bind (fun variation _ =>
    evaluationResult_same h variation reason matchedRule))

/-- A rule does the same in both. -/
theorem ruleAction_same (rule : TargetingRule) :
    SameOutcome Eq (ruleAction c context now rule) (ruleAction d context now rule) := by
  unfold ruleAction
  split
  · exact evaluationResult_same h _ _ _
  · split
    · exact bucketed_same h (fun bucket => progressiveVariation rule.progressiveStages bucket now)
        _ _
    · exact bucketed_same h (rolloutVariation rule.rollout) _ _

/-- The flag does the same in both where no rule acts. -/
theorem flagAction_same :
    SameOutcome Eq (flagAction c context now) (flagAction d context now) := by
  unfold flagAction
  rw [← h.progressiveStages, ← h.rollout, ← h.defaultVariation]
  split
  · exact bucketed_same h (fun bucket => progressiveVariation c.progressiveStages bucket now) _ _
  · split
    · exact bucketed_same h (rolloutVariation c.rollout) _ _
    · exact evaluationResult_same h _ _ _

end SameButRules

/-! ## One rule more -/

variable [Packaging]

/-- **The added rule is left out**: the flag is disabled, the rule does not match, or a rule
of smaller priority does. -/
def LeftOut (c : FlagConfiguration) (context : EvaluationContext) (added : TargetingRule) : Prop :=
  c.enabled = false ∨ ¬ Satisfied context added
    ∨ ∃ rule ∈ c.rules, rule.priority < added.priority ∧ Satisfied context rule

section Added

variable {added : TargetingRule} (hrules : d.rules = c.rules ++ [added])
  (hpriority : (d.rules.map TargetingRule.priority).Nodup)
  (hraise : ∀ rule ∈ d.rules, RaisesNothing context rule)
include hrules

omit [Packaging] in
/-- A rule of the rebuilt configuration is an old one, or the added one. -/
theorem mem_rules_of_added {rule : TargetingRule} (hrule : rule ∈ c.rules) : rule ∈ d.rules :=
  hrules ▸ List.mem_append_left _ hrule

/-- A rule that decided still decides where the added one is left out. -/
theorem Decides.ofAppended {rule : TargetingRule} (h : Decides c context rule)
    (hout : ¬ Satisfied context added
      ∨ ∃ rule ∈ c.rules, rule.priority < added.priority ∧ Satisfied context rule) :
    Decides d context rule where
  mem := mem_rules_of_added hrules h.mem
  satisfied := h.satisfied
  least := by
    intro other hother hsatisfied
    rw [hrules] at hother
    rcases List.mem_append.mp hother with hold | hnew
    · exact h.least other hold hsatisfied
    · obtain rfl := List.mem_singleton.mp hnew
      rcases hout with hnot | ⟨smaller, hsmaller, hlt, hmatches⟩
      · exact absurd hsatisfied hnot
      · exact (h.least smaller hsmaller hmatches).trans hlt.le

include hpriority hraise

/-- **Where the added rule is left out the decision stays.** -/
theorem evaluateFlag_leftOut (h : c.toConfigurationFields.SameButRules d.toConfigurationFields)
    (hout : LeftOut c context added) :
    SameOutcome Eq (evaluateFlag d context now) (evaluateFlag c context now) := by
  refine SameOutcome.symm (R := Eq) (fun _ _ heq => Eq.symm heq) ?_
  by_cases henabled : c.enabled = true
  · have henabled' : d.enabled = true := h.enabled ▸ henabled
    have hout := hout.resolve_left (by simp [henabled])
    have hraise' : ∀ rule ∈ c.rules, RaisesNothing context rule := fun rule hrule =>
      hraise rule (mem_rules_of_added hrules hrule)
    have hpriority' : (c.rules.map TargetingRule.priority).Nodup := by
      rw [hrules, List.map_append] at hpriority
      exact hpriority.of_append_left
    by_cases hsome : ∃ rule ∈ c.rules, Satisfied context rule
    · obtain ⟨rule, hdecides, -⟩ := existsUnique_decides hpriority' hsome
      rw [evaluateFlag_of_decides henabled hpriority' hraise' hdecides,
        evaluateFlag_of_decides henabled' hpriority hraise (hdecides.ofAppended hrules hout)]
      exact ruleAction_same h rule
    · have hnone : ∀ rule ∈ c.rules, ¬ Satisfied context rule := fun rule hrule hsatisfied =>
        hsome ⟨rule, hrule, hsatisfied⟩
      have hnone' : ∀ rule ∈ d.rules, ¬ Satisfied context rule := by
        intro rule hrule
        rw [hrules] at hrule
        rcases List.mem_append.mp hrule with hold | hnew
        · exact hnone rule hold
        · rw [List.mem_singleton.mp hnew]
          exact hout.resolve_right (fun ⟨rule, hrule, _, hmatches⟩ => hnone rule hrule hmatches)
      rw [evaluateFlag_of_unmatched henabled hraise' hnone,
        evaluateFlag_of_unmatched henabled' hraise hnone']
      exact flagAction_same h
  · unfold evaluateFlag
    rw [if_pos (by simp [henabled]), if_pos (by simp [← h.enabled, henabled]), ← h.defaultVariation]
    exact evaluationResult_same h _ _ _

/-- **Elsewhere the added rule acts.** -/
theorem evaluateFlag_added (henabled : c.enabled = d.enabled)
    (hin : ¬ LeftOut c context added) : ReturnsRule d context now added := by
  unfold LeftOut at hin
  rw [not_or, not_or, not_not, not_exists] at hin
  obtain ⟨hen, hsatisfied, hleast⟩ := hin
  have hmem : added ∈ d.rules := hrules ▸ List.mem_append_right _ (List.mem_singleton_self _)
  have hdecides : Decides d context added := by
    refine ⟨hmem, hsatisfied, fun other hother hmatches => ?_⟩
    rw [hrules] at hother
    rcases List.mem_append.mp hother with hold | hnew
    · exact not_lt.mp (fun hlt => hleast other ⟨hold, hlt, hmatches⟩)
    · rw [List.mem_singleton.mp hnew]
  refine returnsRule_of_ruleAction hmem ?_
  exact evaluateFlag_of_decides (by simpa [← henabled] using hen) hpriority hraise hdecides

end Added

end Exits

/-- The rows of a configuration are joined along their ids. -/
structure LoadedConfig.Joined (config : LoadedConfig) : Prop where
  /-- The flag is the one of the row. -/
  flagId : config.row.flagId = config.flag.id
  /-- So is the environment. -/
  environmentId : config.row.environmentId = config.environment.id

/-- **What is built from an appended rule**: the loaded configuration with the rule at the
end. -/
theorem sameButRules_of_append {config : LoadedConfig} {rule : RuleInput}
    {expectedVersion version : ℕ} {payload : FlagUpdate} {c d : FlagConfiguration}
    (hjoined : config.Joined) (hcompiled : compileConfiguration config = .ok c)
    (happend : appendRuleUpdate config rule expectedVersion = .ok payload)
    (hbuilt : buildConfiguration config.flag.projectId config.environment config.flag
      payload.toFlagContent version config.row.salt = .ok d) :
    c.toConfigurationFields.SameButRules d.toConfigurationFields
      ∧ (d.rules.map TargetingRule.priority).Nodup
      ∧ ∃ added, RuleBuilt rule added ∧ d.rules = c.rules ++ [added] := by
  obtain ⟨compiled, hcompiled', happend⟩ := bind_eq_ok.mp happend
  obtain rfl : c = compiled := Except.ok.inj (hcompiled.symm.trans hcompiled')
  obtain ⟨oldPayload, hpayload, happend⟩ := bind_eq_ok.mp happend
  cases happend
  have hbuilt := buildConfiguration_eq_ok_iff.mp hbuilt
  obtain ⟨added, hadded, hcontent⟩ := sameContent_of_append hpayload hbuilt
  refine ⟨⟨?_, hcontent.enabled, hcontent.defaultVariation, hcontent.variations, hcontent.rollout,
    hcontent.progressiveStages⟩, hbuilt.priorities, added, hadded, hcontent.rules.symm⟩
  exact sameFlag_of_built (describes_of_compile hcompiled) hjoined.flagId hjoined.environmentId rfl
    hbuilt

variable [Packaging]

/-- **Adding a rule is local.** The rule that is built from the payload acts for the subjects
that match it, but no rule of smaller priority; every other decision stays. -/
theorem add_rule_local {config : LoadedConfig} {rule : RuleInput} {expectedVersion version : ℕ}
    {payload : FlagUpdate} {c d : FlagConfiguration}
    (hjoined : config.Joined) (hcompiled : compileConfiguration config = .ok c)
    (happend : appendRuleUpdate config rule expectedVersion = .ok payload)
    (hbuilt : buildConfiguration config.flag.projectId config.environment config.flag
      payload.toFlagContent version config.row.salt = .ok d) :
    ∃ added, RuleBuilt rule added ∧ ∀ (context : EvaluationContext) (now : Instant),
      (∀ old ∈ c.rules, RaisesNothing context old) → RaisesNothing context added →
      (LeftOut c context added →
        SameOutcome Eq (evaluateFlag d context now) (evaluateFlag c context now))
      ∧ (¬ LeftOut c context added → ReturnsRule d context now added) := by
  obtain ⟨hsame, hpriority, added, hadded, hrules⟩ :=
    sameButRules_of_append hjoined hcompiled happend hbuilt
  refine ⟨added, hadded, fun context now hold hnew => ?_⟩
  have hraise : ∀ rule ∈ d.rules, RaisesNothing context rule := by
    intro rule hrule
    rw [hrules] at hrule
    rcases List.mem_append.mp hrule with hmem | hmem
    · exact hold rule hmem
    · rw [List.mem_singleton.mp hmem]
      exact hnew
  exact ⟨evaluateFlag_leftOut hrules hpriority hraise hsame,
    evaluateFlag_added hrules hpriority hraise hsame.enabled⟩

/-- Conditions that all give a value raise nothing. -/
theorem raisesNothing_of_isSome {context : EvaluationContext} {rule : TargetingRule}
    (h : ∀ condition ∈ rule.conditions, (condition.holds context).toOption.isSome = true) :
    RaisesNothing context rule := by
  intro condition hcondition error herror
  have hsome := h condition hcondition
  rw [herror] at hsome
  cases hsome

/-- Conditions that are met raise nothing. -/
theorem Satisfied.raisesNothing {context : EvaluationContext} {rule : TargetingRule}
    (h : Satisfied context rule) : RaisesNothing context rule :=
  raisesNothing_of_isSome (fun condition hcondition => by rw [h condition hcondition]; rfl)

/-- A boolean flag with a rule for the subjects of one city, as it is loaded. -/
def cityConfig : LoadedConfig where
  row := ⟨⟨40⟩, ⟨40⟩, ⟨30⟩, true, "off", 1, "salt"⟩
  flag := ⟨⟨40⟩, ⟨20⟩, "new_checkout", "Checkout", "", .boolean, none⟩
  environment := ⟨⟨30⟩, ⟨20⟩, "production", "Production", 1⟩
  variations := [⟨⟨40⟩, "on", .bool true⟩, ⟨⟨40⟩, "off", .bool false⟩]
  rollouts := []
  progressiveStages := []
  rules := [⟨⟨⟨50⟩, ⟨40⟩, "almaty", 1, true, some "off"⟩,
    [⟨⟨50⟩, "city", "equals", .str "Almaty"⟩], [], []⟩]

omit [Packaging] in
theorem equals_mem_conditionOperators : "equals" ∈ conditionOperators := by decide

/-- A rule for the subjects of the country, after the one for the city. -/
def countryRule : RuleInput where
  name := "kazakhstan"
  priority := 2
  conditions := [⟨"country", "equals", .str "KZ", country_length, equals_mem_conditionOperators⟩]
  variation := some "on"
  rollout := []
  progressiveStages := []
  nameLength := by decide
  priorityRange := by decide
  requireSingleAction := rfl

omit [Packaging] in
theorem country_city_nodup : (["country", "city"] : List String).Nodup := by decide

/-- A subject that both rules match. -/
def cityContext : EvaluationContext :=
  ⟨"user_43", ⟨[("country", .str "KZ"), ("city", .str "Almaty")], country_city_nodup⟩⟩

omit [Packaging] in
/-- The rule acts for a subject of the country, and is left out for one of the city, where the
rule of smaller priority decides as before. -/
theorem add_rule_local_sample : ∃ payload c d added,
    compileConfiguration cityConfig = .ok c
      ∧ appendRuleUpdate cityConfig countryRule 1 = .ok payload
      ∧ buildConfiguration cityConfig.flag.projectId cityConfig.environment cityConfig.flag
        payload.toFlagContent 2 cityConfig.row.salt = .ok d
      ∧ RuleBuilt countryRule added ∧ c.rules.map TargetingRule.priority = [1]
      ∧ @ReturnsRule .refusing d sampleContext 0 added
      ∧ SameOutcome Eq (@evaluateFlag .refusing d cityContext 0)
        (@evaluateFlag .refusing c cityContext 0) := by
  have hfacts : (compileConfiguration cityConfig).toOption.any (fun c =>
      decide (c.enabled = true ∧ c.rules.map TargetingRule.priority = [1]
        ∧ ∀ rule ∈ c.rules, ¬ @Satisfied .refusing sampleContext rule
          ∧ @Satisfied .refusing cityContext rule
          ∧ ∀ condition ∈ rule.conditions,
            (@Condition.holds .refusing sampleContext condition).toOption.isSome = true)) = true
      ∧ (appendRuleUpdate cityConfig countryRule 1).toOption.any (fun payload =>
        (buildConfiguration cityConfig.flag.projectId cityConfig.environment cityConfig.flag
          payload.toFlagContent 2 cityConfig.row.salt).toOption.isSome) = true := by
    decide +kernel
  obtain ⟨c, hc, hrules⟩ := (Option.any_eq_true _ _).mp hfacts.1
  obtain ⟨payload, hpayload, hsome⟩ := (Option.any_eq_true _ _).mp hfacts.2
  obtain ⟨d, hd⟩ := Option.isSome_iff_exists.mp hsome
  obtain ⟨henabled, hpriorities, hrules⟩ := of_decide_eq_true hrules
  obtain ⟨added, hadded, hlocal⟩ := @add_rule_local .refusing _ _ _ _ _ _ _ ⟨rfl, rfl⟩
    (eq_ok_of_toOption hc) (eq_ok_of_toOption hpayload) (eq_ok_of_toOption hd)
  obtain ⟨condition, rest, hcondition, hrest, heq⟩ :=
    List.forall₂_cons_left_iff.mp hadded.conditions
  cases hrest
  cases hcondition
  have hsample : @Satisfied .refusing sampleContext added := by
    intro condition hmem
    rw [heq] at hmem
    rw [List.mem_singleton.mp hmem]
    rfl
  have hcity : @Satisfied .refusing cityContext added := by
    intro condition hmem
    rw [heq] at hmem
    rw [List.mem_singleton.mp hmem]
    rfl
  refine ⟨payload, c, d, added, eq_ok_of_toOption hc, eq_ok_of_toOption hpayload,
    eq_ok_of_toOption hd, hadded, hpriorities, (hlocal sampleContext 0 ?_ ?_).2 ?_,
    (hlocal cityContext 0 ?_ ?_).1 ?_⟩
  · exact fun rule hrule => @raisesNothing_of_isSome .refusing _ _ (hrules rule hrule).2.2
  · exact @Satisfied.raisesNothing .refusing _ _ hsample
  · rintro (hdisabled | hnot | ⟨rule, hrule, -, hmatches⟩)
    · rw [henabled] at hdisabled
      cases hdisabled
    · exact hnot hsample
    · exact (hrules rule hrule).1 hmatches
  · exact fun rule hrule => @Satisfied.raisesNothing .refusing _ _ (hrules rule hrule).2.1
  · exact @Satisfied.raisesNothing .refusing _ _ hcity
  · -- the rule for the city has the smaller priority
    obtain ⟨rule, hrule⟩ := List.exists_mem_of_ne_nil c.rules (fun hnil => by
      rw [hnil] at hpriorities
      cases hpriorities)
    have hpriority : rule.priority = 1 := by
      have hmem := List.mem_map_of_mem (f := TargetingRule.priority) hrule
      rw [hpriorities] at hmem
      exact List.mem_singleton.mp hmem
    refine .inr (.inr ⟨rule, hrule, ?_, (hrules rule hrule).2.1⟩)
    rw [hpriority, hadded.priority]
    decide

end CohortSwitch
