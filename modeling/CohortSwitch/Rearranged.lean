import CohortSwitch.Engine
import CohortSwitch.Rearrangement

/-!
# Configurations that differ in order only

Between two forms of a configuration its collections may change their order,
and the values of a JSON column the order of their keys.
`ConfigurationFields.Rearranged R P` relates two configurations that agree but
for that: `R` relates two JSON values, and `P` the stage lists of the two,
which is `List.Perm` where stages lose their order and `Eq` where they keep it.
`ConfigurationFields.Alike` leaves out the version too, which no decision
depends on.

The relation has two parameters because the configuration is read back through
two channels. A snapshot is a JSON document, where lists keep their order and
objects do not: there `R` is `Json.Reordered` and `P` is equality. Rows come
back in any order, and a JSON column changes its keys besides: there `P` is
`List.Perm`. One development serves both.

## Where evaluation looks at the order

Evaluation looks at the order in one place only. Rules are sorted by a
priority that no two of them share, rollouts keep their order, a conjunction
of conditions has none where none of them raises. The stage that counts is the
latest active one, and several stages may carry that timestamp: the one that
comes first decides. `currentStages` are the stages among which the order
chooses, and it does not depend on the order itself (`currentStages_perm`).

`StageTiesAgree` says that the choice between them does not matter, and then
evaluation gives the same outcome (`evaluateFlag_alike`). Conversely each of
them decides in some order (`progressiveVariation_of_first`), so the condition
is not only enough: it is what an observer of the order needs.
-/

namespace CohortSwitch

/-! ## The relation -/

/-- Two conditions that differ in the form of the value only. -/
structure Condition.Same (R : Json → Json → Prop) (a b : Condition) : Prop where
  attributeName : a.attributeName = b.attributeName
  operator : a.operator = b.operator
  value : R a.value b.value

/-- Two rules that differ in order only. -/
structure TargetingRule.Rearranged (R : Json → Json → Prop)
    (P : List ProgressiveStage → List ProgressiveStage → Prop) (r s : TargetingRule) :
    Prop where
  name : r.name = s.name
  priority : r.priority = s.priority
  conditions : PermBy (Condition.Same R) r.conditions s.conditions
  variation : r.variation = s.variation
  rollout : r.rollout = s.rollout
  progressiveStages : P r.progressiveStages s.progressiveStages

/-- **Two configurations that serve alike**: they differ in order only, and
may be different versions. -/
structure ConfigurationFields.Alike (R : Json → Json → Prop)
    (P : List ProgressiveStage → List ProgressiveStage → Prop) (c d : ConfigurationFields) :
    Prop where
  projectId : c.projectId = d.projectId
  environmentId : c.environmentId = d.environmentId
  environmentKey : c.environmentKey = d.environmentKey
  flagId : c.flagId = d.flagId
  flagKey : c.flagKey = d.flagKey
  flagType : c.flagType = d.flagType
  enabled : c.enabled = d.enabled
  defaultVariation : c.defaultVariation = d.defaultVariation
  variations : PermBy (fun a b => a.1 = b.1 ∧ R a.2 b.2) c.variations.items d.variations.items
  salt : c.salt = d.salt
  rules : PermBy (TargetingRule.Rearranged R P) c.rules d.rules
  rollout : c.rollout = d.rollout
  progressiveStages : P c.progressiveStages d.progressiveStages

/-- **Two configurations that differ in order only.** Values are compared by `R` and stages by
`P`, so that the one notion serves for rows that come in any order and for documents whose
objects do. -/
structure ConfigurationFields.Rearranged (R : Json → Json → Prop)
    (P : List ProgressiveStage → List ProgressiveStage → Prop) (c d : ConfigurationFields) : Prop
    extends ConfigurationFields.Alike R P c d where
  configVersion : c.configVersion = d.configVersion

section Valid

variable {R : Json → Json → Prop} {P : List ProgressiveStage → List ProgressiveStage → Prop}

/-- A configuration is a rearrangement of itself. -/
theorem ConfigurationFields.Rearranged.refl {R : Json → Json → Prop}
    {P : List ProgressiveStage → List ProgressiveStage → Prop} (hR : ∀ a, R a a)
    (hP : ∀ stages, P stages stages) (c : ConfigurationFields) : c.Rearranged R P c :=
  ⟨⟨rfl, rfl, rfl, rfl, rfl, rfl, rfl, rfl, PermBy.of_perm (fun _ => ⟨rfl, hR _⟩) (.refl _), rfl,
    PermBy.of_perm (fun _ => ⟨rfl, rfl, PermBy.of_perm (fun _ => ⟨rfl, rfl, hR _⟩) (.refl _), rfl,
      rfl, hP _⟩) (.refl _), rfl, hP _⟩, rfl⟩

/-- Two rearranged configurations know the same variations. -/
theorem ConfigurationFields.Rearranged.keys_perm {c d : ConfigurationFields}
    (h : c.Rearranged R P d) : c.variations.keys.Perm d.variations.keys :=
  h.variations.map_perm (fun _ _ hab => hab.1)

/-- The variations that stages name do not depend on their order. -/
theorem stageReferences_perm {stages stages' : List ProgressiveStage}
    (h : stages.Perm stages') : (stageReferences stages).Perm (stageReferences stages') :=
  h.flatMap_right _

/-- Nor do those that a rule names. -/
theorem TargetingRule.Rearranged.references_perm {r s : TargetingRule}
    (hP : ∀ stages stages', P stages stages' → stages.Perm stages')
    (h : r.Rearranged R P s) : r.references.Perm s.references := by
  unfold TargetingRule.references
  rw [h.variation, h.rollout]
  exact (stageReferences_perm (hP _ _ h.progressiveStages)).append_left _

/-- Every variation the one configuration names is named by the other. -/
theorem ConfigurationFields.Rearranged.mem_references {c d : ConfigurationFields}
    (hP : ∀ stages stages', P stages stages' → stages.Perm stages')
    (h : c.Rearranged R P d) {name : String} (hn : name ∈ d.references) :
    name ∈ c.references := by
  unfold ConfigurationFields.references at hn ⊢
  rw [← h.rollout] at hn
  simp only [List.mem_append, List.mem_flatMap] at hn ⊢
  rcases hn with (hn | ⟨s, hs, hn⟩) | hn
  · exact Or.inl (Or.inl hn)
  · obtain ⟨r, hr, hrs⟩ := h.rules.exists_left hs
    exact Or.inl (Or.inr ⟨r, hr, (hrs.references_perm hP).mem_iff.mpr hn⟩)
  · exact Or.inr ((stageReferences_perm (hP _ _ h.progressiveStages)).mem_iff.mpr hn)

/-- The type of a value does not look at the order of keys. -/
theorem hasType_congr {a b : Json} (h : Json.Reordered a b) (flagType : FlagType) :
    hasType flagType a = hasType flagType b :=
  h.eq_of_shallow (hasType flagType) (fun _ _ => (by cases flagType <;> rfl))
    (fun _ _ => (by cases flagType <;> rfl))

/-- **Validity does not look at the order.** So a configuration that was stored compiles again.
-/
theorem ConfigurationFields.Rearranged.valid {c d : ConfigurationFields}
    (hR : ∀ a b, R a b → Json.Reordered a b)
    (hP : ∀ stages stages', P stages stages' → stages.Perm stages')
    (h : c.Rearranged R P d) (hc : c.Valid) : d.Valid where
  version := h.configVersion ▸ hc.version
  defaultKnown := by
    rw [← h.defaultVariation]
    exact h.keys_perm.mem_iff.mp hc.defaultKnown
  typed := by
    intro item hi
    obtain ⟨item', hi', -, hr⟩ := h.variations.exists_left hi
    rw [← h.flagType, ← hasType_congr (hR _ _ hr)]
    exact hc.typed item' hi'
  referencesKnown := by
    intro name hn
    exact h.keys_perm.mem_iff.mp (hc.referencesKnown name (h.mem_references hP hn))
  rolloutValid := h.rollout ▸ hc.rolloutValid
  ruleRolloutsValid := by
    intro s hs
    obtain ⟨r, hr, hrs⟩ := h.rules.exists_left hs
    rw [← hrs.rollout]
    exact hc.ruleRolloutsValid r hr

end Valid

/-! ## Stages that may count now -/

/-- What a stage serves to a bucket at a time: its fallback before it is
active. -/
def ProgressiveStage.servesAt (stage : ProgressiveStage) (bucket : ℕ) (now : Instant) :
    String :=
  if stage.activateAt ≤ now then stage.serves bucket else stage.fallbackVariation

/-- **The stages that may count now**: those with the latest timestamp among
the active ones, and before any is active those with the earliest. -/
def currentStages (stages : List ProgressiveStage) (now : Instant) : List ProgressiveStage :=
  let active := stages.filter (fun stage => stage.activateAt ≤ now)
  if active = [] then
    stages.filter (fun stage => ∀ other ∈ stages, stage.activateAt ≤ other.activateAt)
  else
    active.filter (fun stage => ∀ other ∈ active, other.activateAt ≤ stage.activateAt)

/-- All stages that may count now serve the bucket alike, so that it does not matter which of
them comes first. -/
def TiesAgree (stages : List ProgressiveStage) (bucket : ℕ) (now : Instant) : Prop :=
  ∀ s ∈ currentStages stages now, ∀ t ∈ currentStages stages now,
    s.servesAt bucket now = t.servesAt bucket now

/-- The stages that may count are the same for any order. -/
theorem currentStages_perm {stages stages' : List ProgressiveStage} (h : stages.Perm stages')
    (now : Instant) : (currentStages stages now).Perm (currentStages stages' now) := by
  have hact := h.filter (fun stage => decide (stage.activateAt ≤ now))
  unfold currentStages
  dsimp only
  by_cases hnil : stages.filter (fun stage => decide (stage.activateAt ≤ now)) = []
  · rw [if_pos hnil, if_pos (List.nil_perm.mp (hnil ▸ hact))]
    simp only [h.mem_iff]
    exact h.filter _
  · have hnil' : ¬ stages'.filter (fun stage => decide (stage.activateAt ≤ now)) = [] :=
      fun h' => hnil (List.perm_nil.mp (h' ▸ hact))
    rw [if_neg hnil, if_neg hnil']
    simp only [hact.mem_iff]
    exact hact.filter _

/-- The stage that decides is one that may count. -/
theorem exists_currentStage {stages : List ProgressiveStage} {bucket : ℕ} {now : Instant}
    {variation : String} (h : progressiveVariation stages bucket now = .ok variation) :
    ∃ stage ∈ currentStages stages now, variation = stage.servesAt bucket now := by
  unfold currentStages
  dsimp only
  cases hmax : latestActive stages now with
  | some current =>
    rw [progressiveVariation_of_active hmax] at h
    obtain ⟨hmem, hle, -⟩ := List.argmax_eq_some_iff.mp hmax
    have hactive : current.activateAt ≤ now := by simpa using (List.mem_filter.mp hmem).2
    rw [if_neg (List.ne_nil_of_mem hmem)]
    refine ⟨current, List.mem_filter.mpr ⟨hmem, by simpa using hle⟩, ?_⟩
    unfold ProgressiveStage.servesAt
    rw [if_pos hactive]
    exact (Except.ok.inj h).symm
  | none =>
    have hnil := List.argmax_eq_none.mp hmax
    rw [if_pos hnil]
    cases hmin : stages.argmin ProgressiveStage.activateAt with
    | none =>
      rw [List.argmin_eq_none.mp hmin] at h
      cases h
    | some first =>
      rw [progressiveVariation_of_inactive hmax hmin] at h
      obtain ⟨hmem, hle, -⟩ := List.argmin_eq_some_iff.mp hmin
      refine ⟨first, List.mem_filter.mpr ⟨hmem, by simpa using hle⟩, ?_⟩
      have hinactive : ¬ first.activateAt ≤ now := fun hn =>
        absurd (List.mem_filter.mpr ⟨hmem, decide_eq_true hn⟩) (hnil ▸ List.not_mem_nil)
      unfold ProgressiveStage.servesAt
      rw [if_neg hinactive]
      exact (Except.ok.inj h).symm

/-- **Any stage that may count decides when it comes first.** -/
theorem progressiveVariation_of_first {stage : ProgressiveStage} {rest : List ProgressiveStage}
    {now : Instant} (h : stage ∈ currentStages (stage :: rest) now) (bucket : ℕ) :
    progressiveVariation (stage :: rest) bucket now = .ok (stage.servesAt bucket now) := by
  unfold currentStages at h
  unfold ProgressiveStage.servesAt
  dsimp only at h
  by_cases hactive : stage.activateAt ≤ now
  · rw [if_pos hactive]
    have hfilter : (stage :: rest).filter (fun s => decide (s.activateAt ≤ now))
        = stage :: rest.filter (fun s => decide (s.activateAt ≤ now)) := by
      rw [List.filter_cons, if_pos (decide_eq_true hactive)]
    rw [hfilter, if_neg (List.cons_ne_nil _ _)] at h
    refine progressiveVariation_of_active ?_ bucket
    unfold latestActive
    rw [hfilter]
    refine List.argmax_eq_some_iff.mpr ⟨List.mem_cons_self, ?_, fun _ _ _ => ?_⟩
    · simpa using (List.mem_filter.mp h).2
    · rw [List.idxOf_cons_self]
      exact Nat.zero_le _
  · rw [if_neg hactive]
    have hnil : (stage :: rest).filter (fun s => decide (s.activateAt ≤ now)) = [] := by
      by_contra hne
      rw [if_neg hne] at h
      exact hactive (by simpa using (List.mem_filter.mp (List.mem_filter.mp h).1).2)
    rw [if_pos hnil] at h
    have hlatest : latestActive (stage :: rest) now = none := by
      unfold latestActive
      rw [hnil]
      rfl
    have hfirst : (stage :: rest).argmin ProgressiveStage.activateAt = some stage := by
      refine List.argmin_eq_some_iff.mpr ⟨List.mem_cons_self, ?_, fun _ _ _ => ?_⟩
      · simpa using (List.mem_filter.mp h).2
      · rw [List.idxOf_cons_self]
        exact Nat.zero_le _
    exact progressiveVariation_of_inactive hlatest hfirst bucket

/-- **Where the ties agree the order of stages is irrelevant.** -/
theorem progressiveVariation_perm {stages stages' : List ProgressiveStage}
    (h : stages.Perm stages') {bucket : ℕ} {now : Instant} (hties : TiesAgree stages bucket now) :
    progressiveVariation stages bucket now = progressiveVariation stages' bucket now := by
  by_cases hne : stages = []
  · subst hne
    rw [List.nil_perm.mp h]
  · have hne' : stages' ≠ [] := fun h' => hne (List.perm_nil.mp (h' ▸ h))
    obtain ⟨v, -, hv⟩ := exists_progressiveVariation hne bucket now
    obtain ⟨v', -, hv'⟩ := exists_progressiveVariation hne' bucket now
    obtain ⟨s, hs, rfl⟩ := exists_currentStage hv
    obtain ⟨t, ht, rfl⟩ := exists_currentStage hv'
    rw [hv, hv', hties s hs t ((currentStages_perm h now).mem_iff.mpr ht)]

/-! ## Outcomes -/

/-- **The same decision**: variation, value, reason and matched rule, values compared by `R`.
The version and the instant are left out: they say which configuration was asked and when, not
what it decided. -/
structure SameDecision (R : Json → Json → Prop) (r s : EvaluationResult) : Prop where
  variation : r.variation = s.variation
  value : R r.value s.value
  reason : r.reason = s.reason
  matchedRule : r.matchedRule = s.matchedRule

/-- The same outcome: the same decision, or the same exception. -/
def SameOutcome (R : Json → Json → Prop) :
    Except PyError EvaluationResult → Except PyError EvaluationResult → Prop
  | .ok r, .ok s => SameDecision R r s
  | .error e, .error f => e = f
  | _, _ => False

/-- Two computations that start with the same step have the same outcome when
they do after it. -/
theorem SameOutcome.bind {R : Json → Json → Prop} {α : Type} {x : Except PyError α}
    {f g : α → Except PyError EvaluationResult}
    (h : ∀ a, x = .ok a → SameOutcome R (f a) (g a)) :
    SameOutcome R (x >>= f) (x >>= g) := by
  cases x with
  | error e => exact rfl
  | ok a => exact h a rfl

/-- Outcomes are the same in both directions where values are. -/
theorem SameOutcome.symm {R S : Json → Json → Prop} (hRS : ∀ a b, R a b → S b a)
    {x y : Except PyError EvaluationResult} (h : SameOutcome R x y) : SameOutcome S y x := by
  cases x <;> cases y
  · exact Eq.symm h
  · exact h.elim
  · exact h.elim
  · exact ⟨h.variation.symm, hRS _ _ h.value, h.reason.symm, h.matchedRule.symm⟩

/-- And through a third one. -/
theorem SameOutcome.trans {R S T : Json → Json → Prop} (hRS : ∀ a b c, R a b → S b c → T a c)
    {x y z : Except PyError EvaluationResult} (h : SameOutcome R x y) (h' : SameOutcome S y z) :
    SameOutcome T x z := by
  cases x <;> cases y <;> cases z
  · exact Eq.trans h h'
  · exact h'.elim
  · exact h.elim
  · exact h.elim
  · exact h.elim
  · exact h.elim
  · exact h'.elim
  · exact ⟨h.variation.trans h'.variation, hRS _ _ _ h.value h'.value, h.reason.trans h'.reason,
      h.matchedRule.trans h'.matchedRule⟩

section Evaluation

variable [Packaging] {R : Json → Json → Prop}
  {P : List ProgressiveStage → List ProgressiveStage → Prop}

/-- The stages the loop over the rules comes to: those of the rule that acts,
or the flag's own. -/
def consultedByRules (config : FlagConfiguration) (context : EvaluationContext) :
    List TargetingRule → List ProgressiveStage
  | [] => config.progressiveStages
  | rule :: rest =>
    match conditionsHold context rule.conditions with
    | .ok true => rule.progressiveStages
    | .ok false => consultedByRules config context rest
    | .error _ => []

/-- **The stages an evaluation selects from**, none where it does not come to
a selection. -/
def consultedStages (config : FlagConfiguration) (context : EvaluationContext) :
    List ProgressiveStage :=
  if config.enabled then
    consultedByRules config context (sortedBy TargetingRule.priority config.rules)
  else []

omit [Packaging] in
/-- The exit of two configurations that serve alike. -/
theorem evaluationResult_alike {c d : FlagConfiguration}
    (h : c.toConfigurationFields.Alike R P d.toConfigurationFields)
    (variation : String) (reason : Reason) (matchedRule : Option String) (now : Instant) :
    SameOutcome R (evaluationResult c variation reason matchedRule now)
      (evaluationResult d variation reason matchedRule now) := by
  unfold evaluationResult
  cases hc : c.variations.get? variation with
  | some value =>
    obtain ⟨item, hi, hk, hr⟩ := h.variations.exists_right (Dict.mem_items_iff.mpr hc)
    have hd : d.variations.get? variation = some item.2 :=
      Dict.mem_items_iff.mp (by rw [show variation = item.1 from hk]; exact hi)
    rw [hd]
    exact ⟨rfl, hr, rfl, rfl⟩
  | none =>
    cases hd : d.variations.get? variation with
    | none => exact rfl
    | some value =>
      obtain ⟨item, hi, hk, -⟩ := h.variations.exists_left (Dict.mem_items_iff.mpr hd)
      have hmem : variation ∈ c.variations.keys := List.mem_map.mpr ⟨item, hi, hk⟩
      obtain ⟨value', hv⟩ := Dict.exists_get?_of_mem_keys hmem
      rw [hc] at hv
      cases hv

/-- No condition of the rule raises on this context. -/
def RaisesNothing (context : EvaluationContext) (rule : TargetingRule) : Prop :=
  ∀ condition ∈ rule.conditions, ∀ error, condition.holds context ≠ .error error

/-- Where no condition raises, the conditions of a rule are a conjunction. -/
theorem conditionsHold_eq_all {context : EvaluationContext} {conditions : List Condition}
    (h : ∀ condition ∈ conditions, ∀ error, condition.holds context ≠ .error error) :
    conditionsHold context conditions
      = .ok (conditions.all (fun condition => (condition.holds context).toOption.getD false)) := by
  induction conditions with
  | nil => rfl
  | cons condition rest ih =>
    unfold conditionsHold
    rw [List.all_cons]
    cases hc : condition.holds context with
    | error e => exact absurd hc (h condition List.mem_cons_self e)
    | ok holds =>
      cases holds with
      | false => rfl
      | true => exact ih (fun c hm => h c (List.mem_cons_of_mem _ hm))

/-- One condition in two forms. -/
theorem Condition.Same.holds_eq {a b : Condition} (hR : ∀ a b, R a b → Json.Reordered a b)
    (h : a.Same R b) (context : EvaluationContext) : a.holds context = b.holds context := by
  unfold Condition.holds
  rw [h.attributeName, h.operator]
  exact conditionMatches_congr (hR _ _ h.value) _ _

/-- The conditions of two rearranged rules. -/
theorem TargetingRule.Rearranged.conditionsHold_eq {r s : TargetingRule}
    (hR : ∀ a b, R a b → Json.Reordered a b) (h : r.Rearranged R P s)
    {context : EvaluationContext} (hraise : RaisesNothing context r) :
    conditionsHold context r.conditions = conditionsHold context s.conditions := by
  have hraise' : RaisesNothing context s := by
    intro condition hc error
    obtain ⟨condition', hc', hsame⟩ := h.conditions.exists_left hc
    rw [← hsame.holds_eq hR]
    exact hraise condition' hc' error
  rw [conditionsHold_eq_all hraise, conditionsHold_eq_all hraise']
  exact congrArg _ (h.conditions.all_eq (fun a b hab => by rw [hab.holds_eq hR]))

/-- What the relation on stage lists has to give where the evaluation selects from the first of
the two. It is asked for only where the evaluation comes to a selection. -/
def SelectsAlike (P : List ProgressiveStage → List ProgressiveStage → Prop)
    (config : FlagConfiguration) (context : EvaluationContext) (now : Instant)
    (stages : List ProgressiveStage) : Prop :=
  ∀ stages', P stages stages' → ∀ bucket, getBucket config context = .ok bucket →
    progressiveVariation stages bucket now = progressiveVariation stages' bucket now

omit [Packaging] in
/-- Two configurations that serve alike put a subject into the same bucket. -/
theorem getBucket_alike {c d : FlagConfiguration}
    (h : c.toConfigurationFields.Alike R P d.toConfigurationFields)
    (context : EvaluationContext) : getBucket c context = getBucket d context := by
  unfold getBucket
  rw [h.projectId, h.environmentId, h.flagKey, h.salt]

omit [Packaging] in
/-- A bucketed exit of two configurations that serve alike. -/
theorem bucketed_alike {c d : FlagConfiguration}
    (h : c.toConfigurationFields.Alike R P d.toConfigurationFields)
    (context : EvaluationContext) {select select' : ℕ → Except PyError String}
    (hselect : ∀ bucket, getBucket c context = .ok bucket → select bucket = select' bucket)
    (reason : Reason) (matchedRule : Option String) (now : Instant) :
    SameOutcome R
      (do
        let bucket ← getBucket c context
        let variation ← select bucket
        evaluationResult c variation reason matchedRule now)
      (do
        let bucket ← getBucket d context
        let variation ← select' bucket
        evaluationResult d variation reason matchedRule now) := by
  rw [← getBucket_alike h]
  refine SameOutcome.bind (fun bucket hb => ?_)
  rw [hselect bucket hb]
  exact SameOutcome.bind (fun variation _ => evaluationResult_alike h _ _ _ _)

omit [Packaging] in
/-- The action of two rearranged rules. -/
theorem ruleAction_alike {c d : FlagConfiguration}
    (h : c.toConfigurationFields.Alike R P d.toConfigurationFields)
    (hP : ∀ stages stages', P stages stages' → stages.Perm stages')
    {context : EvaluationContext} {now : Instant} {r s : TargetingRule}
    (hrs : r.Rearranged R P s) (hsel : SelectsAlike P c context now r.progressiveStages) :
    SameOutcome R (ruleAction c context now r) (ruleAction d context now s) := by
  have hempty : r.progressiveStages.isEmpty = s.progressiveStages.isEmpty := by
    rw [Bool.eq_iff_iff, List.isEmpty_iff, List.isEmpty_iff]
    exact ⟨fun h' => List.nil_perm.mp (h' ▸ hP _ _ hrs.progressiveStages),
      fun h' => List.perm_nil.mp (h' ▸ hP _ _ hrs.progressiveStages)⟩
  unfold ruleAction
  rw [← hrs.variation, ← hrs.name, ← hrs.rollout, ← hempty]
  split
  · exact evaluationResult_alike h _ _ _ _
  · split
    · exact bucketed_alike h context (hsel _ hrs.progressiveStages) _ _ _
    · exact bucketed_alike h context (fun _ _ => rfl) _ _ _

omit [Packaging] in
/-- The action of two flags that serve alike. -/
theorem flagAction_alike {c d : FlagConfiguration}
    (h : c.toConfigurationFields.Alike R P d.toConfigurationFields)
    (hP : ∀ stages stages', P stages stages' → stages.Perm stages')
    {context : EvaluationContext} {now : Instant}
    (hsel : SelectsAlike P c context now c.progressiveStages) :
    SameOutcome R (flagAction c context now) (flagAction d context now) := by
  have hempty : c.progressiveStages.isEmpty = d.progressiveStages.isEmpty := by
    rw [Bool.eq_iff_iff, List.isEmpty_iff, List.isEmpty_iff]
    exact ⟨fun h' => List.nil_perm.mp (h' ▸ hP _ _ h.progressiveStages),
      fun h' => List.perm_nil.mp (h' ▸ hP _ _ h.progressiveStages)⟩
  unfold flagAction
  rw [← h.rollout, ← h.defaultVariation, ← hempty]
  split
  · exact bucketed_alike h context (hsel _ h.progressiveStages) _ _ _
  · split
    · exact bucketed_alike h context (fun _ _ => rfl) _ _ _
    · exact evaluationResult_alike h _ _ _ _

/-- The loop over two lists of rearranged rules. -/
theorem evaluateRules_alike {c d : FlagConfiguration}
    (hR : ∀ a b, R a b → Json.Reordered a b)
    (hP : ∀ stages stages', P stages stages' → stages.Perm stages')
    (h : c.toConfigurationFields.Alike R P d.toConfigurationFields)
    {context : EvaluationContext} {now : Instant} {rules rules' : List TargetingRule}
    (hrules : List.Forall₂ (TargetingRule.Rearranged R P) rules rules')
    (hraise : ∀ rule ∈ rules, RaisesNothing context rule)
    (hsel : SelectsAlike P c context now (consultedByRules c context rules)) :
    SameOutcome R (evaluateRules c context now rules) (evaluateRules d context now rules') := by
  induction hrules with
  | nil => exact flagAction_alike h hP hsel
  | @cons r s rest rest' hrs _ ih =>
    have hr := hraise r List.mem_cons_self
    unfold evaluateRules
    rw [← hrs.conditionsHold_eq hR hr]
    unfold consultedByRules at hsel
    cases hcond : conditionsHold context r.conditions with
    | error e => exact rfl
    | ok holds =>
      rw [hcond] at hsel
      cases holds with
      | true => exact ruleAction_alike h hP hrs hsel
      | false => exact ih (fun rule hm => hraise rule (List.mem_cons_of_mem _ hm)) hsel

/-- **Evaluation does not look at the order**, as long as the stage list it selects from selects
alike. The exits are taken in the order of the engine, and each is alike by a lemma of its own.
-/
theorem evaluateFlag_alike {c d : FlagConfiguration}
    (hR : ∀ a b, R a b → Json.Reordered a b)
    (hP : ∀ stages stages', P stages stages' → stages.Perm stages')
    (h : c.toConfigurationFields.Alike R P d.toConfigurationFields)
    {context : EvaluationContext} {now : Instant}
    (hpriority : (c.rules.map TargetingRule.priority).Nodup)
    (hraise : ∀ rule ∈ c.rules, RaisesNothing context rule)
    (hsel : SelectsAlike P c context now (consultedStages c context)) :
    SameOutcome R (evaluateFlag c context now) (evaluateFlag d context now) := by
  unfold evaluateFlag
  unfold consultedStages at hsel
  rw [← h.enabled, ← h.defaultVariation]
  by_cases hen : c.enabled = true
  · rw [if_pos hen] at hsel
    rw [if_neg (by simp [hen]), if_neg (by simp [hen])]
    exact evaluateRules_alike hR hP h
      (h.rules.forall₂_sortedBy (fun _ _ hrs => hrs.priority) hpriority)
      (fun rule hm => hraise rule ((mem_sortedBy _).mp hm)) hsel
  · rw [if_pos (by simp [hen]), if_pos (by simp [hen])]
    exact evaluationResult_alike h _ _ _ _

/-- A condition that raises does so in both configurations. -/
theorem raisedByCondition_alike {c d : FlagConfiguration}
    (hR : ∀ a b, R a b → Json.Reordered a b)
    (h : c.toConfigurationFields.Alike R P d.toConfigurationFields)
    {context : EvaluationContext} {error : PyError} (hd : RaisedByCondition d context error) :
    RaisedByCondition c context error := by
  obtain ⟨s, hs, b, hb, hraised⟩ := hd
  obtain ⟨r, hr, hrs⟩ := h.rules.exists_left hs
  obtain ⟨a, ha, hab⟩ := hrs.conditions.exists_left hb
  exact ⟨r, hr, a, ha, (hab.holds_eq hR context).trans hraised⟩

/-- Where stages keep their order the same ones are consulted. -/
theorem consultedStages_alike {c d : FlagConfiguration}
    (hR : ∀ a b, R a b → Json.Reordered a b)
    (h : c.toConfigurationFields.Alike R Eq d.toConfigurationFields)
    {context : EvaluationContext} (hpriority : (c.rules.map TargetingRule.priority).Nodup)
    (hraise : ∀ rule ∈ c.rules, RaisesNothing context rule) :
    consultedStages c context = consultedStages d context := by
  have hloop : ∀ {rules rules' : List TargetingRule},
      List.Forall₂ (TargetingRule.Rearranged R Eq) rules rules' →
      (∀ rule ∈ rules, RaisesNothing context rule) →
      consultedByRules c context rules = consultedByRules d context rules' := by
    intro rules rules' hrules hnone
    induction hrules with
    | nil => exact h.progressiveStages
    | @cons r s rest rest' hrs _ ih =>
      unfold consultedByRules
      rw [← hrs.conditionsHold_eq hR (hnone r List.mem_cons_self)]
      cases conditionsHold context r.conditions with
      | error e => rfl
      | ok holds =>
        cases holds with
        | true => exact hrs.progressiveStages
        | false => exact ih (fun rule hm => hnone rule (List.mem_cons_of_mem _ hm))
  unfold consultedStages
  rw [← h.enabled]
  split
  · exact hloop (h.rules.forall₂_sortedBy (fun _ _ hrs => hrs.priority) hpriority)
      (fun rule hm => hraise rule ((mem_sortedBy _).mp hm))
  · rfl

end Evaluation

/-! ## Ties -/

section Ties

variable [Packaging]

/-- **The stages with one timestamp agree** wherever this evaluation would have to choose
between them. An evaluation that stops before a selection satisfies it. -/
def StageTiesAgree (config : FlagConfiguration) (context : EvaluationContext)
    (now : Instant) : Prop :=
  ∀ bucket, getBucket config context = .ok bucket →
    TiesAgree (consultedStages config context) bucket now

/-- Where they agree, arranging the stages changes no selection. -/
theorem StageTiesAgree.selectsAlike {config : FlagConfiguration} {context : EvaluationContext}
    {now : Instant} (h : StageTiesAgree config context now) :
    SelectsAlike List.Perm config context now (consultedStages config context) :=
  fun _ hp bucket hb => progressiveVariation_perm hp (h bucket hb)

end Ties

end CohortSwitch
