import CohortSwitch.Shares

/-!
# How building a configuration fails

`buildConfiguration` answers a payload it cannot build with a 422. The flag's
own rollout and stages are built under the handler that turns a `ValueError`
into one; the rules are built before it. There a rollout that falls short of
the number of buckets still ends in the service's own error, but one that
passes it is refused by the model of an allocation, and that error leaves as it
is. So does the overflow of a stage whose instant is no UTC datetime, in a rule
or in the flag: it is no `ValueError`.

`build_answers_iff` says which payloads are answered: the first rule that is not
in order has to be one that falls short.

Each part has an outcome lemma that lists how it can end, with the condition under which
it ends so: a rollout adds up, falls short or overshoots (`rolloutAllocations_error`), a
stage fits or overflows (`stageOfInput_outcome`), a rule is in order or is one of these
(`ruleOfInput_outcome`). The rules are built one after the other, so the first of them
that is not in order decides (`rulesOfInputs_outcome`), and the whole is assembled from
there.
-/

namespace CohortSwitch

/-! ## Outcomes -/

/-- The service's own error with status 422. -/
def PyError.IsUnprocessable (e : PyError) : Prop :=
  ∃ code message details, e = .apiError 422 code message details

/-- **A configuration is built, or the request is answered with a 422.** -/
def Answers (x : Except PyError FlagConfiguration) : Prop :=
  (∃ c, x = .ok c ∧ c.toConfigurationFields.Valid) ∨ ∃ e, x = .error e ∧ e.IsUnprocessable

/-- What is built is answered. -/
theorem answers_ok (c : FlagConfiguration) : Answers (.ok c) := Or.inl ⟨c, rfl, c.valid⟩

/-- An error is answered when it says 422. -/
theorem answers_error_iff {e : PyError} : Answers (.error e) ↔ e.IsUnprocessable := by
  constructor
  · rintro (⟨_, h, -⟩ | ⟨_, h, hanswered⟩)
    · cases h
    · cases h
      exact hanswered
  · exact fun h => Or.inr ⟨e, rfl, h⟩

/-- A check that fails is answered when it says 422. -/
theorem answers_raiseIf_bind {condition : Prop} [Decidable condition] {code message : String}
    {details : List (String × Json)} {rest : Unit → Except PyError FlagConfiguration} :
    Answers (raiseIf condition (.apiError 422 code message details) >>= rest)
      ↔ condition ∨ Answers (rest ()) := by
  unfold raiseIf
  by_cases h : condition
  · rw [if_pos h]
    exact iff_of_true (answers_error_iff.mpr ⟨_, _, _, rfl⟩) (Or.inl h)
  · rw [if_neg h]
    exact ⟨Or.inr, fun hor => hor.resolve_left h⟩

/-- **The handler answers every `ValueError`.** -/
theorem answers_invalidFlagConfiguration {x : Except PyError FlagConfiguration} :
    Answers (invalidFlagConfiguration x)
      ↔ Answers x ∨ ∃ e, x = .error e ∧ e.isValueError = true := by
  unfold invalidFlagConfiguration
  cases x with
  | ok c => exact iff_of_true (answers_ok c) (Or.inl (answers_ok c))
  | error e =>
    dsimp only
    split
    · rename_i h
      exact iff_of_true (answers_error_iff.mpr ⟨_, _, _, rfl⟩) (Or.inr ⟨e, rfl, h⟩)
    · rename_i h
      refine ⟨Or.inl, fun hor => hor.resolve_right ?_⟩
      rintro ⟨_, heq, hvalue⟩
      cases heq
      exact h hvalue

/-! ## Rollouts -/

/-- A rollout is empty or adds up to the number of buckets. -/
def AddsUp (inputs : List RolloutInput) : Prop := inputs = [] ∨ totalBasisPoints inputs = 10000

instance (inputs : List RolloutInput) : Decidable (AddsUp inputs) :=
  haveI : Decidable (inputs = []) := decidable_of_iff (inputs.isEmpty = true) List.isEmpty_iff
  inferInstanceAs (Decidable (_ ∨ _))

/-- A rollout ends before the last bucket. -/
def FallsShort (inputs : List RolloutInput) : Prop :=
  inputs ≠ [] ∧ totalBasisPoints inputs < 10000

/-- A rollout that adds up is accepted. -/
theorem exists_rolloutAllocations_of_addsUp {inputs : List RolloutInput} (h : AddsUp inputs) :
    ∃ allocations, rolloutAllocations inputs = .ok allocations := by
  rcases h with rfl | h
  · exact ⟨[], rfl⟩
  · exact exists_rolloutAllocations h

/-- **A rollout that does not add up is refused**: by the service where it falls
short, and by the model of an allocation where it passes the last bucket. -/
theorem rolloutAllocations_error {inputs : List RolloutInput} (h : ¬ AddsUp inputs) :
    ∃ e, rolloutAllocations inputs = .error e ∧ (e.IsUnprocessable ↔ FallsShort inputs)
      ∧ (e.IsUnprocessable ∨ e.isValueError = true) := by
  obtain ⟨hne, hother⟩ := not_or.mp h
  rcases lt_or_gt_of_ne hother with hlt | hgt
  · obtain ⟨allocations, hloop⟩ := @exists_allocationsFrom 0 inputs (by omega)
    have herror : rolloutAllocations inputs = .error (.apiError 422 "invalid_rollout"
        "Rollout percentages must add up to exactly 10000 basis points." []) := by
      unfold rolloutAllocations raiseIf
      rw [hloop]
      show (if inputs ≠ [] ∧ totalBasisPoints inputs ≠ 10000 then Except.error _
        else Except.ok () : Except PyError Unit) >>= _ = _
      rw [if_pos ⟨hne, hother⟩]
      rfl
    have hanswered : PyError.IsUnprocessable (.apiError 422 "invalid_rollout"
        "Rollout percentages must add up to exactly 10000 basis points." []) := ⟨_, _, _, rfl⟩
    exact ⟨_, herror, iff_of_true hanswered ⟨hne, hlt⟩, Or.inl hanswered⟩
  · have herror : rolloutAllocations inputs
        = .error (.validationError "end_bucket range") := by
      unfold rolloutAllocations
      rw [allocationsFrom_error (Nat.zero_le _) (by omega)]
      rfl
    refine ⟨_, herror, iff_of_false ?_ (fun hshort => ?_), Or.inr rfl⟩
    · rintro ⟨_, _, _, heq⟩
      cases heq
    · exact absurd hshort.2 (not_lt_of_gt hgt)

/-! ## Stages -/

/-- The instant of a datetime is a UTC datetime. -/
def Datetime.FitsUTC (value : Datetime) : Prop :=
  0 ≤ ((value.wall : ℕ) : ℤ) - value.utcoffset.getD 0
    ∧ ((value.wall : ℕ) : ℤ) - value.utcoffset.getD 0 < datetimeSpan

instance (value : Datetime) : Decidable value.FitsUTC := inferInstanceAs (Decidable (_ ∧ _))

/-- A stage is built when its instant fits, and else the conversion overflows. -/
theorem stageOfInput_outcome (item : ProgressiveStageInput) :
    (item.activateAt.FitsUTC ∧ ∃ stage, stageOfInput item = .ok stage)
      ∨ ¬ item.activateAt.FitsUTC
        ∧ stageOfInput item = .error (.overflowError "date value out of range") := by
  have haware : ¬ item.activateAt.utcoffset.isNone = true := by
    have hsome := item.timezoneAware
    rw [Option.isSome_iff_exists] at hsome
    obtain ⟨offset, hoffset⟩ := hsome
    rw [hoffset]
    exact Bool.false_ne_true
  have hcreate : stageOfInput item = (item.activateAt.astimezoneUTC.map (fun instant =>
      ⟨item.percentageBasisPoints, item.variation, item.fallbackVariation, instant,
        item.percentageRange⟩)) := by
    unfold stageOfInput ProgressiveStage.create
    rw [dif_pos item.percentageRange, if_neg haware]
    cases item.activateAt.astimezoneUTC <;> rfl
  by_cases hfits : item.activateAt.FitsUTC
  · have hrange : 0 ≤ ((item.activateAt.wall : ℕ) : ℤ) - item.activateAt.utcoffset.getD 0
        ∧ (((item.activateAt.wall : ℕ) : ℤ) - item.activateAt.utcoffset.getD 0).toNat
          < datetimeSpan := ⟨hfits.1, (Int.toNat_lt hfits.1).mpr hfits.2⟩
    refine Or.inl ⟨hfits, ?_⟩
    rw [hcreate]
    unfold Datetime.astimezoneUTC
    dsimp only
    rw [dif_pos hrange]
    exact ⟨_, rfl⟩
  · refine Or.inr ⟨hfits, ?_⟩
    rw [hcreate]
    unfold Datetime.astimezoneUTC
    dsimp only
    rw [dif_neg (fun hrange => hfits ⟨hrange.1, (Int.toNat_lt hrange.1).mp hrange.2⟩)]
    rfl

/-- The stages of a list are built when every instant fits. -/
theorem stagesOfInputs_outcome (stages : List ProgressiveStageInput) :
    ((∀ stage ∈ stages, stage.activateAt.FitsUTC) ∧ ∃ built, stages.mapM stageOfInput = .ok built)
      ∨ ¬ (∀ stage ∈ stages, stage.activateAt.FitsUTC)
        ∧ stages.mapM stageOfInput = .error (.overflowError "date value out of range") := by
  induction stages with
  | nil => exact Or.inl ⟨fun _ h => absurd h List.not_mem_nil, [], rfl⟩
  | cons stage rest ih =>
    rw [List.mapM_cons, List.forall_mem_cons]
    rcases stageOfInput_outcome stage with ⟨hfits, built, hbuilt⟩ | ⟨hover, herror⟩
    · rw [hbuilt]
      rcases ih with ⟨hrest, others, hothers⟩ | ⟨hrest, herror⟩
      · rw [hothers]
        exact Or.inl ⟨⟨hfits, hrest⟩, built :: others, rfl⟩
      · rw [herror]
        exact Or.inr ⟨fun h => hrest h.2, rfl⟩
    · rw [herror]
      exact Or.inr ⟨fun h => hover h.1, rfl⟩

/-! ## Rules -/

/-- A rule is in order: its rollout adds up and its stages are UTC datetimes. -/
def RuleInput.InOrder (rule : RuleInput) : Prop :=
  AddsUp rule.rollout ∧ ∀ stage ∈ rule.progressiveStages, stage.activateAt.FitsUTC

instance (rule : RuleInput) : Decidable rule.InOrder := inferInstanceAs (Decidable (_ ∧ _))

/-- The conditions of a payload are conditions of the engine. -/
theorem exists_conditionsOfInputs (items : List ConditionInput) :
    ∃ conditions, items.mapM conditionOfInput = .ok conditions := by
  induction items with
  | nil => exact ⟨[], rfl⟩
  | cons item rest ih =>
    obtain ⟨conditions, hconditions⟩ := ih
    rw [List.mapM_cons, hconditions]
    exact ⟨⟨item.attributeName, item.operator, item.value, item.attributeLength⟩ :: conditions,
      bind_eq_ok.mpr ⟨_, dif_pos item.attributeLength, rfl⟩⟩

/-- **What becomes of a rule**: one in order is built, and of the others those that
fall short are answered. -/
theorem ruleOfInput_outcome (rule : RuleInput) :
    (rule.InOrder ∧ ∃ built, ruleOfInput rule = .ok built)
      ∨ ¬ rule.InOrder ∧ ∃ e, ruleOfInput rule = .error e
        ∧ (e.IsUnprocessable ↔ FallsShort rule.rollout) := by
  obtain ⟨conditions, hconditions⟩ := exists_conditionsOfInputs rule.conditions
  unfold ruleOfInput
  rw [hconditions]
  show (_ ∧ ∃ built, (rolloutAllocations rule.rollout >>= _) = _)
    ∨ _ ∧ ∃ e, (rolloutAllocations rule.rollout >>= _) = _ ∧ _
  by_cases hadds : AddsUp rule.rollout
  · obtain ⟨rollout, hrollout⟩ := exists_rolloutAllocations_of_addsUp hadds
    rw [hrollout]
    show (_ ∧ ∃ built, (rule.progressiveStages.mapM stageOfInput >>= _) = _)
      ∨ _ ∧ ∃ e, (rule.progressiveStages.mapM stageOfInput >>= _) = _ ∧ _
    rcases stagesOfInputs_outcome rule.progressiveStages with
      ⟨hfits, stages, hstages⟩ | ⟨hover, herror⟩
    · rw [hstages]
      have hcount : actionCount rule.variation rollout stages = 1 := by
        have hone := rule.requireSingleAction
        unfold actionCount at hone ⊢
        rw [isEmpty_of_rolloutAllocations hrollout, isEmpty_of_mapM hstages]
        exact hone
      exact Or.inl ⟨⟨hadds, hfits⟩, _, dif_pos hcount⟩
    · rw [herror]
      refine Or.inr ⟨fun h => hover h.2, _, rfl, iff_of_false ?_ ?_⟩
      · rintro ⟨_, _, _, heq⟩
        cases heq
      · rintro ⟨hne, hlt⟩
        exact absurd (hadds.resolve_left hne) (ne_of_lt hlt)
  · obtain ⟨e, herror, hshort, -⟩ := rolloutAllocations_error hadds
    rw [herror]
    exact Or.inr ⟨fun h => hadds h.1, e, rfl, hshort⟩

/-- The first rule that is not in order decides what becomes of the rules. -/
theorem rulesOfInputs_outcome (rules : List RuleInput) :
    (rules.find? (fun rule => ¬ rule.InOrder) = none ∧ ∃ built, rules.mapM ruleOfInput = .ok built)
      ∨ ∃ rule, rules.find? (fun rule => ¬ rule.InOrder) = some rule
        ∧ ∃ e, rules.mapM ruleOfInput = .error e
          ∧ (e.IsUnprocessable ↔ FallsShort rule.rollout) := by
  induction rules with
  | nil => exact Or.inl ⟨rfl, [], rfl⟩
  | cons rule rest ih =>
    rw [List.mapM_cons]
    rcases ruleOfInput_outcome rule with ⟨horder, built, hbuilt⟩ | ⟨horder, e, herror, hshort⟩
    · rw [List.find?_cons_of_neg (by simpa using horder), hbuilt]
      rcases ih with ⟨hnone, others, hothers⟩ | ⟨first, hfirst, e, herror, hshort⟩
      · rw [hothers]
        exact Or.inl ⟨hnone, built :: others, rfl⟩
      · rw [herror]
        exact Or.inr ⟨first, hfirst, e, rfl, hshort⟩
    · rw [List.find?_cons_of_pos (by simpa using horder), herror]
      exact Or.inr ⟨rule, rfl, e, rfl, hshort⟩

/-! ## The whole payload -/

/-- **A payload that is built or answered.** One of the three checks refuses it, or
the first rule that is not in order falls short, or all rules are in order and
the stages of the flag are UTC datetimes. -/
def FlagContent.BuildsOrAnswers (content : FlagContent) : Prop :=
  ¬ (content.variations.map VariationInput.key).Nodup
    ∨ ¬ (content.rules.map RuleInput.priority).Nodup
    ∨ (content.rollout ≠ [] ∧ content.progressiveStages ≠ [])
    ∨ match content.rules.find? (fun rule => ¬ rule.InOrder) with
      | some rule => FallsShort rule.rollout
      | none => ∀ stage ∈ content.progressiveStages, stage.activateAt.FitsUTC

/-- What the models of a configuration refuse is a `ValueError`. -/
theorem create_outcome (fields : ConfigurationFields) :
    (∃ c, FlagConfiguration.create fields = .ok c)
      ∨ ∃ e, FlagConfiguration.create fields = .error e ∧ e.isValueError = true := by
  unfold FlagConfiguration.create
  split
  · exact Or.inl ⟨_, rfl⟩
  · exact Or.inr ⟨_, rfl, rfl⟩

/-- What becomes of the flag's own rollout and stages, of which one is empty. -/
theorem answers_flagPart {inputs : List RolloutInput} {stages : List ProgressiveStageInput}
    (hone : ¬ (inputs ≠ [] ∧ stages ≠ []))
    (fields : List RolloutAllocation → List ProgressiveStage → ConfigurationFields) :
    Answers (invalidFlagConfiguration (do
        let rollout ← rolloutAllocations inputs
        let progressiveStages ← stages.mapM stageOfInput
        FlagConfiguration.create (fields rollout progressiveStages)))
      ↔ ∀ stage ∈ stages, stage.activateAt.FitsUTC := by
  rw [answers_invalidFlagConfiguration]
  by_cases hadds : AddsUp inputs
  · obtain ⟨rollout, hrollout⟩ := exists_rolloutAllocations_of_addsUp hadds
    rw [hrollout]
    rcases stagesOfInputs_outcome stages with ⟨hfits, built, hbuilt⟩ | ⟨hover, herror⟩
    · refine iff_of_true ?_ hfits
      rw [hbuilt]
      show Answers (FlagConfiguration.create (fields rollout built))
        ∨ ∃ e, FlagConfiguration.create (fields rollout built) = .error e ∧ _
      rcases create_outcome (fields rollout built) with ⟨c, hc⟩ | hvalue
      · rw [hc]
        exact Or.inl (answers_ok c)
      · exact Or.inr hvalue
    · refine iff_of_false ?_ hover
      rw [herror]
      show ¬ (Answers (.error (.overflowError "date value out of range"))
        ∨ ∃ e, (.error (.overflowError "date value out of range") : Except PyError
          FlagConfiguration) = .error e ∧ e.isValueError = true)
      rintro (hanswers | ⟨_, heq, hvalue⟩)
      · obtain ⟨_, _, _, heq⟩ := answers_error_iff.mp hanswers
        cases heq
      · cases heq
        cases hvalue
  · -- with an uneven sum there is a rollout, so there are no stages
    have hempty : stages = [] := by
      by_contra hstages
      exact hone ⟨fun hnil => hadds (Or.inl hnil), hstages⟩
    obtain ⟨e, herror, -, hanswered⟩ := rolloutAllocations_error hadds
    rw [hempty, herror]
    refine iff_of_true (hanswered.imp answers_error_iff.mpr (fun hvalue => ⟨e, rfl, hvalue⟩)) ?_
    exact fun _ hstage => absurd hstage List.not_mem_nil

/-- **Building fails with a 422 or not at all, exactly where the payload says so.** -/
theorem build_answers_iff (projectId : UUID) (environment : EnvironmentRow)
    (flag : FeatureFlagRow) (content : FlagContent) (version : ℕ) (salt : String) :
    Answers (buildConfiguration projectId environment flag content version salt)
      ↔ content.BuildsOrAnswers := by
  unfold buildConfiguration FlagContent.BuildsOrAnswers
  rw [answers_raiseIf_bind, answers_raiseIf_bind, answers_raiseIf_bind]
  refine or_congr_right (or_congr_right (or_congr_right' (fun hone => ?_)))
  rcases rulesOfInputs_outcome content.rules with
    ⟨hnone, rules, hrules⟩ | ⟨rule, hfirst, e, herror, hshort⟩
  · rw [hnone, hrules]
    exact answers_flagPart hone _
  · rw [hfirst, herror]
    exact answers_error_iff.trans hshort

/-- A payload with one rule, whose two shares pass the last bucket. -/
def overshootingContent : FlagContent where
  enabled := true
  defaultVariation := "off"
  variations := [⟨"on", .bool true, isVariationKey_on⟩, ⟨"off", .bool false, isVariationKey_off⟩]
  rules := [{
    name := "beta"
    priority := 0
    conditions := []
    variation := none
    rollout := [⟨"on", 6000, by decide⟩, ⟨"off", 6000, by decide⟩]
    progressiveStages := []
    nameLength := by decide
    priorityRange := le_rfl
    requireSingleAction := rfl }]
  rollout := []
  progressiveStages := []
  variationsNonempty := List.cons_ne_nil _ _

/-- **The error of a model leaves `buildConfiguration` as it is.** -/
theorem build_raises : ¬ ∀ (projectId : UUID) (environment : EnvironmentRow)
    (flag : FeatureFlagRow) (content : FlagContent) (version : ℕ) (salt : String),
    Answers (buildConfiguration projectId environment flag content version salt) := by
  intro h
  have hraised : buildConfiguration ⟨20⟩ ⟨⟨30⟩, ⟨20⟩, "production", "Production", 1⟩
      ⟨⟨40⟩, ⟨20⟩, "new_checkout", "Checkout", "", .boolean, none⟩ overshootingContent 1 "salt"
      = .error (.validationError "end_bucket range") := rfl
  have hanswers := h ⟨20⟩ ⟨⟨30⟩, ⟨20⟩, "production", "Production", 1⟩
    ⟨⟨40⟩, ⟨20⟩, "new_checkout", "Checkout", "", .boolean, none⟩ overshootingContent 1 "salt"
  rw [hraised] at hanswers
  obtain ⟨_, _, _, heq⟩ := answers_error_iff.mp hanswers
  cases heq

end CohortSwitch
