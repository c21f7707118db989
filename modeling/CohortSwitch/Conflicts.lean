import CohortSwitch.BatchLoading
import CohortSwitch.Exceptions
import CohortSwitch.Journals
import CohortSwitch.StoreRefinement

/-!
# Conflicts

A request that names a version of a configuration may be refused with
`configuration_conflict`, and is told the version the configuration has. Between its first
statement and its conditional update others may commit, and between the update and the
SELECT of the version they may again; so what it is told need be neither the version it lost
to nor the one it will meet.

What is certain is that the refusal is not idle: the version it is told follows the one it
named, unless that one was ahead, and each version in between was put by a request that has
been answered since (`conflict_lost`). So of some writers that name the same version one goes
on.

## The two ways to be refused

An endpoint compares the version it is given with the one it has loaded, and refuses at
once; or the conditional update matches no row, and the version is selected again.
Either way it tells a version that was current at some moment since the request began
(`Database.HadSince`), and nothing is promised of the moments in between. Everything else an
endpoint raises is no conflict (`IsOther`), which is checked part by part.

The writers who were faster are found through the store: the versions between the one that
was named and the one that is told were put in commits of this run, and who has put a value
was answered with it (`exists_response_of_put`).
-/

namespace CohortSwitch

/-! ## What is raised -/

/-- **The version a request names** as the current one. -/
def Request.names : Request → Option (UUID × UUID × ℕ)
  | .scheduleChange _ _ flagId payload =>
    some (flagId, payload.environmentId, payload.expectedVersion)
  | request => request.expects

/-- The details of a conflict. -/
def PyError.conflict? : PyError → Option (List (String × Json))
  | .apiError status code _ details =>
    if status = 409 ∧ code = "configuration_conflict" then some details else none
  | _ => none

/-- An exception that is no conflict. -/
def PyError.IsOther (e : PyError) : Prop := e.conflict? = none

/-- What is not the service's own is no conflict. -/
theorem isOther_of_isApiError {e : PyError} (h : e.isApiError = false) : e.IsOther := by
  cases e with
  | apiError status code message details => cases h
  | _ => rfl

/-- A conflict has the status 409. -/
theorem isOther_of_status {status : ℕ} {code message : String} {details : List (String × Json)}
    (h : status ≠ 409) : (PyError.apiError status code message details).IsOther :=
  if_neg (fun hconflict => h hconflict.1)

theorem RaisesNoApiError.other {α : Type} {x : Except PyError α} (h : RaisesNoApiError x) :
    RaisesOnly PyError.IsOther x :=
  fun e he => isOther_of_isApiError (h e he)

section Computations

/-- A check that raises something else. -/
theorem other_raiseIf {condition : Prop} [Decidable condition] {status : ℕ}
    {code message : String} {details : List (String × Json)} (h : status ≠ 409) :
    RaisesOnly PyError.IsOther (raiseIf condition (.apiError status code message details)) := by
  unfold raiseIf
  split
  · exact raisesOnly_error (isOther_of_status h)
  · exact raisesOnly_ok _

theorem other_allocationsFrom (boundary : ℕ) (inputs : List RolloutInput) :
    RaisesOnly PyError.IsOther (allocationsFrom boundary inputs) := by
  induction inputs generalizing boundary with
  | nil => exact raisesOnly_ok []
  | cons item rest ih =>
    have hcreate : RaisesOnly PyError.IsOther
        (RolloutAllocation.create item.variation (boundary + item.percentageBasisPoints)) :=
      raisesOnly_dite rfl
    exact hcreate.bind (fun _ => (ih _).bind (fun _ => raisesOnly_ok _))

theorem other_rolloutAllocations (inputs : List RolloutInput) :
    RaisesOnly PyError.IsOther (rolloutAllocations inputs) :=
  (other_allocationsFrom 0 inputs).bind (fun _ =>
    (other_raiseIf (by decide)).bind (fun _ => raisesOnly_ok _))

theorem other_stageOfInput (item : ProgressiveStageInput) :
    RaisesOnly PyError.IsOther (stageOfInput item) := by
  unfold stageOfInput ProgressiveStage.create
  split
  · split
    · exact raisesOnly_error rfl
    · exact RaisesOnly.bind (raisesOnly_dite rfl) (fun _ => raisesOnly_ok _)
  · exact raisesOnly_error rfl

theorem other_conditionOfInput (item : ConditionInput) :
    RaisesOnly PyError.IsOther (conditionOfInput item) :=
  raisesOnly_dite rfl

theorem other_ruleOfInput (rule : RuleInput) : RaisesOnly PyError.IsOther (ruleOfInput rule) := by
  refine (raisesOnly_mapM other_conditionOfInput _).bind (fun conditions => ?_)
  refine (other_rolloutAllocations _).bind (fun rollout => ?_)
  refine (raisesOnly_mapM other_stageOfInput _).bind (fun stages => ?_)
  exact raisesOnly_dite rfl

theorem other_invalidFlagConfiguration {α : Type} {x : Except PyError α}
    (hx : RaisesOnly PyError.IsOther x) :
    RaisesOnly PyError.IsOther (invalidFlagConfiguration x) := by
  unfold invalidFlagConfiguration
  cases x with
  | ok a => exact raisesOnly_ok a
  | error e =>
    dsimp only
    split
    · exact raisesOnly_error rfl
    · exact hx

/-- A configuration that cannot be built is no conflict. -/
theorem other_buildConfiguration (projectId : UUID) (environment : EnvironmentRow)
    (flag : FeatureFlagRow) (content : FlagContent) (version : ℕ) (salt : String) :
    RaisesOnly PyError.IsOther
      (buildConfiguration projectId environment flag content version salt) := by
  refine (other_raiseIf (by decide)).bind (fun _ => (other_raiseIf (by decide)).bind (fun _ => ?_))
  refine (other_raiseIf (by decide)).bind (fun _ => ?_)
  refine (raisesOnly_mapM other_ruleOfInput _).bind (fun rules => ?_)
  refine other_invalidFlagConfiguration ((other_rolloutAllocations _).bind (fun rollout => ?_))
  refine (raisesOnly_mapM other_stageOfInput _).bind (fun stages => ?_)
  exact (raisesNoApiError_create _).other

theorem other_variationInputs (variations : Dict Json) :
    RaisesOnly PyError.IsOther (variationInputs variations) := by
  have hcreate : ∀ item : String × Json,
      RaisesOnly PyError.IsOther (VariationInput.create item.1 item.2) :=
    fun _ => raisesOnly_dite rfl
  exact raisesOnly_mapM hcreate _

theorem other_rolloutInputsFrom (previous : ℕ) (rollout : List RolloutAllocation) :
    RaisesOnly PyError.IsOther (rolloutInputsFrom previous rollout) := by
  induction rollout generalizing previous with
  | nil => exact raisesOnly_ok []
  | cons item rest ih =>
    have hcreate : RaisesOnly PyError.IsOther
        (RolloutInput.create item.variation ((item.endBucket : ℤ) - previous)) :=
      raisesOnly_dite rfl
    exact hcreate.bind (fun _ => (ih _).bind (fun _ => raisesOnly_ok _))

theorem other_stageInput (stage : ProgressiveStage) :
    RaisesOnly PyError.IsOther (stageInput stage) :=
  raisesOnly_dite rfl

theorem other_conditionInput (item : Condition) :
    RaisesOnly PyError.IsOther (conditionInput item) :=
  raisesOnly_dite rfl

theorem other_ruleInput (rule : TargetingRule) : RaisesOnly PyError.IsOther (ruleInput rule) := by
  refine (raisesOnly_mapM other_conditionInput _).bind (fun conditions => ?_)
  refine (other_rolloutInputsFrom 0 _).bind (fun rollout => ?_)
  refine (raisesOnly_mapM other_stageInput _).bind (fun stages => ?_)
  exact raisesOnly_dite rfl

theorem other_updateFromConfiguration (config : FlagConfiguration) (environmentId : UUID)
    (expectedVersion : ℕ) :
    RaisesOnly PyError.IsOther (updateFromConfiguration config environmentId expectedVersion) := by
  refine (other_variationInputs _).bind (fun variations => ?_)
  refine (raisesOnly_mapM other_ruleInput _).bind (fun rules => ?_)
  refine (other_rolloutInputsFrom 0 _).bind (fun rollout => ?_)
  refine (raisesOnly_mapM other_stageInput _).bind (fun stages => ?_)
  exact raisesOnly_dite rfl

/-- Nor is what a response raises. -/
theorem other_response (flag : FeatureFlagRow) (config : FlagConfiguration) :
    RaisesOnly PyError.IsOther (response flag config) := by
  refine (other_variationInputs _).bind (fun variations => ?_)
  refine (raisesOnly_mapM other_ruleInput _).bind (fun rules => ?_)
  refine (other_rolloutInputsFrom 0 _).bind (fun rollout => ?_)
  exact (raisesOnly_mapM other_stageInput _).bind (fun stages => raisesOnly_ok _)

theorem other_appendRuleUpdate (config : LoadedConfig) (rule : RuleInput) (expectedVersion : ℕ) :
    RaisesOnly PyError.IsOther (appendRuleUpdate config rule expectedVersion) :=
  (raisesNoApiError_compileConfiguration config).other.bind (fun _ =>
    (other_updateFromConfiguration _ _ _).bind (fun _ => raisesOnly_ok _))

theorem other_requireRolePermission (role : String) (permission : Permission) :
    RaisesOnly PyError.IsOther (requireRolePermission role permission) := by
  unfold requireRolePermission
  split
  · exact raisesOnly_error rfl
  · exact other_raiseIf (by decide)

end Computations

section Programs

theorem other_membershipFor (principal : Principal) (organizationId : UUID) :
    (membershipFor principal organizationId).MayRaise PyError.IsOther := by
  unfold membershipFor
  split
  · split
    · exact rfl
    · exact trivial
  · split
    · exact rfl
    · refine Prog.MayRaise.bind (fun _ => trivial) (fun membership => ?_)
      cases membership with
      | none => exact rfl
      | some membership => exact trivial

theorem other_authorizeOrganization (principal : Principal) (organizationId : UUID)
    (permission : Permission) :
    (authorizeOrganization principal organizationId permission).MayRaise PyError.IsOther := by
  refine (other_membershipFor principal organizationId).bind (fun membership => ?_)
  split
  · split
    · exact rfl
    · exact trivial
  · exact (Prog.mayRaise_attempt (other_requireRolePermission _ _)).bind (fun _ => trivial)

theorem other_authorizeProject (principal : Principal) (projectId : UUID)
    (permission : Permission) :
    (authorizeProject principal projectId permission).MayRaise PyError.IsOther := by
  refine Prog.MayRaise.bind (fun _ => trivial) (fun project => ?_)
  cases project with
  | none => exact rfl
  | some project =>
    dsimp only
    split
    · exact rfl
    · exact (other_authorizeOrganization _ _ _).bind (fun _ => trivial)

theorem other_authorizeEnvironment (principal : Principal) (environmentId : UUID)
    (permission : Permission) :
    (authorizeEnvironment principal environmentId permission).MayRaise PyError.IsOther := by
  refine Prog.MayRaise.bind (fun _ => trivial) (fun environment => ?_)
  cases environment with
  | none => exact rfl
  | some environment =>
    dsimp only
    split
    · exact rfl
    · exact (other_authorizeProject _ _ _).bind (fun _ => trivial)

theorem other_getConfigByFlagEnvironment (flagId environmentId : UUID) :
    (getConfigByFlagEnvironment flagId environmentId).MayRaise PyError.IsOther := by
  refine Prog.MayRaise.bind (fun _ => trivial) (fun found => ?_)
  cases found with
  | none => exact rfl
  | some found =>
    refine Prog.MayRaise.bind (fun _ _ _ _ _ _ _ => trivial) (fun config => ?_)
    split
    · exact rfl
    · exact trivial

end Programs

/-! ## The version that is told -/

/-- **A version that was current since a state**: none from before is later, and it was the
one of the configuration at some moment. -/
structure Database.HadSince (s₀ : Database) (place : UUID × UUID) (version : ℕ) (s : Database) :
    Prop where
  /-- It is no earlier than the version there was. -/
  since : ∀ row ∈ s₀.configs, row.place = place → row.currentVersion ≤ version
  /-- And some state since then had it. -/
  current : ∃ s₁ : Database, s₁.Evolves [] s
    ∧ ∃ row ∈ s₁.configs, row.place = place ∧ row.currentVersion = version

/-- **The request has lost**: it is told a version that was current since it began, and one
that follows the version it named, unless that one was ahead. -/
def Database.Lost (s₀ : Database) (place : UUID × UUID) (expected : ℕ) (s : Database)
    (e : PyError) : Prop :=
  ∀ details, e.conflict? = some details → ∃ version : ℕ,
    details = [("current_version", .int version)] ∧ s₀.HadSince place version s
    ∧ ∀ row ∈ s₀.configs, row.place = place → expected ≤ row.currentVersion → expected < version

section States

variable {s₀ s s' : Database} {place : UUID × UUID} {expected version : ℕ} {locks : List Row}

/-- What is no conflict has nothing to tell. -/
theorem lost_of_other {e : PyError} (h : e.IsOther) : s₀.Lost place expected s e := by
  intro details hdetails
  rw [show e.conflict? = none from h] at hdetails
  cases hdetails

/-- A version that was current was so, whatever follows. -/
theorem Database.HadSince.evolve (h : s₀.HadSince place version s) (hevolves : s.Evolves [] s') :
    s₀.HadSince place version s' where
  since := h.since
  current := by
    obtain ⟨s₁, hs₁, hrow⟩ := h.current
    exact ⟨s₁, hs₁.trans hevolves, hrow⟩

/-- The version of a committed row. -/
theorem hadSince_of_mem (hevolves : s₀.Evolves locks s) (hs : s.Consistent) {row : FlagConfigRow}
    (hrow : row ∈ s.configs) : s₀.HadSince row.place row.currentVersion s where
  since := by
    intro row₀ hrow₀ hplace
    obtain ⟨row', hrow', hid, hle, -, -⟩ := hevolves.configs row₀ hrow₀
    have hsame : row' = row := List.inj_on_of_nodup_map hs.keys.configPairs hrow' hrow
      ((place_of_id hs hevolves hrow₀ hrow' hid).trans hplace)
    exact hsame ▸ hle
  current := ⟨s, .refl _ _, row, hrow, rfl, rfl⟩

end States

/-! ## The endpoints -/

section Endpoints

variable {s₀ s : Database} {place : UUID × UUID} {expected : ℕ}

/-- Going on after a part that only reads. -/
theorem raises_reads {α β : Type} {P : Database → α → Prop} {m : Tx α} {k : α → Tx β}
    (hm : m.MayRaise PyError.IsOther) (hensures : m.Ensures discipline (Reads P [] [] s) [] [] s)
    (hk : ∀ s' a, s.Evolves [] s' → P s' a →
      (k a).Raises discipline (s₀.Lost place expected) [] [] s') :
    (m >>= k).Raises discipline (s₀.Lost place expected) [] [] s := by
  refine (hm.raises (fun _ _ => lost_of_other)).bind hensures (fun writes locks s' a h => ?_)
  obtain ⟨rfl, rfl, hevolves, hp⟩ := h
  exact hk s' a hevolves hp

theorem raises_select {α β : Type} {query : Database → α} {k : α → Tx β}
    (h : ∀ s', s.Evolves [] s' → s'.Consistent →
      (k (query s')).Raises discipline (s₀.Lost place expected) [] [] s') :
    (select query >>= k).Raises discipline (s₀.Lost place expected) [] [] s :=
  Prog.raises_read_bind (fun s' hevolves hs' _ _ => h s' hevolves hs')

theorem raises_attempt {α β : Type} {x : Except PyError α} {k : α → Tx β}
    (hx : RaisesOnly PyError.IsOther x)
    (hk : ∀ a, x = .ok a → (k a).Raises discipline (s₀.Lost place expected) [] [] s) :
    (Prog.attempt x >>= k).Raises discipline (s₀.Lost place expected) [] [] s :=
  Prog.raises_attempt_bind (fun e he => lost_of_other (hx e he)) hk

theorem raises_choose {β : Type} {k : Choice → Tx β}
    (h : ∀ s' chosen, s.Evolves [] s' →
      (k chosen).Raises discipline (s₀.Lost place expected) [] [] s') :
    (choose >>= k).Raises discipline (s₀.Lost place expected) [] [] s :=
  Prog.raises_read_bind (fun s' hevolves _ _ chosen => h s' chosen hevolves)

/-- What an update does once its version was the current one. -/
theorem other_updated {configId environmentId : UUID} {x : Except PyError FlagResponse}
    (hx : RaisesOnly PyError.IsOther x) (pending : Choice → List Write) :
    (do
      deleteChildren configId
      let final ← choose
      execute (fun _ => [.environment (.increment environmentId)]) (fun _ => ())
      let result ← Prog.attempt x
      pure (result, pending final) : Tx (FlagResponse × List Write)).MayRaise PyError.IsOther := by
  refine Prog.MayRaise.bind (fun _ _ _ _ => trivial) (fun _ => ?_)
  refine Prog.MayRaise.bind (fun _ => trivial) (fun final => ?_)
  refine Prog.MayRaise.bind (fun _ => trivial) (fun _ => ?_)
  exact (Prog.mayRaise_attempt hx).bind (fun _ => trivial)

/-- The conditional update: it has matched a row, or there is none to match. -/
theorem raises_compareAndSwap {β : Type} {configId : UUID} {payload : FlagUpdate}
    {k : Bool → Tx β}
    (hyes : ∀ writes locks s', (k true).Raises discipline (s₀.Lost place expected) writes locks s')
    (hno : ∀ s', s.Evolves [] s' → s'.Consistent →
      s'.matchesVersion configId payload.expectedVersion = false →
      (k false).Raises discipline (s₀.Lost place expected) [] [] s') :
    (compareAndSwap configId payload >>= k).Raises discipline (s₀.Lost place expected) [] [] s := by
  intro s' hevolves hs' locked choice _
  show (k (s'.matchesVersion configId payload.expectedVersion)).Raises discipline _
    ([] ++ if s'.matchesVersion configId payload.expectedVersion = true then _ else [])
    ([] ++ (if s'.matchesVersion configId payload.expectedVersion = true then _
      else []).flatMap Write.locks) s'
  cases hmatch : s'.matchesVersion configId payload.expectedVersion with
  | true => exact hyes _ _ s'
  | false => exact hno s' hevolves hs' hmatch

/-- **`update_flag` refuses the version it is given** where the configuration has another
one. -/
theorem raises_updateFlag {known : Option FlagConfigRow} {flag : FeatureFlagRow}
    {environment : EnvironmentRow} (hevolves : s₀.Evolves [] s)
    (hknown : ∀ row, known = some row → s.KnowsConfig row
      ∧ row.flagId = flag.id ∧ row.environmentId = environment.id)
    (project : ProjectRow) (payload : FlagUpdate) (actorUserId actorApiKeyId : Option UUID)
    (requestId : Option String) (action : String) (sourceVersion : Option ℕ) :
    (updateFlag known flag environment project payload actorUserId actorApiKeyId requestId action
      sourceVersion).Raises discipline
        (s₀.Lost (flag.id, environment.id) payload.expectedVersion) [] [] s := by
  unfold updateFlag
  refine raises_select (fun s₁ h₁ _ => ?_)
  cases hfind : s₁.configs.find? (fun row =>
      row.flagId = flag.id ∧ row.environmentId = environment.id) with
  | none => exact lost_of_other rfl
  | some row =>
    obtain ⟨hmem, hpair⟩ := mem_and_of_find? hfind
    dsimp only
    split
    · exact lost_of_other rfl
    refine raises_attempt (other_buildConfiguration _ _ _ _ _ _) (fun compiled _ => ?_)
    -- the row the session remembers is of the same configuration
    have hconfig : s₁.KnowsConfig (known.getD row) ∧ (known.getD row).flagId = flag.id
        ∧ (known.getD row).environmentId = environment.id := by
      cases known with
      | none => exact ⟨List.mem_map_of_mem hmem, hpair⟩
      | some row' =>
        obtain ⟨hk, hp⟩ := hknown row' rfl
        exact ⟨hk.evolve h₁, hp⟩
    obtain ⟨hconfig, hflag, henvironment⟩ := hconfig
    refine raises_compareAndSwap (fun _ _ _ => ?_) (fun s₂ h₂ hs₂ hmatch => ?_)
    · exact (other_updated (other_response _ _) _).raises (fun _ _ => lost_of_other)
    · refine raises_select (fun s₃ h₃ hs₃ => ?_)
      obtain ⟨row₂, hrow₂, hid₂, hflag₂, henvironment₂, -⟩ := (hconfig.evolve h₂).exists_row
      obtain ⟨row₃, hrow₃, hid₃, hle, -, -⟩ := h₃.configs row₂ hrow₂
      have hplace₂ : row₂.place = (flag.id, environment.id) :=
        Prod.ext (hflag₂.trans hflag) (henvironment₂.trans henvironment)
      have hplace₃ := (place_of_id hs₃ h₃ hrow₂ hrow₃ hid₃).trans hplace₂
      -- the update has matched no row, so the version there was another one
      have hother : row₂.currentVersion ≠ payload.expectedVersion := fun hversion =>
        Bool.eq_false_iff.mp hmatch
          (List.any_eq_true.mpr ⟨row₂, hrow₂, decide_eq_true ⟨hid₂, hversion⟩⟩)
      have hfound : s₃.configs.find? (fun row' => row'.id = (known.getD row).id) = some row₃ :=
        find?_eq_some_of_mem hs₃.keys.configIds hrow₃ (hid₃.trans hid₂)
      intro details hdetails
      rw [hfound] at hdetails
      cases hdetails
      -- the version that is told is the one of the later SELECT
      have hsince := hevolves.trans (h₁.trans h₂)
      refine ⟨row₃.currentVersion, rfl, ?_, fun row₀ hrow₀ hplace₀ hexpected => ?_⟩
      · exact hplace₃ ▸ hadSince_of_mem (hsince.trans h₃) hs₃ hrow₃
      · have hle₀ := (hadSince_of_mem hsince hs₂ hrow₂).since row₀ hrow₀
          (hplace₀.trans hplace₂.symm)
        omega

/-- The commit of an update raises nothing. -/
theorem raises_commitUpdate (project : ProjectRow) (environment : EnvironmentRow)
    (flagKey event : String) (result : FlagResponse) (pending writes : List Write)
    (locks : List Row) (s : Database) :
    (commitUpdate project environment flagKey event result pending).Raises discipline
      (s₀.Lost place expected) writes locks s :=
  fun _ _ _ _ _ _ => trivial

/-- A replacement. -/
theorem raises_replaceFlagConfiguration (principal : Principal) (requestId : Option String)
    (flagId : UUID) (payload : FlagUpdate) :
    (replaceFlagConfiguration principal requestId flagId payload).Raises discipline
      (s.Lost (flagId, payload.environmentId) payload.expectedVersion) [] [] s := by
  have hplace : ∀ w ∈ ([] : List Write), w.isInPlace = true := fun _ h => (by cases h)
  unfold replaceFlagConfiguration
  refine raises_reads (fun _ => trivial) (ensures_getFlag hplace flagId)
    (fun s₁ found h₁ hfound => ?_)
  cases found with
  | none => exact lost_of_other rfl
  | some flag =>
    obtain ⟨-, hflagId⟩ := hfound flag rfl
    refine raises_reads (other_authorizeProject _ _ _)
      (ensures_authorizeProject hplace principal flag.projectId .flagWrite)
      (fun s₂ found₂ h₂ _ => ?_)
    refine raises_reads (other_authorizeEnvironment _ _ _)
      (ensures_authorizeEnvironment hplace principal payload.environmentId .flagWrite)
      (fun s₃ found₃ h₃ henvironment => ?_)
    refine Prog.Raises.bind_any ?_ (fun _ _ _ out => raises_commitUpdate _ _ _ _ _ _ _ _ _)
    rw [← hflagId, ← henvironment.2.1]
    exact raises_updateFlag ((h₁.trans h₂).trans h₃) (fun _ h => (by cases h)) _ payload _ _ _ _ _

/-- The adding of a rule. -/
theorem raises_addTargetingRule (principal : Principal) (requestId : Option String)
    (flagId : UUID) (payload : RuleCreate) :
    (addTargetingRule principal requestId flagId payload).Raises discipline
      (s.Lost (flagId, payload.environmentId) payload.expectedVersion) [] [] s := by
  have hplace : ∀ w ∈ ([] : List Write), w.isInPlace = true := fun _ h => (by cases h)
  unfold addTargetingRule
  refine raises_reads (other_getConfigByFlagEnvironment _ _)
    (ensures_getConfigByFlagEnvironment hplace flagId payload.environmentId)
    (fun s₁ config h₁ hconfig => ?_)
  obtain ⟨hknows, hflagId, henvironmentId, -⟩ := hconfig
  refine raises_reads (other_authorizeProject _ _ _)
    (ensures_authorizeProject hplace principal config.flag.projectId .flagWrite)
    (fun s₂ found₂ h₂ _ => ?_)
  refine raises_attempt (other_appendRuleUpdate _ _ _) (fun updatePayload hpayload => ?_)
  refine Prog.Raises.bind_any ?_ (fun _ _ _ out => raises_commitUpdate _ _ _ _ _ _ _ _ _)
  obtain ⟨compiled, -, hpayload⟩ := bind_eq_ok.mp hpayload
  obtain ⟨payload', hpayload', heq⟩ := bind_eq_ok.mp hpayload
  have hexpected : updatePayload.expectedVersion = payload.expectedVersion := by
    cases heq
    show payload'.expectedVersion = _
    exact updateFromConfiguration_expectedVersion hpayload'
  have hknows₂ := hknows.evolve h₂
  rw [← hflagId, ← henvironmentId, ← hexpected]
  refine raises_updateFlag (h₁.trans h₂) ?_ _ updatePayload _ _ _ _ _
  rintro row h
  cases h
  exact ⟨hknows₂.configKnown, hknows₂.flagId, hknows₂.environmentId⟩

/-- A rollback. -/
theorem raises_rollbackFeatureFlag (principal : Principal) (requestId : Option String)
    (flagId : UUID) (targetVersion : ℕ) (payload : RollbackRequest) :
    (rollbackFeatureFlag principal requestId flagId targetVersion payload).Raises discipline
      (s.Lost (flagId, payload.environmentId) payload.expectedVersion) [] [] s := by
  have hplace : ∀ w ∈ ([] : List Write), w.isInPlace = true := fun _ h => (by cases h)
  unfold rollbackFeatureFlag
  refine raises_reads (fun _ => trivial) (ensures_getFlag hplace flagId)
    (fun s₁ found h₁ hfound => ?_)
  cases found with
  | none => exact lost_of_other rfl
  | some flag =>
    obtain ⟨-, hflagId⟩ := hfound flag rfl
    refine raises_reads (other_authorizeProject _ _ _)
      (ensures_authorizeProject hplace principal flag.projectId .flagWrite)
      (fun s₂ found₂ h₂ _ => ?_)
    refine raises_reads (other_authorizeEnvironment _ _ _)
      (ensures_authorizeEnvironment hplace principal payload.environmentId .flagWrite)
      (fun s₃ found₃ h₃ henvironment => ?_)
    refine Prog.Raises.bind_any ?_ (fun _ _ _ out => raises_commitUpdate _ _ _ _ _ _ _ _ _)
    rw [← hflagId, ← henvironment.2.1]
    unfold rollbackFlag
    refine raises_select (fun s₄ h₄ _ => raises_select (fun s₅ h₅ _ => ?_))
    split
    · exact lost_of_other rfl
    · refine raises_choose (fun s₆ chosen h₆ => ?_)
      refine raises_attempt (raisesNoApiError_create _).other (fun old _ => ?_)
      refine raises_attempt (other_updateFromConfiguration _ _ _) (fun update hupdate => ?_)
      rw [← updateFromConfiguration_expectedVersion hupdate]
      exact raises_updateFlag (((((h₁.trans h₂).trans h₃).trans h₄).trans h₅).trans h₆)
        (fun _ h => (by cases h)) _ update _ _ _ _ _

/-- The version a configuration is loaded with. -/
theorem ensures_getConfig_hadSince (flagId environmentId : UUID) :
    (getConfigByFlagEnvironment flagId environmentId).Ensures discipline
      (Reads (fun s' config => s.HadSince (flagId, environmentId) config.row.currentVersion s')
        [] [] s) [] [] s := by
  unfold getConfigByFlagEnvironment
  refine ensures_select (fun s₁ h₁ hs₁ => ?_)
  cases hfound : (service.view [] s₁).configOfFlag flagId environmentId with
  | none => exact trivial
  | some found =>
    obtain ⟨row, flag, environment⟩ := found
    obtain ⟨⟨hrow, hflag, henvironment⟩, -, -⟩ := configOfFlag_eq_some hfound
    have hhad := hadSince_of_mem h₁ hs₁ hrow
    rw [show row.place = (flagId, environmentId) from Prod.ext hflag henvironment] at hhad
    refine Reads.since h₁ (ensures_reads (ensures_loadCollections row flag environment)
      (fun s₂ config h₂ hconfig => ?_))
    obtain ⟨rfl, rfl, rfl⟩ := hconfig
    split
    · exact trivial
    · exact Reads.pure h₂ (hhad.evolve h₂)

/-- The scheduling of a change, which compares the version it has loaded. -/
theorem raises_scheduleChange (principal : Principal) (requestId : Option String)
    (flagId : UUID) (payload : ScheduledChangeCreate) :
    (scheduleChange principal requestId flagId payload).Raises discipline
      (s.Lost (flagId, payload.environmentId) payload.expectedVersion) [] [] s := by
  have hplace : ∀ w ∈ ([] : List Write), w.isInPlace = true := fun _ h => (by cases h)
  unfold scheduleChange
  refine raises_reads (other_getConfigByFlagEnvironment _ _)
    (ensures_getConfig_hadSince flagId payload.environmentId) (fun s₁ config h₁ hhad => ?_)
  refine raises_reads (other_authorizeProject _ _ _)
    (ensures_authorizeProject hplace principal config.flag.projectId .flagWrite)
    (fun s₂ found₂ h₂ _ => ?_)
  have hhad₂ := hhad.evolve h₂
  refine Prog.raises_attempt_bind ?_ (fun _ _ => ?_)
  · unfold raiseIf
    split
    · rename_i hother
      refine raisesOnly_error (fun details hdetails => ?_)
      cases hdetails
      refine ⟨config.row.currentVersion, rfl, hhad₂, fun row hrow hplace hexpected => ?_⟩
      have hle := hhad₂.since row hrow hplace
      omega
    · exact raisesOnly_ok _
  · exact raises_choose (fun s₃ chosen h₃ _ _ _ _ _ _ _ _ _ _ _ _ => trivial)

/-- **Every request that names a version** is refused as one that has lost. -/
theorem raises_request {request : Request} {flagId environmentId : UUID} {expected : ℕ}
    (hnames : request.names = some (flagId, environmentId, expected)) (s : Database) :
    1 ≤ expected ∧ request.program.Raises discipline (s.Lost (flagId, environmentId) expected)
      [] [] s := by
  cases request with
  | replaceFlagConfiguration principal requestId flagId payload =>
    cases hnames
    exact ⟨payload.expectedVersionRange, raises_replaceFlagConfiguration _ _ _ _⟩
  | addTargetingRule principal requestId flagId payload =>
    cases hnames
    exact ⟨payload.expectedVersionRange, raises_addTargetingRule _ _ _ _⟩
  | rollbackFeatureFlag principal requestId flagId targetVersion payload =>
    cases hnames
    exact ⟨payload.expectedVersionRange, raises_rollbackFeatureFlag _ _ _ _ _⟩
  | scheduleChange principal requestId flagId payload =>
    cases hnames
    exact ⟨payload.expectedVersionRange, raises_scheduleChange _ _ _ _⟩
  | _ => cases hnames

end Endpoints

/-! ## Runs -/

/-- The conflict a transaction has ended in. -/
def Running.conflict? (tx : Running Database Write Row Choice PyError Request Outcome) :
    Option (List (String × Json)) :=
  match tx.prog with
  | .raise e => e.conflict?
  | _ => none

theorem exists_raise_of_conflict? {tx : Running Database Write Row Choice PyError Request Outcome}
    {details : List (String × Json)} (h : tx.conflict? = some details) :
    ∃ e, tx.prog = .raise e ∧ e.conflict? = some details := by
  unfold Running.conflict? at h
  split at h
  · rename_i e hprog
    exact ⟨e, hprog, h⟩
  · cases h

/-- Who has put a value was answered with it. -/
theorem exists_response_of_put {entries : List (Request × Outcome)}
    {batches : List (List (Put (UUID × UUID) ConfigurationFields))}
    (h : List.Forall₂ (fun entry batch =>
      List.Forall₂ FlagResponse.Reports entry.2.responses batch) entries batches)
    {p : Put (UUID × UUID) ConfigurationFields} (hp : p ∈ batches.flatten) :
    ∃ entry ∈ entries, ∃ r ∈ entry.2.responses, r.Reports p := by
  obtain ⟨batch, hbatch, hmem⟩ := List.mem_flatten.mp hp
  obtain ⟨entry, hentry, hreported⟩ := exists_of_forall₂ h.flip hbatch
  exact ⟨entry, hentry, exists_of_forall₂ hreported.flip hmem⟩

/-- **A request is refused only to those that were faster.** What it is told is a version
that was current since it began, and a later one than it named, unless that one was ahead;
and each version from its beginning up to that one was put by a request that has been
answered since. -/
theorem conflict_lost {actions actions' : List (Action Choice Request)} {w w' : ServiceWorld}
    {request : Request} (hrun : service.run initial actions = some w)
    (hrun' : service.run w (.start request :: actions') = some w')
    {tx : Running Database Write Row Choice PyError Request Outcome} (htx : tx ∈ w'.live)
    (hid : tx.id = w.next) {details : List (String × Json)}
    (hconflict : tx.conflict? = some details) {flagId environmentId : UUID} {expected : ℕ}
    (hnames : request.names = some (flagId, environmentId, expected)) :
    ∃ (version : ℕ) (entries : List (Request × Outcome)),
      details = [("current_version", .int version)] ∧ w'.log = w.log ++ entries
      ∧ (w.committed.store (flagId, environmentId)).length ≤ version
      ∧ version ≤ (w'.committed.store (flagId, environmentId)).length
      ∧ (expected ≤ (w.committed.store (flagId, environmentId)).length → expected < version)
      ∧ ∀ n, (w.committed.store (flagId, environmentId)).length ≤ n → n < version →
        ∃ entry ∈ entries, (flagId, environmentId.str, n + 1)
          ∈ entry.2.responses.map FlagResponse.reported := by
  have hgood := good_of_run hrun
  obtain ⟨hpos, hprogram⟩ := raises_request hnames w.committed
  obtain ⟨e, hraised, hdetails⟩ := exists_raise_of_conflict? hconflict
  obtain ⟨w₁, hstart, hrest⟩ := Option.bind_eq_some_iff.mp hrun'
  have hids : ∀ tx ∈ w.live, tx.id < w.next :=
    System.ids_of_run (fun _ h => absurd h List.not_mem_nil) hrun
  have hgood₁ := (service_respects.step hgood (fun _ _ _ _ => trivial) hstart).1
  have hnext : w.next < w₁.next := by
    cases hstart
    exact Nat.lt_succ_self _
  -- what was raised is described at an earlier state
  obtain ⟨s, hevolves, hlost⟩ := service_respects.raises hgood₁ hnext
    (World.raising_start hids hprogram hstart)
    (service.commitsMeet_of_forall (fun _ _ _ => trivial) w₁ actions') hrest htx hid hraised
  obtain ⟨hgood', -⟩ := service_respects.run_good hgood
    (service.commitsMeet_of_forall (fun _ _ _ => trivial) w _) hrun'
  obtain ⟨version, rfl, hhad, hlater⟩ := hlost details hdetails
  obtain ⟨entries, batches, hlog, hreported, hputs⟩ := puts_of_good hgood hrun'
  have hversions := (shows_store hgood.invariant).versions
  have hversions' := (shows_store hgood'.invariant).versions
  have hreached : version ≤ (w'.committed.store (flagId, environmentId)).length := by
    obtain ⟨s₁, hs₁, row, hrow, hplace, hversion⟩ := hhad.current
    have hsince := hs₁.trans (hevolves.mono (List.nil_subset _))
    obtain ⟨row', hrow', hid', hle, -, -⟩ := hsince.configs row hrow
    have hplace' := place_of_id hgood'.invariant.consistent hsince hrow hrow' hid'
    rw [← hplace, ← hplace', hversions' row' hrow', ← hversion]
    exact hle
  have hbefore : (w.committed.store (flagId, environmentId)).length ≤ version
      ∧ (expected ≤ (w.committed.store (flagId, environmentId)).length → expected < version) := by
    by_cases hmem : (flagId, environmentId) ∈ w.committed.configs.map FlagConfigRow.place
    · obtain ⟨row, hrow, hplace⟩ := List.mem_map.mp hmem
      rw [← hplace, hversions row hrow]
      exact ⟨hhad.since row hrow hplace, hlater row hrow hplace⟩
    · rw [store_of_not_mem hmem]
      exact ⟨Nat.zero_le _, fun h => absurd hpos (Nat.not_le_of_gt (Nat.lt_one_iff.mpr
        (Nat.le_zero.mp h)))⟩
  refine ⟨version, entries, rfl, hlog, hbefore.1, hreached, hbefore.2, fun n hle hlt => ?_⟩
  obtain ⟨p, hp, hkey, hexpected⟩ :=
    VersionedStore.exists_put hputs hle (Nat.lt_of_lt_of_le hlt hreached)
  obtain ⟨entry, hentry, r, hr, hreports⟩ := exists_response_of_put hreported hp
  refine ⟨entry, hentry, List.mem_map.mpr ⟨r, hr, ?_⟩⟩
  unfold FlagResponse.reported
  rw [hreports.id, hreports.environmentId, hreports.version, hkey, hexpected]

/-- Another writer commits just before the conditional update of the first one. -/
def sampleRace : List (Action Choice Request) :=
  advances 4 60 7
  ++ alone 5 50 15
    (.replaceFlagConfiguration sampleUser none ⟨40⟩ (sampleUpdate sampleContent 1 Nat.one_pos))
  ++ advances 4 60 2

/-- Two writers have named the same version. -/
theorem conflict_lost_race : ∃ w w' tx request details,
    service.run initial sampleFlag = some w
    ∧ request = .replaceFlagConfiguration sampleUser none ⟨40⟩
      (sampleUpdate sampleContent 1 Nat.one_pos)
    ∧ service.run w (.start request :: sampleRace) = some w'
    ∧ tx ∈ w'.live ∧ tx.id = w.next ∧ tx.conflict? = some details
    ∧ request.names = some (⟨40⟩, ⟨30⟩, 1)
    ∧ ∃ (version : ℕ) (entries : List (Request × Outcome)),
      details = [("current_version", .int version)] ∧ w'.log = w.log ++ entries
      ∧ (w.committed.store (⟨40⟩, ⟨30⟩)).length ≤ version
      ∧ version ≤ (w'.committed.store (⟨40⟩, ⟨30⟩)).length
      ∧ (1 ≤ (w.committed.store (⟨40⟩, ⟨30⟩)).length → 1 < version)
      ∧ ∀ n, (w.committed.store (⟨40⟩, ⟨30⟩)).length ≤ n → n < version →
        ∃ entry ∈ entries, ((⟨40⟩ : UUID), (⟨30⟩ : UUID).str, n + 1)
          ∈ entry.2.responses.map FlagResponse.reported := by
  have hfacts : (service.run initial sampleFlag).any (fun w =>
      (service.run w (.start (.replaceFlagConfiguration sampleUser none ⟨40⟩
        (sampleUpdate sampleContent 1 Nat.one_pos)) :: sampleRace)).any (fun w' =>
          w'.live.any (fun tx => decide (tx.id = w.next) && tx.conflict?.isSome))) = true := by
    decide +kernel
  obtain ⟨w, hrun, hfacts⟩ := (Option.any_eq_true _ _).mp hfacts
  obtain ⟨w', hrun', hfacts⟩ := (Option.any_eq_true _ _).mp hfacts
  obtain ⟨tx, htx, hfacts⟩ := List.any_eq_true.mp hfacts
  obtain ⟨hid, hsome⟩ := Bool.and_eq_true_iff.mp hfacts
  obtain ⟨details, hconflict⟩ := Option.isSome_iff_exists.mp hsome
  exact ⟨w, w', tx, _, details, hrun, rfl, hrun', htx, of_decide_eq_true hid, hconflict, rfl,
    conflict_lost hrun hrun' htx (of_decide_eq_true hid) hconflict rfl⟩

end CohortSwitch
