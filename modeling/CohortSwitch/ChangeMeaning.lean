import CohortSwitch.InputInverse
import CohortSwitch.Scheduler

/-!
# What a scheduled change means

A scheduled change holds a type and a payload that nobody has looked at. Where
they are in order they mean something (`ScheduledChangeRow.meaning`): the flag
is switched, one variation is served by default, or two variations share the
buckets; and a meaning is a function on configurations (`Meaning.apply`).

The scheduler does not apply it to a configuration but to the payload it reads
back from one, and builds that again. This succeeds exactly if the configuration
has the variations the change names, and what is built is the configuration the
change means (`exists_build_write`, `build_write_eq_ok`).

A percentage is written as two rollout entries, of which one is left out where it would be
zero, and the boundaries of the buckets are computed from these again
(`rolloutAllocations_shared`).

The rows of a configuration come in no particular order, and the payload that is read
back has them in the order they came. A meaning looks at none of these orders
(`Meaning.rearranged_result`), so the result is the same configuration however it was
read.
-/

namespace CohortSwitch

/-! ## Meanings -/

/-- **What a change asks for.** -/
inductive Meaning where
  | enabled (value : Bool)
  | variation (name : String)
  | rollout (percentage : ℕ) (variation fallback : String) (range : percentage ≤ 10000)

/-- The whole range is in range. -/
theorem whole_range : 0 < 10000 ∧ 10000 ≤ 10000 := by decide

/-- The boundaries of two variations that share the buckets. -/
def sharedAllocations (percentage : ℕ) (variation fallback : String)
    (range : percentage ≤ 10000) : List RolloutAllocation :=
  (if h : 0 < percentage then [⟨variation, percentage, h, range⟩] else [])
    ++ (if percentage < 10000 then [⟨fallback, 10000, whole_range⟩] else [])

/-- Their percentages. -/
def sharedInputs (percentage : ℕ) (variation fallback : String) (range : percentage ≤ 10000) :
    List RolloutInput :=
  (if h : 0 < percentage then [⟨variation, percentage, h, range⟩] else [])
    ++ (if h : percentage < 10000 then [⟨fallback, 10000 - percentage, by omega⟩] else [])

namespace Meaning

/-- **What the change makes of a configuration.** -/
def apply (c : ConfigurationFields) : Meaning → ConfigurationFields
  | .enabled value => { c with enabled := value }
  | .variation name => { c with defaultVariation := name, rollout := [], progressiveStages := [] }
  | .rollout percentage name fallback range =>
    { c with
      rollout := sharedAllocations percentage name fallback range
      progressiveStages := [] }

/-- What the change makes of a payload. -/
def write (payload : FlagUpdate) : Meaning → FlagUpdate
  | .enabled value =>
    { payload with enabled := value, variationsNonempty := payload.variations_ne_nil }
  | .variation name =>
    { payload with
      defaultVariation := name
      rollout := []
      progressiveStages := []
      variationsNonempty := payload.variations_ne_nil }
  | .rollout percentage name fallback range =>
    { payload with
      rollout := sharedInputs percentage name fallback range
      progressiveStages := []
      variationsNonempty := payload.variations_ne_nil }

/-- The variations the change names. -/
def names : Meaning → List String
  | .enabled _ => []
  | .variation name => [name]
  | .rollout percentage name fallback range =>
    (sharedAllocations percentage name fallback range).map RolloutAllocation.variation

end Meaning

/-- The two shares of a payload, where they are in order. -/
def ScheduledChangeRow.shares (change : ScheduledChangeRow) : Option Meaning :=
  match change.payload.get? "percentage_basis_points", change.payload.get? "variation",
    change.payload.get? "fallback_variation" with
  | some value, some variation, some fallback =>
    match pyInt value with
    | .ok percentage =>
      if h : 0 ≤ percentage ∧ percentage ≤ 10000 then
        some (.rollout percentage.toNat (pyStr variation) (pyStr fallback) (by omega))
      else none
    | .error _ => none
  | _, _, _ => none

/-- **What a change means**, where its type is known and its payload is in order. -/
def ScheduledChangeRow.meaning (change : ScheduledChangeRow) : Option Meaning :=
  if change.changeType = "enable" then some (.enabled true)
  else if change.changeType = "disable" then some (.enabled false)
  else if change.changeType = "variation" then
    (change.payload.get? "variation").map (fun value => .variation (pyStr value))
  else if change.changeType = "rollout_percentage" then change.shares
  else none

/-! ## The payload -/

section Payload

variable {change : ScheduledChangeRow} {payload : FlagUpdate}

/-- An item that is read is there. -/
theorem payloadItem_eq_ok {key : String} {value : Json} :
    payloadItem change key = .ok value ↔ change.payload.get? key = some value := by
  unfold payloadItem
  cases change.payload.get? key with
  | none => simp
  | some found => simp

/-- A percentage in range as a number. -/
theorem toNat_le_of_range {percentage : ℤ} (h : 0 ≤ percentage ∧ percentage ≤ 10000) :
    percentage.toNat ≤ 10000 := by
  omega

/-- The allocations of a percentage in range. -/
theorem sharedInputs_eq {percentage : ℤ} (h : 0 ≤ percentage ∧ percentage ≤ 10000)
    (variation fallback : String) :
    ∃ first rest, allocationIf (percentage ≠ 0) variation percentage = .ok first
      ∧ allocationIf (percentage < 10000) fallback (10000 - percentage) = .ok rest
      ∧ first ++ rest = sharedInputs percentage.toNat variation fallback (toNat_le_of_range h) := by
  refine ⟨_, _, ?_, ?_, rfl⟩
  · unfold allocationIf
    by_cases hzero : percentage ≠ 0
    · rw [if_pos hzero, dif_pos (by omega : 0 < percentage.toNat)]
      unfold RolloutInput.create
      rw [dif_pos (by omega)]
      rfl
    · rw [if_neg hzero, dif_neg (by omega)]
  · unfold allocationIf
    by_cases hall : percentage < 10000
    · rw [if_pos hall, dif_pos (by omega : percentage.toNat < 10000)]
      unfold RolloutInput.create
      rw [dif_pos (by omega)]
      have hrest : (10000 - percentage).toNat = 10000 - percentage.toNat := by omega
      simp only [hrest]
      rfl
    · rw [if_neg hall, dif_neg (by omega)]

variable (payload) in
/-- **The scheduler writes what the change means**, where it means something. -/
theorem applyPayload_of_meaning {m : Meaning} (h : change.meaning = some m) :
    ∃ action event, applyPayload change payload = .ok (m.write payload, action, event) := by
  unfold ScheduledChangeRow.meaning at h
  unfold applyPayload
  split at h
  · rename_i htype
    cases h
    rw [if_pos htype]
    exact ⟨"flag.enabled", "flag.updated", rfl⟩
  rename_i henable
  rw [if_neg henable]
  split at h
  · rename_i htype
    cases h
    rw [if_pos htype]
    exact ⟨"flag.disabled", "flag.updated", rfl⟩
  rename_i hdisable
  rw [if_neg hdisable]
  split at h
  · rename_i htype
    obtain ⟨value, hvalue, rfl⟩ := Option.map_eq_some_iff.mp h
    rw [if_pos htype, payloadItem_eq_ok.mpr hvalue]
    exact ⟨"flag.updated", "flag.updated", rfl⟩
  rename_i hvariation
  rw [if_neg hvariation]
  split at h
  · rename_i htype
    rw [if_pos htype]
    unfold ScheduledChangeRow.shares at h
    split at h
    · rename_i value variation fallback hvalue hvar hfallback
      split at h
      · rename_i percentage hpercentage
        split at h
        · rename_i hrange
          cases h
          obtain ⟨first, rest, hfirst, hrest, hinputs⟩ :=
            sharedInputs_eq hrange (pyStr variation) (pyStr fallback)
          rw [payloadItem_eq_ok.mpr hvalue, payloadItem_eq_ok.mpr hvar,
            payloadItem_eq_ok.mpr hfallback]
          refine ⟨"rollout.changed", "rollout.changed",
            bind_eq_ok.mpr ⟨_, rfl, bind_eq_ok.mpr ⟨_, hpercentage,
              raiseIf_bind_eq_ok.mpr ⟨not_not.mpr hrange, bind_eq_ok.mpr ⟨_, rfl,
                bind_eq_ok.mpr ⟨_, rfl, bind_eq_ok.mpr ⟨_, hfirst, bind_eq_ok.mpr ⟨_, hrest,
                  ?_⟩⟩⟩⟩⟩⟩⟩⟩
          rw [hinputs]
          rfl
        · cases h
      · cases h
    · cases h
  · cases h

/-- **It raises where the change means nothing.** -/
theorem meaning_of_applyPayload {out : FlagUpdate × String × String}
    (h : applyPayload change payload = .ok out) :
    ∃ m, change.meaning = some m ∧ out.1 = m.write payload := by
  suffices hsome : ∃ m, change.meaning = some m by
    obtain ⟨m, hm⟩ := hsome
    obtain ⟨action, event, happly⟩ := applyPayload_of_meaning payload hm
    rw [happly] at h
    cases h
    exact ⟨m, hm, rfl⟩
  unfold applyPayload at h
  unfold ScheduledChangeRow.meaning
  split at h
  · rename_i htype
    exact ⟨_, if_pos htype⟩
  rename_i henable
  rw [if_neg henable]
  split at h
  · rename_i htype
    exact ⟨_, if_pos htype⟩
  rename_i hdisable
  rw [if_neg hdisable]
  split at h
  · rename_i htype
    obtain ⟨value, hvalue, -⟩ := bind_eq_ok.mp h
    rw [if_pos htype, payloadItem_eq_ok.mp hvalue]
    exact ⟨_, rfl⟩
  rename_i hvariation
  rw [if_neg hvariation]
  split at h
  · rename_i htype
    rw [if_pos htype]
    obtain ⟨value, hvalue, h⟩ := bind_eq_ok.mp h
    obtain ⟨percentage, hpercentage, h⟩ := bind_eq_ok.mp h
    obtain ⟨hrange, h⟩ := raiseIf_bind_eq_ok.mp h
    obtain ⟨variation, hvar, h⟩ := bind_eq_ok.mp h
    obtain ⟨fallback, hfallback, -⟩ := bind_eq_ok.mp h
    unfold ScheduledChangeRow.shares
    rw [payloadItem_eq_ok.mp hvalue, payloadItem_eq_ok.mp hvar, payloadItem_eq_ok.mp hfallback]
    dsimp only
    rw [hpercentage]
    exact ⟨_, dif_pos (not_not.mp hrange)⟩
  · cases h

end Payload

/-! ## What is built -/

/-- Two shares are accepted, and their boundaries are those of the meaning. -/
theorem rolloutAllocations_shared (percentage : ℕ) (variation fallback : String)
    (range : percentage ≤ 10000) :
    rolloutAllocations (sharedInputs percentage variation fallback range)
      = .ok (sharedAllocations percentage variation fallback range) := by
  unfold rolloutAllocations sharedInputs sharedAllocations
  by_cases hsome : 0 < percentage
  · by_cases hall : percentage < 10000
    · rw [dif_pos hsome, dif_pos hsome, dif_pos hall, if_pos hall]
      have hsum : percentage + (10000 - percentage) = 10000 := by omega
      simp [allocationsFrom, RolloutAllocation.create, raiseIf, range, hsome, hsum, bind, pure,
        Except.bind, Except.pure]
    · have hfull : percentage = 10000 := by omega
      simp [allocationsFrom, RolloutAllocation.create, raiseIf, hfull, bind, pure, Except.bind,
        Except.pure]
  · have hzero : percentage = 0 := by omega
    simp [allocationsFrom, RolloutAllocation.create, raiseIf, hzero, bind, pure, Except.bind,
      Except.pure]

/-- Such a rollout is valid. -/
theorem validRollout_shared (percentage : ℕ) (variation fallback : String)
    (range : percentage ≤ 10000) :
    ValidRollout (sharedAllocations percentage variation fallback range) := by
  refine Or.inr ?_
  unfold sharedAllocations
  by_cases hsome : 0 < percentage
  · by_cases hall : percentage < 10000
    · simp [hsome, hall]
    · have hfull : percentage = 10000 := by omega
      subst hfull
      simp
  · have hzero : percentage = 0 := by omega
    subst hzero
    simp

section Build

variable {projectId : UUID} {environment : EnvironmentRow} {flag : FeatureFlagRow}
  {payload : FlagUpdate} {d : FlagConfiguration} {version : ℕ}

/-- The configuration a change means, as a version. -/
def Meaning.result (m : Meaning) (c : ConfigurationFields) (version : ℕ) : ConfigurationFields :=
  { m.apply c with configVersion := version }

/-- **A change keeps a configuration valid**, if the variations it names are known. -/
theorem Meaning.valid_result (m : Meaning) {c : ConfigurationFields} (h : c.Valid)
    (hversion : 1 ≤ version) (hnames : ∀ name ∈ m.names, name ∈ c.variations.keys) :
    (m.result c version).Valid := by
  have hrules : ∀ name ∈ c.rules.flatMap TargetingRule.references, name ∈ c.variations.keys :=
    fun name hname =>
      h.referencesKnown name (List.mem_append_left _ (List.mem_append_right _ hname))
  cases m with
  | enabled value => exact { h with version := hversion }
  | variation name =>
    refine { h with version := hversion, defaultKnown := ?_, referencesKnown := ?_,
                    rolloutValid := Or.inl rfl }
    · exact hnames name (List.mem_singleton.mpr rfl)
    · intro other hother
      rcases List.mem_append.mp hother with hother | hother
      · exact hrules other hother
      · cases hother
  | rollout percentage variation fallback range =>
    refine { h with version := hversion, referencesKnown := ?_, rolloutValid := ?_ }
    · intro other hother
      rcases List.mem_append.mp hother with hother | hother
      · exact (List.mem_append.mp hother).elim (hnames other) (hrules other)
      · cases hother
    · exact validRollout_shared percentage variation fallback range

/-- The payload of the change describes its result. -/
theorem Meaning.built_result (m : Meaning)
    (h : Built projectId environment flag payload.toFlagContent d.configVersion d.salt
      d.toConfigurationFields) (version : ℕ) :
    Built projectId environment flag (m.write payload).toFlagContent version d.salt
      (m.result d.toConfigurationFields version) := by
  cases m with
  | enabled value => exact { h with enabled := rfl, configVersion := rfl }
  | variation name =>
    exact { h with defaultVariation := rfl, configVersion := rfl, rollout := rfl,
                   progressiveStages := .nil, oneAction := Or.inl rfl }
  | rollout percentage variation fallback range =>
    exact { h with configVersion := rfl,
                   rollout := rolloutAllocations_shared percentage variation fallback range,
                   progressiveStages := .nil, oneAction := Or.inr rfl }

/-- A change is built if the variations it names are known. -/
theorem exists_build_write (m : Meaning)
    (h : Built projectId environment flag payload.toFlagContent d.configVersion d.salt
      d.toConfigurationFields) (hversion : 1 ≤ version)
    (hnames : ∀ name ∈ m.names, name ∈ d.variations.keys) :
    ∃ c : FlagConfiguration, buildConfiguration projectId environment flag
        (m.write payload).toFlagContent version d.salt = .ok c
      ∧ c.toConfigurationFields = m.result d.toConfigurationFields version :=
  ⟨⟨m.result d.toConfigurationFields version,
      validateConfiguration_eq_ok_iff.mpr (m.valid_result d.valid hversion hnames)⟩,
    buildConfiguration_eq_ok_iff.mpr (m.built_result h version), rfl⟩

/-- **And only then**, and what is built is the configuration it means. -/
theorem build_write_eq_ok (m : Meaning)
    (h : Built projectId environment flag payload.toFlagContent d.configVersion d.salt
      d.toConfigurationFields) (hversion : 1 ≤ version) {c : FlagConfiguration}
    (hbuild : buildConfiguration projectId environment flag (m.write payload).toFlagContent version
      d.salt = .ok c) :
    (∀ name ∈ m.names, name ∈ d.variations.keys)
      ∧ c.toConfigurationFields = m.result d.toConfigurationFields version := by
  have hnames : ∀ name ∈ m.names, name ∈ d.variations.keys := by
    have hbuilt := buildConfiguration_eq_ok_iff.mp hbuild
    have hkeys : c.variations = d.variations := by
      refine Dict.ext (hbuilt.variations.trans (Eq.trans ?_ h.variations.symm))
      cases m <;> rfl
    rw [← hkeys]
    cases m with
    | enabled value => exact fun name hname => absurd hname List.not_mem_nil
    | variation name =>
      intro other hother
      have hdefault : c.defaultVariation = name := hbuilt.defaultVariation
      rw [List.mem_singleton.mp hother, ← hdefault]
      exact c.valid.defaultKnown
    | rollout percentage variation fallback range =>
      have hrollout : sharedAllocations percentage variation fallback range = c.rollout :=
        Except.ok.inj ((rolloutAllocations_shared percentage variation fallback range).symm.trans
          hbuilt.rollout)
      intro other hother
      refine c.valid.referencesKnown other (List.mem_append_left _ (List.mem_append_left _ ?_))
      rw [← hrollout]
      exact hother
  obtain ⟨c', hbuild', hresult⟩ := exists_build_write m h hversion hnames
  rw [hbuild] at hbuild'
  cases hbuild'
  exact ⟨hnames, hresult⟩

end Build

/-! ## In whatever order the rows come -/

/-- **What is readable stays so in another order.** -/
theorem ConfigurationFields.Readable.rearranged {c d : ConfigurationFields}
    {P : List ProgressiveStage → List ProgressiveStage → Prop}
    (hP : ∀ stages stages', P stages stages' → stages.Perm stages') (h : c.Readable)
    (hcd : c.Rearranged Eq P d) : d.Readable := by
  have hrule : ∀ rule ∈ d.rules, ∃ old ∈ c.rules, old.Rearranged Eq P rule :=
    fun rule hmem => hcd.rules.exists_left hmem
  refine ⟨fun key hkey => h.keys key (hcd.keys_perm.symm.subset hkey), fun rule hmem => ?_,
    fun rule hmem => ?_, fun rule hmem condition hcondition => ?_, ?_, ?_⟩
  · obtain ⟨old, hold, hsame⟩ := hrule rule hmem
    exact hsame.name ▸ h.names old hold
  · obtain ⟨old, hold, hsame⟩ := hrule rule hmem
    exact hsame.priority ▸ h.priorities old hold
  · obtain ⟨old, hold, hsame⟩ := hrule rule hmem
    obtain ⟨condition', hcondition', hsame'⟩ := hsame.conditions.exists_left hcondition
    exact hsame'.operator ▸ h.operators old hold condition' hcondition'
  · exact (hcd.rules.map_perm (fun _ _ hsame => hsame.priority)).nodup_iff.mp h.distinct
  · refine h.oneAction.imp (fun hnone => hcd.rollout ▸ hnone) (fun hnone => ?_)
    have hperm := hP _ _ hcd.progressiveStages
    rw [hnone] at hperm
    exact List.nil_perm.mp hperm

/-- **A change means the same in another order.** -/
theorem Meaning.rearranged_result (m : Meaning) {c d : ConfigurationFields}
    {R : Json → Json → Prop} (h : c.Rearranged R List.Perm d) (version : ℕ) :
    (m.result c version).Rearranged R List.Perm (m.result d version) := by
  cases m with
  | enabled value => exact { h with enabled := rfl, configVersion := rfl }
  | variation name =>
    exact { h with defaultVariation := rfl, rollout := rfl, progressiveStages := .refl [],
                   configVersion := rfl }
  | rollout percentage variation fallback range =>
    exact { h with rollout := rfl, progressiveStages := .refl [], configVersion := rfl }

end CohortSwitch
