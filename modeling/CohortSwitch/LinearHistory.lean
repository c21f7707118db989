import CohortSwitch.VersionHistory

/-!
# Linear histories

What holds of the versions in every state the service can reach, from the
empty database on and under every interleaving: `versionHistory_linear`.

The invariant of `CohortSwitch.VersionHistory` says that the versions of a
configuration are numbered without gap and that each was written once. What is
left is about the requests: at most one of the writers which expect the same
version succeeds. The responses are first tied to what was asked for: whatever an
update returns carries the version after the expected one
(`Request.yields_answered`). Two successes would have reported the same version of
the same configuration, and no version is reported twice.

`Prog.Yields` is enough for the first part, since what a program returns does not
depend on what others commit: the number comes from the payload.

## The sample tenant

The second half sets up a tenant with one flag, as a run from the empty database.
Its actions are used wherever a theorem is shown at a concrete run; ids count up
from small numbers, and every statement finds the rows in the order of the tables.
-/

namespace CohortSwitch

/-! ## What a request is answered with -/

/-- The flag, the environment and the version a request wants to follow. -/
def Request.expects : Request → Option (UUID × UUID × ℕ)
  | .replaceFlagConfiguration _ _ flagId payload =>
    some (flagId, payload.environmentId, payload.expectedVersion)
  | .addTargetingRule _ _ flagId payload =>
    some (flagId, payload.environmentId, payload.expectedVersion)
  | .rollbackFeatureFlag _ _ flagId _ payload =>
    some (flagId, payload.environmentId, payload.expectedVersion)
  | _ => none

/-- **The next version was reported** to the request. -/
def Request.Answered (request : Request) (outcome : Outcome) : Prop :=
  ∀ target, request.expects = some target →
    (target.1, target.2.1.str, target.2.2 + 1) ∈ outcome.responses.map FlagResponse.reported

/-- What an update responds. -/
def Follows (flagId environmentId : UUID) (expectedVersion : ℕ)
    (out : FlagResponse × List Write) : Prop :=
  out.1.reported = (flagId, environmentId.str, expectedVersion + 1)

/-- An update returns the version after the expected one. -/
theorem yields_updateFlag (known : Option FlagConfigRow) (flag : FeatureFlagRow)
    (environment : EnvironmentRow) (project : ProjectRow) (payload : FlagUpdate)
    (actorUserId actorApiKeyId : Option UUID) (requestId : Option String) (action : String)
    (sourceVersion : Option ℕ) :
    (updateFlag known flag environment project payload actorUserId actorApiKeyId requestId action
      sourceVersion).Yields (Follows flag.id environment.id payload.expectedVersion) := by
  unfold updateFlag
  refine (Prog.yields_true _).bind (fun found _ => ?_)
  cases found with
  | none => exact trivial
  | some row =>
    dsimp only
    split
    · exact trivial
    refine (Prog.yields_attempt (fun _ h => h)).bind (fun compiled hbuilt => ?_)
    refine (Prog.yields_true _).bind (fun updated _ => ?_)
    cases updated with
    | false => exact (Prog.yields_true _).bind (fun _ _ => trivial)
    | true =>
      refine (Prog.yields_true _).bind (fun _ _ => (Prog.yields_true _).bind (fun final _ => ?_))
      refine (Prog.yields_true _).bind (fun _ _ => ?_)
      refine (Prog.yields_attempt (fun _ h => h)).bind (fun result hresponse => ?_)
      have hfields := buildConfiguration_eq_ok_iff.mp hbuilt
      obtain ⟨hid, henvironment, hversion, -⟩ := response_eq_ok hresponse
      show (result.id, result.environmentId, result.currentVersion) = _
      rw [hid, henvironment, hversion, hfields.environmentId, hfields.configVersion]

/-- The commit of an update returns its response. -/
theorem yields_commitUpdate {request : Request} {flagId environmentId : UUID}
    {expectedVersion : ℕ} (hrequest : request.expects = some (flagId, environmentId,
      expectedVersion)) {out : FlagResponse × List Write}
    (hout : Follows flagId environmentId expectedVersion out) (project : ProjectRow)
    (environment : EnvironmentRow) (flagKey event : String) :
    (commitUpdate project environment flagKey event out.1 out.2).Yields request.Answered := by
  refine (Prog.yields_true _).bind (fun _ _ => ?_)
  intro target htarget
  rw [hrequest] at htarget
  cases htarget
  exact List.mem_map.mpr ⟨out.1, List.mem_singleton.mpr rfl, hout⟩

/-- A lookup finds the flag that was asked for. -/
theorem yields_getFlag (flagId : UUID) :
    (getFlag flagId).Yields (fun found => ∀ flag, found = some flag → flag.id = flagId) :=
  fun _ _ h => (mem_and_of_find? h).2

/-- So does an authorization. -/
theorem yields_authorizeEnvironment (principal : Principal) (environmentId : UUID)
    (permission : Permission) :
    (authorizeEnvironment principal environmentId permission).Yields
      (fun found => found.1.id = environmentId) := by
  unfold authorizeEnvironment
  refine Prog.Yields.bind (P := fun found => ∀ environment : EnvironmentRow,
    found = some environment → environment.id = environmentId)
    (fun v environment h => (mem_and_of_find? h).2) (fun found hfound => ?_)
  cases found with
  | none => exact trivial
  | some environment =>
    dsimp only
    split
    · exact trivial
    · exact (Prog.yields_true _).bind (fun _ _ => hfound environment rfl)

theorem yields_loadCollections (row : FlagConfigRow) (flag : FeatureFlagRow)
    (environment : EnvironmentRow) :
    (loadCollections row flag environment).Yields
      (fun config => config.flag = flag ∧ config.environment = environment) :=
  fun _ _ _ _ _ _ _ => ⟨rfl, rfl⟩

/-- And so does a load. -/
theorem yields_getConfigByFlagEnvironment (flagId environmentId : UUID) :
    (getConfigByFlagEnvironment flagId environmentId).Yields
      (fun config => config.flag.id = flagId ∧ config.environment.id = environmentId) := by
  unfold getConfigByFlagEnvironment
  refine Prog.Yields.bind (P := fun found => ∀ row flag environment,
    found = some (row, flag, environment) → flag.id = flagId ∧ environment.id = environmentId)
    ?_ (fun found hfound => ?_)
  · intro v row flag environment h
    have hplace : ∀ w ∈ ([] : List Write), w.isInPlace = true := fun _ hw => (by cases hw)
    exact (knowsJoined_of_configOfFlag hplace h).2
  · cases found with
    | none => exact trivial
    | some found =>
      obtain ⟨row, flag, environment⟩ := found
      obtain ⟨hflag, henvironment⟩ := hfound row flag environment rfl
      refine (yields_loadCollections row flag environment).bind (fun config hconfig => ?_)
      obtain ⟨rfl, rfl⟩ := hconfig
      split
      · exact trivial
      · exact ⟨hflag, henvironment⟩

/-- **Every request is answered with the version after the one it expects.** -/
theorem Request.yields_answered (request : Request) :
    request.program.Yields request.Answered := by
  -- whoever names no version need not be answered with one
  have hother : request.expects = none → request.program.Yields request.Answered := by
    intro h
    refine (Prog.yields_true _).mono (fun outcome _ target htarget => ?_)
    rw [h] at htarget
    cases htarget
  cases request with
  | replaceFlagConfiguration principal requestId flagId payload =>
    refine (yields_getFlag flagId).bind (fun found hfound => ?_)
    cases found with
    | none => exact trivial
    | some flag =>
      refine (Prog.yields_true _).bind (fun project _ => ?_)
      refine (yields_authorizeEnvironment principal payload.environmentId .flagWrite).bind
        (fun environment henvironment => ?_)
      refine (yields_updateFlag none flag environment.1 project.1 payload _ _ _ _ _).bind
        (fun out hout => ?_)
      rw [hfound flag rfl, henvironment] at hout
      exact yields_commitUpdate rfl hout project.1 environment.1 flag.key "flag.updated"
  | addTargetingRule principal requestId flagId payload =>
    refine (yields_getConfigByFlagEnvironment flagId payload.environmentId).bind
      (fun config hconfig => ?_)
    refine (Prog.yields_true _).bind (fun project _ => ?_)
    refine (Prog.yields_attempt (fun _ h => h)).bind (fun updatePayload hpayload => ?_)
    refine (yields_updateFlag _ config.flag config.environment project.1 updatePayload _ _ _ _
      _).bind (fun out hout => ?_)
    obtain ⟨compiled, -, hpayload⟩ := bind_eq_ok.mp hpayload
    obtain ⟨payload', hpayload', heq⟩ := bind_eq_ok.mp hpayload
    cases heq
    change Follows config.flag.id config.environment.id payload'.expectedVersion out at hout
    rw [hconfig.1, hconfig.2, updateFromConfiguration_expectedVersion hpayload'] at hout
    exact yields_commitUpdate rfl hout project.1 config.environment config.flag.key _
  | rollbackFeatureFlag principal requestId flagId targetVersion payload =>
    refine (yields_getFlag flagId).bind (fun found hfound => ?_)
    cases found with
    | none => exact trivial
    | some flag =>
      refine (Prog.yields_true _).bind (fun project _ => ?_)
      refine (yields_authorizeEnvironment principal payload.environmentId .flagWrite).bind
        (fun environment henvironment => ?_)
      have hrollback : (rollbackFlag flag environment.1 project.1 targetVersion
          payload.expectedVersion principal.userId principal.apiKeyId requestId).Yields
            (Follows flag.id environment.1.id payload.expectedVersion) := by
        unfold rollbackFlag
        refine (Prog.yields_true _).bind (fun config _ => (Prog.yields_true _).bind
          (fun version _ => ?_))
        cases version with
        | none => exact trivial
        | some version =>
          refine (Prog.yields_true _).bind (fun chosen _ => (Prog.yields_true _).bind
            (fun old _ => (Prog.yields_attempt (fun _ h => h)).bind (fun update hupdate => ?_)))
          -- the payload that is read back from the old version has the version of the request
          rw [← updateFromConfiguration_expectedVersion hupdate]
          exact yields_updateFlag none flag environment.1 project.1 update _ _ _ _ _
      refine hrollback.bind (fun out hout => ?_)
      rw [hfound flag rfl, henvironment] at hout
      exact yields_commitUpdate rfl hout project.1 environment.1 flag.key "flag.rollback"
  | _ => exact hother rfl

/-! ## At most one writer -/

/-- Of the items that contribute one element to a list without duplicates
there is at most one. -/
theorem length_filter_le_one {α β : Type} [DecidableEq β] {f : α → List β} {p : α → Bool}
    {b : β} {xs : List α} (hnd : (xs.flatMap f).Nodup) (hp : ∀ x ∈ xs, p x = true → b ∈ f x) :
    (xs.filter p).length ≤ 1 := by
  induction xs with
  | nil => exact Nat.zero_le 1
  | cons x xs ih =>
    rw [List.flatMap_cons, List.nodup_append] at hnd
    obtain ⟨-, hrest, hdisjoint⟩ := hnd
    have hp' : ∀ y ∈ xs, p y = true → b ∈ f y := fun y hy => hp y (List.mem_cons_of_mem x hy)
    by_cases hx : p x = true
    · have hnone : xs.filter p = [] := by
        rw [List.filter_eq_nil_iff]
        intro y hy hpy
        exact hdisjoint b (hp x List.mem_cons_self hx) b
          (List.mem_flatMap.mpr ⟨y, hy, hp' y hy hpy⟩) rfl
      rw [List.filter_cons_of_pos hx, hnone]
      exact le_refl 1
    · rw [List.filter_cons_of_neg hx]
      exact ih hrest hp'

/-! ## Every reachable state -/

/-- **The history of a configuration is complete**: its versions are numbered
without gap, each is recorded once, and its rows compile to the latest one. -/
structure CompleteHistory (s : Database) (row : FlagConfigRow) : Prop where
  versions : ((s.versions.filter (fun version => version.configId = row.id)).map
    FlagVersionRow.version).Perm (List.range' 1 row.currentVersion)
  salts : ∀ version ∈ s.versions, version.configId = row.id → version.snapshot.salt = row.salt
  audited : ∀ n, s.audits.countP (fun event => event.records row.flagId row.environmentId n)
    = if 1 ≤ n ∧ n ≤ row.currentVersion then 1 else 0
  compiles : ∃ version ∈ s.versions, version.configId = row.id
    ∧ version.version = row.currentVersion
    ∧ ∀ loaded : LoadedConfig, loaded.row = row → loaded.flag ∈ s.flags →
      loaded.flag.id = row.flagId → loaded.environment ∈ s.environments →
      loaded.environment.id = row.environmentId → Loads s.children loaded →
      ∃ c, compileConfiguration loaded = .ok c
        ∧ version.snapshot.Rearranged Eq List.Perm c.toConfigurationFields

/-- What the invariant says is complete. -/
theorem ConfigHistory.complete {s : Database} {row : FlagConfigRow} (h : ConfigHistory s row) :
    CompleteHistory s row where
  versions := h.versions
  salts := h.salts
  audited := h.audited
  compiles := by
    obtain ⟨c, hc⟩ := h.current
    obtain ⟨version, hv, hid, hcurrent, hsnapshot⟩ := hc.stored
    refine ⟨version, hv, hid, hcurrent, ?_⟩
    rintro loaded rfl hflag hflagId henvironment henvironmentId hloads
    obtain ⟨saved, hstores⟩ := hc.children
    have hdescribes := hc.describes _ hflag hflagId _ henvironment henvironmentId
    rw [hsnapshot]
    exact compile_of_represents (fun _ _ hperm => hperm)
      (represents_of_loads hstores hloads hdescribes)

/-- There is nothing in the empty database. -/
theorem history_initial : History Database.empty [] where
  consistent := by decide
  configs := fun _ h => absurd h List.not_mem_nil
  audits := fun _ h => absurd h List.not_mem_nil
  once := List.nodup_nil
  written := fun _ h => absurd h List.not_mem_nil

/-- The service is in good order in every state it reaches: the invariant holds of what is
committed, and of every transaction under way it is known what it will ensure. -/
theorem good_of_run {actions : List (Action Choice Request)} {w : ServiceWorld}
    (hrun : service.run initial actions = some w) :
    w.Good discipline History (fun _ => Commits) :=
  (service_respects.run_good (World.good_init history_initial)
    (service.commitsMeet_of_forall (fun _ _ _ => trivial) initial actions) hrun).1

/-- A step of the service commits an effect, or leaves the committed state. -/
theorem committed_step {w w' : ServiceWorld} {action : Action Choice Request}
    (hgood : w.Good discipline History (fun _ => Commits))
    (hstep : service.step w action = some w') :
    w'.committed = w.committed ∨ ∃ id tx effect locks, action = .commit id
      ∧ w.running? id = some tx ∧ tx.writes = Effect.writes effect
      ∧ effect.Fits w.committed locks
      ∧ w'.committed = service.view effect.writes w.committed
      ∧ (service.view effect.writes w.committed).Consistent := by
  cases action with
  | start request =>
    cases hstep
    exact Or.inl rfl
  | abort id =>
    cases hstep
    exact Or.inl rfl
  | advance id choice =>
    obtain ⟨tx, locks, writes, next, view, -, -, -, -, rfl⟩ := service.advance_eq_some hstep
    exact Or.inl rfl
  | commit id =>
    obtain ⟨tx, result, htx, hprog, hok, rfl⟩ := service.commit_eq_some hstep
    obtain ⟨s, hrely, effect, hwrites, hfits, -⟩ := hgood.of_running htx hprog
    rw [← hwrites] at hok
    exact Or.inr ⟨id, tx, effect, tx.locks, rfl, htx, hwrites.symm, hfits.evolve hrely,
      by rw [hwrites], Database.consistent_of_ok hok⟩

/-- **What every commit keeps holds in every later state.** -/
theorem committed_of_good {P : Database → Prop}
    (hcommit : ∀ (s : Database) (effect : Effect) (locks : List Row), s.Consistent →
      effect.Fits s locks → (service.view effect.writes s).Consistent → P s →
      P (service.view effect.writes s))
    {actions : List (Action Choice Request)} {w w' : ServiceWorld}
    (hgood : w.Good discipline History (fun _ => Commits)) (hp : P w.committed)
    (hrun : service.run w actions = some w') : P w'.committed := by
  induction actions generalizing w with
  | nil =>
    cases hrun
    exact hp
  | cons action rest ih =>
    obtain ⟨w₁, hstep, hrest⟩ := Option.bind_eq_some_iff.mp hrun
    obtain ⟨hgood₁, -⟩ := service_respects.step hgood (fun _ _ _ _ => trivial) hstep
    refine ih hgood₁ ?_ hrest
    rcases committed_step hgood hstep with hsame | ⟨_, _, effect, locks, -, -, -, hfits,
      hcommitted, hok⟩
    · rw [hsame]
      exact hp
    · rw [hcommitted]
      exact hcommit _ effect locks hgood.invariant.consistent hfits hok hp

/-- **The version history is linear and complete.** In every state the service
reaches, and on the way to every later one. -/
theorem versionHistory_linear {actions actions' : List (Action Choice Request)}
    {w w' : ServiceWorld} (hrun : service.run initial actions = some w)
    (hrun' : service.run w actions' = some w') :
    (∀ row ∈ w.committed.configs, CompleteHistory w.committed row)
      ∧ w.committed.versions <+: w'.committed.versions
      ∧ (∀ row ∈ w.committed.configs, ∃ row' ∈ w'.committed.configs,
        row'.id = row.id ∧ row'.salt = row.salt)
      ∧ (successes w.log).Nodup
      ∧ ∀ target, (w.log.filter (fun entry => entry.1.expects = some target)).length ≤ 1 := by
  have hgood := good_of_run hrun
  obtain ⟨-, hevolves⟩ := service_respects.run_good hgood
    (service.commitsMeet_of_forall (fun _ _ _ => trivial) w actions') hrun'
  have hanswered : ∀ entry ∈ w.log, entry.1.Answered entry.2 :=
    System.run_yields Request.yields_answered (fun _ h => absurd h List.not_mem_nil)
      (fun _ h => absurd h List.not_mem_nil) hrun
  refine ⟨fun row hr => (hgood.invariant.configs row hr).complete, hevolves.grows.versions, ?_,
    hgood.invariant.once, ?_⟩
  · intro row hr
    obtain ⟨row', hr', heq⟩ := List.mem_map.mp
      (hevolves.grows.configs.subset (List.mem_map_of_mem hr))
    exact ⟨row', hr', congrArg FlagConfigRow.Identity.id heq,
      congrArg FlagConfigRow.Identity.salt heq⟩
  · intro target
    refine length_filter_le_one (b := (target.1, target.2.1.str, target.2.2 + 1))
      hgood.invariant.once (fun entry hentry hexpects => ?_)
    exact hanswered entry hentry target (of_decide_eq_true hexpects)

/-! ## A tenant with one flag -/

/-- What the environment gives a statement of the sample runs: rows in the
order of the tables, and identifiers from `n` on. -/
def sampleChoice (n : ℕ) : Choice := ⟨[], fun i => ⟨n + i⟩, "secret", 0, .plain⟩

/-- Some statements of a transaction. -/
def advances (id n statements : ℕ) : List (Action Choice Request) :=
  List.replicate statements (.advance id (sampleChoice n))

/-- A transaction that runs from its start to its commit without others. -/
def alone (id n statements : ℕ) (request : Request) : List (Action Choice Request) :=
  .start request :: advances id n statements ++ [.commit id]

/-- The user of the sample runs. -/
def sampleUser : Principal := .ofUser ⟨1⟩

/-- The keys of the sample flags are in order. -/
theorem isFlagKey_banner : isFlagKey "banner" = true := by decide

/-- So is the second one. -/
theorem isFlagKey_footer : isFlagKey "footer" = true := by decide

/-- A second environment. -/
def sampleStaging : EnvironmentCreate := ⟨"staging", "Staging", by decide, by decide⟩

/-- A flag with two variations and no rules. -/
def sampleContent : FlagContent where
  enabled := true
  defaultVariation := "on"
  variations := [⟨"on", .bool true, isVariationKey_on⟩, ⟨"off", .bool false, isVariationKey_off⟩]
  rules := []
  rollout := []
  progressiveStages := []
  variationsNonempty := by simp

/-- A new flag in the environment of the sample tenant. -/
def sampleCreate (key : String) (h : isFlagKey key = true) : FlagCreate :=
  ⟨sampleContent, ⟨30⟩, key, "Flag", "", .boolean, h, by simp [String.length], by simp⟩

/-- A replacement of the sample flag. -/
def sampleUpdate (content : FlagContent) (expectedVersion : ℕ) (h : 1 ≤ expectedVersion) :
    FlagUpdate :=
  ⟨content, ⟨30⟩, expectedVersion, none, none, h, nameLength_none, descriptionLength_none⟩

/-- An organization `10`, its project `20`, and the project's environment `30`. -/
def sampleTenant : List (Action Choice Request) :=
  alone 0 10 3 (.createOrganization sampleUser none ⟨"Acme", "acme", by decide, by decide⟩)
  ++ alone 1 20 4 (.createProject sampleUser none ⟨⟨10⟩, "Shop", "shop", by decide, by decide⟩)
  ++ alone 2 30 5
    (.createEnvironment sampleUser none ⟨20⟩ ⟨"prod", "Production", by decide, by decide⟩)

/-- The sample tenant with the flag `40`. -/
def sampleFlag : List (Action Choice Request) :=
  sampleTenant
  ++ alone 3 40 12
    (.createFeatureFlag sampleUser none ⟨20⟩ (sampleCreate "banner" isFlagKey_banner))

/-- An update of the sample flag. -/
def sampleReplacement : List (Action Choice Request) :=
  alone 4 50 15
    (.replaceFlagConfiguration sampleUser none ⟨40⟩ (sampleUpdate sampleContent 1 Nat.one_pos))

theorem versionHistory_linear_sample :
    ∃ w w', service.run initial sampleFlag = some w ∧ service.run w sampleReplacement = some w'
      ∧ w'.committed.configs.map FlagConfigRow.currentVersion = [2]
      ∧ (∀ row ∈ w.committed.configs, CompleteHistory w.committed row)
      ∧ w.committed.versions <+: w'.committed.versions
      ∧ (∀ row ∈ w.committed.configs, ∃ row' ∈ w'.committed.configs,
        row'.id = row.id ∧ row'.salt = row.salt)
      ∧ (successes w.log).Nodup
      ∧ ∀ target, (w.log.filter (fun entry => entry.1.expects = some target)).length ≤ 1 := by
  have hversions : (service.run initial (sampleFlag ++ sampleReplacement)).map
      (fun w' => w'.committed.configs.map FlagConfigRow.currentVersion) = some [2] := by
    decide +kernel
  obtain ⟨w', hrun, hversion⟩ := Option.map_eq_some_iff.mp hversions
  rw [System.run_append] at hrun
  obtain ⟨w, hrun, hrun'⟩ := Option.bind_eq_some_iff.mp hrun
  exact ⟨w, w', hrun, hrun', hversion, versionHistory_linear hrun hrun'⟩

end CohortSwitch
