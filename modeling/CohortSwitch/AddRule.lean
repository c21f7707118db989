import CohortSwitch.AtomicRead
import CohortSwitch.Rollback
import CohortSwitch.Runs
import CohortSwitch.TableWrites

/-!
# Adding a rule

`addTargetingRule` loads a configuration, appends the rule to what it loaded, and
updates the flag if the current version is the one the client names. The version
that was loaded is compared with neither. Where they are the same, nobody
committed a version between the load and the update, for versions only grow: so
the SELECTs of the load found one version, and the new one is that version with
the rule (`addRule_extends`). Where the client names a later version than the
load found, the update goes through as soon as that version is current, and what
it changed is undone (`addRule_undoes`).

The condition is on the first SELECT of the request, in the state it sees
(`LoadsExpected`). A postcondition that depends on such a condition is not one of the
program from any state, so the program is cut at its first statement
(`Prog.EnsuresFrom`), and the run carries the transaction from there
(`System.Respects.underway_of_run`).

What was loaded is the named version up to the order of its rows, and what is built from
it with one rule more is that version with the rule (`AddsRule`). The order of the rules
is the order of their priorities, so the new one may act before any of the old ones.
-/

namespace CohortSwitch

/-! ## A version with one more rule -/

/-- **One configuration is another one with a rule added**, at its end, under the next
version. The rows it was loaded from come in any order, so its collections may be
arranged anew; nothing else differs. -/
structure AddsRule (rule : RuleInput) (c d : ConfigurationFields) : Prop where
  sameFlag : c.SameFlag d
  version : d.configVersion = c.configVersion + 1
  content : ∃ loaded added, c.Rearranged Eq List.Perm loaded ∧ RuleBuilt rule added
    ∧ SameContent { loaded with rules := loaded.rules ++ [added] } d

/-- **What is built from an appended rule** is what was loaded with the rule. -/
theorem sameContent_of_append {compiled : FlagConfiguration} {environmentId : UUID}
    {expectedVersion : ℕ} {payload : FlagUpdate}
    (hpayload : updateFromConfiguration compiled environmentId expectedVersion = .ok payload)
    {rule : RuleInput} {projectId : UUID} {environment : EnvironmentRow} {flag : FeatureFlagRow}
    {version : ℕ} {salt : String} {d : ConfigurationFields}
    (hbuilt : Built projectId environment flag
      { payload with rules := payload.rules ++ [rule] }.toFlagContent version salt d) :
    ∃ added, RuleBuilt rule added
      ∧ SameContent { compiled.toConfigurationFields with
          rules := compiled.rules ++ [added] } d := by
  have hrules := hbuilt.rules.flip
  have hold := (List.forall₂_take_append d.rules payload.rules [rule] hrules).flip
  have hlast := (List.forall₂_drop_append d.rules payload.rules [rule] hrules).flip
  obtain ⟨added, rest, hadded, hrest, hdrop⟩ := List.forall₂_cons_left_iff.mp hlast
  cases hrest
  have hsame := restored_of_built hpayload (c := { d with
    rules := d.rules.take payload.rules.length }) { hbuilt with
      rules := hold
      prioritiesNodup := by
        have hnodup := hbuilt.prioritiesNodup
        rw [List.map_append] at hnodup
        exact hnodup.of_append_left }
  refine ⟨added, hadded, { hsame with rules := ?_ }⟩
  show compiled.rules ++ [added] = d.rules
  rw [← List.take_append_drop payload.rules.length d.rules, hdrop]
  exact congrArg (· ++ [added]) hsame.rules

/-! ## What the load finds -/

/-- The configuration an update adds the rule to. -/
def Request.addsRule? : Request → Option (UUID × RuleCreate)
  | .addTargetingRule _ _ flagId payload => some (flagId, payload)
  | _ => none

/-- **The version that is loaded is the one the client names.** -/
def LoadsExpected (request : Request) (s : Database) : Prop :=
  ∀ item ∈ request.addsRule?.toList, ∀ row ∈ s.configs, row.flagId = item.1 →
    row.environmentId = item.2.environmentId → row.currentVersion = item.2.expectedVersion

instance (request : Request) (s : Database) : Decidable (LoadsExpected request s) :=
  inferInstanceAs (Decidable (∀ item ∈ request.addsRule?.toList, ∀ row ∈ s.configs, _))

/-- **The update adds the rule to the version the client names.** -/
structure Update.Adds (u : Update) (flagId : UUID) (payload : RuleCreate) (s : Database) :
    Prop where
  flagId : u.flag.id = flagId
  environmentId : u.environment.id = payload.environmentId
  version : u.version = payload.expectedVersion + 1
  extends_ : ∃ old ∈ s.versions, old.configId = u.configId
    ∧ old.version = payload.expectedVersion
    ∧ AddsRule payload.rule old.snapshot u.compiled.toConfigurationFields

/-- What a request ensures if its load finds the version the client names. -/
def AddsToNamed (request : Request) (writes : List Write) (locks : List Row) (s : Database)
    (outcome : Outcome) : Prop :=
  ∀ flagId payload, request.addsRule? = some (flagId, payload) →
    ∃ u, CommitsUpdate u writes locks s outcome ∧ u.Adds flagId payload s

/-- The discipline of the service, in states that have their history. -/
def recording : Discipline Database Write Row :=
  { discipline with invariant := fun s => ∃ log, History s log }

section Load

variable {s s' last : Database}

/-- What is described by the rows of a configuration and what is built for them are of
one flag. -/
theorem sameFlag_of_built {row : FlagConfigRow} {flag : FeatureFlagRow}
    {environment : EnvironmentRow} {c d : ConfigurationFields}
    (h : Describes row flag environment c) (hrow : row.flagId = flag.id)
    (henvironment : row.environmentId = environment.id) {projectId : UUID}
    (hproject : flag.projectId = projectId) {content : FlagContent} {version : ℕ}
    (hbuilt : Built projectId environment flag content version row.salt d) : c.SameFlag d where
  projectId := by rw [h.projectId, hbuilt.projectId, hproject]
  environmentId := by rw [h.environmentId, hbuilt.environmentId, henvironment]
  environmentKey := by rw [h.environmentKey, hbuilt.environmentKey]
  flagId := by rw [h.flagId, hbuilt.flagId, hrow]
  flagKey := by rw [h.flagKey, hbuilt.flagKey]
  flagType := by rw [h.flagType, hbuilt.flagType]
  salt := by rw [h.salt, hbuilt.salt]

end Load

/-- **The rule is added to the version that was loaded**, if that is the one the client
names. -/
theorem ensuresFrom_addTargetingRule (principal : Principal) (requestId : Option String)
    (flagId : UUID) (payload : RuleCreate) :
    (addTargetingRule principal requestId flagId payload).EnsuresFrom recording
      (LoadsExpected (.addTargetingRule principal requestId flagId payload))
      (fun writes locks s outcome => ∃ u, CommitsUpdate u writes locks s outcome
        ∧ u.Adds flagId payload s) := by
  unfold addTargetingRule getConfigByFlagEnvironment
  rw [Prog.bind_assoc]
  refine Prog.ensuresFrom_read (fun s₁ _ _ found hinv hexpected hfound => ?_)
  obtain ⟨log, hhistory⟩ := hinv
  refine Prog.Ensures.strict (d := discipline) ?_ rfl
    (fun _ hi => hi.elim (fun _ h => h.consistent)) (fun _ _ _ h => h)
  cases found with
  | none => exact trivial
  | some found =>
    obtain ⟨row, flag, environment⟩ := found
    obtain ⟨⟨hrow, hrowFlag, hrowEnvironment⟩, hflag, henvironment⟩ := configOfFlag_eq_some hfound
    have hversion := hexpected (flagId, payload) List.mem_cons_self row hrow hrowFlag
      hrowEnvironment
    obtain ⟨hknows, hfid, heid⟩ := knowsJoined_of_configOfFlag
      (fun w (h : w ∈ ([] : List Write)) => absurd h List.not_mem_nil) hfound
    dsimp only
    rw [Prog.bind_assoc]
    refine (reads_loadCollections row flag environment).observed.bind
      (fun writes locks s₂ config hobserved => ?_)
    obtain ⟨rfl, rfl, h₂, views, hobserve, hviews⟩ := hobserved
    obtain ⟨hsameRow, hsameFlag, hsameEnvironment, hloads⟩ := loaded_of_observe hobserve
    split
    · exact trivial
    show Prog.Ensures discipline _
      (authorizeProject principal config.flag.projectId .flagWrite >>= _) [] [] s₂
    refine ensures_reads (ensures_authorizeProject (fun _ h => absurd h List.not_mem_nil) principal
      config.flag.projectId .flagWrite) (fun s₃ found₃ h₃ hproject => ?_)
    obtain ⟨project, membership⟩ := found₃
    refine ensures_attempt_bind (fun updatePayload happend => ?_)
    obtain ⟨compiled, hcompiled, happend⟩ := bind_eq_ok.mp happend
    obtain ⟨oldPayload, hpayload, happend⟩ := bind_eq_ok.mp happend
    cases happend
    subst hsameRow hsameFlag hsameEnvironment
    have hknows₃ := (hknows.evolve h₂).evolve h₃
    refine (ensures_updateFlag (fun _ h => absurd h List.not_mem_nil) hknows₃.flagKnown
      hknows₃.environmentKnown hproject.1 hproject.2.1.symm ?_).bind ?_
    · rintro known h
      cases h
      exact ⟨hknows₃.configKnown, hknows₃.flagId, hknows₃.environmentId⟩
    rintro writes locks s₄ out ⟨configId, salt, built, final, hupdated, hid⟩
    have hid := hid _ rfl
    have hbuilt := buildConfiguration_eq_ok_iff.mp hupdated.known.built
    have hexpects : oldPayload.expectedVersion + 1 = payload.expectedVersion + 1 :=
      congrArg (· + 1) (updateFromConfiguration_expectedVersion hpayload)
    have h₄ := (h₂.trans h₃).trans hupdated.evolves
    -- the update met the version the load found, so nobody committed one in between
    have hcurrent : ∃ last ∈ s₄.configs, last.id = config.row.id
        ∧ last.currentVersion = config.row.currentVersion := by
      obtain ⟨last, hlast, hlastId, hlastVersion⟩ := hupdated.current List.not_mem_nil
      refine ⟨last, hlast, hlastId.trans hid, hlastVersion.trans ?_⟩
      exact (updateFromConfiguration_expectedVersion hpayload).trans hversion.symm
    have hchildren : ∀ v ∈ views, v.state.children.of config.row.id
        = s₁.children.of config.row.id := by
      intro v hv
      obtain ⟨t, hstate, hbefore, hafter⟩ := hviews v hv
      rw [hstate]
      exact children_between hrow hbefore ((hafter.trans h₃).trans hupdated.evolves)
        hupdated.consistent hcurrent
    obtain ⟨old, hold, holdId, holdVersion, hdescribes, hrearranged⟩ :=
      exists_version_of_loads hhistory hrow hflag henvironment (hloads _ hchildren) hcompiled
    obtain ⟨added, hadded, hcontent⟩ := sameContent_of_append hpayload hbuilt
    have hsalt : salt = config.row.salt := by
      have hidentity := identity_of_id hupdated.consistent hupdated.known.config
        (hknows₃.configKnown.evolve hupdated.evolves) hid
      exact congrArg FlagConfigRow.Identity.salt hidentity
    rw [hsalt] at hbuilt
    refine ((ensures_commitUpdate hupdated (fun t ht => (by cases ht))
      (by split <;> decide)).frame
      (K := fun t => old ∈ t.versions) (fun _ _ _ hrely h => hrely.grows.versions.subset h)
      (h₄.grows.versions.subset hold)).mono ?_
    rintro writes' locks' s₅ outcome ⟨hcommits, hstored⟩
    refine ⟨_, hcommits, hfid, heid, hexpects, old, hstored, holdId.trans hid.symm,
      holdVersion.trans hversion, ?_⟩
    refine ⟨sameFlag_of_built hdescribes hknows.flagId hknows.environmentId hproject.2.1.symm
      hbuilt, ?_, compiled.toConfigurationFields, added, hrearranged, hadded, hcontent⟩
    rw [hbuilt.configVersion, hdescribes.configVersion, hversion]
    exact hexpects

/-! ## Every run -/

/-- Every request ensures it, from a first statement that finds what it needs. -/
theorem ensuresFrom_adds (request : Request) :
    (service.program request).EnsuresFrom recording (LoadsExpected request)
      (AddsToNamed request) := by
  have hnone : request.addsRule? = none → (service.program request).EnsuresFrom recording
      (LoadsExpected request) (AddsToNamed request) := by
    intro hnone
    refine Prog.ensuresFrom_of_ensures (fun s => Prog.ensures_true.mono ?_)
    rintro _ _ _ _ - flagId payload heq
    rw [hnone] at heq
    cases heq
  cases request with
  | addTargetingRule principal requestId flagId payload =>
    refine (ensuresFrom_addTargetingRule principal requestId flagId payload).mono ?_
    rintro writes locks s outcome h _ _ heq
    cases heq
    exact h
  | _ => exact hnone rfl

/-- The service keeps its history, and what it stored. -/
theorem respects_recording :
    service.Respects recording History (fun _ => Commits) (fun _ _ _ => True) where
  apply := rfl
  committed := fun _ log h => ⟨log, h⟩
  start := fun request s _ =>
    (request.ensures s).strict rfl (fun _ hi => hi.elim (fun _ h => h.consistent))
      (fun _ _ _ h => h)
  commit := service_respects.commit

/-- **Add-rule extends the version it names.** If the first SELECT of the request finds
the version the client names, the version it commits is that version with the
rule added. -/
theorem addRule_extends {actions : List (Action Choice Request)} {w w₁ : ServiceWorld}
    (hrun : service.run initial actions = some w) {id : ℕ} {tx : ServiceTx}
    (htx : w.running? id = some tx) {flagId : UUID} {payload : RuleCreate}
    (hrequest : tx.request.addsRule? = some (flagId, payload))
    (hloads : service.Meets (FirstStatement service id LoadsExpected) initial actions)
    (hcommit : service.step w (.commit id) = some w₁) :
    ∃ row ∈ w₁.committed.configs, row.flagId = flagId ∧ row.environmentId = payload.environmentId
      ∧ row.currentVersion = payload.expectedVersion + 1
      ∧ ∃ old ∈ w.committed.versions, ∃ new ∈ w₁.committed.versions,
        old.configId = row.id ∧ old.version = payload.expectedVersion
        ∧ new.configId = row.id ∧ new.version = payload.expectedVersion + 1
        ∧ AddsRule payload.rule old.snapshot new.snapshot := by
  obtain ⟨hgood, hunderway⟩ := respects_recording.underway_of_run ensuresFrom_adds
    (fun _ _ _ => trivial) (World.good_init history_initial) (fun _ h => nomatch h) hloads hrun
  obtain ⟨tx', result, htx', hprog, hok, rfl⟩ := service.commit_eq_some hcommit
  rw [htx] at htx'
  cases htx'
  obtain ⟨hmem, hid⟩ := World.mem_of_running? htx
  rcases hunderway tx hmem hid with ⟨hstart, -⟩ | ⟨s, hrely, hensures⟩
  · -- the request makes statements before it is done
    rw [hprog] at hstart
    cases hname : tx.request with
    | addTargetingRule principal requestId flagId' payload' =>
      rw [hname] at hstart
      cases hstart
    | _ =>
      rw [hname] at hrequest
      cases hrequest
  rw [hprog] at hensures
  obtain ⟨u, hcommits, hadds⟩ := hensures flagId payload hrequest
  obtain ⟨old, hold, holdId, holdVersion, hrule⟩ := hadds.extends_
  have hfits := hcommits.fits.evolve hrely
  have hmemUpdate : u ∈ updatesOf [⟨some u, none⟩] := List.mem_singleton.mpr rfl
  obtain ⟨row, hrow, hrowId, hcurrent⟩ := hfits.current u hmemUpdate
  obtain ⟨hflag, henvironment, -⟩ :=
    (hfits.known u hmemUpdate).row_eq hgood.invariant.consistent hrow hrowId
  show ∃ row ∈ (service.view tx.writes w.committed).configs, _ ∧ _ ∧ _ ∧
    ∃ old ∈ _, ∃ new ∈ (service.view tx.writes w.committed).versions, _
  rw [← hcommits.writes_eq, configs_rounds, versions_rounds]
  refine ⟨u.newRow row, ?_, hflag.trans hadds.flagId, henvironment.trans hadds.environmentId,
    hadds.version, old, hrely.grows.versions.subset hold, u.versionRow, ?_, ?_, holdVersion, ?_,
    hadds.version, hrule⟩
  · rw [← updatedRow_of_mem (hfits.nodup hgood.invariant.consistent) hmemUpdate hrowId]
    exact List.mem_map_of_mem hrow
  · exact List.mem_append_right _ (List.mem_singleton.mpr rfl)
  · exact holdId.trans hrowId.symm
  · exact hrowId.symm

/-! ## A rule for the sample flag -/

/-- The rule `beta` for the sample flag. -/
def sampleRuleCreate (expectedVersion : ℕ) (h : 1 ≤ expectedVersion) : RuleCreate :=
  ⟨⟨30⟩, expectedVersion, sampleRule, h⟩

/-- The rule is added to version 1, and about to be committed. -/
def ruleAdded : List (Action Choice Request) :=
  sampleFlag ++ .start (.addTargetingRule sampleUser none ⟨40⟩ (sampleRuleCreate 1 Nat.one_pos))
    :: advances 4 50 19

theorem addRule_extends_sample : ∃ w tx w₁ payload, service.run initial ruleAdded = some w
    ∧ w.running? 4 = some tx ∧ tx.request.addsRule? = some (⟨40⟩, payload)
    ∧ payload.expectedVersion = 1 ∧ payload.rule.name = "beta"
    ∧ service.step w (.commit 4) = some w₁
    ∧ ∃ row ∈ w₁.committed.configs, row.flagId = ⟨40⟩
      ∧ row.environmentId = payload.environmentId
      ∧ row.currentVersion = payload.expectedVersion + 1
      ∧ ∃ old ∈ w.committed.versions, ∃ new ∈ w₁.committed.versions,
        old.configId = row.id ∧ old.version = payload.expectedVersion
        ∧ new.configId = row.id ∧ new.version = payload.expectedVersion + 1
        ∧ AddsRule payload.rule old.snapshot new.snapshot := by
  have hfacts : (service.run initial ruleAdded).any (fun w =>
      (w.running? 4).any (fun tx => tx.request.addsRule?.any (fun item =>
        item.1 = ⟨40⟩ ∧ item.2.expectedVersion = 1 ∧ item.2.rule.name = "beta"))
      && (service.step w (.commit 4)).isSome) = true := by decide +kernel
  have hmeets : service.checkMeets
      (fun w action => decide (EveryStatement 4 LoadsExpected w action)) initial ruleAdded
      = true := by decide +kernel
  obtain ⟨w, hrun, hfacts⟩ := (Option.any_eq_true _ _).mp hfacts
  obtain ⟨hrequest, hcommit⟩ := Bool.and_eq_true_iff.mp hfacts
  obtain ⟨tx, htx, hrequest⟩ := (Option.any_eq_true _ _).mp hrequest
  obtain ⟨⟨flagId, payload⟩, hadds, hpayload⟩ := (Option.any_eq_true _ _).mp hrequest
  obtain ⟨rfl, hversion, hname⟩ := of_decide_eq_true hpayload
  obtain ⟨w₁, hcommit⟩ := Option.isSome_iff_exists.mp hcommit
  exact ⟨w, tx, w₁, payload, hrun, htx, hadds, hversion, hname, hcommit,
    addRule_extends hrun htx hadds
      ((System.meets_of_check hmeets).mono (fun _ _ h => h.first)) hcommit⟩

/-- The client names version 2 while version 1 is current. The load has found version 1
when a replacement commits version 2, which disables the flag. -/
def ruleUndoing : List (Action Choice Request) :=
  sampleFlag ++ .start (.addTargetingRule sampleUser none ⟨40⟩ (sampleRuleCreate 2 version_two))
    :: advances 4 50 8
  ++ alone 5 60 15 (.replaceFlagConfiguration sampleUser none ⟨40⟩
    (sampleUpdate { sampleContent with enabled := false } 1 Nat.one_pos))
  ++ advances 4 50 11

/-- **A committed write is undone**: version 3 is version 1 with the rule, enabled as
version 2 was not. -/
theorem addRule_undoes : ∃ w tx w₁ payload, service.run initial ruleUndoing = some w
    ∧ w.running? 4 = some tx ∧ tx.request.addsRule? = some (⟨40⟩, payload)
    ∧ payload.expectedVersion = 2 ∧ service.step w (.commit 4) = some w₁
    ∧ (∃ new ∈ w₁.committed.versions, new.version = 3)
    ∧ ∀ old ∈ w.committed.versions, old.version = 2 → ∀ new ∈ w₁.committed.versions,
      new.version = 3 → ¬ AddsRule payload.rule old.snapshot new.snapshot := by
  have hfacts : (service.run initial ruleUndoing).any (fun w =>
      (w.running? 4).any (fun tx => tx.request.addsRule?.any (fun item =>
        item.1 = ⟨40⟩ ∧ item.2.expectedVersion = 2))
      && (service.step w (.commit 4)).any (fun w₁ =>
        w.committed.versions.all (fun old => decide (old.version = 2 →
          old.snapshot.enabled = false))
        && w₁.committed.versions.any (fun new => decide (new.version = 3))
        && w₁.committed.versions.all (fun new => decide (new.version = 3 →
          new.snapshot.enabled = true)))) = true := by decide +kernel
  obtain ⟨w, hrun, hfacts⟩ := (Option.any_eq_true _ _).mp hfacts
  obtain ⟨hrequest, hcommit⟩ := Bool.and_eq_true_iff.mp hfacts
  obtain ⟨tx, htx, hrequest⟩ := (Option.any_eq_true _ _).mp hrequest
  obtain ⟨⟨flagId, payload⟩, hadds, hpayload⟩ := (Option.any_eq_true _ _).mp hrequest
  obtain ⟨rfl, hversion⟩ := of_decide_eq_true hpayload
  obtain ⟨w₁, hcommit, hstates⟩ := (Option.any_eq_true _ _).mp hcommit
  rw [Bool.and_eq_true, Bool.and_eq_true] at hstates
  obtain ⟨⟨hold, hwritten⟩, hnew⟩ := hstates
  obtain ⟨written, hmem, hthree⟩ := List.any_eq_true.mp hwritten
  refine ⟨w, tx, w₁, payload, hrun, htx, hadds, hversion, hcommit,
    ⟨written, hmem, of_decide_eq_true hthree⟩, fun old ho hoversion new hn hnversion hrule => ?_⟩
  have hdisabled := of_decide_eq_true (List.all_eq_true.mp hold old ho) hoversion
  have henabled := of_decide_eq_true (List.all_eq_true.mp hnew new hn) hnversion
  obtain ⟨loaded, added, hrearranged, -, hcontent⟩ := hrule.content
  have hsame : old.snapshot.enabled = new.snapshot.enabled :=
    hrearranged.enabled.trans hcontent.enabled
  rw [hdisabled, henabled] at hsame
  cases hsame

end CohortSwitch
