import CohortSwitch.Responses
import CohortSwitch.SdkKeys

/-!
# Decisions

From the caller of the SDK to the configurations of the service and back. The client sends
a flag key, a subject key and attributes; the endpoint loads the configuration of its
principal's environment, from the cache or from the database, evaluates it and sends the
result or an error; the client reads the response.

`evaluate_arrives` says that nothing is lost on the way, in every run of the service with
its cache: the caller has exactly what the engine decided, for a configuration with the
version of a committed row, and an exception with the status, the code and the message of
the server's.
`is_enabled` has a boolean to return exactly if the flag is one of booleans. For
`evaluate_batch` (`batch_arrives`) the caller has one such decision for each flag that was
asked for, and no other.

## The way of a decision

The pieces are proved elsewhere and meet here. What a load gives was read from the database
or from an entry that some load has set, at the address of the request
(`sources_of_gave`). What the engine makes of it has one of three ends
(`exits_evaluateFlag`): a value of the flag's type, an exception of a condition, or one
that is not the service's own. Each end can be sent, and what is sent is read as
it was (`post_respond`).

That the exceptions are not the service's own matters for their details: a service error
with a detail called `code` could not be sent. So the operators are gone through once more,
this time for what they never raise (`raisesNoApiError_conditionMatches`).
-/

namespace CohortSwitch

/-! ## What evaluation raises -/

section Raising

/-- A result that is mapped. -/
theorem RaisesNoApiError.map {α β : Type} {x : Except PyError α} (hx : RaisesNoApiError x)
    (f : α → β) : RaisesNoApiError (x.map f) := by
  cases x with
  | ok a => exact raisesNoApiError_ok _
  | error exc => exact raisesNoApiError_error (hx exc rfl)

theorem raisesNoApiError_isIn (element container : Json) :
    RaisesNoApiError (element.isIn container) := by
  unfold Json.isIn
  split
  · split
    · exact raisesNoApiError_ok _
    · exact raisesNoApiError_error rfl
  · exact raisesNoApiError_ok _
  · split
    · exact raisesNoApiError_ok _
    · split
      · exact raisesNoApiError_ok _
      · exact raisesNoApiError_error rfl
  · exact raisesNoApiError_error rfl

theorem raisesNoApiError_toFloat (value : Json) : RaisesNoApiError (toFloat value) := by
  unfold toFloat
  split
  · exact raisesNoApiError_ok _
  · split
    · exact raisesNoApiError_ok _
    · exact raisesNoApiError_error rfl
  · exact raisesNoApiError_ok _
  · unfold floatOfText
    dsimp only
    split
    · exact raisesNoApiError_ok _
    · exact raisesNoApiError_error rfl
  · exact raisesNoApiError_error rfl

theorem raisesNoApiError_numericCompare (operation : PyFloat → PyFloat → Bool)
    (actual : Option Json) (expected : Json) :
    RaisesNoApiError (numericCompare operation actual expected) := by
  unfold numericCompare
  split
  · exact raisesNoApiError_ok _
  · rename_i a
    split
    · exact raisesNoApiError_ok _
    · have hcompared : RaisesNoApiError (do
          let left ← toFloat a
          let right ← toFloat expected
          pure (operation left right)) :=
        (raisesNoApiError_toFloat a).bind (fun _ =>
          (raisesNoApiError_toFloat expected).bind (fun _ => raisesNoApiError_ok _))
      dsimp only
      split
      · exact raisesNoApiError_ok _
      · rename_i exc _ hexc
        split
        · exact raisesNoApiError_ok _
        · exact raisesNoApiError_error (hcompared exc hexc)
      · exact raisesNoApiError_ok _

variable [Packaging]

theorem raisesNoApiError_semverCompare
    (hparse : ∀ text, RaisesNoApiError (Packaging.parse text))
    (operation : Packaging.Version → Packaging.Version → Bool) (actual : Option Json)
    (expected : Json) : RaisesNoApiError (semverCompare operation actual expected) := by
  unfold semverCompare
  split
  · rename_i a e _ _
    have hcompared : RaisesNoApiError (do
        let left ← Packaging.parse a
        let right ← Packaging.parse e
        pure (operation left right)) :=
      (hparse a).bind (fun _ => (hparse e).bind (fun _ => raisesNoApiError_ok _))
    dsimp only
    split
    · exact raisesNoApiError_ok _
    · exact hcompared
  · exact raisesNoApiError_ok _

/-- **No operator raises an error of the service's own.** -/
theorem raisesNoApiError_conditionMatches
    (hparse : ∀ text, RaisesNoApiError (Packaging.parse text)) (operator : String)
    (actual : Option Json) (expected : Json) :
    RaisesNoApiError (conditionMatches operator actual expected) := by
  have hmember : RaisesNoApiError (isMember actual expected) := by
    unfold isMember
    split
    · exact raisesNoApiError_ok _
    · split
      · exact raisesNoApiError_isIn _ _
      · exact raisesNoApiError_ok _
  have hnotMember : RaisesNoApiError (isNotMember actual expected) := by
    unfold isNotMember
    split
    · exact raisesNoApiError_ok _
    · split
      · exact (raisesNoApiError_isIn _ _).map _
      · exact raisesNoApiError_ok _
  have hcontains : RaisesNoApiError (contains actual expected) := by
    unfold contains
    split
    · exact raisesNoApiError_ok _
    · split
      · exact raisesNoApiError_isIn _ _
      · exact raisesNoApiError_ok _
  have hothers : RaisesNoApiError (equals actual expected)
      ∧ RaisesNoApiError (notEquals actual expected)
      ∧ RaisesNoApiError (startsWith actual expected)
      ∧ RaisesNoApiError (endsWith actual expected) := by
    refine ⟨?_, ?_, ?_, ?_⟩
    · unfold equals
      split <;> exact raisesNoApiError_ok _
    · unfold notEquals
      split <;> exact raisesNoApiError_ok _
    · unfold startsWith
      split <;> exact raisesNoApiError_ok _
    · unfold endsWith
      split <;> exact raisesNoApiError_ok _
  obtain ⟨hequals, hnotEquals, hstarts, hends⟩ := hothers
  have hnumeric := fun operation => raisesNoApiError_numericCompare operation actual expected
  have hsemver := fun operation => raisesNoApiError_semverCompare hparse operation actual expected
  have hall : ∀ entry ∈ operators, RaisesNoApiError (entry.2 actual expected) := by
    simp only [operators, List.forall_mem_cons, hequals, hnotEquals, hmember, hnotMember, hcontains,
      hstarts, hends, hnumeric, hsemver, pyExists, notExists, raisesNoApiError_ok,
      List.not_mem_nil, false_imp_iff, implies_true, and_self]
  unfold conditionMatches
  cases ho : operators.lookup operator with
  | none => exact raisesNoApiError_error rfl
  | some operation => exact hall _ (mem_of_lookup_eq_some ho)

theorem raisesNoApiError_conditionsHold
    (hparse : ∀ text, RaisesNoApiError (Packaging.parse text)) (context : EvaluationContext)
    (conditions : List Condition) : RaisesNoApiError (conditionsHold context conditions) := by
  induction conditions with
  | nil => exact raisesNoApiError_ok _
  | cons condition rest ih =>
    refine (raisesNoApiError_conditionMatches hparse _ _ _).bind (fun holds => ?_)
    cases holds with
    | true => exact ih
    | false => exact raisesNoApiError_ok _

omit [Packaging] in
theorem raisesNoApiError_getBucket (config : FlagConfiguration) (context : EvaluationContext) :
    RaisesNoApiError (getBucket config context) := by
  have hprefixed : ∀ part, RaisesNoApiError (lengthPrefixed part) := by
    intro part
    refine RaisesNoApiError.bind ?_ (fun _ => raisesNoApiError_ok _)
    unfold toBytesBig4
    split
    · exact raisesNoApiError_ok _
    · exact raisesNoApiError_error rfl
  refine RaisesNoApiError.bind ?_ (fun _ => raisesNoApiError_ok _)
  exact (raisesNoApiError_mapM hprefixed _).bind (fun _ => raisesNoApiError_ok _)

omit [Packaging] in
theorem raisesNoApiError_rolloutVariation (rollout : List RolloutAllocation) (bucket : ℕ) :
    RaisesNoApiError (rolloutVariation rollout bucket) := by
  induction rollout with
  | nil => exact raisesNoApiError_error rfl
  | cons allocation rest ih =>
    unfold rolloutVariation
    split
    · exact raisesNoApiError_ok _
    · exact ih

omit [Packaging] in
theorem raisesNoApiError_progressiveVariation (stages : List ProgressiveStage) (bucket : ℕ)
    (now : Instant) : RaisesNoApiError (progressiveVariation stages bucket now) := by
  unfold progressiveVariation
  dsimp only
  split
  · split
    · exact raisesNoApiError_ok _
    · exact raisesNoApiError_error rfl
  · split
    · exact raisesNoApiError_ok _
    · exact raisesNoApiError_ok _

end Raising

/-! ## The exits of the engine -/

section Exits

variable [Packaging] {config : FlagConfiguration} {context : EvaluationContext} {now : Instant}
  {P : Except PyError EvaluationResult → Prop}

omit [Packaging] in
/-- A bucket, a variation for it, and the result. -/
theorem exits_bucketed
    (hresult : ∀ variation reason matchedRule,
      P (evaluationResult config variation reason matchedRule now))
    (hraised : ∀ exc, exc.isApiError = false → P (.error exc))
    {select : ℕ → Except PyError String} (hselect : ∀ bucket, RaisesNoApiError (select bucket))
    (reason : Reason) (matchedRule : Option String) :
    P (getBucket config context >>= fun bucket => select bucket >>= fun variation =>
      evaluationResult config variation reason matchedRule now) := by
  cases hbucket : getBucket config context with
  | error exc => exact hraised exc (raisesNoApiError_getBucket config context exc hbucket)
  | ok bucket =>
    show P (select bucket >>= fun variation =>
      evaluationResult config variation reason matchedRule now)
    cases hvariation : select bucket with
    | error exc => exact hraised exc (hselect bucket exc hvariation)
    | ok variation => exact hresult variation reason matchedRule

/-- **How an evaluation ends**: with the value stored for some variation, with what a
condition raised, or with an exception that is none of the service's own. -/
theorem exits_evaluateFlag
    (hresult : ∀ variation reason matchedRule,
      P (evaluationResult config variation reason matchedRule now))
    (hraised : ∀ exc, exc.isApiError = false → P (.error exc))
    (hconditions : ∀ conditions exc, conditionsHold context conditions = .error exc →
      P (.error exc)) :
    P (evaluateFlag config context now) := by
  have hprogressive := fun stages bucket => raisesNoApiError_progressiveVariation stages bucket now
  have hflag : P (flagAction config context now) := by
    unfold flagAction
    split
    · exact exits_bucketed hresult hraised (hprogressive _) _ _
    · split
      · exact exits_bucketed hresult hraised (raisesNoApiError_rolloutVariation _) _ _
      · exact hresult _ _ _
  have hrule : ∀ rule, P (ruleAction config context now rule) := by
    intro rule
    unfold ruleAction
    split
    · exact hresult _ _ _
    · split
      · exact exits_bucketed hresult hraised (hprogressive _) _ _
      · exact exits_bucketed hresult hraised (raisesNoApiError_rolloutVariation _) _ _
  have hrules : ∀ rules, P (evaluateRules config context now rules) := by
    intro rules
    induction rules with
    | nil => exact hflag
    | cons rule rest ih =>
      show P (conditionsHold context rule.conditions >>= fun holds => _)
      cases hholds : conditionsHold context rule.conditions with
      | error exc => exact hconditions _ exc hholds
      | ok holds =>
        cases holds with
        | true => exact hrule rule
        | false => exact ih
  unfold evaluateFlag
  split
  · exact hresult _ _ _
  · exact hrules _

/-- **Evaluation raises no error of the service's own**, if the parser of versions does not. -/
theorem raisesNoApiError_evaluateFlag
    (hparse : ∀ text, RaisesNoApiError (Packaging.parse text)) (config : FlagConfiguration)
    (context : EvaluationContext) (now : Instant) :
    RaisesNoApiError (evaluateFlag config context now) := by
  refine exits_evaluateFlag (fun variation reason matchedRule => ?_)
    (fun _ hexc => raisesNoApiError_error hexc)
    (fun conditions exc hexc =>
      raisesNoApiError_error (raisesNoApiError_conditionsHold hparse context conditions exc hexc))
  unfold evaluationResult
  split
  · exact raisesNoApiError_ok _
  · exact raisesNoApiError_error rfl

/-- **Whatever evaluation returns** is a variation of the configuration, of the flag's type. -/
theorem sound_of_evaluateFlag {result : EvaluationResult}
    (h : evaluateFlag config context now = .ok result) : SoundResult config result := by
  revert h
  refine exits_evaluateFlag (P := fun outcome => outcome = .ok result → SoundResult config result)
    (fun variation reason matchedRule h => ?_) (fun _ _ h => by cases h) (fun _ _ _ h => by cases h)
  unfold evaluationResult at h
  split at h
  · rename_i value hvalue
    cases h
    exact ⟨hvalue, config.valid.typed _ (Dict.mem_items_iff.mpr hvalue)⟩
  · cases h

end Exits

/-! ## What a load gives -/

section Loads

/-- **A configuration with the version of a committed row**: in a state that the service
came from, the main SELECT for the address finds a row with the number it carries. Its
variations and rules need not all be of that version, since other SELECTs read them and a
writer may commit in between. -/
def HasCommittedVersion (w : CachedService) (address : ConfigAddress) (c : FlagConfiguration) :
    Prop :=
  ∃ (s : Database) (row : FlagConfigRow) (flag : FeatureFlagRow), (∃ log, History s log)
    ∧ s.Evolves [] w.server.committed
    ∧ s.FindsVersion address.projectId address.environmentId address.flagKey c row flag

/-- **What loads gave** in a run: a request that was made ended with it. -/
def Gave (w : CachedService) (request : LoadRequest)
    (result : Except PyError (List (ConfigAddress × FlagConfiguration))) : Prop :=
  ∃ load ∈ w.loads, load.request = request ∧ load.phase.result? = some result

variable {ttl : ℕ} {actions : List CachedAction} {w : CachedService}
  (hrun : (configCache ttl).run service (.start initial) actions = some w)
include hrun

/-- **Where the result of a load comes from.** -/
theorem sources_of_gave {request : LoadRequest}
    {found : List (ConfigAddress × FlagConfiguration)} (h : Gave w request (.ok found)) :
    ∃ sources : List (CacheAside.Source Database Row Choice ConfigAddress FlagConfiguration),
      found = sources.map (fun source => (source.label, source.value))
        ∧ CacheAside.Complete (configCache ttl) request sources
        ∧ ∀ source ∈ sources, HasCommittedVersion w source.label source.value := by
  obtain ⟨load, hload, rfl, hresult⟩ := h
  have hgood := CacheAside.good_of_run (configCache_sound ttl)
    (CacheAside.CacheWorld.good_start good_initial) hrun
  have hok := hgood.loads load hload
  cases hphase : load.phase with
  | storing sources todo =>
    rw [hphase] at hok hresult
    cases todo with
    | cons s todo => cases hresult
    | nil =>
      cases hresult
      obtain ⟨hsources, -, hcomplete⟩ := hok
      refine ⟨sources, rfl, hcomplete, fun source hsource => ?_⟩
      obtain ⟨request, misses, loaded, hmem, hread⟩ := (hsources source hsource).read
      obtain ⟨v, hv, row, flag, hfinds⟩ := findsVersion_of_read hread hmem
      obtain ⟨hhistory, hevolves⟩ := (hsources source hsource).reading.states v hv
      exact ⟨v.state, row, flag, hhistory, hevolves, hfinds⟩
  | failed e r =>
    rw [hphase] at hresult
    cases hresult
  | asked =>
    rw [hphase] at hresult
    cases hresult
  | reading sources prog r =>
    rw [hphase] at hresult
    cases hresult

/-- **A single load** gives the configuration it was asked for. -/
theorem found_of_gave {projectId environmentId : UUID} {flagKey : String}
    {found : List (ConfigAddress × FlagConfiguration)}
    (h : Gave w (.configuration projectId environmentId flagKey) (.ok found)) :
    ∃ c, found = [(⟨projectId, environmentId, flagKey⟩, c)]
      ∧ HasCommittedVersion w ⟨projectId, environmentId, flagKey⟩ c := by
  obtain ⟨sources, rfl, hcomplete, hserved⟩ := sources_of_gave hrun h
  have hone : ∃ source : CacheAside.Source Database Row Choice ConfigAddress FlagConfiguration,
      sources = [source] ∧ source.label = ⟨projectId, environmentId, flagKey⟩ := by
    rcases hcomplete with hlabels | ⟨hits, misses, r, loaded, rfl, ⟨hlabels, hne⟩, hread⟩
    · obtain ⟨source, rfl, hlabel⟩ :=
        List.map_eq_singleton_iff.mp (List.perm_singleton.mp hlabels)
      exact ⟨source, rfl, hlabel⟩
    · have hmisses := List.perm_singleton.mp hlabels
      obtain ⟨rfl, -⟩ : hits = [] ∧ misses = [⟨projectId, environmentId, flagKey⟩] := by
        rcases List.append_eq_singleton_iff.mp hmisses with ⟨h, h'⟩ | ⟨-, h'⟩
        · exact ⟨List.map_eq_nil_iff.mp h, h'⟩
        · exact absurd h' hne
      rw [configCache_read, LoadRequest.read, Prog.observe_map] at hread
      obtain ⟨c, -, rfl⟩ := map_observe_eq_ok hread
      exact ⟨_, rfl, rfl⟩
  obtain ⟨source, rfl, hlabel⟩ := hone
  refine ⟨source.value, ?_, hlabel ▸ hserved source List.mem_cons_self⟩
  rw [← hlabel]
  rfl

/-- **A load for several flags** gives configurations of flags it was asked for. -/
theorem hasCommittedVersion_of_gave {projectId environmentId : UUID} {flagKeys : List String}
    {found : List (ConfigAddress × FlagConfiguration)}
    (h : Gave w (.configurations projectId environmentId flagKeys) (.ok found))
    {item : ConfigAddress × FlagConfiguration} (hitem : item ∈ found) :
    HasCommittedVersion w ⟨projectId, environmentId, item.1.flagKey⟩ item.2 := by
  obtain ⟨sources, hfound, -, hserved⟩ := sources_of_gave hrun h
  obtain ⟨load, hload, hrequest, hresult⟩ := h
  obtain ⟨haddress, -⟩ := findsVersion_of_result hrun hload hresult hitem
  rw [hrequest] at haddress
  obtain ⟨flagKey, -, hlabel⟩ := List.mem_map.mp haddress
  rw [hfound] at hitem
  obtain ⟨source, hsource, rfl⟩ := List.mem_map.mp hitem
  have hwas := hserved source hsource
  have hself : source.label = ⟨projectId, environmentId, source.label.flagKey⟩ := by
    rw [← show _ = source.label from hlabel]
  rwa [hself] at hwas

end Loads

/-! ## What can be sent -/

/-- What is not the service's own can be sent. -/
theorem sendable_of_isApiError {exc : PyError} (h : exc.isApiError = false) : exc.Sendable := by
  cases exc with
  | apiError => cases h
  | _ => trivial

/-- Errors without details, as most are. -/
theorem sendable_apiError {status : ℕ} {code message : String}
    (h : 400 ≤ status ∧ status ≤ 599) : (PyError.apiError status code message []).Sendable :=
  ⟨h.1, h.2, fun _ hitem => absurd hitem List.not_mem_nil⟩

/-- What a program raises. -/
theorem Prog.EndsIn.of_observe {V W R ε α : Type} {raised : ε → Prop} {returned : α → Prop}
    {m : Prog V W R ε α} (hm : m.EndsIn raised returned) {views : List V} {exc : ε}
    (h : m.observe views = some (.error exc)) : raised exc := by
  induction m generalizing views with
  | ret a => cases views <;> cases h
  | raise e =>
    cases views with
    | nil =>
      cases h
      exact hm
    | cons v views => cases h
  | statement locks writes next ih =>
    cases views with
    | nil => cases h
    | cons v views => exact ih v (hm v).2.2 h

/-- **What a load raises can be sent.** -/
theorem endsIn_read (request : LoadRequest) (misses : List ConfigAddress) :
    (request.read misses).EndsIn PyError.Sendable (fun _ => True) := by
  have hattempt : ∀ {α : Type} {x : Except PyError α}, RaisesNoApiError x →
      (Prog.attempt x : Tx α).EndsIn PyError.Sendable (fun _ => True) := by
    intro α x hx
    cases x with
    | ok a => exact trivial
    | error exc => exact sendable_of_isApiError (hx exc rfl)
  have hcollections : ∀ row flag environment, (loadCollections row flag environment).EndsIn
      PyError.Sendable (fun _ => True) :=
    fun _ _ _ _ => ⟨rfl, rfl, fun _ => ⟨rfl, rfl, fun _ => ⟨rfl, rfl, fun _ => ⟨rfl, rfl,
      fun _ => ⟨rfl, rfl, fun _ => ⟨rfl, rfl, fun _ => ⟨rfl, rfl, trivial⟩⟩⟩⟩⟩⟩⟩
  have hall : ∀ items, (loadAllCollections items).EndsIn PyError.Sendable (fun _ => True) :=
    fun _ _ => ⟨rfl, rfl, fun _ => ⟨rfl, rfl, fun _ => ⟨rfl, rfl, fun _ => ⟨rfl, rfl,
      fun _ => ⟨rfl, rfl, fun _ => ⟨rfl, rfl, fun _ => ⟨rfl, rfl, trivial⟩⟩⟩⟩⟩⟩⟩
  cases request with
  | configuration projectId environmentId flagKey =>
    have hread : (getConfigByKey projectId environmentId flagKey).EndsIn PyError.Sendable
        (fun _ => True) := by
      refine (endsIn_select _).bind (fun found _ => ?_)
      cases found with
      | none => exact sendable_apiError (by decide)
      | some found =>
        refine (hcollections _ _ _).bind (fun config _ => ?_)
        exact hattempt (raisesNoApiError_compileConfiguration config)
    exact hread.bind (fun _ _ => trivial)
  | configurations projectId environmentId flagKeys =>
    have hread : (getConfigsByKeys projectId environmentId
        (misses.map ConfigAddress.flagKey)).EndsIn PyError.Sendable (fun _ => True) := by
      have hselect : (selectAll (fun db : Database => db.configsOfKeys projectId environmentId
          (misses.map ConfigAddress.flagKey))).EndsIn PyError.Sendable (fun _ => True) :=
        Prog.endsIn_read (fun _ => trivial)
      refine hselect.bind (fun items _ => (hall items).bind (fun configs _ => ?_))
      refine hattempt (raisesNoApiError_mapM (fun config => ?_) configs)
      exact (raisesNoApiError_compileConfiguration config).map _
    exact hread.bind (fun _ _ => trivial)

/-- **What loads raised can be sent.** -/
theorem sendable_of_gave {ttl : ℕ} {actions : List CachedAction} {w : CachedService}
    (hrun : (configCache ttl).run service (.start initial) actions = some w)
    {request : LoadRequest} {exc : PyError} (h : Gave w request (.error exc)) : exc.Sendable := by
  obtain ⟨load, hload, rfl, hresult⟩ := h
  have hgood := CacheAside.good_of_run (configCache_sound ttl)
    (CacheAside.CacheWorld.good_start good_initial) hrun
  have hok := hgood.loads load hload
  cases hphase : load.phase with
  | storing sources todo =>
    rw [hphase] at hresult
    cases todo <;> cases hresult
  | failed e r =>
    rw [hphase] at hok hresult
    cases hresult
    obtain ⟨-, misses, hread⟩ := hok
    exact (endsIn_read load.request misses).of_observe hread
  | asked =>
    rw [hphase] at hresult
    cases hresult
  | reading sources prog r =>
    rw [hphase] at hresult
    cases hresult

/-! ## The requests -/

/-- A dictionary is read as it was sent. -/
theorem readDict_items (attributes : Dict Json) :
    readDict (.obj attributes.items) = .ok attributes :=
  congrArg Except.ok (Dict.ext (Dict.items_ofPairs attributes.nodup))

/-- What the endpoint makes of the body the client sends. -/
theorem modelValidate_body {call : EvaluateCall}
    (h : 1 ≤ call.subjectKey.length ∧ call.subjectKey.length ≤ 500) :
    EvaluationRequest.modelValidate call.body
      = .ok ⟨call.flagKey, call.subjectKey, call.attributes.getD .empty, h⟩ := by
  refine bind_eq_ok.mpr ⟨_, rfl, bind_eq_ok.mpr ⟨_, rfl, bind_eq_ok.mpr ⟨_, rfl, ?_⟩⟩⟩
  exact bind_eq_ok.mpr ⟨_, readDict_items _, dif_pos h⟩

/-- A subject key the endpoint refuses. -/
theorem modelValidate_body_eq_error {call : EvaluateCall}
    (h : ¬ (1 ≤ call.subjectKey.length ∧ call.subjectKey.length ≤ 500)) :
    ∃ exc, EvaluationRequest.modelValidate call.body = .error exc := by
  refine ⟨.validationError "subject_key length", ?_⟩
  show (readDict (.obj (call.attributes.getD .empty).items) >>= fun attributes => _) = _
  rw [readDict_items]
  exact dif_neg h

/-- The flags of a batch are read. -/
theorem readList_strs (flagKeys : List String) :
    (required [("flags", Json.arr (flagKeys.map Json.str))] "flags" >>= readList readStr)
      = .ok flagKeys := by
  have hstr : ∀ text, readStr (.str text) = .ok text := fun _ => rfl
  exact mapM_map_eq_ok hstr flagKeys

/-- What the endpoint makes of the body the client sends for several flags. -/
theorem modelValidate_batchBody {flagKeys : List String} {subjectKey : String}
    {attributes : Option (Dict Json)} (h : 1 ≤ subjectKey.length ∧ subjectKey.length ≤ 500)
    (hflags : 1 ≤ flagKeys.length ∧ flagKeys.length ≤ 100) :
    BatchEvaluationRequest.modelValidate (batchBody flagKeys subjectKey attributes)
      = .ok ⟨subjectKey, attributes.getD .empty, flagKeys, h, hflags⟩ := by
  refine bind_eq_ok.mpr ⟨_, rfl, bind_eq_ok.mpr ⟨_, rfl, ?_⟩⟩
  refine bind_eq_ok.mpr ⟨_, readDict_items _, ?_⟩
  refine bind_eq_ok.mpr ⟨flagKeys, readList_strs flagKeys, ?_⟩
  rw [dif_pos h, dif_pos hflags]
  rfl

/-- Bounds of a batch that the endpoint refuses. -/
theorem modelValidate_batchBody_eq_error {flagKeys : List String} {subjectKey : String}
    (attributes : Option (Dict Json))
    (h : ¬ ((1 ≤ subjectKey.length ∧ subjectKey.length ≤ 500)
      ∧ 1 ≤ flagKeys.length ∧ flagKeys.length ≤ 100)) :
    ∃ exc, BatchEvaluationRequest.modelValidate (batchBody flagKeys subjectKey attributes)
      = .error exc := by
  cases hread : BatchEvaluationRequest.modelValidate (batchBody flagKeys subjectKey attributes) with
  | error exc => exact ⟨exc, rfl⟩
  | ok payload =>
    obtain ⟨_, ⟨⟩, hread⟩ := bind_eq_ok.mp hread
    obtain ⟨_, ⟨⟩, hread⟩ := bind_eq_ok.mp hread
    obtain ⟨_, hattributes, hread⟩ := bind_eq_ok.mp hread
    obtain ⟨flags, hflags, hread⟩ := bind_eq_ok.mp hread
    cases Except.ok.inj (hflags.symm.trans (readList_strs flagKeys))
    split at hread
    · split at hread
      · rename_i hsubject hcount
        exact absurd ⟨hsubject, hcount⟩ h
      · cases hread
    · cases hread

/-! ## Several flags -/

section Batches

variable [Packaging] {loaded : List (ConfigAddress × FlagConfiguration)} {flagKeys : List String}
  {context : EvaluationContext} {clock : String → Instant}

/-- There is a result for each flag that was asked for. -/
theorem keys_of_evaluateLoaded {results : List (String × EvaluationResult)}
    (h : evaluateLoaded loaded flagKeys context clock = .ok results) :
    results.map Prod.fst = flagKeys := by
  unfold evaluateLoaded at h
  dsimp only at h
  split at h
  · cases h
  rename_i hknown
  have hall := mapM_eq_ok.mp h
  clear h hknown
  induction hall with
  | nil => rfl
  | cons hone _ ih =>
    rw [List.map_cons, ih]
    split at hone
    · cases hone
    · rename_i config _
      cases heval : evaluateFlag config context (clock _) with
      | error exc =>
        rw [heval] at hone
        cases hone
      | ok result =>
        rw [heval] at hone
        cases hone
        rfl

/-- What the evaluation of several flags raises can be sent. -/
theorem sendable_of_evaluateLoaded (hparse : ∀ text, RaisesNoApiError (Packaging.parse text))
    {exc : PyError} (h : evaluateLoaded loaded flagKeys context clock = .error exc) :
    exc.Sendable := by
  unfold evaluateLoaded at h
  dsimp only at h
  split at h
  · cases h
    refine ⟨by decide, by decide, fun item hitem => ?_⟩
    rw [List.mem_singleton.mp hitem]
    show "flags" ∉ payloadParameters
    decide
  · refine sendable_of_isApiError (raisesNoApiError_mapM (fun flagKey => ?_) _ exc h)
    split
    · exact raisesNoApiError_error rfl
    · exact (raisesNoApiError_evaluateFlag hparse _ _ _).map _

end Batches

/-! ## What is read -/

section Reading

variable {py : PyTexts Instant} {client : SdkClient (SdkResult Instant)} {call : EvaluateCall}
  {now : ℚ}

/-- `get_value` has the value of the result. -/
theorem getValue_of_ok {posted : Posted} {stored later : ℚ} {result : SdkResult Instant}
    (h : (client.evaluate py call posted now stored later).1 = .ok result) :
    (client.getValue py call posted now stored later).1 = .ok result.value := by
  unfold SdkClient.getValue
  split
  · rename_i result' client' heq
    rw [heq] at h
    cases h
    rfl
  · rename_i exc client' heq
    rw [heq] at h
    cases h

/-- `is_enabled` returns the value of the result, if it is a boolean. -/
theorem exists_isEnabled_iff {posted : Posted} {stored later : ℚ} {result : SdkResult Instant}
    (h : (client.evaluate py call posted now stored later).1 = .ok result) :
    (∃ enabled, (client.isEnabled py call posted now stored later).1 = .ok enabled)
      ↔ ∃ enabled, result.value = .bool enabled := by
  unfold SdkClient.isEnabled
  split
  · rename_i result' client' heq
    rw [heq] at h
    cases h
    split
    · rename_i enabled hvalue
      exact iff_of_true ⟨enabled, rfl⟩ ⟨enabled, hvalue⟩
    · rename_i hvalue
      exact iff_of_false (fun ⟨_, heq⟩ => by cases heq) (fun ⟨enabled, heq⟩ => hvalue enabled heq)
  · rename_i exc client' heq
    rw [heq] at h
    cases h

/-- A value of a flag is a boolean exactly if the flag is one of booleans. -/
theorem exists_bool_iff {flagType : FlagType} {value : Json} (h : hasType flagType value = true) :
    (∃ enabled, value = .bool enabled) ↔ flagType = .boolean := by
  constructor
  · rintro ⟨enabled, rfl⟩
    cases flagType <;> first | rfl | cases h
  · rintro rfl
    cases value with
    | bool enabled => exact ⟨enabled, rfl⟩
    | _ => cases h

/-- **What `evaluate_batch` of the client is given.** -/
theorem evaluateBatch_respond (hpy : py.Lawful) {requestId : Option String}
    {outcome : Except PyError (Dict EvaluationResult)}
    (h : ∀ exc, outcome = .error exc → exc.Sendable) :
    SdkClient.evaluateBatch py (.response (respond requestId dumpBatch outcome))
      = (outcome.map (fun results => results.items.map (fun item => (item.1, .of item.2)))).mapError
        SdkRaise.of := by
  unfold SdkClient.evaluateBatch
  rw [post_respond hpy h]
  cases outcome with
  | error exc => rfl
  | ok results =>
    show (results.items.map (fun item => (item.1, item.2.modelDump))).mapM (fun item =>
      (SdkResult.fromPayload py item.2).map (fun result => (item.1, result))) = _
    refine mapM_eq_ok.mpr ?_
    rw [List.forall₂_map_left_iff, List.forall₂_map_right_iff, List.forall₂_same]
    intro item _
    rw [fromPayload_modelDump hpy]
    rfl

variable (hpy : py.Lawful) (hmiss : client.cached call now = none)
include hmiss

/-- A call that the client's cache does not answer. -/
theorem evaluate_of_miss (posted : Posted) (stored later : ℚ) :
    (client.evaluate py call posted now stored later).1
      = post py posted >>= SdkResult.fromPayload py := by
  unfold SdkClient.evaluate
  rw [hmiss]
  dsimp only
  split
  · rename_i result hresult
    exact hresult.symm
  · rename_i exc hexc
    exact hexc.symm

include hpy

/-- **What a method of the client is given.** -/
theorem evaluate_respond {requestId : Option String} {outcome : Except PyError EvaluationResult}
    (h : ∀ exc, outcome = .error exc → exc.Sendable) (stored later : ℚ) :
    (client.evaluate py call (.response (respond requestId EvaluationResult.modelDump outcome)) now
        stored later).1
      = (outcome.map SdkResult.of).mapError SdkRaise.of := by
  rw [evaluate_of_miss hmiss, post_respond hpy h]
  cases outcome with
  | error exc => rfl
  | ok result => exact fromPayload_modelDump hpy result

end Reading

/-! ## From the caller and back -/

section Calls

variable [Packaging] (hparse : ∀ text, RaisesNoApiError (Packaging.parse text))
  {ttl : ℕ} {actions : List CachedAction} {w : CachedService}
  (hrun : (configCache ttl).run service (.start initial) actions = some w)
  {principal : Principal}
  {load : LoadRequest → Except PyError (List (ConfigAddress × FlagConfiguration))}

omit [Packaging] in
/-- A scope that is refused can be sent. -/
theorem sendable_keyScope {scope : String} {exc : PyError}
    (h : keyScope principal scope = .error exc) : exc.Sendable := by
  unfold keyScope at h
  cases hscope : requireApiScope principal scope with
  | error e =>
    rw [hscope] at h
    cases h
    unfold requireApiScope raiseIf at hscope
    split at hscope
    · cases hscope
      exact sendable_apiError (by decide)
    · cases hscope
  | ok u =>
    rw [hscope] at h
    dsimp only [bind, Except.bind] at h
    split at h
    · cases h
    · cases h
      exact sendable_apiError (by decide)

include hparse hrun

/-- **What `evaluate` comes to**: an exception that can be sent, or what the engine makes
of a configuration with the version of a committed row of the principal's environment. -/
theorem evaluated_cases (payload : EvaluationRequest) (now : Instant)
    (hload : ∀ ids, keyScope principal "evaluate" = .ok ids →
      Gave w (.configuration ids.1 ids.2 payload.flagKey)
        (load (.configuration ids.1 ids.2 payload.flagKey))) :
    (∃ exc, evaluated principal load payload now = .error exc ∧ exc.Sendable)
      ∨ ∃ ids c result, keyScope principal "evaluate" = .ok ids
        ∧ load (.configuration ids.1 ids.2 payload.flagKey)
          = .ok [(⟨ids.1, ids.2, payload.flagKey⟩, c)]
        ∧ HasCommittedVersion w ⟨ids.1, ids.2, payload.flagKey⟩ c
        ∧ evaluateFlag c ⟨payload.subjectKey, payload.attributes⟩ now = .ok result
        ∧ evaluated principal load payload now = .ok result := by
  have hevaluated : evaluated principal load payload now = (keyScope principal "evaluate" >>=
      fun ids => load (.configuration ids.1 ids.2 payload.flagKey) >>= fun loaded =>
        evaluateConfig loaded payload now) := by
    unfold evaluated evaluate
    cases keyScope principal "evaluate" <;> rfl
  rw [hevaluated]
  cases hscope : keyScope principal "evaluate" with
  | error exc => exact Or.inl ⟨exc, rfl, sendable_keyScope hscope⟩
  | ok ids =>
    have hgave := hload ids hscope
    show (∃ exc, (load _ >>= fun loaded => evaluateConfig loaded payload now) = .error exc ∧ _) ∨ _
    cases hfound : load (.configuration ids.1 ids.2 payload.flagKey) with
    | error exc =>
      rw [hfound] at hgave
      exact Or.inl ⟨exc, rfl, sendable_of_gave hrun hgave⟩
    | ok found =>
      rw [hfound] at hgave
      obtain ⟨c, rfl, hserved⟩ := found_of_gave hrun hgave
      cases hresult : evaluateFlag c ⟨payload.subjectKey, payload.attributes⟩ now with
      | error exc =>
        refine Or.inl ⟨exc, hresult, sendable_of_isApiError ?_⟩
        exact raisesNoApiError_evaluateFlag hparse c _ now exc hresult
      | ok result =>
        refine Or.inr ⟨ids, c, result, rfl, hfound, hserved, hresult, ?_⟩
        show (load _ >>= fun loaded => evaluateConfig loaded payload now) = _
        rw [hfound]
        exact hresult

/-- **Decisions arrive.** In any run of the service with its cache, a call of the client that
its own cache does not answer ends with what the endpoint decided. If it returns, then with
the engine's decision for the caller's subject and attributes and for a configuration with
the version of a committed row of the principal's environment, and `is_enabled` has a boolean
to return exactly if the flag is one of booleans; if it raises, the exception has the status,
the code and the message of the server's. -/
theorem evaluate_arrives {py : PyTexts Instant} (hpy : py.Lawful) {call : EvaluateCall}
    (hload : ∀ ids, keyScope principal "evaluate" = .ok ids →
      Gave w (.configuration ids.1 ids.2 call.flagKey)
        (load (.configuration ids.1 ids.2 call.flagKey)))
    {client : SdkClient (SdkResult Instant)} {now : ℚ} (hmiss : client.cached call now = none)
    (stored later : ℚ) (moment : Instant) {requestId : Option String} {safeErrors : List Json}
    {response : HttpResponse}
    (hresponse : response
      = evaluateResponse principal load requestId safeErrors moment call.body) :
    (¬ (1 ≤ call.subjectKey.length ∧ call.subjectKey.length ≤ 500) →
      (client.evaluate py call (.response response) now stored later).1 = .error .invalid)
    ∧ ∀ h : 1 ≤ call.subjectKey.length ∧ call.subjectKey.length ≤ 500,
      (∃ exc, evaluated principal load
          ⟨call.flagKey, call.subjectKey, call.attributes.getD .empty, h⟩ moment = .error exc
        ∧ (client.evaluate py call (.response response) now stored later).1 = .error (.of exc))
      ∨ ∃ ids c result, keyScope principal "evaluate" = .ok ids
        ∧ load (.configuration ids.1 ids.2 call.flagKey) = .ok [(⟨ids.1, ids.2, call.flagKey⟩, c)]
        ∧ HasCommittedVersion w ⟨ids.1, ids.2, call.flagKey⟩ c
        ∧ evaluateFlag c ⟨call.subjectKey, call.attributes.getD .empty⟩ moment = .ok result
        ∧ (client.evaluate py call (.response response) now stored later).1 = .ok (.of result)
        ∧ (client.getValue py call (.response response) now stored later).1 = .ok result.value
        ∧ ((∃ enabled, (client.isEnabled py call (.response response) now stored later).1
          = .ok enabled) ↔ c.flagType = .boolean) := by
  refine ⟨fun hinvalid => ?_, fun h => ?_⟩
  · obtain ⟨exc, hexc⟩ := modelValidate_body_eq_error hinvalid
    rw [evaluate_of_miss hmiss, hresponse, evaluateResponse, hexc]
    dsimp only
    rw [post_invalid hpy]
    rfl
  · -- whatever the endpoint decides is sent, and read as it was
    have harrives : ∀ outcome, evaluated principal load
          ⟨call.flagKey, call.subjectKey, call.attributes.getD .empty, h⟩ moment = outcome →
        (∀ exc, outcome = .error exc → exc.Sendable) →
        (client.evaluate py call (.response response) now stored later).1
          = (outcome.map SdkResult.of).mapError SdkRaise.of := by
      intro outcome houtcome hsendable
      rw [hresponse, evaluateResponse, modelValidate_body h]
      dsimp only
      rw [houtcome]
      exact evaluate_respond hpy hmiss hsendable stored later
    rcases evaluated_cases hparse hrun
        ⟨call.flagKey, call.subjectKey, call.attributes.getD .empty, h⟩ moment hload with
      ⟨exc, hexc, hsendable⟩
      | ⟨ids, c, result, hscope, hfound, hserved, hresult, hdecided⟩
    · refine Or.inl ⟨exc, hexc, harrives _ hexc (fun exc' heq => ?_)⟩
      rwa [← Except.error.inj heq]
    · have hreturned := harrives _ hdecided (fun exc heq => by cases heq)
      refine Or.inr ⟨ids, c, result, hscope, hfound, hserved, hresult, hreturned,
        getValue_of_ok hreturned, ?_⟩
      rw [exists_isEnabled_iff hreturned]
      exact exists_bool_iff (sound_of_evaluateFlag hresult).2

/-- **What `evaluate_batch` comes to**: an exception that can be sent, or a decision of the
engine for each flag that was asked for. -/
theorem evaluatedBatch_cases (payload : BatchEvaluationRequest) (clock : String → Instant)
    (hload : ∀ ids, keyScope principal "evaluate" = .ok ids →
      Gave w (.configurations ids.1 ids.2 payload.flags)
        (load (.configurations ids.1 ids.2 payload.flags))) :
    (∃ exc, evaluatedBatch principal load payload clock = .error exc ∧ exc.Sendable)
      ∨ ∃ ids results, keyScope principal "evaluate" = .ok ids
        ∧ evaluatedBatch principal load payload clock = .ok results
        ∧ (∀ flagKey, flagKey ∈ results.keys ↔ flagKey ∈ payload.flags)
        ∧ ∀ item ∈ results.items, ∃ c, HasCommittedVersion w ⟨ids.1, ids.2, item.1⟩ c
          ∧ evaluateFlag c ⟨payload.subjectKey, payload.attributes⟩ (clock item.1)
            = .ok item.2 := by
  have hevaluated : evaluatedBatch principal load payload clock = (keyScope principal "evaluate" >>=
      fun ids => load (.configurations ids.1 ids.2 payload.flags) >>= fun loaded =>
        evaluateLoaded loaded payload.flags ⟨payload.subjectKey, payload.attributes⟩ clock >>=
          fun results => pure (.ofPairs results)) := by
    unfold evaluatedBatch evaluateBatch
    cases keyScope principal "evaluate" <;> rfl
  rw [hevaluated]
  cases hscope : keyScope principal "evaluate" with
  | error exc => exact Or.inl ⟨exc, rfl, sendable_keyScope hscope⟩
  | ok ids =>
    have hgave := hload ids hscope
    show (∃ exc, (load _ >>= fun loaded => _) = .error exc ∧ _)
      ∨ ∃ _ _, _ ∧ (load _ >>= fun loaded => _) = .ok _ ∧ _
    cases hfound : load (.configurations ids.1 ids.2 payload.flags) with
    | error exc =>
      rw [hfound] at hgave
      exact Or.inl ⟨exc, rfl, sendable_of_gave hrun hgave⟩
    | ok found =>
      rw [hfound] at hgave
      cases hresults : evaluateLoaded found payload.flags ⟨payload.subjectKey, payload.attributes⟩
          clock with
      | error exc =>
        refine Or.inl ⟨exc, ?_, sendable_of_evaluateLoaded hparse hresults⟩
        show (evaluateLoaded found _ _ _ >>= fun results => _) = _
        rw [hresults]
        rfl
      | ok pairs =>
        refine Or.inr ⟨ids, .ofPairs pairs, rfl, ?_, fun flagKey => ?_, fun item hitem => ?_⟩
        · show (evaluateLoaded found _ _ _ >>= fun results => _) = _
          rw [hresults]
          rfl
        · rw [Dict.mem_keys_ofPairs, keys_of_evaluateLoaded hresults]
        · obtain ⟨loaded, hloaded, hkey, hresult⟩ :=
            exists_config_of_evaluateLoaded hresults (Dict.mem_of_mem_ofPairs hitem)
          exact ⟨loaded.2, hkey ▸ hasCommittedVersion_of_gave hrun hgave hloaded, hresult⟩

/-- **Batches arrive.** In any run of the service with its cache, `evaluate_batch` of the
client ends with what the endpoint decided. If it returns, there is a result for each flag
that was asked for and for no other, the engine's decision for the caller's subject and
attributes and for a configuration with the version of a committed row of the principal's
environment; if it raises, the exception has the status, the code and the message of the
server's. -/
theorem batch_arrives {py : PyTexts Instant} (hpy : py.Lawful) {flagKeys : List String}
    {subjectKey : String} {attributes : Option (Dict Json)}
    (hload : ∀ ids, keyScope principal "evaluate" = .ok ids →
      Gave w (.configurations ids.1 ids.2 flagKeys)
        (load (.configurations ids.1 ids.2 flagKeys)))
    (clock : String → Instant) {requestId : Option String} {safeErrors : List Json}
    {response : HttpResponse}
    (hresponse : response = batchResponse principal load requestId safeErrors clock
      (batchBody flagKeys subjectKey attributes)) :
    (¬ ((1 ≤ subjectKey.length ∧ subjectKey.length ≤ 500)
        ∧ 1 ≤ flagKeys.length ∧ flagKeys.length ≤ 100) →
      SdkClient.evaluateBatch py (.response response) = .error .invalid)
    ∧ ∀ (h : 1 ≤ subjectKey.length ∧ subjectKey.length ≤ 500)
      (hflags : 1 ≤ flagKeys.length ∧ flagKeys.length ≤ 100),
      (∃ exc, evaluatedBatch principal load
          ⟨subjectKey, attributes.getD .empty, flagKeys, h, hflags⟩ clock = .error exc
        ∧ SdkClient.evaluateBatch py (.response response) = .error (.of exc))
      ∨ ∃ ids results, keyScope principal "evaluate" = .ok ids
        ∧ evaluatedBatch principal load ⟨subjectKey, attributes.getD .empty, flagKeys, h, hflags⟩
          clock = .ok results
        ∧ SdkClient.evaluateBatch py (.response response)
          = .ok (results.items.map (fun item => (item.1, .of item.2)))
        ∧ (∀ flagKey, flagKey ∈ results.keys ↔ flagKey ∈ flagKeys)
        ∧ ∀ item ∈ results.items, ∃ c, HasCommittedVersion w ⟨ids.1, ids.2, item.1⟩ c
          ∧ evaluateFlag c ⟨subjectKey, attributes.getD .empty⟩ (clock item.1) = .ok item.2 := by
  refine ⟨fun hinvalid => ?_, fun h hflags => ?_⟩
  · obtain ⟨exc, hexc⟩ := modelValidate_batchBody_eq_error attributes hinvalid
    unfold SdkClient.evaluateBatch
    rw [hresponse, batchResponse, hexc]
    dsimp only
    rw [post_invalid hpy]
    rfl
  · -- whatever the endpoint decides is sent, and read as it was
    have harrives : ∀ outcome, evaluatedBatch principal load
          ⟨subjectKey, attributes.getD .empty, flagKeys, h, hflags⟩ clock = outcome →
        (∀ exc, outcome = .error exc → exc.Sendable) →
        SdkClient.evaluateBatch py (.response response)
          = (outcome.map (fun results => results.items.map (fun item =>
            (item.1, SdkResult.of item.2)))).mapError SdkRaise.of := by
      intro outcome houtcome hsendable
      rw [hresponse, batchResponse, modelValidate_batchBody h hflags]
      dsimp only
      rw [houtcome]
      exact evaluateBatch_respond hpy hsendable
    rcases evaluatedBatch_cases hparse hrun
        ⟨subjectKey, attributes.getD .empty, flagKeys, h, hflags⟩ clock hload with
      ⟨exc, hexc, hsendable⟩
      | ⟨ids, results, hscope, hdecided, hkeys, hdecisions⟩
    · refine Or.inl ⟨exc, hexc, harrives _ hexc (fun exc' heq => ?_)⟩
      rwa [← Except.error.inj heq]
    · exact Or.inr ⟨ids, results, hscope, hdecided,
        harrives _ hdecided (fun exc heq => by cases heq), hkeys, hdecisions⟩

end Calls

/-! ## A caller of the sample flag -/

/-- The texts of the values that are sent. -/
def sentTexts : PyTexts Instant where
  str := pyStr
  repr text := "'" ++ text ++ "'"
  fromisoformat := fromisoformat

/-- They are as the language has them. -/
theorem lawful_sentTexts : sentTexts.Lawful where
  str_str _ := rfl
  fromisoformat_isoformat t := by
    have hself : sentTexts.fromisoformat = fromisoformat := rfl
    rw [hself, fromisoformat_isoformat]

/-- A key of the sample environment that may evaluate. -/
def samplePrincipal : Principal := ⟨none, some ⟨60⟩, "SDK", some ⟨10⟩, some ⟨20⟩, some ⟨30⟩,
  ["evaluate"]⟩

theorem keyScope_samplePrincipal {ids : UUID × UUID}
    (h : keyScope samplePrincipal "evaluate" = .ok ids) : ids = (⟨20⟩, ⟨30⟩) :=
  (Except.ok.inj (h.symm.trans rfl))

theorem keyed_no_attributes (given : Dict Json) (h : given ∈ (none : Option (Dict Json))) :
    Json.WellKeyed (.obj given.items) :=
  absurd h (Option.not_mem_none given)

def sampleCall : EvaluateCall := ⟨"banner", "user_42", none, keyed_no_attributes⟩

/-- What was found is a flag of booleans, and the sample subject gets a value of it. -/
def sampleServes (found : List (ConfigAddress × FlagConfiguration)) : Bool :=
  found.all (fun item => decide (item.2.flagType = .boolean)
    && (@evaluateFlag .refusing item.2 ⟨"user_42", .empty⟩ 0).toOption.isSome)

theorem evaluate_arrives_sample : ∃ w found c enabled,
    (configCache 60).run service (.start initial) (served sampleFlag ++ sampleMiss 0 ++ [.set 0])
      = some w
    ∧ Gave w (.configuration ⟨20⟩ ⟨30⟩ "banner") (.ok found) ∧ found = [(sampleAddress, c)]
    ∧ ((SdkClient.create 0).isEnabled sentTexts sampleCall
      (.response (@evaluateResponse .refusing samplePrincipal (fun _ => .ok found) (some "id") [] 0
        sampleCall.body)) 0 0 0).1 = .ok enabled := by
  have hfacts : ((configCache 60).run service (.start initial)
      (served sampleFlag ++ sampleMiss 0 ++ [.set 0])).any (fun w =>
        w.loads[0]?.any (fun load =>
          decide (load.request = .configuration ⟨20⟩ ⟨30⟩ "banner")
          && load.phase.result?.any (fun result => result.toOption.any sampleServes))) = true := by
    decide +kernel
  obtain ⟨w, hrun, hfacts⟩ := (Option.any_eq_true _ _).mp hfacts
  obtain ⟨load, hload, hfacts⟩ := (Option.any_eq_true _ _).mp hfacts
  obtain ⟨hrequest, hfacts⟩ := Bool.and_eq_true_iff.mp hfacts
  obtain ⟨result, hresult, hfacts⟩ := (Option.any_eq_true _ _).mp hfacts
  obtain ⟨found, hfound, hserves⟩ := (Option.any_eq_true _ _).mp hfacts
  cases eq_ok_of_toOption hfound
  have hgave : Gave w (.configuration ⟨20⟩ ⟨30⟩ "banner") (.ok found) :=
    ⟨load, List.mem_of_getElem? hload, of_decide_eq_true hrequest, hresult⟩
  obtain ⟨c, rfl, -⟩ := found_of_gave hrun hgave
  obtain ⟨htype, hreturns⟩ :=
    Bool.and_eq_true_iff.mp (List.all_eq_true.mp hserves _ List.mem_cons_self)
  obtain ⟨decided, hdecided⟩ := Option.isSome_iff_exists.mp hreturns
  have hcall : 1 ≤ sampleCall.subjectKey.length ∧ sampleCall.subjectKey.length ≤ 500 := by decide
  have hkept : @evaluated .refusing samplePrincipal (fun _ => .ok [(sampleAddress, c)])
      ⟨"banner", "user_42", .empty, hcall⟩ 0 = .ok decided :=
    eq_ok_of_toOption hdecided
  rcases (@evaluate_arrives .refusing (fun _ => raisesNoApiError_error rfl) _ _ _ hrun
      samplePrincipal (fun _ => .ok [(sampleAddress, c)]) _ lawful_sentTexts sampleCall
      (fun ids hids => keyScope_samplePrincipal hids ▸ hgave) (.create 0) 0 rfl 0 0 0 (some "id") []
      _ rfl).2 hcall with ⟨exc, hexc, -⟩ | ⟨ids, c', result, -, hloaded, -, -, -, -, henabled⟩
  · cases hexc.symm.trans hkept
  · have hsame : c = c' := congrArg Prod.snd (List.singleton_injective (Except.ok.inj hloaded))
    obtain ⟨enabled, henabled⟩ := henabled.mpr (hsame ▸ of_decide_eq_true htype)
    exact ⟨w, _, c, enabled, hrun, hgave, rfl, henabled⟩

/-- A call of `load_configurations` for the sample flag, which is asked for twice. -/
def sampleBatch : List CachedAction :=
  [.load (.configurations ⟨20⟩ ⟨30⟩ ["banner", "banner"]), .get 0]
    ++ List.replicate 8 (.statement 0 (sampleChoice 0)) ++ [.set 0]

/-- What was found is evaluated for the sample subject. -/
def sampleResults (found : List (ConfigAddress × FlagConfiguration)) : Bool :=
  (@evaluateLoaded .refusing found ["banner", "banner"] ⟨"user_42", .empty⟩ (fun _ => 0)).toOption
    |>.isSome

theorem batch_arrives_sample : ∃ w found received, ∃ results : Dict EvaluationResult,
    (configCache 60).run service (.start initial) (served sampleFlag ++ sampleBatch) = some w
    ∧ Gave w (.configurations ⟨20⟩ ⟨30⟩ ["banner", "banner"]) (.ok found)
    ∧ SdkClient.evaluateBatch sentTexts (.response (@batchResponse .refusing samplePrincipal
      (fun _ => .ok found) (some "id") [] (fun _ => 0)
      (batchBody ["banner", "banner"] "user_42" none))) = .ok received
    ∧ received = results.items.map (fun item => (item.1, .of item.2))
    ∧ ∀ flagKey, flagKey ∈ results.keys ↔ flagKey ∈ ["banner", "banner"] := by
  have hfacts : ((configCache 60).run service (.start initial)
      (served sampleFlag ++ sampleBatch)).any (fun w => w.loads[0]?.any (fun load =>
        decide (load.request = .configurations ⟨20⟩ ⟨30⟩ ["banner", "banner"])
        && load.phase.result?.any (fun result => result.toOption.any sampleResults))) = true := by
    decide +kernel
  obtain ⟨w, hrun, hfacts⟩ := (Option.any_eq_true _ _).mp hfacts
  obtain ⟨load, hload, hfacts⟩ := (Option.any_eq_true _ _).mp hfacts
  obtain ⟨hrequest, hfacts⟩ := Bool.and_eq_true_iff.mp hfacts
  obtain ⟨result, hresult, hfacts⟩ := (Option.any_eq_true _ _).mp hfacts
  obtain ⟨found, hfound, hresults⟩ := (Option.any_eq_true _ _).mp hfacts
  cases eq_ok_of_toOption hfound
  have hgave : Gave w (.configurations ⟨20⟩ ⟨30⟩ ["banner", "banner"]) (.ok found) :=
    ⟨load, List.mem_of_getElem? hload, of_decide_eq_true hrequest, hresult⟩
  obtain ⟨pairs, hpairs⟩ := Option.isSome_iff_exists.mp hresults
  have hkept : @evaluatedBatch .refusing samplePrincipal (fun _ => .ok found)
      ⟨"user_42", .empty, ["banner", "banner"], by decide, by decide⟩ (fun _ => 0)
        = .ok (.ofPairs pairs) :=
    bind_eq_ok.mpr ⟨_, rfl, bind_eq_ok.mpr ⟨_, rfl,
      bind_eq_ok.mpr ⟨_, eq_ok_of_toOption hpairs, rfl⟩⟩⟩
  rcases (@batch_arrives .refusing (fun _ => raisesNoApiError_error rfl) _ _ _ hrun
      samplePrincipal (fun _ => .ok found) _ lawful_sentTexts ["banner", "banner"] "user_42" none
      (fun ids hids => keyScope_samplePrincipal hids ▸ hgave) (fun _ => 0) (some "id") [] _ rfl).2
      (by decide) (by decide) with ⟨exc, hexc, -⟩ | ⟨ids, results, -, -, hreceived, hkeys, -⟩
  · cases hexc.symm.trans hkept
  · exact ⟨w, found, _, results, hrun, hgave, hreceived, rfl, hkeys⟩

end CohortSwitch
