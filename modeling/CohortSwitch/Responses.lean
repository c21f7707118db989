import CohortSwitch.BatchLoading
import CohortSwitch.Documents
import CohortSwitch.Engine
import CohortSwitch.Evaluation
import CohortSwitch.SdkErrors

/-!
# Responses

What the evaluation endpoints send for what they return and for what they raise, and what
the SDK's client makes of it. A result is sent field by field, its moment as a text with a
`Z`; an exception is sent as an error with a code and a message, where the details of the
service's own errors are keyword arguments of the function that builds it.

What is read is what was sent: a result arrives with all of its fields
(`fromPayload_modelDump`), and an error with its status, its code and its message
(`raisedFor_raisedResponse`), as long as no detail goes by the name of a parameter.

A detail by the name of a parameter would be a second value for it and raise a `TypeError`
in the handler, so that something else is sent than what was raised. `Sendable` excludes
it, and a status that the client would not take for an error. That everything the
evaluation endpoints raise is sendable is for the endpoints to say (`Decisions`).
-/

namespace CohortSwitch

/-! ## Dictionaries from pairs -/

namespace Dict

variable {β : Type}

/-- An item after an assignment was there, or was assigned. -/
theorem mem_of_mem_assign {key : String} {value : β} {items : List (String × β)}
    {item : String × β} (h : item ∈ assign key value items) :
    item = (key, value) ∨ item ∈ items := by
  induction items with
  | nil => exact Or.inl (List.mem_singleton.mp h)
  | cons first rest ih =>
    unfold assign at h
    split at h
    · rename_i hkey
      rw [hkey] at h
      exact (List.mem_cons.mp h).imp_right (List.mem_cons_of_mem first)
    · rcases List.mem_cons.mp h with rfl | hrest
      · exact Or.inr List.mem_cons_self
      · exact (ih hrest).imp_right (List.mem_cons_of_mem first)

/-- An item of a dictionary is one of the pairs it was made from. -/
theorem mem_of_mem_ofPairs {pairs : List (String × β)} {item : String × β}
    (h : item ∈ (ofPairs pairs).items) : item ∈ pairs := by
  suffices hgen : ∀ (rest acc : List (String × β)),
      item ∈ rest.foldl (fun items pair => assign pair.1 pair.2 items) acc →
      item ∈ acc ∨ item ∈ rest from
    (hgen pairs [] h).resolve_left List.not_mem_nil
  intro rest
  induction rest with
  | nil => exact fun acc hacc => Or.inl hacc
  | cons pair rest ih =>
    intro acc hitem
    rcases ih _ hitem with hacc | hrest
    · rcases mem_of_mem_assign hacc with rfl | hold
      · exact Or.inr List.mem_cons_self
      · exact Or.inl hold
    · exact Or.inr (List.mem_cons_of_mem _ hrest)

/-- The keys of a dictionary are those of the pairs it was made from. -/
theorem mem_keys_ofPairs {pairs : List (String × β)} {key : String} :
    key ∈ (ofPairs pairs).keys ↔ key ∈ pairs.map Prod.fst := by
  suffices hgen : ∀ (rest acc : List (String × β)),
      key ∈ (rest.foldl (fun items pair => assign pair.1 pair.2 items) acc).map Prod.fst
        ↔ key ∈ acc.map Prod.fst ∨ key ∈ rest.map Prod.fst from
    (hgen pairs []).trans (or_iff_right List.not_mem_nil)
  intro rest
  induction rest with
  | nil => exact fun acc => (or_iff_left List.not_mem_nil).symm
  | cons pair rest ih =>
    intro acc
    rw [List.foldl_cons, ih, map_fst_assign, List.map_cons, List.mem_cons]
    split
    · rename_i hknown
      constructor
      · exact Or.imp_right Or.inr
      · rintro (hacc | rfl | hrest)
        · exact Or.inl hacc
        · exact Or.inl hknown
        · exact Or.inr hrest
    · rw [List.mem_append, List.mem_singleton, or_assoc]

end Dict

/-! ## Results -/

/-- The value of a reason. -/
def Reason.value : Reason → String
  | .flagDisabled => "flag_disabled"
  | .targetingMatch => "targeting_match"
  | .percentageRollout => "percentage_rollout"
  | .progressiveRollout => "progressive_rollout"
  | .default => "default"

/-- What is sent for the response model `EvaluationResult`. -/
def EvaluationResult.modelDump (result : EvaluationResult) : Json :=
  .obj [("flag_key", .str result.flagKey), ("value", result.value),
    ("variation", .str result.variation), ("reason", .str result.reason.value),
    ("matched_rule", (result.matchedRule.map Json.str).getD .null),
    ("config_version", .int result.configVersion),
    ("evaluated_at", .str (jsonMoment result.evaluatedAt))]

/-! ## Errors -/

section Errors

variable (requestId : Option String)

/-- `_payload`: the details update the error. -/
def errorPayload (code message : String) (details : Dict Json) : Json :=
  let error : Dict Json := .ofPairs [("code", .str code), ("message", .str message),
    ("request_id", (requestId.map Json.str).getD .null)]
  .obj [("error", .obj (error.update details).items)]

/-- The parameters of `_payload` that are given by position. -/
def payloadParameters : List String := ["request", "code", "message"]

/-- `api_error_handler`. A detail by the name of a parameter is a second value for it. -/
def apiErrorHandler (status : ℕ) (code message : String) (details : List (String × Json)) :
    Except PyError HttpResponse :=
  match details.find? (fun item => item.1 ∈ payloadParameters) with
  | some (name, _) => .error (.typeError
      ("_payload() got multiple values for argument '" ++ name ++ "'"))
  | none => .ok ⟨status, .ok (errorPayload requestId code message (.ofPairs details))⟩

/-- `validation_error_handler`, for the errors of the body of a request. -/
def validationErrorHandler (safeErrors : List Json) : HttpResponse :=
  ⟨422, .ok (errorPayload requestId "validation_error" "Request validation failed."
    (.ofPairs [("details", .arr safeErrors)]))⟩

/-- `integrity_error_handler`. -/
def integrityErrorHandler : HttpResponse :=
  ⟨409, .ok (errorPayload requestId "resource_conflict" "A resource with these values exists."
    .empty)⟩

/-- `unhandled_error_handler`. -/
def unhandledErrorHandler : HttpResponse :=
  ⟨500, .ok (errorPayload requestId "internal_error" "An unexpected error occurred." .empty)⟩

/-- **What is sent for an exception.** One that a handler raises is not handled by
another, but for the last. -/
def raisedResponse : PyError → HttpResponse
  | .apiError status code message details =>
    match apiErrorHandler requestId status code message details with
    | .ok response => response
    | .error _ => unhandledErrorHandler requestId
  | .integrityError => integrityErrorHandler requestId
  | _ => unhandledErrorHandler requestId

/-- What is sent for what an endpoint returns or raises. -/
def respond {α : Type} (dump : α → Json) : Except PyError α → HttpResponse
  | .ok result => ⟨200, .ok (dump result)⟩
  | .error exc => raisedResponse requestId exc

end Errors

/-! ## Requests -/

/-- The body of `evaluate`. -/
def EvaluationRequest.modelValidate (body : Json) : Except PyError EvaluationRequest := do
  let fields ← readModel body
  let flagKey ← required fields "flag_key" >>= readStr
  let subjectKey ← required fields "subject_key" >>= readStr
  let attributes ← readDict ((fields.lookup "attributes").getD (.obj []))
  if h : 1 ≤ subjectKey.length ∧ subjectKey.length ≤ 500 then
    pure ⟨flagKey, subjectKey, attributes, h⟩
  else .error (.validationError "subject_key length")

/-- The body of `evaluate_batch`. -/
def BatchEvaluationRequest.modelValidate (body : Json) :
    Except PyError BatchEvaluationRequest := do
  let fields ← readModel body
  let subjectKey ← required fields "subject_key" >>= readStr
  let attributes ← readDict ((fields.lookup "attributes").getD (.obj []))
  let flags ← required fields "flags" >>= readList readStr
  if h : 1 ≤ subjectKey.length ∧ subjectKey.length ≤ 500 then
    if hflags : 1 ≤ flags.length ∧ flags.length ≤ 100 then
      pure ⟨subjectKey, attributes, flags, h, hflags⟩
    else .error (.validationError "flags length")
  else .error (.validationError "subject_key length")

/-- The body the client sends for a call of `evaluate`. -/
def EvaluateCall.body (self : EvaluateCall) : Json :=
  .obj [("flag_key", .str self.flagKey), ("subject_key", .str self.subjectKey),
    ("attributes", self.sent)]

/-- The body the client sends for a call of `evaluate_batch`. -/
def batchBody (flagKeys : List String) (subjectKey : String) (attributes : Option (Dict Json)) :
    Json :=
  .obj [("flags", .arr (flagKeys.map .str)), ("subject_key", .str subjectKey),
    ("attributes", .obj (attributes.getD .empty).items)]

/-! ## The endpoints -/

section Endpoints

variable [Packaging]

/-- `evaluate`, once its configuration is loaded. -/
def evaluateConfig (loaded : List (ConfigAddress × FlagConfiguration))
    (payload : EvaluationRequest) (now : Instant) : Except PyError EvaluationResult :=
  match loaded with
  | (_, config) :: _ => evaluateFlag config ⟨payload.subjectKey, payload.attributes⟩ now
  | [] => .error (.keyError payload.flagKey)

variable (principal : Principal)
  (load : LoadRequest → Except PyError (List (ConfigAddress × FlagConfiguration)))

/-- **`evaluate`**, given what its load gives. -/
def evaluated (payload : EvaluationRequest) (now : Instant) : Except PyError EvaluationResult := do
  let request ← evaluate principal payload
  let loaded ← load request
  evaluateConfig loaded payload now

/-- **`evaluate_batch`**, given what its load gives. -/
def evaluatedBatch (payload : BatchEvaluationRequest) (clock : String → Instant) :
    Except PyError (Dict EvaluationResult) := do
  let request ← evaluateBatch principal payload
  let loaded ← load request
  let results ← evaluateLoaded loaded payload.flags ⟨payload.subjectKey, payload.attributes⟩ clock
  pure (.ofPairs results)

/-- The response to a request of `evaluate`. -/
def evaluateResponse (requestId : Option String) (safeErrors : List Json) (now : Instant)
    (body : Json) : HttpResponse :=
  match EvaluationRequest.modelValidate body with
  | .ok payload =>
    respond requestId EvaluationResult.modelDump (evaluated principal load payload now)
  | .error _ => validationErrorHandler requestId safeErrors

/-- What is sent for the response model `BatchEvaluationResponse`. -/
def dumpBatch (results : Dict EvaluationResult) : Json :=
  .obj [("results", .obj (results.items.map (fun item => (item.1, item.2.modelDump))))]

/-- The response to a request of `evaluate_batch`. -/
def batchResponse (requestId : Option String) (safeErrors : List Json) (clock : String → Instant)
    (body : Json) : HttpResponse :=
  match BatchEvaluationRequest.modelValidate body with
  | .ok payload => respond requestId dumpBatch (evaluatedBatch principal load payload clock)
  | .error _ => validationErrorHandler requestId safeErrors

end Endpoints

/-! ## What the client reads -/

/-- **The texts and the moments of the language**, where the client meets them. -/
structure PyTexts.Lawful (py : PyTexts Instant) : Prop where
  str_str : ∀ text, py.str (.str text) = text
  fromisoformat_isoformat : ∀ t, py.fromisoformat (isoformat t) = .ok t

/-- A result, as the client holds it. -/
def SdkResult.of (result : EvaluationResult) : SdkResult Instant where
  flagKey := result.flagKey
  value := result.value
  variation := result.variation
  reason := result.reason.value
  matchedRule := (result.matchedRule.map Json.str).getD .null
  configVersion := result.configVersion
  evaluatedAt := result.evaluatedAt

/-- **The exception a client raises** for one of the server. -/
def SdkRaise.of : PyError → SdkRaise
  | .apiError status code message _ => .cohortSwitchError message code (some status)
  | .integrityError =>
    .cohortSwitchError "A resource with these values exists." "resource_conflict" (some 409)
  | _ => .cohortSwitchError "An unexpected error occurred." "internal_error" (some 500)

/-- The exception a client raises for a body that is refused. -/
def SdkRaise.invalid : SdkRaise :=
  .cohortSwitchError "Request validation failed." "validation_error" (some 422)

/-- **An exception that can be sent**: one of the service's own has the status of an error,
and no detail goes by the name of a parameter. -/
def PyError.Sendable : PyError → Prop
  | .apiError status _ _ details => 400 ≤ status ∧ status ≤ 599
    ∧ ∀ item ∈ details, item.1 ∉ payloadParameters
  | _ => True

section Reading

variable {py : PyTexts Instant} (hpy : py.Lawful)
include hpy

/-- **A result arrives with all of its fields.** -/
theorem fromPayload_modelDump (result : EvaluationResult) :
    SdkResult.fromPayload py result.modelDump = .ok (.of result) := by
  have hflagKey : py.str (.str result.flagKey) = result.flagKey := hpy.str_str _
  have hvariation : py.str (.str result.variation) = result.variation := hpy.str_str _
  have hreason : py.str (.str result.reason.value) = result.reason.value := hpy.str_str _
  have hmoment : (py.fromisoformat ((py.str (.str (jsonMoment result.evaluatedAt))).replace "Z"
      "+00:00")).mapError SdkRaise.builtin = .ok result.evaluatedAt := by
    rw [hpy.str_str, replace_jsonMoment, hpy.fromisoformat_isoformat]
    rfl
  show ((py.fromisoformat ((py.str (.str (jsonMoment result.evaluatedAt))).replace "Z"
    "+00:00")).mapError SdkRaise.builtin >>= fun moment => _) = _
  rw [hmoment]
  show Except.ok _ = Except.ok _
  rw [hflagKey, hvariation, hreason]
  rfl

/-- **An error that is sent** is one for the client, and its texts are read back. -/
theorem raisedFor_errorPayload (status : ℕ) {requestId : Option String} {code message : String}
    {details : Dict Json} (hstatus : 400 ≤ status ∧ status ≤ 599)
    (hcode : "code" ∉ details.keys) (hmessage : "message" ∉ details.keys) :
    (⟨status, .ok (errorPayload requestId code message details)⟩ : HttpResponse).isError = true
      ∧ raisedFor py ⟨status, .ok (errorPayload requestId code message details)⟩
        = .cohortSwitchError message code (some status) := by
  refine ⟨decide_eq_true hstatus, ?_⟩
  have htexts : errorTexts py ⟨status, .ok (errorPayload requestId code message details)⟩
      = .ok (code, message) := by
    unfold errorTexts errorPayload
    show Except.ok (py.str ((((Dict.update _ details).get? "code")).getD _),
      py.str ((((Dict.update _ details).get? "message")).getD _)) = _
    rw [Dict.get?_update, Dict.get?_update, Dict.get?_eq_none_iff.mpr hcode,
      Dict.get?_eq_none_iff.mpr hmessage]
    show Except.ok (py.str (.str code), py.str (.str message)) = _
    rw [hpy.str_str, hpy.str_str]
  unfold raisedFor
  rw [htexts]

/-- **An exception arrives** with its status, its code and its message. -/
theorem raisedFor_raisedResponse (requestId : Option String) {exc : PyError}
    (h : exc.Sendable) :
    (raisedResponse requestId exc).isError = true
      ∧ raisedFor py (raisedResponse requestId exc) = .of exc := by
  cases exc with
  | apiError status code message details =>
    obtain ⟨hlow, hhigh, hdetails⟩ := h
    have hfind : details.find? (fun item => item.1 ∈ payloadParameters) = none := by
      refine List.find?_eq_none.mpr (fun item hitem => ?_)
      rw [decide_eq_true_eq]
      exact hdetails item hitem
    have hkeys : ∀ name ∈ payloadParameters, name ∉ (Dict.ofPairs details).keys := by
      intro name hname hmem
      obtain ⟨item, hitem, rfl⟩ := List.mem_map.mp (Dict.mem_keys_ofPairs.mp hmem)
      exact hdetails item hitem hname
    unfold raisedResponse apiErrorHandler
    simp only [hfind]
    exact raisedFor_errorPayload hpy status ⟨hlow, hhigh⟩ (hkeys _ (by decide))
      (hkeys _ (by decide))
  | integrityError =>
    exact raisedFor_errorPayload hpy 409 (by decide) List.not_mem_nil List.not_mem_nil
  | _ =>
    exact raisedFor_errorPayload hpy 500 (by decide) List.not_mem_nil List.not_mem_nil

/-- What the client is given for what an endpoint returns or raises. -/
theorem post_respond {α : Type} {requestId : Option String} {dump : α → Json}
    {outcome : Except PyError α} (h : ∀ exc, outcome = .error exc → exc.Sendable) :
    post py (.response (respond requestId dump outcome))
      = (outcome.map dump).mapError SdkRaise.of := by
  cases outcome with
  | ok result => rfl
  | error exc =>
    obtain ⟨herror, hraised⟩ := raisedFor_raisedResponse hpy requestId (h exc rfl)
    exact (post_error py herror).trans (congrArg Except.error hraised)

/-- What the client is given for a body that is refused. -/
theorem post_invalid (requestId : Option String) (safeErrors : List Json) :
    post py (.response (validationErrorHandler requestId safeErrors)) = .error .invalid := by
  have hkeys : ∀ key, key ≠ "details"
      → key ∉ (Dict.ofPairs [("details", Json.arr safeErrors)]).keys :=
    fun key hne hmem => hne (List.mem_singleton.mp (Dict.mem_keys_ofPairs.mp hmem))
  have harrives : (validationErrorHandler requestId safeErrors).isError = true
      ∧ raisedFor py (validationErrorHandler requestId safeErrors) = .invalid :=
    raisedFor_errorPayload hpy 422 (by decide) (hkeys _ (by decide)) (hkeys _ (by decide))
  exact (post_error py harrives.1).trans (congrArg Except.error harrives.2)

end Reading

end CohortSwitch
