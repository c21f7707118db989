import CohortSwitch.Scheduler
import CohortSwitch.SdkClient

/-!
# The errors of the SDK's client

`CohortSwitchClient._post` turns a failed request and a response with an error
status into a `CohortSwitchError`. The text of the latter is read from the body,
which may be anything: the client subscripts the decoded value, asks the error in
it for its code and its message, and catches what subscripting can raise. A value
that is no dictionary has no method `get`, and the exception for that is not
caught. Decoding is the one thing that is not followed: it gives a value or the text
of a `ValueError`.

`subscript`, `getOr` and `itemsOf` are what the language does at each JSON type, and the
client is translated over them line by line, so the exceptions it has not thought of
come out by themselves. A list is subscripted with a text and raises a `TypeError`, which is
caught; a list under the field `error` is asked for `get` and raises an
`AttributeError`, which is not.

`api_errors_surface_iff` follows every JSON type at both levels: the client's own
exception comes out of each method unless the field `error` holds something else
than an object.
-/

namespace CohortSwitch

/-- **What a method of the client raises**: the client's own exception, or one of
the language. -/
inductive SdkRaise where
  | cohortSwitchError (message code : String) (statusCode : Option ℕ)
  | attributeError (message : String)
  | builtin (exc : PyError)

/-- `except (ValueError, KeyError, TypeError)`. -/
def SdkRaise.isCaught : SdkRaise → Bool
  | .builtin (.keyError _) | .builtin (.typeError _) => true
  | .builtin exc => exc.isValueError
  | _ => false

/-- What the client takes from the language and does not look into: the texts of
values, and the moments that texts denote. -/
structure PyTexts (δ : Type) where
  /-- `str(value)`. -/
  str : Json → String
  /-- `repr(text)`. -/
  repr : String → String
  /-- `datetime.fromisoformat(text)`. -/
  fromisoformat : String → Except PyError δ

/-! ## Decoded values -/

namespace Json

/-- `type(value).__name__`. -/
def typeName : Json → String
  | .null => "NoneType"
  | .bool _ => "bool"
  | .int _ => "int"
  | .float _ => "float"
  | .str _ => "str"
  | .arr _ => "list"
  | .obj _ => "dict"

/-- `value[key]`. -/
def subscript (value : Json) (key : String) : Except SdkRaise Json :=
  match value with
  | .obj fields => match fields.lookup key with
    | some field => .ok field
    | none => .error (.builtin (.keyError key))
  | .arr _ => .error (.builtin (.typeError "list indices must be integers or slices, not str"))
  | .str _ => .error (.builtin (.typeError "string indices must be integers, not 'str'"))
  | other =>
    .error (.builtin (.typeError ("'" ++ other.typeName ++ "' object is not subscriptable")))

/-- What asking a value for a method it does not have raises. -/
def noAttribute (value : Json) (name : String) : SdkRaise :=
  .attributeError ("'" ++ value.typeName ++ "' object has no attribute '" ++ name ++ "'")

/-- `value.get(key, default)`. -/
def getOr (value : Json) (key : String) (default : Json) : Except SdkRaise Json :=
  match value with
  | .obj fields => .ok ((fields.lookup key).getD default)
  | other => .error (other.noAttribute "get")

/-- `value.items()`. -/
def itemsOf : Json → Except SdkRaise (List (String × Json))
  | .obj fields => .ok fields
  | other => .error (other.noAttribute "items")

end Json

/-! ## Requests -/

/-- **A response**: its status, and what decoding its body gives or, of a body that
is not JSON, the text of the `ValueError`. -/
structure HttpResponse where
  /-- `response.status_code`. -/
  statusCode : ℕ
  /-- What `response.json()` gives. -/
  body : Except String Json

namespace HttpResponse

/-- `response.is_error`. -/
def isError (self : HttpResponse) : Bool := 400 ≤ self.statusCode ∧ self.statusCode ≤ 599

/-- `response.json()`. A body that is nested deeper than the interpreter's recursion limit, which
raises `RecursionError`, is outside the model. -/
def json (self : HttpResponse) : Except SdkRaise Json :=
  self.body.mapError (fun message => .builtin (.valueError message))

end HttpResponse

/-- **What comes of a request**: a response, `httpx.TimeoutException`, or another
`httpx.HTTPError`. -/
inductive Posted where
  | response (response : HttpResponse)
  | timeout
  | httpError

section Client

variable {δ : Type} (py : PyTexts δ)

/-- The code and the message that the body of a response names. -/
def errorTexts (response : HttpResponse) : Except SdkRaise (String × String) := do
  let payload ← response.json
  let error ← payload.subscript "error"
  let code ← error.getOr "code" (.str "api_error")
  let message ← error.getOr "message" (.str "CohortSwitch API returned an error")
  pure (py.str code, py.str message)

/-- What `_post` raises for a response with an error status. -/
def raisedFor (response : HttpResponse) : SdkRaise :=
  match errorTexts py response with
  | .ok (code, message) => .cohortSwitchError message code (some response.statusCode)
  | .error exc =>
    if exc.isCaught then
      .cohortSwitchError "CohortSwitch API returned an error" "api_error"
        (some response.statusCode)
    else exc

/-- `_post`, given what comes of its request. -/
def post : Posted → Except SdkRaise Json
  | .timeout => .error (.cohortSwitchError "CohortSwitch request timed out" "timeout" none)
  | .httpError => .error (.cohortSwitchError "CohortSwitch request failed" "network_error" none)
  | .response response =>
    if response.isError then .error (raisedFor py response)
    else response.json

/-- The SDK's `EvaluationResult`, which stores the matched rule as it comes. -/
structure SdkResult (δ : Type) where
  /-- `flag_key`. -/
  flagKey : String
  /-- `value`. -/
  value : Json
  /-- `variation`. -/
  variation : String
  /-- `reason`. -/
  reason : String
  /-- `matched_rule`. -/
  matchedRule : Json
  /-- `config_version`. -/
  configVersion : ℤ
  /-- `evaluated_at`. -/
  evaluatedAt : δ

/-- `EvaluationResult.from_payload`. -/
def SdkResult.fromPayload (payload : Json) : Except SdkRaise (SdkResult δ) := do
  let flagKey ← payload.subscript "flag_key"
  let value ← payload.subscript "value"
  let variation ← payload.subscript "variation"
  let reason ← payload.subscript "reason"
  let matchedRule ← payload.getOr "matched_rule" .null
  let configVersion ← (← payload.subscript "config_version") |> pyInt |>.mapError .builtin
  let evaluatedAt ← payload.subscript "evaluated_at"
  let moment ← py.fromisoformat ((py.str evaluatedAt).replace "Z" "+00:00") |>.mapError .builtin
  pure {
    flagKey := py.str flagKey
    value
    variation := py.str variation
    reason := py.str reason
    matchedRule
    configVersion
    evaluatedAt := moment }

namespace SdkClient

/-- `evaluate`, at the reading `now` of the clock, which is read again for the entry
and for the pruning. -/
def evaluate (self : SdkClient (SdkResult δ)) (call : EvaluateCall) (posted : Posted)
    (now stored later : ℚ) :
    Except SdkRaise (SdkResult δ) × SdkClient (SdkResult δ) :=
  match self.cached call now with
  | some result => (.ok result, self)
  | none =>
    match post py posted >>= SdkResult.fromPayload py with
    | .ok result => (.ok result, self.store call result stored later)
    | .error exc => (.error exc, self)

/-- `is_enabled`. -/
def isEnabled (self : SdkClient (SdkResult δ)) (call : EvaluateCall) (posted : Posted)
    (now stored later : ℚ) : Except SdkRaise Bool × SdkClient (SdkResult δ) :=
  match self.evaluate py call posted now stored later with
  | (.ok result, client) =>
    match result.value with
    | .bool enabled => (.ok enabled, client)
    | _ => (.error (.cohortSwitchError
        ("Flag " ++ py.repr call.flagKey ++ " did not return a boolean value")
        "type_mismatch" none), client)
  | (.error exc, client) => (.error exc, client)

/-- `get_value`. -/
def getValue (self : SdkClient (SdkResult δ)) (call : EvaluateCall) (posted : Posted)
    (now stored later : ℚ) : Except SdkRaise Json × SdkClient (SdkResult δ) :=
  match self.evaluate py call posted now stored later with
  | (.ok result, client) => (.ok result.value, client)
  | (.error exc, client) => (.error exc, client)

/-- `evaluate_batch`, which does not use the cache. -/
def evaluateBatch (posted : Posted) :
    Except SdkRaise (List (String × SdkResult δ)) := do
  let payload ← post py posted
  let results ← payload.subscript "results"
  let items ← results.itemsOf
  items.mapM (fun item => (SdkResult.fromPayload py item.2).map (fun r => (item.1, r)))

end SdkClient

/-! ## Error responses -/

/-- **The error of a response surfaces**: the client's own exception is raised, with
the status of the response. -/
def Surfaces {α : Type} (response : HttpResponse) (outcome : Except SdkRaise α) : Prop :=
  ∃ message code,
    outcome = .error (.cohortSwitchError message code (some response.statusCode))

/-- The error of a body is an object, if the body has one. -/
def HttpResponse.NamesObject (self : HttpResponse) : Prop :=
  ∀ fields error, self.body = .ok (.obj fields) → fields.lookup "error" = some error →
    ∃ entries, error = .obj entries

/-- An error that is no object has no method `get`. -/
theorem Json.getOr_eq_error {value : Json} (h : ¬ ∃ entries, value = .obj entries)
    (key : String) (default : Json) :
    value.getOr key default = .error (value.noAttribute "get") := by
  cases value with
  | obj fields => exact absurd ⟨fields, rfl⟩ h
  | _ => rfl

/-- Subscripting raises what is caught, and gives a field of an object only. -/
theorem Json.subscript_cases (value : Json) (key : String) :
    (∃ exc, value.subscript key = .error exc ∧ exc.isCaught = true
        ∧ ∀ fields, value = .obj fields → fields.lookup key = none)
      ∨ ∃ fields field, value = .obj fields ∧ fields.lookup key = some field
        ∧ value.subscript key = .ok field := by
  cases value with
  | obj fields =>
    unfold Json.subscript
    cases hlookup : fields.lookup key with
    | none =>
      refine Or.inl ⟨.builtin (.keyError key), ?_, rfl, fun fields' heq => ?_⟩
      · simp only [hlookup]
      · cases heq
        exact hlookup
    | some field =>
      refine Or.inr ⟨fields, field, rfl, hlookup, ?_⟩
      simp only [hlookup]
  | _ => exact Or.inl ⟨.builtin (.typeError _), rfl, rfl, fun fields heq => by cases heq⟩

/-- **The texts of an error can be read**, or what is raised is caught, exactly if the
error is an object. -/
theorem errorTexts_cases (response : HttpResponse) :
    response.NamesObject
        ∧ ((∃ texts, errorTexts py response = .ok texts)
          ∨ ∃ exc, errorTexts py response = .error exc ∧ exc.isCaught = true)
      ∨ ¬ response.NamesObject
        ∧ ∃ message, errorTexts py response = .error (.attributeError message) := by
  unfold errorTexts HttpResponse.json
  cases hbody : response.body with
  | error message =>
    refine Or.inl ⟨fun fields error heq => ?_, Or.inr ⟨_, rfl, rfl⟩⟩
    rw [hbody] at heq
    cases heq
  | ok payload =>
    show _ ∧ ((∃ texts, (payload.subscript "error" >>= _) = Except.ok texts)
      ∨ ∃ exc, (payload.subscript "error" >>= _) = Except.error exc ∧ _)
      ∨ _ ∧ ∃ message, (payload.subscript "error" >>= _) = Except.error _
    -- the body has no field `error`, or it has one
    rcases payload.subscript_cases "error" with ⟨exc, hraises, hcaught, habsent⟩
      | ⟨fields, error, hpayload, hlookup, hfield⟩
    · rw [hraises]
      refine Or.inl ⟨fun fields error heq hlookup => ?_, Or.inr ⟨exc, rfl, hcaught⟩⟩
      rw [hbody] at heq
      rw [habsent fields (Except.ok.inj heq)] at hlookup
      cases hlookup
    · rw [hfield]
      by_cases hobject : ∃ entries, error = .obj entries
      · obtain ⟨entries, rfl⟩ := hobject
        refine Or.inl ⟨fun fields' error' heq hlookup' => ?_, Or.inl ⟨_, rfl⟩⟩
        rw [hbody, hpayload] at heq
        cases heq
        rw [hlookup] at hlookup'
        cases hlookup'
        exact ⟨entries, rfl⟩
      · refine Or.inr ⟨fun hall => hobject (hall fields error ?_ hlookup), ?_⟩
        · rw [hbody, hpayload]
        · show ∃ message, (error.getOr "code" _ >>= _) = Except.error _
          rw [Json.getOr_eq_error hobject]
          exact ⟨_, rfl⟩

/-- **What `_post` raises on an error status.** -/
theorem raisedFor_cases (response : HttpResponse) :
    response.NamesObject ∧ (∃ message code,
        raisedFor py response = .cohortSwitchError message code (some response.statusCode))
      ∨ ¬ response.NamesObject
        ∧ ∃ message, raisedFor py response = .attributeError message := by
  unfold raisedFor
  rcases errorTexts_cases py response with ⟨hobject, ⟨texts, htexts⟩ | ⟨exc, hexc, hcaught⟩⟩
    | ⟨hobject, message, hattribute⟩
  · rw [htexts]
    exact Or.inl ⟨hobject, texts.2, texts.1, rfl⟩
  · rw [hexc]
    dsimp only
    rw [if_pos hcaught]
    exact Or.inl ⟨hobject, _, _, rfl⟩
  · rw [hattribute]
    exact Or.inr ⟨hobject, message, rfl⟩

section Methods

variable {response : HttpResponse} (herror : response.isError = true)
include herror

/-- `_post` raises it. -/
theorem post_error : post py (.response response) = .error (raisedFor py response) :=
  if_pos herror

/-- A call that the cache does not answer raises what its request raises. -/
theorem evaluate_error {client : SdkClient (SdkResult δ)} {call : EvaluateCall}
    {now stored later : ℚ} (hmiss : client.cached call now = none) :
    client.evaluate py call (.response response) now stored later
      = (.error (raisedFor py response), client) := by
  unfold SdkClient.evaluate
  rw [hmiss, post_error py herror]
  rfl

/-- So does a batch. -/
theorem evaluateBatch_error :
    SdkClient.evaluateBatch py (.response response) = .error (raisedFor py response) := by
  unfold SdkClient.evaluateBatch
  rw [post_error py herror]
  rfl

end Methods

/-- The exception that is raised for a response surfaces, exactly if the error is an
object. -/
theorem surfaces_raisedFor_iff {α : Type} (response : HttpResponse) :
    Surfaces response (.error (raisedFor py response) : Except SdkRaise α)
      ↔ response.NamesObject := by
  rcases raisedFor_cases py response with ⟨hobject, message, code, hraised⟩
    | ⟨hobject, message, hraised⟩
  · exact iff_of_true ⟨message, code, congrArg Except.error hraised⟩ hobject
  · refine iff_of_false ?_ hobject
    rintro ⟨message', code, heq⟩
    rw [hraised] at heq
    cases heq

/-- **API errors surface as the client's own exception, exactly if the error in the body
is an object**, or there is none. -/
theorem api_errors_surface_iff (response : HttpResponse) (herror : response.isError = true) :
    (Surfaces response (post py (.response response)) ↔ response.NamesObject)
      ∧ (∀ (client : SdkClient (SdkResult δ)) (call : EvaluateCall) (now stored later : ℚ),
        client.cached call now = none →
        (Surfaces response (client.evaluate py call (.response response) now stored later).1
            ↔ response.NamesObject)
          ∧ (Surfaces response (client.isEnabled py call (.response response) now stored later).1
            ↔ response.NamesObject)
          ∧ (Surfaces response (client.getValue py call (.response response) now stored later).1
            ↔ response.NamesObject))
      ∧ (Surfaces response (SdkClient.evaluateBatch py (.response response))
        ↔ response.NamesObject) := by
  refine ⟨?_, fun client call now stored later hmiss => ?_, ?_⟩
  · rw [post_error py herror]
    exact surfaces_raisedFor_iff py response
  · unfold SdkClient.isEnabled SdkClient.getValue
    rw [evaluate_error py herror hmiss]
    exact ⟨surfaces_raisedFor_iff py response, surfaces_raisedFor_iff py response,
      surfaces_raisedFor_iff py response⟩
  · rw [evaluateBatch_error py herror]
    exact surfaces_raisedFor_iff py response

end Client

/-- Texts as the language has them for the values below. -/
def plainTexts : PyTexts Unit where
  str := pyStr
  repr text := "'" ++ text ++ "'"
  fromisoformat _ := .ok ()

theorem api_errors_surface_iff_sample :
    Surfaces ⟨404, .ok (.obj [("error", .obj [("code", .str "flag_not_found")])])⟩
      (post plainTexts
        (.response ⟨404, .ok (.obj [("error", .obj [("code", .str "flag_not_found")])])⟩)) := by
  refine (api_errors_surface_iff plainTexts _ (by decide)).1.mpr ?_
  intro fields error hbody hlookup
  cases hbody
  cases hlookup
  exact ⟨_, rfl⟩

/-- **A gateway's own error is lost**: its text has no method `get`. -/
theorem gateway_error_lost : (⟨502, .ok (.obj [("error", .str "Bad Gateway")])⟩
      : HttpResponse).isError = true
    ∧ ¬ Surfaces ⟨502, .ok (.obj [("error", .str "Bad Gateway")])⟩
      (post plainTexts (.response ⟨502, .ok (.obj [("error", .str "Bad Gateway")])⟩)) := by
  refine ⟨by decide, ?_⟩
  rintro ⟨message, code, heq⟩
  cases heq

end CohortSwitch
