import CohortSwitch.Hashing
import CohortSwitch.Scheduler

/-!
# The service

The endpoints that set up a tenant (organizations, projects, environments and
API keys), and then the service: a `Request` is a call of one endpoint or one
round of the scheduler, `Request.program` is its transaction, and `service` is the
server that runs any number of them side by side.

`Request` has the endpoints that write to the tables of `Database`, but for one:
a key is revoked by an update in place, and that endpoint is added where the rows of
keys get their other mutable column, too (`Call.revokeApiKey`, `usageService`). What
only reads writes nothing, and may be observed at any moments of a run
(`System.Moments`).

## What a run may look like

A run starts in `initial`, with empty tables, and takes any actions in any order:
requests come in, their statements interleave, some commit and some abort. Nothing
is assumed about who calls what, nor that a principal is one the server has issued.
The theorems below that speak of every run speak of these; those that need a
condition state it on the requests or on the commits of the run.

## Keys

An API key is stored with the ids it is scoped to. `createApiKey` looks an SDK
key's project and environment up and compares their parents; for a management
key it only asks for a project where an environment is named. So a management key
may be stored with ids of another tenant, which is why authorization by such a key
never rests on them alone.
-/

namespace CohortSwitch

/-! ## Tenants -/

/-- `create_organization`, with its caller as the owner. -/
def createOrganization (principal : Principal) (requestId : Option String)
    (payload : OrganizationCreate) : Tx Outcome :=
  match principal.userId with
  | none => .raise (.apiError 403 "user_auth_required" "A user access token is required." [])
  | some userId => do
    let chosen ← choose
    let organization : OrganizationRow := ⟨chosen.ids 0, payload.name, payload.slug⟩
    flush [.organization organization]
    flush [.membership ⟨organization.id, userId, "OWNER"⟩,
      recordAudit organization.id "organization.created" "organization" organization.id requestId
        (some userId) none [("slug", .str organization.slug)] chosen.now]
    pure ⟨[], []⟩

/-- `create_project`. The slug has to be new in the organization. -/
def createProject (principal : Principal) (requestId : Option String)
    (payload : ProjectCreate) : Tx Outcome := do
  let _ ← authorizeOrganization principal payload.organizationId .projectManage
  let chosen ← choose
  let project : ProjectRow :=
    ⟨chosen.ids 0, payload.organizationId, payload.name, payload.slug⟩
  flush [.project project]
  flush [recordAudit payload.organizationId "project.created" "project" project.id requestId
    principal.userId principal.apiKeyId [("slug", .str project.slug)] chosen.now]
  pure ⟨[], []⟩

/-- `create_environment`. The key has to be new in the project. -/
def createEnvironment (principal : Principal) (requestId : Option String) (projectId : UUID)
    (payload : EnvironmentCreate) : Tx Outcome := do
  let (project, _) ← authorizeProject principal projectId .environmentManage
  let chosen ← choose
  let environment : EnvironmentRow := ⟨chosen.ids 0, project.id, payload.key, payload.name, 0⟩
  flush [.environment (.insert environment)]
  flush [recordAudit project.organizationId "environment.created" "environment" environment.id
    requestId principal.userId principal.apiKeyId [("key", .str environment.key)] chosen.now]
  pure ⟨[], []⟩

/-! ## Keys -/

/-- `kind` of an API key: the two endpoints pass one of two texts. -/
inductive KeyKind where
  | sdk
  | management
deriving DecidableEq

/-- Its text. -/
def KeyKind.value : KeyKind → String
  | .sdk => "SDK"
  | .management => "MANAGEMENT"

/-- `new_api_key`: the prefix and random text. -/
def newApiKey (keyPrefix : String) (secret : String) : String := keyPrefix ++ secret

/-- `display_prefix`: what is shown of a secret once it is hashed. -/
def displayPrefix (secret : String) : String := String.ofList (secret.toList.take 14)

/-- The scopes and the prefix of a new key, where its payload is in order. -/
def keyScopes (payload : APIKeyCreate) : KeyKind → Tx (List String × String)
  | .sdk =>
    match payload.projectId, payload.environmentId with
    | some projectId, some environmentId => do
      let project ← select (fun db => db.projects.find? (fun row => row.id = projectId))
      let environment ←
        select (fun db => db.environments.find? (fun row => row.id = environmentId))
      match project, environment with
      | some project, some environment =>
        if project.organizationId ≠ payload.organizationId
            ∨ environment.projectId ≠ project.id then
          .raise (.apiError 404 "scope_not_found" "Key scope was not found." [])
        else pure (["flags:read", "evaluate"], "cs_sdk_live_")
      | _, _ => .raise (.apiError 404 "scope_not_found" "Key scope was not found." [])
    | _, _ => .raise (.apiError 422 "invalid_sdk_key_scope"
        "SDK keys require project and environment." [])
  | .management => do
    Tx.raiseIf (payload.environmentId.isSome ∧ payload.projectId = none)
      (.apiError 422 "invalid_api_key_scope" "Environment scope requires project scope." [])
    let scopes := sortedBy (fun scope => scope) payload.scopes.dedup
    Tx.raiseIf (scopes = [])
      (.apiError 422 "missing_scopes" "At least one management scope is required." [])
    pure (scopes, "cs_api_live_")

/-- **`create_api_key`.** The secret is returned once and stored as its hash. -/
def createApiKey (payload : APIKeyCreate) (kind : KeyKind)
    (actorUserId actorApiKeyId : Option UUID) (requestId : Option String) : Tx Unit := do
  let (scopes, keyPrefix) ← keyScopes payload kind
  let chosen ← choose
  let raw := newApiKey keyPrefix chosen.secret
  let key : APIKeyRow := ⟨chosen.ids 0, payload.organizationId, payload.projectId,
    payload.environmentId, payload.name, kind.value, displayPrefix raw, hashSecret raw, scopes,
    none, actorUserId⟩
  flush [.apiKey key]
  flush [recordAudit payload.organizationId "api_key.created" "api_key" key.id requestId
    actorUserId actorApiKeyId [("kind", .str kind.value), ("prefix", .str key.keyPrefix),
      ("scopes", .arr (scopes.map .str))] chosen.now]

/-- `_create_key_endpoint`. -/
def createKeyEndpoint (principal : Principal) (requestId : Option String)
    (payload : APIKeyCreate) (kind : KeyKind) : Tx Outcome := do
  let _ ← authorizeOrganization principal payload.organizationId .keyManage
  createApiKey payload kind principal.userId principal.apiKeyId requestId
  pure ⟨[], []⟩

/-! ## The server -/

/-- **A call of one endpoint**, or one round of the scheduler. -/
inductive Request where
  | createOrganization (principal : Principal) (requestId : Option String)
    (payload : OrganizationCreate)
  | createProject (principal : Principal) (requestId : Option String) (payload : ProjectCreate)
  | createEnvironment (principal : Principal) (requestId : Option String) (projectId : UUID)
    (payload : EnvironmentCreate)
  | createKey (principal : Principal) (requestId : Option String) (payload : APIKeyCreate)
    (kind : KeyKind)
  | createFeatureFlag (principal : Principal) (requestId : Option String) (projectId : UUID)
    (payload : FlagCreate)
  | replaceFlagConfiguration (principal : Principal) (requestId : Option String) (flagId : UUID)
    (payload : FlagUpdate)
  | addTargetingRule (principal : Principal) (requestId : Option String) (flagId : UUID)
    (payload : RuleCreate)
  | rollbackFeatureFlag (principal : Principal) (requestId : Option String) (flagId : UUID)
    (targetVersion : ℕ) (payload : RollbackRequest)
  | archiveFlag (principal : Principal) (requestId : Option String) (flagId : UUID)
  | scheduleChange (principal : Principal) (requestId : Option String) (flagId : UUID)
    (payload : ScheduledChangeCreate)
  | applyDueChanges

/-- The transaction of a request. -/
def Request.program : Request → Tx Outcome
  | .createOrganization principal requestId payload =>
    CohortSwitch.createOrganization principal requestId payload
  | .createProject principal requestId payload =>
    CohortSwitch.createProject principal requestId payload
  | .createEnvironment principal requestId projectId payload =>
    CohortSwitch.createEnvironment principal requestId projectId payload
  | .createKey principal requestId payload kind =>
    createKeyEndpoint principal requestId payload kind
  | .createFeatureFlag principal requestId projectId payload =>
    CohortSwitch.createFeatureFlag principal requestId projectId payload
  | .replaceFlagConfiguration principal requestId flagId payload =>
    CohortSwitch.replaceFlagConfiguration principal requestId flagId payload
  | .addTargetingRule principal requestId flagId payload =>
    CohortSwitch.addTargetingRule principal requestId flagId payload
  | .rollbackFeatureFlag principal requestId flagId targetVersion payload =>
    CohortSwitch.rollbackFeatureFlag principal requestId flagId targetVersion payload
  | .archiveFlag principal requestId flagId => CohortSwitch.archiveFlag principal requestId flagId
  | .scheduleChange principal requestId flagId payload =>
    CohortSwitch.scheduleChange principal requestId flagId payload
  | .applyDueChanges => CohortSwitch.applyDueChanges

/-- **The service**: the endpoints that write to the tables of organizations, flags and keys,
and the scheduler, on one database. The endpoint that revokes a key joins them in `usageService`;
users and their tokens have tables of their own (`authService`). -/
def service : System Database Write Row Choice PyError Request Outcome where
  apply := Database.apply
  ok := Database.ok
  program := Request.program

/-- The empty database. -/
def Database.empty : Database :=
  ⟨[], [], [], [], [], [], .empty, [], [], [], []⟩

/-- A state of the service. -/
abbrev ServiceWorld := World Database Write Row Choice PyError Request Outcome

/-- A transaction of the service that is under way. -/
abbrev ServiceTx := Running Database Write Row Choice PyError Request Outcome

/-- The service before its first request: empty tables, nobody under way. -/
def initial : ServiceWorld := ⟨.empty, [], [], 0⟩

end CohortSwitch
