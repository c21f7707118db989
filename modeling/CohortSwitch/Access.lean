import CohortSwitch.Database

/-!
# Who may do what

A request comes with a `Principal`, a user or an API key. A user acts through
the role of a membership; a management key acts for its organization through
its scopes. The `authorize…` transactions read the rows they decide on and
raise when the principal may not go on.

They walk upwards: an environment is authorized through its project and a
project through its organization, where the membership is looked up. A principal
that may not see what it names is told that it does not exist, so the error of a
foreign row and of an absent one are the same; which ones are, endpoint by
endpoint, is the subject of `CohortSwitch.Refusals` and
`CohortSwitch.ForeignRows`.

A key confined to one project or one environment carries their ids in the
principal itself. That comparison is made after the rows were read
(`Principal.MayUseProject`, `Principal.MayUseEnvironment`), and both are
statements about the principal and one id: what a confined key can reach is
proved from them.
-/

namespace CohortSwitch

/-- **Who makes a request.** One of the first two ids is there; the others confine a key to what
it was made for. -/
structure Principal where
  /-- The user, where a user asks. -/
  userId : Option UUID
  /-- The key, where a key does. -/
  apiKeyId : Option UUID
  /-- The kind of the key, or that it is a user. -/
  kind : String
  organizationId : Option UUID
  /-- The only project the key may use, if there is one. -/
  projectId : Option UUID
  /-- The only environment. -/
  environmentId : Option UUID
  /-- What the key may be used for. -/
  scopes : List String

/-- The principal of an access token. -/
def Principal.ofUser (userId : UUID) : Principal :=
  ⟨some userId, none, "USER", none, none, none, []⟩

/-- The principal of an API key. -/
def Principal.ofKey (key : APIKeyRow) : Principal :=
  ⟨none, some key.id, key.kind, some key.organizationId, key.projectId, key.environmentId,
    key.scopes⟩

/-- The principal is not confined to another project. -/
def Principal.MayUseProject (principal : Principal) (projectId : UUID) : Prop :=
  ∀ id ∈ principal.projectId, id = projectId

/-- The principal is not confined to another environment. -/
def Principal.MayUseEnvironment (principal : Principal) (environmentId : UUID) : Prop :=
  ∀ id ∈ principal.environmentId, id = environmentId

/-- What a request needs. -/
inductive Permission where
  | orgManage
  | projectManage
  | environmentManage
  | flagRead
  | flagWrite
  | evaluate
  | auditRead
  | keyManage
deriving DecidableEq

/-- Its text, which is also the scope of a key. -/
def Permission.value : Permission → String
  | .orgManage => "org:manage"
  | .projectManage => "project:manage"
  | .environmentManage => "environment:manage"
  | .flagRead => "flags:read"
  | .flagWrite => "flags:write"
  | .evaluate => "evaluate"
  | .auditRead => "audit:read"
  | .keyManage => "keys:manage"

/-- What each role may do. An owner may do everything. -/
def ROLE_PERMISSIONS : List (String × List Permission) := [
  ("OWNER", [.orgManage, .projectManage, .environmentManage, .flagRead, .flagWrite, .evaluate,
    .auditRead, .keyManage]),
  ("ADMIN", [.orgManage, .projectManage, .environmentManage, .flagRead, .flagWrite, .evaluate,
    .auditRead, .keyManage]),
  ("DEVELOPER", [.flagRead, .flagWrite, .evaluate, .auditRead]),
  ("VIEWER", [.flagRead, .evaluate])]

/-- `require_role_permission`. A role that is unknown has no permission. -/
def requireRolePermission (role : String) (permission : Permission) : Except PyError Unit :=
  match ROLE_PERMISSIONS.lookup role with
  | none => .error (.apiError 403 "permission_denied" "The requested operation is not allowed." [])
  | some allowed => CohortSwitch.raiseIf (permission ∉ allowed)
    (.apiError 403 "permission_denied" "The requested operation is not allowed." [])

/-- `membership_for`: a management key has the rights of an owner in its own organization, and a
membership that is never stored. -/
def membershipFor (principal : Principal) (organizationId : UUID) : Tx MembershipRow :=
  if principal.kind = "MANAGEMENT" then
    if principal.organizationId ≠ some organizationId then
      .raise (.apiError 404 "organization_not_found" "Organization was not found." [])
    else pure ⟨organizationId, ⟨0⟩, "OWNER"⟩
  else
    match principal.userId with
    | none => .raise (.apiError 403 "management_auth_required"
        "Management credentials are required." [])
    | some userId => do
      let membership ← select (fun db => db.memberships.find? (fun row =>
        row.organizationId = organizationId ∧ row.userId = userId))
      match membership with
      | none => .raise (.apiError 404 "organization_not_found" "Organization was not found." [])
      | some membership => pure membership

/-- `authorize_organization`: a membership that allows it, or an error. -/
def authorizeOrganization (principal : Principal) (organizationId : UUID)
    (permission : Permission) : Tx MembershipRow := do
  let membership ← membershipFor principal organizationId
  if principal.kind = "MANAGEMENT" then
    if permission.value ∉ principal.scopes then
      .raise (.apiError 403 "insufficient_scope" "API key lacks the required scope." [])
    else pure membership
  else do
    Prog.attempt (requireRolePermission membership.role permission)
    pure membership

/-- `authorize_project`: the project, and its organization above it. -/
def authorizeProject (principal : Principal) (projectId : UUID) (permission : Permission) :
    Tx (ProjectRow × MembershipRow) := do
  let project ← select (fun db => db.projects.find? (fun row => row.id = projectId))
  match project with
  | none => .raise (.apiError 404 "project_not_found" "Project was not found." [])
  | some project =>
    if principal.projectId.any (fun id => id ≠ projectId) then
      .raise (.apiError 404 "project_not_found" "Project was not found." [])
    else do
      let membership ← authorizeOrganization principal project.organizationId permission
      pure (project, membership)

/-- `authorize_environment`: the environment, its project and its organization. -/
def authorizeEnvironment (principal : Principal) (environmentId : UUID)
    (permission : Permission) : Tx (EnvironmentRow × ProjectRow × MembershipRow) := do
  let environment ←
    select (fun db => db.environments.find? (fun row => row.id = environmentId))
  match environment with
  | none => .raise (.apiError 404 "environment_not_found" "Environment was not found." [])
  | some environment =>
    if principal.environmentId.any (fun id => id ≠ environmentId) then
      .raise (.apiError 404 "environment_not_found" "Environment was not found." [])
    else do
      let (project, membership) ←
        authorizeProject principal environment.projectId permission
      pure (environment, project, membership)

/-- A comparison that does not find the ids different finds them equal. -/
theorem eq_of_not_any_ne {α : Type} [DecidableEq α] {scope : Option α} {a : α}
    (h : ¬ scope.any (fun b => b ≠ a) = true) : ∀ b ∈ scope, b = a := by
  intro b hb
  by_contra hne
  exact h ((Option.any_eq_true _ _).mpr ⟨b, hb, decide_eq_true hne⟩)

/-- `require_api_scope`. -/
def requireApiScope (principal : Principal) (scope : String) : Except PyError Unit :=
  CohortSwitch.raiseIf
    (¬ (principal.kind = "SDK" ∨ principal.kind = "MANAGEMENT") ∨ scope ∉ principal.scopes)
    (.apiError 403 "insufficient_scope" "API key lacks the required scope." [])

end CohortSwitch
