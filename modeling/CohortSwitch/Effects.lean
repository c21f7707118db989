import CohortSwitch.ChildRows
import CohortSwitch.Service

/-!
# What the transactions write

A transaction leaves a list of writes, and what it does to one table is a
matter of its writes to that table alone (`view_configs` and its siblings). No
write takes a row away or changes what identifies it: `Database.Grows` says so,
and holds between the state before and after any list of writes.

The writes of every request have one of a few shapes. `Update` is one passage
through `updateFlag`, `Round` one round of the scheduler or one update of an
endpoint, `Creation` the writes of `createFlag`, `Archiving` those of
`archiveFlag`; what is left touches no configuration and is `plain`. The shapes are
data: a record holds what the transaction read and decided, and a function gives
its writes. So what a commit does can be said for all requests at once, by cases on
`Effect`, and an invariant is checked against four shapes instead of a dozen
programs.

The order within a shape is that of the session: statements that run at once come
first, in the order of the rounds, and what was pending comes at the commit
(`roundWrites`). A projection to one table (`filterMap_rounds`) forgets the rest,
and leaves a list of updates one may reason about by induction.
-/

namespace CohortSwitch

/-! ## Table by table -/

/-- A component that looks only at some of the steps is a fold over these. -/
theorem foldl_component {σ ω α κ : Type} {step : σ → ω → σ} {component : σ → α}
    {op : ω → Option κ} {apply : α → κ → α}
    (h : ∀ s w, component (step s w) = (op w).elim (component s) (apply (component s)))
    (ws : List ω) (s : σ) :
    component (ws.foldl step s) = (ws.filterMap op).foldl apply (component s) := by
  induction ws generalizing s with
  | nil => rfl
  | cons w ws ih =>
    rw [List.foldl_cons, ih, h, List.filterMap_cons]
    cases op w <;> rfl

/-- Appending one by one. -/
theorem foldl_append_singleton {α : Type} (rows new : List α) :
    new.foldl (fun rows row => rows ++ [row]) rows = rows ++ new := by
  induction new generalizing rows with
  | nil => exact (List.append_nil rows).symm
  | cons row new ih => rw [List.foldl_cons, ih, List.append_assoc]; rfl

/-- The statement on flags, if it is one. -/
def Write.flag? : Write → Option FlagWrite
  | .flag op => some op
  | _ => none

/-- The statement on configurations. -/
def Write.config? : Write → Option ConfigWrite
  | .config op => some op
  | _ => none

/-- The statement on child tables. -/
def Write.child? : Write → Option ChildWrite
  | .child op => some op
  | _ => none

/-- The version it records. -/
def Write.version? : Write → Option FlagVersionRow
  | .version row => some row
  | _ => none

/-- The statement on scheduled changes. -/
def Write.change? : Write → Option ChangeWrite
  | .change op => some op
  | _ => none

/-- The event it records. -/
def Write.audit? : Write → Option AuditEventRow
  | .audit row => some row
  | _ => none

/-- The key it stores. -/
def Write.apiKey? : Write → Option APIKeyRow
  | .apiKey row => some row
  | _ => none

section Views

variable (db : Database) (writes : List Write)

theorem view_flags : (service.view writes db).flags
    = (writes.filterMap Write.flag?).foldl (fun rows op => op.apply rows) db.flags :=
  foldl_component (fun s w => by cases w <;> rfl) writes db

/-- **The rows of configurations after some writes** are those before, after the statements on
configurations among them. -/
theorem view_configs : (service.view writes db).configs
    = (writes.filterMap Write.config?).foldl (fun rows op => op.apply rows) db.configs :=
  foldl_component (fun s w => by cases w <;> rfl) writes db

theorem view_children : (service.view writes db).children
    = (writes.filterMap Write.child?).foldl (fun tables op => op.apply tables) db.children :=
  foldl_component (fun s w => by cases w <;> rfl) writes db

theorem view_versions : (service.view writes db).versions
    = db.versions ++ writes.filterMap Write.version? := by
  rw [← foldl_append_singleton]
  exact foldl_component (fun s w => by cases w <;> rfl) writes db

theorem view_changes : (service.view writes db).changes
    = (writes.filterMap Write.change?).foldl (fun rows op => op.apply rows) db.changes :=
  foldl_component (fun s w => by cases w <;> rfl) writes db

theorem view_audits : (service.view writes db).audits
    = db.audits ++ writes.filterMap Write.audit? := by
  rw [← foldl_append_singleton]
  exact foldl_component (fun s w => by cases w <;> rfl) writes db

theorem view_apiKeys : (service.view writes db).apiKeys
    = db.apiKeys ++ writes.filterMap Write.apiKey? := by
  rw [← foldl_append_singleton]
  exact foldl_component (fun s w => by cases w <;> rfl) writes db

end Views

/-! ## What no write changes -/

/-- What identifies an environment. -/
structure EnvironmentRow.Identity where
  id : UUID
  projectId : UUID
  key : String

def EnvironmentRow.identity (row : EnvironmentRow) : Identity :=
  ⟨row.id, row.projectId, row.key⟩

/-- What identifies a flag. -/
structure FeatureFlagRow.Identity where
  id : UUID
  projectId : UUID
  key : String
  flagType : FlagType

def FeatureFlagRow.identity (row : FeatureFlagRow) : Identity :=
  ⟨row.id, row.projectId, row.key, row.flagType⟩

/-- What identifies a configuration, its salt included. -/
structure FlagConfigRow.Identity where
  id : UUID
  flagId : UUID
  environmentId : UUID
  salt : String

def FlagConfigRow.identity (row : FlagConfigRow) : Identity :=
  ⟨row.id, row.flagId, row.environmentId, row.salt⟩

/-- **No row is lost or becomes another one.** Rows may be added, and columns that do not
identify a row may change; nothing in the service deletes a row of these tables. -/
structure Database.Grows (s s' : Database) : Prop where
  organizations : s.organizations <+: s'.organizations
  memberships : s.memberships <+: s'.memberships
  projects : s.projects <+: s'.projects
  environments : s.environments.map EnvironmentRow.identity
    <+: s'.environments.map EnvironmentRow.identity
  flags : s.flags.map FeatureFlagRow.identity <+: s'.flags.map FeatureFlagRow.identity
  configs : s.configs.map FlagConfigRow.identity <+: s'.configs.map FlagConfigRow.identity
  versions : s.versions <+: s'.versions
  audits : s.audits <+: s'.audits
  apiKeys : s.apiKeys <+: s'.apiKeys

/-- Nothing changed. -/
theorem Database.Grows.refl (s : Database) : s.Grows s :=
  ⟨List.prefix_rfl, List.prefix_rfl, List.prefix_rfl, List.prefix_rfl, List.prefix_rfl,
    List.prefix_rfl, List.prefix_rfl, List.prefix_rfl, List.prefix_rfl⟩

/-- One change after another. -/
theorem Database.Grows.trans {s s' s'' : Database} (h : s.Grows s') (h' : s'.Grows s'') :
    s.Grows s'' :=
  ⟨h.organizations.trans h'.organizations, h.memberships.trans h'.memberships,
    h.projects.trans h'.projects, h.environments.trans h'.environments, h.flags.trans h'.flags,
    h.configs.trans h'.configs, h.versions.trans h'.versions, h.audits.trans h'.audits,
    h.apiKeys.trans h'.apiKeys⟩

/-- An update in place that keeps the identities. -/
theorem identity_prefix_map {α ι : Type} {identity : α → ι} {g : α → α}
    (h : ∀ row, identity (g row) = identity row) (rows : List α) :
    rows.map identity <+: (rows.map g).map identity := by
  have heq : rows.map identity = (rows.map g).map identity := by
    rw [List.map_map]
    exact List.map_congr_left (fun row _ => (h row).symm)
  exact ⟨[], (List.append_nil _).trans heq⟩

theorem identity_environmentWrite (op : EnvironmentWrite) (rows : List EnvironmentRow) :
    rows.map EnvironmentRow.identity <+: (op.apply rows).map EnvironmentRow.identity := by
  cases op with
  | insert row => exact (List.prefix_append rows [row]).map _
  | increment id => exact identity_prefix_map (fun row => by split <;> rfl) rows
  | setRevision id revision =>
    exact identity_prefix_map (fun row => by split <;> rfl) rows

theorem identity_flagWrite (op : FlagWrite) (rows : List FeatureFlagRow) :
    rows.map FeatureFlagRow.identity <+: (op.apply rows).map FeatureFlagRow.identity := by
  cases op with
  | insert row => exact (List.prefix_append rows [row]).map _
  | setName id name => exact identity_prefix_map (fun row => by split <;> rfl) rows
  | setDescription id text =>
    exact identity_prefix_map (fun row => by split <;> rfl) rows
  | setArchivedAt id at_ =>
    exact identity_prefix_map (fun row => by split <;> rfl) rows

theorem identity_configWrite (op : ConfigWrite) (rows : List FlagConfigRow) :
    rows.map FlagConfigRow.identity <+: (op.apply rows).map FlagConfigRow.identity := by
  cases op with
  | insert row => exact (List.prefix_append rows [row]).map _
  | update id enabled key version =>
    exact identity_prefix_map (fun row => by split <;> rfl) rows

/-- **No write loses a row or makes it another one.** -/
theorem grows_apply (db : Database) (w : Write) : db.Grows (db.apply w) := by
  have h := Database.Grows.refl db
  cases w with
  | organization row => exact { h with organizations := List.prefix_append _ _ }
  | membership row => exact { h with memberships := List.prefix_append _ _ }
  | project row => exact { h with projects := List.prefix_append _ _ }
  | environment op => exact { h with environments := identity_environmentWrite op _ }
  | flag op => exact { h with flags := identity_flagWrite op _ }
  | config op => exact { h with configs := identity_configWrite op _ }
  | child op => exact { h with }
  | version row => exact { h with versions := List.prefix_append _ _ }
  | change op => exact { h with }
  | audit row => exact { h with audits := List.prefix_append _ _ }
  | apiKey row => exact { h with apiKeys := List.prefix_append _ _ }

theorem grows_view (writes : List Write) (db : Database) : db.Grows (service.view writes db) := by
  induction writes generalizing db with
  | nil => exact .refl db
  | cons w writes ih => exact (grows_apply db w).trans (ih (db.apply w))

/-! ## Shapes of writes -/

/-- **One passage through `updateFlag`** that found the expected version: the rows it was given,
the configuration it built, and the choices that its last statement made. Its writes, its
response and its notification are functions of these. -/
structure Update where
  configId : UUID
  /-- The salt of the configuration, which an update keeps. -/
  salt : String
  flag : FeatureFlagRow
  environment : EnvironmentRow
  project : ProjectRow
  payload : FlagUpdate
  /-- What was built from the payload. -/
  compiled : FlagConfiguration
  actorUserId : Option UUID
  actorApiKeyId : Option UUID
  requestId : Option String
  action : String
  /-- The version a rollback goes back to. -/
  sourceVersion : Option ℕ
  /-- What the environment chose at the end: ids of rules, and the clock. -/
  final : Choice

namespace Update

variable (u : Update)

/-- The version an update writes. -/
def version : ℕ := u.payload.expectedVersion + 1

/-- The conditional update. -/
def configWrite : ConfigWrite :=
  .update u.configId u.payload.enabled u.payload.defaultVariation u.version

/-- The statements that run at once. -/
def statements : List Write :=
  [.config u.configWrite, .child (.deleteRollouts u.configId), .child (.deleteStages u.configId),
    .child (.deleteRules u.configId), .child (.deleteVariations u.configId),
    .environment (.increment u.environment.id)]

/-- The child rows of the new version. -/
def children : ChildTables := persistChildren u.final.ids u.configId u.compiled

/-- The stored version. -/
def versionRow : FlagVersionRow :=
  ⟨u.configId, u.version, u.compiled.toConfigurationFields, u.final.now, u.actorUserId,
    u.sourceVersion⟩

/-- The audit event. -/
def auditRow : AuditEventRow :=
  ⟨u.project.organizationId, u.actorUserId, u.actorApiKeyId, u.action, "feature_flag", u.flag.id,
    u.requestId, updateMetadata u.flag.key u.environment.id u.version u.sourceVersion,
    u.final.now⟩

/-- What is pending at the end. -/
def pending : List Write :=
  updatePending u.configId u.flag u.environment u.project u.payload u.compiled u.actorUserId
    u.actorApiKeyId u.requestId u.action u.sourceVersion u.final

end Update

/-- **A round**: an update where there is one, with the assignment of the
revision, and the scheduled change that is marked as applied. -/
structure Round where
  /-- The update of the round, where the change had a configuration. -/
  update : Option Update
  /-- The change that is marked, and when. -/
  applied : Option (UUID × Instant)

/-- What a round runs at once. -/
def Round.statements (r : Round) : List Write := r.update.toList.flatMap Update.statements

/-- What it leaves to the commit. -/
def Round.pending (r : Round) : List Write :=
  r.update.toList.flatMap (fun u => u.pending
    ++ [.environment (.setRevision u.environment.id (u.environment.revision + 1))])
  ++ r.applied.toList.map (fun item => .change (.setAppliedAt item.1 item.2))

/-- The updates of some rounds. -/
def updatesOf (rounds : List Round) : List Update := rounds.filterMap Round.update

/-- The writes of a transaction of rounds: what runs at once, then what was
pending. -/
def roundWrites (rounds : List Round) : List Write :=
  rounds.flatMap Round.statements ++ rounds.flatMap Round.pending

/-- **The writes of `createFlag`.** -/
structure Creation where
  project : ProjectRow
  environment : EnvironmentRow
  payload : FlagCreate
  flagId : UUID
  configId : UUID
  salt : String
  compiled : FlagConfiguration
  actorUserId : Option UUID
  actorApiKeyId : Option UUID
  requestId : Option String
  final : Choice

namespace Creation

variable (k : Creation)

def flag : FeatureFlagRow :=
  ⟨k.flagId, k.project.id, k.payload.key, k.payload.name, k.payload.description,
    k.payload.flagType, none⟩

def configRow : FlagConfigRow :=
  ⟨k.configId, k.flagId, k.environment.id, k.payload.enabled, k.payload.defaultVariation, 1,
    k.salt⟩

def children : ChildTables := persistChildren k.final.ids k.configId k.compiled

def versionRow : FlagVersionRow :=
  ⟨k.configId, 1, k.compiled.toConfigurationFields, k.final.now, k.actorUserId, none⟩

def auditRow : AuditEventRow :=
  ⟨k.project.organizationId, k.actorUserId, k.actorApiKeyId, "flag.created", "feature_flag",
    k.flagId, k.requestId, [("flag_key", .str k.payload.key),
      ("environment_id", .str k.environment.id.str), ("version", .int 1)], k.final.now⟩

def writes : List Write :=
  [.flag (.insert k.flag), .config (.insert k.configRow), .child (.insert k.children),
    .version k.versionRow, .audit k.auditRow,
    .environment (.setRevision k.environment.id (k.environment.revision + 1))]

end Creation

/-- **The writes of `archiveFlag`**: `touched` are the configurations it read
with their environments. -/
structure Archiving where
  project : ProjectRow
  flag : FeatureFlagRow
  touched : List (FlagConfigRow × EnvironmentRow)
  actorUserId : Option UUID
  actorApiKeyId : Option UUID
  requestId : Option String
  now : Instant

namespace Archiving

variable (a : Archiving)

def auditRow : AuditEventRow :=
  ⟨a.project.organizationId, a.actorUserId, a.actorApiKeyId, "flag.deleted", "feature_flag",
    a.flag.id, a.requestId, [("flag_key", .str a.flag.key), ("archived", .bool true)], a.now⟩

def writes : List Write :=
  .flag (.setArchivedAt a.flag.id a.now)
    :: a.touched.map (fun item => .environment (.setRevision item.2.id (item.2.revision + 1)))
    ++ [.audit a.auditRow]

end Archiving

/-- A write that touches no flag and no configuration, and records no version. -/
def Write.isPlain : Write → Bool
  | .organization _ | .membership _ | .project _ | .environment (.insert _)
  | .change (.insert _) | .apiKey _ => true
  | .audit row => row.resourceType ≠ "feature_flag"
  | _ => false

/-- **What a transaction writes, as data.** The writes of a transaction come from a few places
of the source, and there are as many kinds of effects: some rounds, a creation, an archiving, or
rows that are no configurations. Statements about commits are case distinctions on it and not on
the endpoints. -/
inductive Effect where
  /-- One update, or the rounds of the scheduler. -/
  | rounds (rs : List Round)
  | creation (k : Creation)
  | archiving (a : Archiving)
  /-- Writes that touch no flag and no configuration. -/
  | plain (writes : List Write)

/-- The writes of a shape. -/
def Effect.writes : Effect → List Write
  | .rounds rs => roundWrites rs
  | .creation k => k.writes
  | .archiving a => a.writes
  | .plain ws => ws

/-! ## The tables after a transaction -/

section Rounds

variable (rounds : List Round)

theorem filterMap_statements {κ : Type} (op : Write → Option κ) :
    (rounds.flatMap Round.statements).filterMap op
      = (updatesOf rounds).flatMap (fun u => u.statements.filterMap op) := by
  unfold updatesOf
  induction rounds with
  | nil => rfl
  | cons r rounds ih =>
    rw [List.flatMap_cons, List.filterMap_append, ih, List.filterMap_cons]
    unfold Round.statements
    cases r.update with
    | none => rfl
    | some u => simp

/-- Rounds project to what their updates project to. -/
theorem filterMap_rounds {κ : Type} {op : Write → Option κ}
    (hset : ∀ id n, op (.environment (.setRevision id n)) = none)
    (happlied : ∀ id t, op (.change (.setAppliedAt id t)) = none) :
    (roundWrites rounds).filterMap op
      = (updatesOf rounds).flatMap (fun u => u.statements.filterMap op)
        ++ (updatesOf rounds).flatMap (fun u => u.pending.filterMap op) := by
  unfold roundWrites
  rw [List.filterMap_append, filterMap_statements]
  congr 1
  unfold updatesOf
  induction rounds with
  | nil => rfl
  | cons r rounds ih =>
    rw [List.flatMap_cons, List.filterMap_append, ih, List.filterMap_cons]
    unfold Round.pending
    have hmark : (r.applied.toList.map (fun item =>
        Write.change (.setAppliedAt item.1 item.2))).filterMap op = [] := by
      cases r.applied with
      | none => rfl
      | some item => simp [happlied]
    rw [List.filterMap_append, hmark, List.append_nil]
    cases r.update with
    | none => rfl
    | some u => simp [hset]

end Rounds

end CohortSwitch
