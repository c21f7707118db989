import CohortSwitch.RowOrder
import CohortSwitch.Transactions

/-!
# The database

The tables of the service, the statements that write to them, and the
constraints PostgreSQL enforces. A `Write` is one statement of a transaction
on one table, or on the child tables of a configuration; `Write.locks` are the
rows it keeps locked until the transaction ends. An update locks the row it
changes and an insertion none, which is what makes two updates of one row wait
for each other and lets two insertions pass.

## Constraints

`Database.Consistent` is the conjunction of primary keys, unique constraints and
foreign keys, and `Database.ok` decides it. A commit asks for it of the state it
leads to (`System.step`), so a duplicate key or a dangling reference is a commit
that has no step. What the code checks before is not repeated here: a race that
its checks miss runs into a constraint, and the theorems that need a key to be
unique take it from there.

## What is left open

What a query leaves open is a `Choice`: the order of the rows it returns, the
random identifiers and the clock, and the order in which a JSON column gives
back the keys of its objects. A transaction of the service is a `Tx`, a program
on these tables; `select`, `selectAll`, `execute` and `flush` are the statements
it is made of.
-/

namespace CohortSwitch

/-! ## Tables -/

/-- A tenant. -/
structure OrganizationRow where
  id : UUID
  name : String
  slug : String

/-- A user of an organization, with a role. -/
structure MembershipRow where
  organizationId : UUID
  userId : UUID
  role : String

/-- **The snapshot of one version**: the configuration as it was compiled, kept for good. -/
structure FlagVersionRow where
  configId : UUID
  version : ℕ
  snapshot : ConfigurationFields
  createdAt : Instant
  createdById : Option UUID
  sourceVersion : Option ℕ

/-- A change for later. It is due from its instant on, until it is marked as applied. -/
structure ScheduledChangeRow where
  id : UUID
  configId : UUID
  changeType : String
  payload : Dict Json
  activateAt : Instant
  appliedAt : Option Instant
  createdById : Option UUID

/-- One event of the audit log, written by the transaction that made the change. -/
structure AuditEventRow where
  organizationId : UUID
  actorUserId : Option UUID
  actorApiKeyId : Option UUID
  action : String
  resourceType : String
  resourceId : UUID
  requestId : Option String
  metadata : List (String × Json)
  createdAt : Instant

/-- An API key, by the hash of its secret and the ids it is confined to. -/
structure APIKeyRow where
  id : UUID
  organizationId : UUID
  projectId : Option UUID
  environmentId : Option UUID
  name : String
  kind : String
  keyPrefix : String
  keyHash : String
  scopes : List String
  revokedAt : Option Instant
  createdById : Option UUID

/-- **The committed tables.** Users and tokens have tables of their own (`CohortSwitch.Auth`),
and so has the usage of a key (`CohortSwitch.KeyUsage`): no transaction here touches them. -/
structure Database where
  organizations : List OrganizationRow
  memberships : List MembershipRow
  projects : List ProjectRow
  environments : List EnvironmentRow
  flags : List FeatureFlagRow
  configs : List FlagConfigRow
  children : ChildTables
  versions : List FlagVersionRow
  changes : List ScheduledChangeRow
  audits : List AuditEventRow
  apiKeys : List APIKeyRow

/-! ## Statements that write -/

/-- Statements on environments. -/
inductive EnvironmentWrite where
  | insert (row : EnvironmentRow)
  /-- `UPDATE … SET revision = revision + 1`. -/
  | increment (id : UUID)
  /-- The value of an assigned attribute. -/
  | setRevision (id : UUID) (revision : ℕ)

/-- Statements on flags, one for each attribute that is assigned. -/
inductive FlagWrite where
  | insert (row : FeatureFlagRow)
  | setName (id : UUID) (name : String)
  | setDescription (id : UUID) (description : String)
  | setArchivedAt (id : UUID) (at_ : Instant)

/-- Statements on configurations. -/
inductive ConfigWrite where
  | insert (row : FlagConfigRow)
  /-- The conditional update of `update_flag`, on the row it matched. -/
  | update (id : UUID) (enabled : Bool) (defaultVariationKey : String) (currentVersion : ℕ)

/-- Statements on the child tables. -/
inductive ChildWrite where
  | insert (rows : ChildTables)
  | deleteRollouts (configId : UUID)
  | deleteStages (configId : UUID)
  /-- The rows of the rules go with them: `ON DELETE CASCADE`. -/
  | deleteRules (configId : UUID)
  | deleteVariations (configId : UUID)

/-- Statements on scheduled changes. -/
inductive ChangeWrite where
  | insert (row : ScheduledChangeRow)
  | setAppliedAt (id : UUID) (at_ : Instant)

/-- **A statement that writes.** -/
inductive Write where
  | organization (row : OrganizationRow)
  | membership (row : MembershipRow)
  | project (row : ProjectRow)
  | environment (op : EnvironmentWrite)
  | flag (op : FlagWrite)
  | config (op : ConfigWrite)
  | child (op : ChildWrite)
  | version (row : FlagVersionRow)
  | change (op : ChangeWrite)
  | audit (row : AuditEventRow)
  | apiKey (row : APIKeyRow)

/-- A row a statement may lock. -/
inductive Row where
  | environment (id : UUID)
  | flag (id : UUID)
  | config (id : UUID)
  | change (id : UUID)
deriving DecidableEq

/-- The rows an update locks. A deletion of children locks rows that nothing else asks for, so
they are left out. -/
def Write.locks : Write → List Row
  | .environment (.increment id) | .environment (.setRevision id _) => [.environment id]
  | .flag (.setName id _) | .flag (.setDescription id _) | .flag (.setArchivedAt id _) =>
    [.flag id]
  | .config (.update id _ _ _) => [.config id]
  | .change (.setAppliedAt id _) => [.change id]
  | _ => []

/-- What such a statement does to the rows of environments. -/
def EnvironmentWrite.apply (op : EnvironmentWrite) (rows : List EnvironmentRow) :
    List EnvironmentRow :=
  match op with
  | .insert row => rows ++ [row]
  | .increment id =>
    rows.map (fun row => if row.id = id then { row with revision := row.revision + 1 } else row)
  | .setRevision id revision =>
    rows.map (fun row => if row.id = id then { row with revision } else row)

/-- And to the rows of flags. -/
def FlagWrite.apply (op : FlagWrite) (rows : List FeatureFlagRow) : List FeatureFlagRow :=
  match op with
  | .insert row => rows ++ [row]
  | .setName id name => rows.map (fun row => if row.id = id then { row with name } else row)
  | .setDescription id description =>
    rows.map (fun row => if row.id = id then { row with description } else row)
  | .setArchivedAt id at_ =>
    rows.map (fun row => if row.id = id then { row with archivedAt := some at_ } else row)

/-- And to the rows of configurations. -/
def ConfigWrite.apply (op : ConfigWrite) (rows : List FlagConfigRow) : List FlagConfigRow :=
  match op with
  | .insert row => rows ++ [row]
  | .update id enabled defaultVariationKey currentVersion =>
    rows.map (fun row =>
      if row.id = id then { row with enabled, defaultVariationKey, currentVersion } else row)

/-- The ids of the rules of a configuration. -/
def ChildTables.ruleIds (tables : ChildTables) (configId : UUID) : List UUID :=
  (tables.rules.filter (fun row => row.configId = configId)).map TargetingRuleRow.id

/-- A row belongs to one of the rules. -/
def Parent.isRuleOf (ids : List UUID) : Parent → Bool
  | .rule id => id ∈ ids
  | .config _ => false

/-- And to the child tables. -/
def ChildWrite.apply (op : ChildWrite) (tables : ChildTables) : ChildTables :=
  match op with
  | .insert rows => tables.append rows
  | .deleteRollouts configId =>
    { tables with
      rollouts := tables.rollouts.filter (fun row => row.parent ≠ .config configId) }
  | .deleteStages configId =>
    { tables with
      progressiveStages :=
        tables.progressiveStages.filter (fun row => row.parent ≠ .config configId) }
  | .deleteRules configId =>
    let ids := tables.ruleIds configId
    { tables with
      rules := tables.rules.filter (fun row => row.configId ≠ configId)
      conditions := tables.conditions.filter (fun row => row.ruleId ∉ ids)
      rollouts := tables.rollouts.filter (fun row => ¬ row.parent.isRuleOf ids)
      progressiveStages :=
        tables.progressiveStages.filter (fun row => ¬ row.parent.isRuleOf ids) }
  | .deleteVariations configId =>
    { tables with variations := tables.variations.filter (fun row => row.configId ≠ configId) }

/-- And to scheduled changes. -/
def ChangeWrite.apply (op : ChangeWrite) (rows : List ScheduledChangeRow) :
    List ScheduledChangeRow :=
  match op with
  | .insert row => rows ++ [row]
  | .setAppliedAt id at_ =>
    rows.map (fun row => if row.id = id then { row with appliedAt := some at_ } else row)

/-- **The effect of a statement.** -/
def Database.apply (db : Database) : Write → Database
  | .organization row => { db with organizations := db.organizations ++ [row] }
  | .membership row => { db with memberships := db.memberships ++ [row] }
  | .project row => { db with projects := db.projects ++ [row] }
  | .environment op => { db with environments := op.apply db.environments }
  | .flag op => { db with flags := op.apply db.flags }
  | .config op => { db with configs := op.apply db.configs }
  | .child op => { db with children := op.apply db.children }
  | .version row => { db with versions := db.versions ++ [row] }
  | .change op => { db with changes := op.apply db.changes }
  | .audit row => { db with audits := db.audits ++ [row] }
  | .apiKey row => { db with apiKeys := db.apiKeys ++ [row] }

/-! ## Constraints -/

/-- The parent of a rollout or a stage exists. -/
def Database.HasParent (db : Database) : Parent → Prop
  | .config id => id ∈ db.configs.map FlagConfigRow.id
  | .rule id => id ∈ db.children.rules.map TargetingRuleRow.id

instance (db : Database) : DecidablePred db.HasParent := fun parent => by
  cases parent <;> exact inferInstanceAs (Decidable (_ ∈ _))

/-- The primary keys and the unique constraints, one field for each. -/
structure Database.Keys (db : Database) : Prop where
  organizationIds : (db.organizations.map OrganizationRow.id).Nodup
  organizationSlugs : (db.organizations.map OrganizationRow.slug).Nodup
  membershipPairs : (db.memberships.map (fun row => (row.organizationId, row.userId))).Nodup
  projectIds : (db.projects.map ProjectRow.id).Nodup
  projectSlugs : (db.projects.map (fun row => (row.organizationId, row.slug))).Nodup
  environmentIds : (db.environments.map EnvironmentRow.id).Nodup
  environmentKeys : (db.environments.map (fun row => (row.projectId, row.key))).Nodup
  flagIds : (db.flags.map FeatureFlagRow.id).Nodup
  flagKeys : (db.flags.map (fun row => (row.projectId, row.key))).Nodup
  configIds : (db.configs.map FlagConfigRow.id).Nodup
  configPairs : (db.configs.map (fun row => (row.flagId, row.environmentId))).Nodup
  variationKeys : (db.children.variations.map (fun row => (row.configId, row.key))).Nodup
  ruleIds : (db.children.rules.map TargetingRuleRow.id).Nodup
  rulePriorities : (db.children.rules.map (fun row => (row.configId, row.priority))).Nodup
  versionNumbers : (db.versions.map (fun row => (row.configId, row.version))).Nodup
  changeIds : (db.changes.map ScheduledChangeRow.id).Nodup
  apiKeyIds : (db.apiKeys.map APIKeyRow.id).Nodup
  apiKeyHashes : (db.apiKeys.map APIKeyRow.keyHash).Nodup

/-- The foreign keys: what a row refers to is there. -/
structure Database.References (db : Database) : Prop where
  membershipOrganizations : ∀ row ∈ db.memberships,
    row.organizationId ∈ db.organizations.map OrganizationRow.id
  projectOrganizations : ∀ row ∈ db.projects,
    row.organizationId ∈ db.organizations.map OrganizationRow.id
  environmentProjects : ∀ row ∈ db.environments,
    row.projectId ∈ db.projects.map ProjectRow.id
  flagProjects : ∀ row ∈ db.flags, row.projectId ∈ db.projects.map ProjectRow.id
  configFlags : ∀ row ∈ db.configs, row.flagId ∈ db.flags.map FeatureFlagRow.id
  configEnvironments : ∀ row ∈ db.configs,
    row.environmentId ∈ db.environments.map EnvironmentRow.id
  variationConfigs : ∀ row ∈ db.children.variations,
    row.configId ∈ db.configs.map FlagConfigRow.id
  ruleConfigs : ∀ row ∈ db.children.rules, row.configId ∈ db.configs.map FlagConfigRow.id
  conditionRules : ∀ row ∈ db.children.conditions,
    row.ruleId ∈ db.children.rules.map TargetingRuleRow.id
  rolloutParents : ∀ row ∈ db.children.rollouts, db.HasParent row.parent
  stageParents : ∀ row ∈ db.children.progressiveStages, db.HasParent row.parent
  versionConfigs : ∀ row ∈ db.versions, row.configId ∈ db.configs.map FlagConfigRow.id
  changeConfigs : ∀ row ∈ db.changes, row.configId ∈ db.configs.map FlagConfigRow.id
  apiKeyOrganizations : ∀ row ∈ db.apiKeys,
    row.organizationId ∈ db.organizations.map OrganizationRow.id
  apiKeyProjects : ∀ row ∈ db.apiKeys, ∀ id ∈ row.projectId.toList,
    id ∈ db.projects.map ProjectRow.id
  apiKeyEnvironments : ∀ row ∈ db.apiKeys, ∀ id ∈ row.environmentId.toList,
    id ∈ db.environments.map EnvironmentRow.id

/-- **The constraints of the schema.** -/
structure Database.Consistent (db : Database) : Prop where
  keys : db.Keys
  references : db.References

instance (db : Database) : Decidable db.Keys :=
  decidable_of_iff
    (((db.organizations.map OrganizationRow.id).Nodup)
      ∧ ((db.organizations.map OrganizationRow.slug).Nodup)
      ∧ ((db.memberships.map (fun row => (row.organizationId, row.userId))).Nodup)
      ∧ ((db.projects.map ProjectRow.id).Nodup)
      ∧ ((db.projects.map (fun row => (row.organizationId, row.slug))).Nodup)
      ∧ ((db.environments.map EnvironmentRow.id).Nodup)
      ∧ ((db.environments.map (fun row => (row.projectId, row.key))).Nodup)
      ∧ ((db.flags.map FeatureFlagRow.id).Nodup)
      ∧ ((db.flags.map (fun row => (row.projectId, row.key))).Nodup)
      ∧ ((db.configs.map FlagConfigRow.id).Nodup)
      ∧ ((db.configs.map (fun row => (row.flagId, row.environmentId))).Nodup)
      ∧ ((db.children.variations.map (fun row => (row.configId, row.key))).Nodup)
      ∧ ((db.children.rules.map TargetingRuleRow.id).Nodup)
      ∧ ((db.children.rules.map (fun row => (row.configId, row.priority))).Nodup)
      ∧ ((db.versions.map (fun row => (row.configId, row.version))).Nodup)
      ∧ ((db.changes.map ScheduledChangeRow.id).Nodup)
      ∧ ((db.apiKeys.map APIKeyRow.id).Nodup)
      ∧ ((db.apiKeys.map APIKeyRow.keyHash).Nodup))
    ⟨fun ⟨a, b, c, d, e, f, g, h, i, j, k, l, m, n, o, p, q, r⟩ =>
      ⟨a, b, c, d, e, f, g, h, i, j, k, l, m, n, o, p, q, r⟩,
    fun ⟨a, b, c, d, e, f, g, h, i, j, k, l, m, n, o, p, q, r⟩ =>
      ⟨a, b, c, d, e, f, g, h, i, j, k, l, m, n, o, p, q, r⟩⟩

instance (db : Database) : Decidable db.References :=
  decidable_of_iff
    ((∀ row ∈ db.memberships,
      row.organizationId ∈ db.organizations.map OrganizationRow.id)
      ∧ (∀ row ∈ db.projects,
      row.organizationId ∈ db.organizations.map OrganizationRow.id)
      ∧ (∀ row ∈ db.environments,
      row.projectId ∈ db.projects.map ProjectRow.id)
      ∧ (∀ row ∈ db.flags, row.projectId ∈ db.projects.map ProjectRow.id)
      ∧ (∀ row ∈ db.configs, row.flagId ∈ db.flags.map FeatureFlagRow.id)
      ∧ (∀ row ∈ db.configs,
      row.environmentId ∈ db.environments.map EnvironmentRow.id)
      ∧ (∀ row ∈ db.children.variations,
      row.configId ∈ db.configs.map FlagConfigRow.id)
      ∧ (∀ row ∈ db.children.rules, row.configId ∈ db.configs.map FlagConfigRow.id)
      ∧ (∀ row ∈ db.children.conditions,
      row.ruleId ∈ db.children.rules.map TargetingRuleRow.id)
      ∧ (∀ row ∈ db.children.rollouts, db.HasParent row.parent)
      ∧ (∀ row ∈ db.children.progressiveStages, db.HasParent row.parent)
      ∧ (∀ row ∈ db.versions, row.configId ∈ db.configs.map FlagConfigRow.id)
      ∧ (∀ row ∈ db.changes, row.configId ∈ db.configs.map FlagConfigRow.id)
      ∧ (∀ row ∈ db.apiKeys,
      row.organizationId ∈ db.organizations.map OrganizationRow.id)
      ∧ (∀ row ∈ db.apiKeys, ∀ id ∈ row.projectId.toList,
      id ∈ db.projects.map ProjectRow.id)
      ∧ (∀ row ∈ db.apiKeys, ∀ id ∈ row.environmentId.toList,
      id ∈ db.environments.map EnvironmentRow.id))
    ⟨fun ⟨a, b, c, d, e, f, g, h, i, j, k, l, m, n, o, p⟩ =>
      ⟨a, b, c, d, e, f, g, h, i, j, k, l, m, n, o, p⟩,
    fun ⟨a, b, c, d, e, f, g, h, i, j, k, l, m, n, o, p⟩ =>
      ⟨a, b, c, d, e, f, g, h, i, j, k, l, m, n, o, p⟩⟩

instance (db : Database) : Decidable db.Consistent :=
  decidable_of_iff (db.Keys ∧ db.References) ⟨fun ⟨a, b⟩ => ⟨a, b⟩, fun ⟨a, b⟩ => ⟨a, b⟩⟩

/-- The database accepts the state. It is computed, so that a run on fixed tables can be
decided. -/
def Database.ok (db : Database) : Bool := decide db.Consistent

/-- What is accepted is consistent. -/
theorem Database.consistent_of_ok {db : Database} (h : db.ok = true) : db.Consistent :=
  of_decide_eq_true h

/-! ## What is left open -/

/-- What a JSON column makes of the snapshots it holds: the keys of objects
may come back in another order. -/
structure JsonColumn where
  read : ConfigurationFields → ConfigurationFields
  reordered : ∀ c : ConfigurationFields, c.Rearranged Json.Reordered Eq (read c)

/-- A column that gives back what was stored. -/
def JsonColumn.plain : JsonColumn where
  read := fun c => c
  reordered := ConfigurationFields.Rearranged.refl Json.Reordered.refl (fun _ => rfl)

/-- **What is up to the environment** in one statement. -/
structure Choice where
  /-- The order in which the rows come. -/
  order : List ℕ
  /-- The random identifiers, `uuid4`. -/
  ids : ℕ → UUID
  /-- The random text of `secrets`. -/
  secret : String
  /-- The clock. -/
  now : Instant
  /-- How a JSON column reads. -/
  column : JsonColumn

/-- A transaction of the service: a program that sees the tables, writes them and raises the
exceptions of the service. -/
abbrev Tx (α : Type) := Prog (View Database Row Choice) Write Row PyError α

/-- One row, or none: `session.get` and `session.scalar(select(…))`. -/
def select {α : Type} (query : Database → α) : Tx α :=
  Prog.read (fun v => query v.state)

/-- The rows of a query, in the order they come. -/
def selectAll {α : Type} (query : Database → List α) : Tx (List α) :=
  Prog.read (fun v => arrange v.choice.order (query v.state))

/-- What the environment chooses. -/
def choose : Tx Choice := Prog.read View.choice

/-- A statement that writes, and what it returns. -/
def execute {α : Type} (writes : Database → List Write) (returning : Database → α) : Tx α :=
  .statement (fun v => (writes v.state).flatMap Write.locks) (fun v => writes v.state)
    (fun v => .ret (returning v.state))

/-- The flush of a session: the statements of everything that is pending. None
of them reads, so nothing that comes between them is noticed. -/
def flush (pending : List Write) : Tx Unit :=
  execute (fun _ => pending) (fun _ => ())

/-- The exceptions of the service end a transaction. -/
def Tx.raiseIf (condition : Prop) [Decidable condition] (error : PyError) : Tx Unit :=
  Prog.attempt (CohortSwitch.raiseIf condition error)

end CohortSwitch
