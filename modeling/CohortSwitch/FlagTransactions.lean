import CohortSwitch.Access
import CohortSwitch.Timestamps

/-!
# The transactions on flags

The management endpoints that write flags, statement by statement. Each of
them authorizes the principal, reads what it needs, runs `createFlag` or
`updateFlag`, and commits: what the session holds pending is flushed then, the
rows given to `session.add` and the attributes assigned to loaded rows.

Where a statement runs decides what it may miss. What is pending is not seen by
any SELECT of another transaction before the commit, and a row that was read
keeps the attributes it was read with, however long ago; so a value that is
assigned from one that was read may overwrite what was committed in between. The
blocks below keep each assignment and each flush where the source has it.

## One place where a configuration changes

`updateFlag` is the one place where a configuration changes. Its conditional
update takes the lock of the configuration row and compares the version; it
deletes the children of the old version at once and leaves those of the new
one pending. Every endpoint that changes a flag, and the scheduler, goes through
it: what is proved of it once holds of all of them.

## Results

A transaction returns an `Outcome`: the responses, and what is to be published
once it has committed. Nothing is published by a transaction that rolls back.
-/

namespace CohortSwitch

/-! ## Results -/

/-- What a committed write gives to `invalidate_and_publish`. -/
structure Notification where
  projectId : UUID
  environmentId : UUID
  flagKey : String
  event : String
  version : ℕ
  revision : ℕ

/-- **What a committed transaction returns**: the new configurations, and what
is published. -/
structure Outcome where
  responses : List FlagResponse
  notifications : List Notification

/-- What a flag that is absent, archived or not the caller's is answered with. -/
def flagNotFound : PyError :=
  .apiError 404 "flag_not_found" "Feature flag was not found." []

/-- `record_audit`. -/
def recordAudit (organizationId : UUID) (action resourceType : String) (resourceId : UUID)
    (requestId : Option String) (actorUserId actorApiKeyId : Option UUID)
    (metadata : List (String × Json)) (now : Instant) : Write :=
  .audit ⟨organizationId, actorUserId, actorApiKeyId, action, resourceType, resourceId, requestId,
    metadata, now⟩

/-! ## Reading a configuration -/

/-- The rows the main SELECT of a configuration joins. -/
def Database.joined (db : Database) (row : FlagConfigRow) :
    Option (FlagConfigRow × FeatureFlagRow × EnvironmentRow) := do
  let flag ← db.flags.find? (fun flag => flag.id = row.flagId)
  let environment ← db.environments.find? (fun environment => environment.id = row.environmentId)
  pure (row, flag, environment)

/-- `selectinload` of each relation: one SELECT per collection, and for the
children of the rules one SELECT per relation over all rules that were
loaded. -/
def loadCollections (row : FlagConfigRow) (flag : FeatureFlagRow)
    (environment : EnvironmentRow) : Tx LoadedConfig := do
  let variations ← selectAll (fun db =>
    db.children.variations.filter (fun item => item.configId = row.id))
  let rollouts ← selectAll (fun db =>
    db.children.rollouts.filter (fun item => item.parent = .config row.id))
  let progressiveStages ← selectAll (fun db =>
    db.children.progressiveStages.filter (fun item => item.parent = .config row.id))
  let rules ← selectAll (fun db =>
    db.children.rules.filter (fun item => item.configId = row.id))
  let conditions ← selectAll (fun db =>
    db.children.conditions.filter (fun item => item.ruleId ∈ rules.map TargetingRuleRow.id))
  let ruleRollouts ← selectAll (fun db =>
    db.children.rollouts.filter (fun item =>
      item.parent.isRuleOf (rules.map TargetingRuleRow.id)))
  let ruleStages ← selectAll (fun db =>
    db.children.progressiveStages.filter (fun item =>
      item.parent.isRuleOf (rules.map TargetingRuleRow.id)))
  pure {
    row, flag, environment, variations, rollouts, progressiveStages
    rules := rules.map (fun rule => {
      row := rule
      conditions := conditions.filter (fun item => item.ruleId = rule.id)
      rollouts := ruleRollouts.filter (fun item => item.parent = .rule rule.id)
      progressiveStages := ruleStages.filter (fun item => item.parent = .rule rule.id) }) }

/-- The main SELECT of `get_config_by_flag_environment`. -/
def Database.configOfFlag (db : Database) (flagId environmentId : UUID) :
    Option (FlagConfigRow × FeatureFlagRow × EnvironmentRow) := do
  let row ← db.configs.find? (fun row => row.flagId = flagId ∧ row.environmentId = environmentId)
  db.joined row

/-- `get_config_by_flag_environment`. -/
def getConfigByFlagEnvironment (flagId environmentId : UUID) : Tx LoadedConfig := do
  let found ← select (fun db => db.configOfFlag flagId environmentId)
  match found with
  | none => .raise flagNotFound
  | some (row, flag, environment) => do
    let config ← loadCollections row flag environment
    if config.flag.archivedAt.isSome then .raise flagNotFound
    else pure config

/-- The main SELECT of `get_config_by_key`. -/
def Database.configOfKey (db : Database) (projectId environmentId : UUID) (flagKey : String) :
    Option (FlagConfigRow × FeatureFlagRow × EnvironmentRow) :=
  (db.configs.filterMap db.joined).find? (fun item =>
    item.2.1.projectId = projectId ∧ item.2.1.key = flagKey ∧ item.2.1.archivedAt = none
      ∧ item.1.environmentId = environmentId)

/-- `get_config_by_key`. -/
def getConfigByKey (projectId environmentId : UUID) (flagKey : String) :
    Tx FlagConfiguration := do
  let found ← select (fun db => db.configOfKey projectId environmentId flagKey)
  match found with
  | none => .raise flagNotFound
  | some (row, flag, environment) => do
    let config ← loadCollections row flag environment
    Prog.attempt (compileConfiguration config)

/-! ## Creating a flag -/

/-- **`create_flag`**, up to the commit: the response, and what is pending. The flag and its
configuration are flushed on the way, so a key that was taken in the meantime is refused by the
database there. -/
def createFlag (project : ProjectRow) (environment : EnvironmentRow) (payload : FlagCreate)
    (actorUserId actorApiKeyId : Option UUID) (requestId : Option String) :
    Tx (FlagResponse × List Write) := do
  Tx.raiseIf (environment.projectId ≠ project.id)
    (.apiError 404 "environment_not_found" "Environment was not found." [])
  let existing ← select (fun db =>
    db.flags.find? (fun row => row.projectId = project.id ∧ row.key = payload.key))
  Tx.raiseIf (existing.isSome = true)
    (.apiError 409 "flag_key_exists" "A flag with this immutable key already exists." [])
  let chosen ← choose
  let flag : FeatureFlagRow := ⟨chosen.ids 0, project.id, payload.key, payload.name,
    payload.description, payload.flagType, none⟩
  flush [.flag (.insert flag)]
  let salted ← choose
  let compiled ← Prog.attempt
    (buildConfiguration project.id environment flag payload.toFlagContent 1 salted.secret)
  let config : FlagConfigRow := ⟨salted.ids 0, flag.id, environment.id, payload.enabled,
    payload.defaultVariation, 1, salted.secret⟩
  flush [.config (.insert config)]
  let final ← choose
  let result ← Prog.attempt (response flag compiled)
  pure (result, [
    .child (.insert (persistChildren final.ids config.id compiled)),
    .version ⟨config.id, 1, compiled.toConfigurationFields, final.now, actorUserId, none⟩,
    recordAudit project.organizationId "flag.created" "feature_flag" flag.id requestId
      actorUserId actorApiKeyId
      [("flag_key", .str flag.key), ("environment_id", .str environment.id.str),
        ("version", .int 1)] final.now,
    .environment (.setRevision environment.id (environment.revision + 1))])

/-- `create_feature_flag`. The revision it publishes is the one it read plus one. -/
def createFeatureFlag (principal : Principal) (requestId : Option String) (projectId : UUID)
    (payload : FlagCreate) : Tx Outcome := do
  let (project, _) ← authorizeProject principal projectId .flagWrite
  let (environment, _, _) ←
    authorizeEnvironment principal payload.environmentId .flagWrite
  let (result, pending) ← createFlag project environment payload principal.userId
    principal.apiKeyId requestId
  flush pending
  pure ⟨[result], [⟨project.id, environment.id, result.key, "flag.created",
    result.currentVersion, environment.revision + 1⟩]⟩

/-! ## Updating a flag -/

/-- The row a conditional update matches: it has the expected version. -/
def Database.matchesVersion (db : Database) (configId : UUID) (expectedVersion : ℕ) : Bool :=
  db.configs.any (fun row => row.id = configId ∧ row.currentVersion = expectedVersion)

/-- The conditional update. It says whether it matched a row, and the row it matched is locked
from there to the end. -/
def compareAndSwap (configId : UUID) (payload : FlagUpdate) : Tx Bool :=
  execute
    (fun db => if db.matchesVersion configId payload.expectedVersion then
        [.config (.update configId payload.enabled payload.defaultVariation
          (payload.expectedVersion + 1))]
      else [])
    (fun db => db.matchesVersion configId payload.expectedVersion)

/-- `_delete_children`. -/
def deleteChildren (configId : UUID) : Tx Unit := do
  execute (fun _ => [.child (.deleteRollouts configId)]) (fun _ => ())
  execute (fun _ => [.child (.deleteStages configId)]) (fun _ => ())
  execute (fun _ => [.child (.deleteRules configId)]) (fun _ => ())
  execute (fun _ => [.child (.deleteVariations configId)]) (fun _ => ())

/-- The metadata of the audit event of an update. -/
def updateMetadata (flagKey : String) (environmentId : UUID) (version : ℕ)
    (sourceVersion : Option ℕ) : List (String × Json) :=
  [("flag_key", .str flagKey), ("environment_id", .str environmentId.str),
    ("version", .int version)]
  ++ match sourceVersion with
    | some source => if source ≠ 0 then [("source_version", .int source)] else []
    | none => []

/-- What an update leaves pending. -/
def updatePending (configId : UUID) (flag : FeatureFlagRow) (environment : EnvironmentRow)
    (project : ProjectRow) (payload : FlagUpdate) (compiled : FlagConfiguration)
    (actorUserId actorApiKeyId : Option UUID) (requestId : Option String) (action : String)
    (sourceVersion : Option ℕ) (final : Choice) : List Write :=
  payload.name.toList.map (fun name => .flag (.setName flag.id name))
  ++ payload.description.toList.map (fun text => .flag (.setDescription flag.id text))
  ++ [
    .child (.insert (persistChildren final.ids configId compiled)),
    .version ⟨configId, payload.expectedVersion + 1, compiled.toConfigurationFields, final.now,
      actorUserId, sourceVersion⟩,
    recordAudit project.organizationId action "feature_flag" flag.id requestId actorUserId
      actorApiKeyId
      (updateMetadata flag.key environment.id (payload.expectedVersion + 1) sourceVersion)
      final.now]

/-- **`update_flag`**, up to the commit: the response, and what is pending.
`known` is the configuration where the session has loaded it before: a SELECT
does not change the attributes of a loaded row. -/
def updateFlag (known : Option FlagConfigRow) (flag : FeatureFlagRow)
    (environment : EnvironmentRow) (project : ProjectRow) (payload : FlagUpdate)
    (actorUserId actorApiKeyId : Option UUID) (requestId : Option String) (action : String)
    (sourceVersion : Option ℕ) : Tx (FlagResponse × List Write) := do
  let found ← select (fun db => db.configs.find? (fun row =>
    row.flagId = flag.id ∧ row.environmentId = environment.id))
  match found with
  | none => .raise flagNotFound
  | some row =>
    if flag.archivedAt.isSome then .raise flagNotFound
    else do
      let config := known.getD row
      let compiled ← Prog.attempt (buildConfiguration project.id environment flag
        payload.toFlagContent (payload.expectedVersion + 1) config.salt)
      let updated ← compareAndSwap config.id payload
      if updated then do
        let renamed := { flag with
          name := payload.name.getD flag.name
          description := payload.description.getD flag.description }
        deleteChildren config.id
        let final ← choose
        execute (fun _ => [.environment (.increment environment.id)]) (fun _ => ())
        let result ← Prog.attempt (response renamed compiled)
        pure (result, updatePending config.id flag environment project payload compiled
          actorUserId actorApiKeyId requestId action sourceVersion final)
      else do
        let currentVersion ← select (fun db =>
          (db.configs.find? (fun row => row.id = config.id)).map FlagConfigRow.currentVersion)
        .raise (.apiError 409 "configuration_conflict"
          "The flag configuration was changed by another writer."
          [("current_version", currentVersion.elim .null (fun version => .int version))])

/-- The commit of an endpoint that updated a flag: the revision is assigned,
and everything is flushed. The assignment is taken as the absolute write it
reads as. The `UPDATE` of `update_flag` has left the same number in the loaded
row, so the mapper sees no net change there and sends only the increment; the
two agree where the revision that was read is still the committed one. -/
def commitUpdate (project : ProjectRow) (environment : EnvironmentRow) (flagKey event : String)
    (result : FlagResponse) (pending : List Write) : Tx Outcome := do
  flush (pending ++ [.environment (.setRevision environment.id (environment.revision + 1))])
  pure ⟨[result], [⟨project.id, environment.id, flagKey, event, result.currentVersion,
    environment.revision + 1⟩]⟩

/-- `session.get(FeatureFlag, flag_id)`. -/
def getFlag (flagId : UUID) : Tx (Option FeatureFlagRow) :=
  select (fun db => db.flags.find? (fun row => row.id = flagId))

/-- `replace_flag_configuration`. -/
def replaceFlagConfiguration (principal : Principal) (requestId : Option String)
    (flagId : UUID) (payload : FlagUpdate) : Tx Outcome := do
  let found ← getFlag flagId
  match found with
  | none => .raise flagNotFound
  | some flag => do
    let (project, _) ← authorizeProject principal flag.projectId .flagWrite
    let (environment, _, _) ←
      authorizeEnvironment principal payload.environmentId .flagWrite
    let (result, pending) ← updateFlag none flag environment project payload principal.userId
      principal.apiKeyId requestId "flag.updated" none
    commitUpdate project environment flag.key "flag.updated" result pending

/-- `add_targeting_rule`. -/
def addTargetingRule (principal : Principal) (requestId : Option String) (flagId : UUID)
    (payload : RuleCreate) : Tx Outcome := do
  let config ← getConfigByFlagEnvironment flagId payload.environmentId
  let (project, _) ← authorizeProject principal config.flag.projectId .flagWrite
  let updatePayload ←
    Prog.attempt (appendRuleUpdate config payload.rule payload.expectedVersion)
  let event := if payload.rule.rollout ≠ [] then "rollout.changed" else "flag.updated"
  let (result, pending) ← updateFlag (some config.row) config.flag config.environment project
    updatePayload principal.userId principal.apiKeyId requestId event none
  commitUpdate project config.environment config.flag.key event result pending

/-- `rollback_flag`. The snapshot is read from a JSON column and validated again, then written
like any other update. -/
def rollbackFlag (flag : FeatureFlagRow) (environment : EnvironmentRow) (project : ProjectRow)
    (targetVersion expectedVersion : ℕ) (actorUserId actorApiKeyId : Option UUID)
    (requestId : Option String) : Tx (FlagResponse × List Write) := do
  let config ← select (fun db => db.configs.find? (fun row =>
    row.flagId = flag.id ∧ row.environmentId = environment.id))
  let found ← select (fun db => db.versions.find? (fun row =>
    some row.configId = config.map FlagConfigRow.id ∧ row.version = targetVersion))
  match found with
  | none => .raise (.apiError 404 "version_not_found" "Flag version was not found." [])
  | some version => do
    let chosen ← choose
    let old ← Prog.attempt (FlagConfiguration.create (chosen.column.read version.snapshot))
    let payload ← Prog.attempt (updateFromConfiguration old environment.id expectedVersion)
    updateFlag none flag environment project payload actorUserId actorApiKeyId requestId
      "flag.rollback" (some targetVersion)

/-- `rollback_feature_flag`. -/
def rollbackFeatureFlag (principal : Principal) (requestId : Option String) (flagId : UUID)
    (targetVersion : ℕ) (payload : RollbackRequest) : Tx Outcome := do
  let found ← getFlag flagId
  match found with
  | none => .raise flagNotFound
  | some flag => do
    let (project, _) ← authorizeProject principal flag.projectId .flagWrite
    let (environment, _, _) ←
      authorizeEnvironment principal payload.environmentId .flagWrite
    let (result, pending) ← rollbackFlag flag environment project targetVersion
      payload.expectedVersion principal.userId principal.apiKeyId requestId
    commitUpdate project environment flag.key "flag.rollback" result pending

/-! ## Archiving and scheduling -/

/-- `session.get(Environment, …)` for each configuration of a flag. -/
def getEnvironments : List FlagConfigRow → Tx (List (FlagConfigRow × EnvironmentRow))
  | [] => pure []
  | row :: rest => do
    let environment ←
      select (fun db => db.environments.find? (fun item => item.id = row.environmentId))
    let others ← getEnvironments rest
    pure ((environment.map (fun item => (row, item))).toList ++ others)

/-- `archive_flag`. The flag is marked, and the revision of each environment it stands in goes
up. -/
def archiveFlag (principal : Principal) (requestId : Option String) (flagId : UUID) :
    Tx Outcome := do
  let found ← getFlag flagId
  match found with
  | none => .raise flagNotFound
  | some flag =>
    if flag.archivedAt.isSome then .raise flagNotFound
    else do
      let (project, _) ← authorizeProject principal flag.projectId .flagWrite
      let configs ← selectAll (fun db => db.configs.filter (fun row => row.flagId = flag.id))
      let chosen ← choose
      let touched ← getEnvironments configs
      flush (.flag (.setArchivedAt flag.id chosen.now)
        :: touched.map (fun item =>
          .environment (.setRevision item.2.id (item.2.revision + 1)))
        ++ [recordAudit project.organizationId "flag.deleted" "feature_flag" flag.id requestId
          principal.userId principal.apiKeyId
          [("flag_key", .str flag.key), ("archived", .bool true)] chosen.now])
      pure ⟨[], touched.map (fun item => ⟨project.id, item.2.id, flag.key, "flag.deleted",
        item.1.currentVersion, item.2.revision + 1⟩)⟩

/-- `schedule_change`. The payload is stored as it came. The endpoint raises
`MissingGreenlet` where it asks for the flag of a configuration that was loaded
without it (`config.flag.project`), after the checks and before its commit;
here it goes on, so that the scheduler meets every row the table may hold. -/
def scheduleChange (principal : Principal) (requestId : Option String) (flagId : UUID)
    (payload : ScheduledChangeCreate) : Tx Outcome := do
  let config ← getConfigByFlagEnvironment flagId payload.environmentId
  let (project, _) ← authorizeProject principal config.flag.projectId .flagWrite
  Tx.raiseIf (config.row.currentVersion ≠ payload.expectedVersion)
    (.apiError 409 "configuration_conflict"
      "The flag configuration was changed by another writer."
      [("current_version", .int config.row.currentVersion)])
  let chosen ← choose
  let scheduled : ScheduledChangeRow :=
    ⟨chosen.ids 0, config.row.id, payload.changeType, payload.payload, payload.activateAt, none,
      principal.userId⟩
  flush [.change (.insert scheduled)]
  flush [recordAudit project.organizationId "flag.change_scheduled" "scheduled_change"
    scheduled.id requestId principal.userId principal.apiKeyId
    [("change_type", .str payload.changeType),
      ("activate_at", .str (isoformat payload.activateAt))] chosen.now]
  pure ⟨[], []⟩

end CohortSwitch
