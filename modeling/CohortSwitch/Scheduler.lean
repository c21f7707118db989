import CohortSwitch.FlagTransactions

/-!
# The scheduler

`applyDueChanges` takes up to twenty due changes and applies them one after
the other in a single transaction and a single session. The session remembers
the rows it has loaded: a later query finds them as the session left them, and
the collections of a configuration are loaded once. What the changes add stays
pending until the transaction commits, while the conditional updates and the
deletions run at once.

Because the changes share a transaction they share its fate: one that raises
takes the others back with it. And because they share a session, what a change
finds depends on those before it. `Session` is what is remembered, and `Batch`
carries it through the loop together with what is pending.

## A second change of one environment

The `UPDATE` that counts a change of an environment expires the attribute of the
row that the session holds. The next change of the same environment reads that
attribute where nothing is awaited, which raises (`missingGreenlet`), and the
whole batch rolls back. A batch commits only when the changes it applies are of
different environments.

## Which changes are taken

The query locks the rows it returns and skips those that are locked already
(`dueChanges`), so several workers take disjoint batches, each in order of
activation among the rows it could have.

## Conversions

A payload is stored as it came, so what a change does with it goes through
Python's `str` and `int`. They are written out for every JSON value.
-/

namespace CohortSwitch

/-! ## Conversions of a payload -/

/-- The shortest decimal digits that round to a double, with the power of ten
the first digit stands for. -/
def shortestDigits (q : ℚ) : List Char × ℤ :=
  let exponent := Int.log 10 q
  let scaled (n : ℕ) : ℤ := roundHalfEven (q / 10 ^ (exponent - n))
  let n := ((List.range 17).find? (fun n =>
    roundDouble (scaled n * 10 ^ (exponent - n)) == .finite q)).getD 16
  let digits := Nat.toDigits 10 (scaled n).toNat
  (((digits.reverse.dropWhile (· == '0')).reverse),
    exponent + ((digits.length : ℤ) - (n + 1)))

/-- `repr` of a finite float: the shortest digits, plain or with an exponent. -/
def floatRepr (q : ℚ) : List Char :=
  if q = 0 then "0.0".toList
  else
    let (digits, exponent) := shortestDigits |q|
    let sign := if q < 0 then ['-'] else []
    let zeros (n : ℤ) := List.replicate n.toNat '0'
    if -4 ≤ exponent ∧ exponent < 16 then
      if exponent < 0 then sign ++ '0' :: '.' :: zeros (-exponent - 1) ++ digits
      else
        let whole := digits.take (exponent.toNat + 1)
        let fraction := digits.drop (exponent.toNat + 1)
        sign ++ whole ++ zeros (exponent + 1 - digits.length) ++ '.'
          :: (if fraction.isEmpty then ['0'] else fraction)
    else
      let power := Nat.toDigits 10 exponent.natAbs
      sign ++ digits.take 1
        ++ (if digits.length ≤ 1 then [] else '.' :: digits.drop 1)
        ++ 'e' :: (if exponent < 0 then '-' else '+')
        :: (if power.length < 2 then '0' :: power else power)

/-- `str(value)`. The text of a list and of a dictionary is none a variation key can be, so only
its bracket is kept. -/
def pyStr : Json → String
  | .str s => s
  | .null => "None"
  | .bool b => if b then "True" else "False"
  | .int i => toString i
  | .float q => String.ofList (floatRepr q)
  | .arr _ => "[...]"
  | .obj _ => "\x7b...\x7d"

/-- `int(text)`. -/
def intOfText (text : String) : Except PyError ℤ :=
  let ascii := text.toList.map toAsciiNumeral
  let trimmed := ((ascii.dropWhile isNumeralSpace).reverse.dropWhile isNumeralSpace).reverse
  let magnitude (ds : List Char) : Option ℤ :=
    if !ds.isEmpty && ds.all isDecimalDigit && ds.length ≤ 4300 then some (decimalValue ds)
    else none
  let parsed := (dropUnderscores ' ' trimmed).bind (fun cs => match cs with
    | '-' :: ds => (magnitude ds).map (fun n => -n)
    | '+' :: ds => magnitude ds
    | ds => magnitude ds)
  match parsed with
  | some n => .ok n
  | none => .error (.valueError "invalid literal for int() with base 10")

/-- `int(value)` of a JSON value. A float loses its fraction. -/
def pyInt : Json → Except PyError ℤ
  | .bool b => .ok (if b then 1 else 0)
  | .int i => .ok i
  | .float q => .ok (if 0 ≤ q then ⌊q⌋ else ⌈q⌉)
  | .str s => intOfText s
  | _ => .error (.typeError "int() argument must be a string or a real number")

/-- `payload[key]`, which raises a `KeyError` where the key is missing. -/
def payloadItem (change : ScheduledChangeRow) (key : String) : Except PyError Json :=
  match change.payload.get? key with
  | some value => .ok value
  | none => .error (.keyError key)

/-- `allocations.append(RolloutInput(…))` under a condition. -/
def allocationIf (condition : Prop) [Decidable condition] (variation : String)
    (percentage : ℤ) : Except PyError (List RolloutInput) :=
  if condition then (RolloutInput.create variation percentage).map (fun item => [item])
  else .ok []

/-- `_apply_payload`: the payload as the change leaves it, the audit action and the event. One
branch for each type of change; the payload of the change is validated only here. -/
def applyPayload (change : ScheduledChangeRow) (payload : FlagUpdate) :
    Except PyError (FlagUpdate × String × String) :=
  if change.changeType = "enable" then
    .ok ({ payload with enabled := true, variationsNonempty := payload.variations_ne_nil },
      "flag.enabled", "flag.updated")
  else if change.changeType = "disable" then
    .ok ({ payload with enabled := false, variationsNonempty := payload.variations_ne_nil },
      "flag.disabled", "flag.updated")
  else if change.changeType = "variation" then do
    let variation ← payloadItem change "variation"
    pure ({ payload with
        defaultVariation := pyStr variation
        rollout := []
        progressiveStages := []
        variationsNonempty := payload.variations_ne_nil }, "flag.updated", "flag.updated")
  else if change.changeType = "rollout_percentage" then do
    let value ← payloadItem change "percentage_basis_points"
    let percentage ← pyInt value
    raiseIf (¬ (0 ≤ percentage ∧ percentage ≤ 10000))
      (.valueError "percentage_basis_points must be between 0 and 10000")
    let variation ← payloadItem change "variation"
    let fallback ← payloadItem change "fallback_variation"
    let first ← allocationIf (percentage ≠ 0) (pyStr variation) percentage
    let rest ← allocationIf (percentage < 10000) (pyStr fallback) (10000 - percentage)
    pure ({ payload with
        rollout := first ++ rest
        progressiveStages := []
        variationsNonempty := payload.variations_ne_nil }, "rollout.changed", "rollout.changed")
  else .error (.valueError ("Unsupported scheduled change type: " ++ change.changeType))

/-! ## The session -/

/-- **What the session remembers**: the rows it loaded, as it left them, and the collections of
configurations. A query that finds a row again gives the remembered one, so a later round of the
same transaction reads attributes that may be older than the row. -/
structure Session where
  projects : List ProjectRow
  /-- The environments whose revision was assigned here come first. -/
  environments : List EnvironmentRow
  flags : List FeatureFlagRow
  configs : List FlagConfigRow
  /-- The configurations whose collections were loaded. -/
  collections : List LoadedConfig

/-- A session that loaded nothing. -/
def Session.empty : Session := ⟨[], [], [], [], []⟩

/-- `session.get(FlagConfig, …)`: the remembered row, or a SELECT. -/
def Session.getConfig (session : Session) (id : UUID) : Tx (Option FlagConfigRow) :=
  match session.configs.find? (fun row => row.id = id) with
  | some row => pure (some row)
  | none => select (fun db => db.configs.find? (fun row => row.id = id))

/-- `session.get(Project, …)`. -/
def Session.getProject (session : Session) (id : UUID) : Tx (Option ProjectRow) :=
  match session.projects.find? (fun row => row.id = id) with
  | some row => pure (some row)
  | none => select (fun db => db.projects.find? (fun row => row.id = id))

/-- The collections of a configuration, where the session has not loaded them
before. -/
def Session.loadCollections (session : Session) (row : FlagConfigRow) (flag : FeatureFlagRow)
    (environment : EnvironmentRow) : Tx LoadedConfig :=
  match session.collections.find? (fun item => item.row.id = row.id) with
  | some loaded => pure { loaded with row, flag, environment }
  | none => CohortSwitch.loadCollections row flag environment

/-- `get_config_by_flag_environment` in a session: rows it remembers keep
their attributes, and collections that are loaded are not loaded again. -/
def Session.loadConfig (session : Session) (flagId environmentId : UUID) : Tx LoadedConfig := do
  let found ← select (fun db => db.configOfFlag flagId environmentId)
  match found with
  | none => .raise flagNotFound
  | some (row, flag, environment) => do
    let row := (session.configs.find? (fun item => item.id = row.id)).getD row
    let flag := (session.flags.find? (fun item => item.id = flag.id)).getD flag
    let environment :=
      (session.environments.find? (fun item => item.id = environment.id)).getD environment
    let config ← session.loadCollections row flag environment
    if config.flag.archivedAt.isSome then .raise flagNotFound
    else pure config

/-- The session after an update: the conditional update is synchronized with the row it
remembers, and the revision was assigned. The collections stay those that were loaded, although
the children of the new version are others. -/
def Session.remember (session : Session) (config : LoadedConfig) (project : ProjectRow)
    (payload : FlagUpdate) : Session where
  projects := project :: session.projects
  flags := config.flag :: session.flags
  environments := { config.environment with revision := config.environment.revision + 1 }
    :: session.environments
  configs := { config.row with
      enabled := payload.enabled
      defaultVariationKey := payload.defaultVariation
      currentVersion := payload.expectedVersion + 1 } :: session.configs
  collections := config :: session.collections

/-! ## The loop -/

/-- What the loop has gathered: the session, what is pending until the commit flushes it, and
what will be returned and published after it. -/
structure Batch where
  session : Session
  /-- What the rounds so far leave to the commit. -/
  pending : List Write
  responses : List FlagResponse
  /-- What will be published after it. -/
  notifications : List Notification

/-- **One round of the loop.** A change whose configuration or project is gone is marked as
applied and does nothing else. -/
def applyChange (batch : Batch) (change : ScheduledChangeRow) : Tx Batch := do
  let configRow ← batch.session.getConfig change.configId
  match configRow with
  | none => do
    let chosen ← choose
    pure { batch with
      pending := batch.pending ++ [.change (.setAppliedAt change.id chosen.now)] }
  | some configRow => do
    let session := { batch.session with configs := configRow :: batch.session.configs }
    let config ← session.loadConfig configRow.flagId configRow.environmentId
    let project ← session.getProject config.flag.projectId
    match project with
    | none => do
      let chosen ← choose
      pure { batch with
        pending := batch.pending ++ [.change (.setAppliedAt change.id chosen.now)] }
    | some project => do
      let compiled ← Prog.attempt (compileConfiguration config)
      let current ← Prog.attempt (updateFromConfiguration compiled config.row.environmentId
        config.row.currentVersion)
      let (payload, auditAction, event) ← Prog.attempt (applyPayload change current)
      let (result, pending) ← updateFlag (some config.row) config.flag config.environment
        project payload change.createdById none none auditAction none
      -- a revision that an earlier round has assigned is expired by the `UPDATE` of
      -- `update_flag`, and its `environment.revision += 1` would have to load it
      Tx.raiseIf (config.environment.id ∈ batch.session.environments.map EnvironmentRow.id)
        .missingGreenlet
      let chosen ← choose
      pure {
        session := session.remember config project payload
        pending := batch.pending ++ pending
          ++ [.environment (.setRevision config.environment.id (config.environment.revision + 1)),
            .change (.setAppliedAt change.id chosen.now)]
        responses := batch.responses ++ [result]
        notifications := batch.notifications ++ [⟨project.id, config.row.environmentId,
          config.flag.key, event, result.currentVersion, config.environment.revision + 1⟩] }

/-- The loop over the changes. -/
def applyChanges (batch : Batch) : List ScheduledChangeRow → Tx Batch
  | [] => pure batch
  | change :: rest => do
    let next ← applyChange batch change
    applyChanges next rest

/-- The changes a SELECT … FOR UPDATE SKIP LOCKED returns: of those that are due and not locked
by another worker, the first twenty by activation. Ties come in any order. -/
def dueChanges (v : View Database Row Choice) : List ScheduledChangeRow :=
  (sortedBy ScheduledChangeRow.activateAt (arrange v.choice.order
    (v.state.changes.filter (fun row =>
      row.appliedAt = none ∧ row.activateAt ≤ v.choice.now ∧ .change row.id ∉ v.locked)))).take 20

/-- The query of the scheduler, which locks the rows it returns. -/
def selectDueChanges : Tx (List ScheduledChangeRow) :=
  .statement (fun v => (dueChanges v).map (fun row => .change row.id)) (fun _ => [])
    (fun v => .ret (dueChanges v))

/-- **`apply_due_changes`**: the query, the loop, and one commit for all of it. -/
def applyDueChanges : Tx Outcome := do
  let changes ← selectDueChanges
  let batch ← applyChanges ⟨.empty, [], [], []⟩ changes
  flush batch.pending
  pure ⟨batch.responses, batch.notifications⟩

end CohortSwitch
