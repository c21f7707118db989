import CohortSwitch.Programs

/-!
# What the endpoints write

Every request ends with the writes of one `Effect`, and with what that effect
needs still true of the committed state (`Effect.Fits`). `Request.ensures` is
the statement for all requests at once; it is what the invariants of the
committed states are derived from, without looking at the programs again.

## What an effect needs

An update needs its configuration to exist, its payload to build what it stores
(`Update.Known`), and the version it expects to be the committed one
(`Update.Current`). The first is knowledge, which no commit of others takes away.
The second is kept by the lock: once the conditional update has matched, the row
cannot change before the transaction ends (`Update.Current.evolve`).

The rounds of the scheduler are several updates in one transaction
(`RoundsFit`). They are of different configurations, since they are in different
environments: a round whose environment the session remembers raises, and with it
the transaction.

## What a request returns

`Effect.Returns` ties the responses and the notifications to the updates, one by
one and in order. `Effect.IsOf` ties the effect to the request: it is about the
flag and the environment that were named, and within the project and the
environment of a confined key. Both are needed where a claim is about what a
caller was told or asked for, and neither is needed for the invariants.

The endpoints follow one after the other, each as its own block; the scheduler has
a module of its own (`CohortSwitch.Batches`).
-/

namespace CohortSwitch

/-! ## Updates -/

/-- **What is known of an update**: its configuration exists, and its new
version was built from the payload. -/
structure Update.Known (s : Database) (u : Update) : Prop where
  /-- The row it updates is stored, with this flag, environment and salt. -/
  config : ⟨u.configId, u.flag.id, u.environment.id, u.salt⟩
    ∈ s.configs.map FlagConfigRow.identity
  /-- The rows it read exist. -/
  flagKnown : s.KnowsFlag u.flag
  environmentKnown : s.KnowsEnvironment u.environment
  projectKnown : u.project ∈ s.projects
  /-- The project is the one of the flag. -/
  projectId : u.flag.projectId = u.project.id
  /-- What it stores is what the service builds from the payload. -/
  built : buildConfiguration u.project.id u.environment u.flag u.payload.toFlagContent u.version
    u.salt = .ok u.compiled

/-- The committed version is the one the update expects. This is what the conditional update has
checked. -/
def Update.Current (s : Database) (u : Update) : Prop :=
  ∃ row ∈ s.configs, row.id = u.configId ∧ row.currentVersion = u.payload.expectedVersion

section Stability

variable {s s' : Database} {locks locks' : List Row} {u : Update}

theorem Database.Evolves.mono (h : s.Evolves locks' s') (hsub : locks ⊆ locks') :
    s.Evolves locks s' where
  grows := h.grows
  configs := by
    intro row hr
    obtain ⟨row', hr', hid, hle, hsame, hlock⟩ := h.configs row hr
    exact ⟨row', hr', hid, hle, hsame, fun hl => hlock (hsub hl)⟩
  archived := h.archived
  created := h.created

/-- What is known of an update stays known. -/
theorem Update.Known.evolve (h : u.Known s) (hs : s.Evolves locks s') : u.Known s' :=
  ⟨hs.grows.configs.subset h.config, h.flagKnown.evolve hs, h.environmentKnown.evolve hs,
    hs.grows.projects.subset h.projectKnown, h.projectId, h.built⟩

/-- **Who locks the row keeps the version.** -/
theorem Update.Current.evolve (h : u.Current s) (hs : s.Evolves locks s')
    (hlock : .config u.configId ∈ locks) : u.Current s' := by
  obtain ⟨row, hr, hid, hver⟩ := h
  obtain ⟨row', hr', hid', -, -, hkeep⟩ := hs.configs row hr
  exact ⟨row', hr', hid'.trans hid, (hkeep (hid ▸ hlock)).trans hver⟩

/-- Configurations are told apart by flag and environment. -/
theorem identity_of_pair (hs : s.Consistent) {i j : FlagConfigRow.Identity}
    (hi : i ∈ s.configs.map FlagConfigRow.identity)
    (hj : j ∈ s.configs.map FlagConfigRow.identity)
    (hflag : i.flagId = j.flagId) (henvironment : i.environmentId = j.environmentId) :
    i = j := by
  obtain ⟨row, hr, rfl⟩ := List.mem_map.mp hi
  obtain ⟨row', hr', rfl⟩ := List.mem_map.mp hj
  have heq := List.inj_on_of_nodup_map hs.keys.configPairs hr hr'
    (Prod.ext hflag henvironment)
  rw [heq]

/-- Configurations are told apart by their ids. -/
theorem identity_of_id (hs : s.Consistent) {i j : FlagConfigRow.Identity}
    (hi : i ∈ s.configs.map FlagConfigRow.identity)
    (hj : j ∈ s.configs.map FlagConfigRow.identity) (hid : i.id = j.id) : i = j := by
  obtain ⟨row, hr, rfl⟩ := List.mem_map.mp hi
  obtain ⟨row', hr', rfl⟩ := List.mem_map.mp hj
  rw [List.inj_on_of_nodup_map hs.keys.configIds hr hr' hid]

end Stability

/-! ## Configurations touched by writes -/

/-- The configuration a write updates or inserts. -/
def ConfigWrite.target : ConfigWrite → UUID
  | .insert row => row.id
  | .update id _ _ _ => id

/-- The configurations some writes update or insert. -/
def touchedConfigs (writes : List Write) : List UUID :=
  (writes.filterMap Write.config?).map ConfigWrite.target

/-- Writes to other configurations leave a row where it is. -/
theorem mem_foldl_configWrite {ops : List ConfigWrite} {rows : List FlagConfigRow}
    {row : FlagConfigRow} (hn : row.id ∉ ops.map ConfigWrite.target) :
    row ∈ ops.foldl (fun rows op => op.apply rows) rows ↔ row ∈ rows := by
  induction ops generalizing rows with
  | nil => exact Iff.rfl
  | cons op ops ih =>
    rw [List.map_cons, List.mem_cons, not_or] at hn
    rw [List.foldl_cons, ih hn.2]
    cases op with
    | insert new =>
      show row ∈ rows ++ [new] ↔ _
      rw [List.mem_append, List.mem_singleton]
      exact or_iff_left (fun h => hn.1 (congrArg FlagConfigRow.id h))
    | update id enabled key version =>
      show row ∈ rows.map _ ↔ _
      rw [List.mem_map]
      constructor
      · rintro ⟨row', hr, heq⟩
        by_cases hid : row'.id = id
        · rw [if_pos hid] at heq
          exact absurd (heq ▸ hid) hn.1
        · rw [if_neg hid] at heq
          exact heq ▸ hr
      · intro hr
        exact ⟨row, hr, if_neg hn.1⟩

/-- **A configuration no write touches is seen as it is committed.** -/
theorem mem_view_configs {writes : List Write} {s : Database} {row : FlagConfigRow}
    (hn : row.id ∉ touchedConfigs writes) :
    row ∈ (service.view writes s).configs ↔ row ∈ s.configs := by
  rw [view_configs]
  exact mem_foldl_configWrite hn

/-! ## `updateFlag` -/

/-- **The response shows a configuration**: what it says of the flag's decisions, in the forms
that the client sends. -/
structure FlagResponse.HasContent (r : FlagResponse) (c : ConfigurationFields) : Prop where
  flagType : r.flagType = c.flagType
  enabled : r.enabled = c.enabled
  defaultVariation : r.defaultVariation = c.defaultVariation
  variations : variationInputs c.variations = .ok r.variations
  rules : c.rules.mapM ruleInput = .ok r.rules
  rollout : rolloutInputs c.rollout = .ok r.rollout
  progressiveStages : c.progressiveStages.mapM stageInput = .ok r.progressiveStages

/-- **How a passage through `updateFlag` ends**: with these writes, these locks, this response,
and an update that is known and, unless the transaction has written to the configuration before,
current. -/
structure Updated (u : Update) (writes : List Write) (locks : List Row) (s : Database)
    (writes' : List Write) (locks' : List Row) (s' : Database)
    (out : FlagResponse × List Write) : Prop where
  /-- The statements of the update follow what was written before. -/
  writes_eq : writes' = writes ++ u.statements
  /-- It holds the row of the configuration and the one of the environment. -/
  locks_eq : locks' = locks ++ [.config u.configId, .environment u.environment.id]
  /-- Others may have committed meanwhile, but not to what is locked. -/
  evolves : s.Evolves locks s'
  /-- The constraints still hold. -/
  consistent : s'.Consistent
  /-- All that the update refers to exists. -/
  known : u.Known s'
  /-- The version is the committed one, where this transaction has not changed it itself. -/
  current : u.configId ∉ touchedConfigs writes → u.Current s'
  /-- The response shows the flag, the environment, the version and the content. -/
  response_id : out.1.id = u.flag.id
  response_environmentId : out.1.environmentId = u.environment.id.str
  response_version : out.1.currentVersion = u.version
  response_content : out.1.HasContent u.compiled.toConfigurationFields
  /-- The rest is left to the commit. -/
  pending_eq : out.2 = u.pending

/-- What a response says of the flag and the version. -/
theorem response_eq_ok {flag : FeatureFlagRow} {c : FlagConfiguration} {r : FlagResponse}
    (h : response flag c = .ok r) :
    r.id = flag.id ∧ r.environmentId = c.environmentId ∧ r.currentVersion = c.configVersion
      ∧ r.key = flag.key := by
  unfold response at h
  obtain ⟨variations, -, h⟩ := bind_eq_ok.mp h
  obtain ⟨rules, -, h⟩ := bind_eq_ok.mp h
  obtain ⟨rollout, -, h⟩ := bind_eq_ok.mp h
  obtain ⟨stages, -, h⟩ := bind_eq_ok.mp h
  cases h
  exact ⟨rfl, rfl, rfl, rfl⟩

/-- What it says of the configuration. -/
theorem content_of_response {flag : FeatureFlagRow} {c : FlagConfiguration} {r : FlagResponse}
    (h : response flag c = .ok r) : r.HasContent c.toConfigurationFields := by
  unfold response at h
  obtain ⟨variations, hvariations, h⟩ := bind_eq_ok.mp h
  obtain ⟨rules, hrules, h⟩ := bind_eq_ok.mp h
  obtain ⟨rollout, hrollout, h⟩ := bind_eq_ok.mp h
  obtain ⟨stages, hstages, h⟩ := bind_eq_ok.mp h
  cases h
  exact ⟨rfl, rfl, rfl, hvariations, hrules, hrollout, hstages⟩

section UpdateFlag

variable {writes : List Write} {locks : List Row} {s : Database}

theorem ensures_deleteChildren {β : Type} {post : List Write → List Row → Database → β → Prop}
    {k : Unit → Tx β} {configId : UUID}
    (h : ∀ s', s.Evolves locks s' → (k ()).Ensures discipline post
      (writes ++ [.child (.deleteRollouts configId), .child (.deleteStages configId),
        .child (.deleteRules configId), .child (.deleteVariations configId)]) locks s') :
    (deleteChildren configId >>= k).Ensures discipline post writes locks s := by
  unfold deleteChildren
  rw [Prog.bind_assoc]
  refine ensures_execute (fun s₁ h₁ _ => ?_)
  rw [Prog.bind_assoc]
  refine ensures_execute (fun s₂ h₂ _ => ?_)
  rw [Prog.bind_assoc]
  refine ensures_execute (fun s₃ h₃ _ => ensures_execute (fun s₄ h₄ _ => ?_))
  have hlocks : ∀ op : ChildWrite, [Write.child op].flatMap Write.locks = [] := fun _ => rfl
  simp only [hlocks, List.append_nil, List.append_assoc, List.cons_append, List.nil_append]
    at h₂ h₃ h₄ ⊢
  exact h s₄ (((h₁.trans h₂).trans h₃).trans h₄)

/-- **The passage through `updateFlag`.** Every statement of it is followed here once, and no
theorem below looks at it again. -/
theorem ensures_updateFlag (hplace : ∀ w ∈ writes, w.isInPlace = true)
    {known : Option FlagConfigRow} {flag : FeatureFlagRow} {environment : EnvironmentRow}
    {project : ProjectRow} {payload : FlagUpdate} {actorUserId actorApiKeyId : Option UUID}
    {requestId : Option String} {action : String} {sourceVersion : Option ℕ}
    (hflag : s.KnowsFlag flag) (henvironment : s.KnowsEnvironment environment)
    (hproject : project ∈ s.projects) (hprojectId : flag.projectId = project.id)
    (hknown : ∀ row, known = some row → s.KnowsConfig row ∧ row.flagId = flag.id
      ∧ row.environmentId = environment.id) :
    (updateFlag known flag environment project payload actorUserId actorApiKeyId requestId action
      sourceVersion).Ensures discipline
      (fun writes' locks' s' out => ∃ configId salt compiled final,
        Updated ⟨configId, salt, flag, environment, project, payload, compiled, actorUserId,
          actorApiKeyId, requestId, action, sourceVersion, final⟩ writes locks s writes' locks' s'
          out
        ∧ ∀ row, known = some row → configId = row.id) writes locks s := by
  unfold updateFlag
  refine ensures_select (fun s₁ h₁ hs₁ => ?_)
  cases hfind : (service.view writes s₁).configs.find? (fun row =>
      row.flagId = flag.id ∧ row.environmentId = environment.id) with
  | none => exact trivial
  | some row =>
    obtain ⟨hmem, hpair⟩ := mem_and_of_find? hfind
    have hrow := (sameIdentities_view hplace s₁).knowsConfig hmem
    dsimp only
    split
    · exact trivial
    refine ensures_attempt_bind (fun compiled hbuilt => ?_)
    -- whichever row the session holds, it is the one of this flag and environment
    have hconfig : s₁.KnowsConfig (known.getD row) ∧ (known.getD row).flagId = flag.id
        ∧ (known.getD row).environmentId = environment.id := by
      cases known with
      | none => exact ⟨hrow, hpair⟩
      | some row' =>
        obtain ⟨hk, hp⟩ := hknown row' rfl
        exact ⟨hk.evolve h₁, hp⟩
    obtain ⟨hconfig, hcflag, hcenvironment⟩ := hconfig
    have hidentity : FlagConfigRow.Identity.mk (known.getD row).id flag.id environment.id
        (known.getD row).salt = (known.getD row).identity := by
      rw [← hcflag, ← hcenvironment]
      rfl
    unfold compareAndSwap
    refine ensures_execute (fun s₂ h₂ hs₂ => ?_)
    by_cases hmatch : (service.view writes s₂).matchesVersion (known.getD row).id
        payload.expectedVersion = true
    · simp only [hmatch, if_true]
      refine ensures_deleteChildren (fun s₃ h₃ => ensures_choose (fun s₄ final h₄ _ => ?_))
      refine ensures_execute (fun s₅ h₅ hs₅ => ensures_attempt_bind (fun result hresponse => ?_))
      obtain ⟨hid, henvid, hversion, -⟩ := response_eq_ok hresponse
      have hbuiltFields := buildConfiguration_eq_ok_iff.mp hbuilt
      have hlocked := (h₃.trans h₄).trans h₅
      have hsince : s₁.Evolves locks s₅ :=
        h₂.trans (hlocked.mono (List.subset_append_left _ _))
      refine ⟨(known.getD row).id, (known.getD row).salt, compiled, final, ?_, ?_⟩
      · refine ⟨?_, ?_, h₁.trans hsince, hs₅, ?_, ?_, hid, henvid.trans hbuiltFields.environmentId,
          hversion.trans hbuiltFields.configVersion, content_of_response hresponse, rfl⟩
        · simp only [Update.statements, Update.configWrite, Update.version, List.append_assoc,
            List.cons_append, List.nil_append]
        · simp only [List.flatMap_cons, List.flatMap_nil, Write.locks, List.append_assoc,
            List.cons_append, List.nil_append]
        · exact ⟨hidentity ▸ hconfig.evolve hsince, (hflag.evolve h₁).evolve hsince,
            (henvironment.evolve h₁).evolve hsince,
            (h₁.trans hsince).grows.projects.subset hproject, hprojectId, hbuilt⟩
        · -- the row the conditional update matched is the committed one, locked since
          intro hn
          obtain ⟨row', hr', hm⟩ := List.any_eq_true.mp hmatch
          obtain ⟨hid', hver'⟩ := of_decide_eq_true hm
          have hcommitted : row' ∈ s₂.configs :=
            (mem_view_configs (by rw [hid']; exact hn)).mp hr'
          refine Update.Current.evolve ⟨row', hcommitted, hid', hver'⟩ hlocked ?_
          simp [Write.locks]
      · rintro row' rfl
        rfl
    · simp only [hmatch]
      exact ensures_select (fun s₃ h₃ _ => trivial)

end UpdateFlag

/-! ## What an effect needs -/

/-- **The update restores a stored version**: its payload is what the service
makes of the snapshot of version `t`. -/
def Update.Restores (s : Database) (u : Update) (t : ℕ) : Prop :=
  ∃ version ∈ s.versions, ∃ (column : JsonColumn) (old : FlagConfiguration),
    version.configId = u.configId ∧ version.version = t
      ∧ FlagConfiguration.create (column.read version.snapshot) = .ok old
      ∧ updateFromConfiguration old u.environment.id u.payload.expectedVersion = .ok u.payload

/-- **What the rounds of a transaction need.** Every update met the committed version of its
configuration and holds its lock, and no two updates are in one environment. These are facts
about the state before the commit, and from them it is known what the commit does, whatever
others have committed since. -/
structure RoundsFit (s : Database) (locks : List Row) (rounds : List Round) : Prop where
  known : ∀ u ∈ updatesOf rounds, u.Known s
  current : ∀ u ∈ updatesOf rounds, u.Current s
  /-- The lock is held until the transaction ends. -/
  locked : ∀ u ∈ updatesOf rounds, .config u.configId ∈ locks
  /-- A second update in one environment would have raised. -/
  separate : ((updatesOf rounds).map (fun u => u.environment.id)).Nodup
  /-- An update that names a source restores it. -/
  restored : ∀ u ∈ updatesOf rounds, ∀ t, u.sourceVersion = some t → u.Restores s t

/-- What a creation needs. -/
structure Creation.Known (s : Database) (k : Creation) : Prop where
  /-- The environment and the project exist, -/
  environmentKnown : s.KnowsEnvironment k.environment
  projectKnown : k.project ∈ s.projects
  /-- and belong together. -/
  sameProject : k.environment.projectId = k.project.id
  /-- What it stores is what the service builds from the payload. -/
  built : buildConfiguration k.project.id k.environment k.flag k.payload.toFlagContent 1 k.salt
    = .ok k.compiled

/-- What an archiving needs: it touched the environment of every configuration
of the flag. -/
structure Archiving.Known (s : Database) (a : Archiving) : Prop where
  /-- The flag exists, in the project. -/
  flagKnown : s.KnowsFlag a.flag
  projectId : a.flag.projectId = a.project.id
  /-- The environments that are touched exist. -/
  environmentsKnown : ∀ item ∈ a.touched, s.KnowsEnvironment item.2
  /-- They are the ones of configurations of the flag, -/
  touchedKnown : ∀ item ∈ a.touched, s.KnowsConfig item.1
    ∧ item.1.flagId = a.flag.id ∧ item.1.environmentId = item.2.id
  /-- no configuration of the flag is left out, -/
  complete : ∀ identity ∈ s.configs.map FlagConfigRow.identity,
    identity.flagId = a.flag.id → ∃ item ∈ a.touched, item.1.identity = identity
  /-- and none is met twice. -/
  distinct : (a.touched.map (fun item => item.1.id)).Nodup

/-- **What is true of the committed state when an effect is about to be
committed.** -/
def Effect.Fits (s : Database) (locks : List Row) : Effect → Prop
  | .rounds rs => RoundsFit s locks rs
  | .creation k => k.Known s
  | .archiving a => a.Known s
  | .plain ws => ∀ w ∈ ws, w.isPlain = true

/-- A response tells of an update. -/
structure Update.RespondsWith (u : Update) (r : FlagResponse) : Prop where
  id : r.id = u.flag.id
  environmentId : r.environmentId = u.environment.id.str
  version : r.currentVersion = u.version
  content : r.HasContent u.compiled.toConfigurationFields

/-- A notification tells of an update. -/
structure Update.NotifiesWith (u : Update) (n : Notification) : Prop where
  projectId : n.projectId = u.project.id
  environmentId : n.environmentId = u.environment.id
  flagKey : n.flagKey = u.flag.key
  version : n.version = u.version
  revision : n.revision = u.environment.revision + 1
  event : n.event ≠ "flag.deleted"

/-- **What the request returns for its effect.** -/
def Effect.Returns (outcome : Outcome) : Effect → Prop
  | .rounds rs => List.Forall₂ Update.RespondsWith (updatesOf rs) outcome.responses
      ∧ List.Forall₂ Update.NotifiesWith (updatesOf rs) outcome.notifications
  | .creation k => ∃ r n, outcome = ⟨[r], [n]⟩ ∧ r.id = k.flagId
      ∧ r.environmentId = k.environment.id.str ∧ r.currentVersion = 1
      ∧ n.projectId = k.project.id ∧ n.environmentId = k.environment.id
      ∧ n.flagKey = k.payload.key ∧ n.version = 1 ∧ n.revision = k.environment.revision + 1
      ∧ n.event = "flag.created" ∧ r.HasContent k.compiled.toConfigurationFields
  | .archiving a => outcome.responses = [] ∧ List.Forall₂ (fun item (n : Notification) =>
      n.projectId = a.project.id ∧ n.environmentId = item.2.id ∧ n.flagKey = a.flag.key
        ∧ n.version = item.1.currentVersion ∧ n.revision = item.2.revision + 1
        ∧ n.event = "flag.deleted") a.touched outcome.notifications
  | .plain _ => outcome.responses = [] ∧ outcome.notifications = []

section Stable

variable {s s' : Database} {locks : List Row}

theorem Update.Restores.evolve {u : Update} {t : ℕ} (h : u.Restores s t)
    (hs : s.Evolves locks s') : u.Restores s' t := by
  obtain ⟨version, hv, column, old, hold⟩ := h
  exact ⟨version, hs.grows.versions.subset hv, column, old, hold⟩

/-- **The updates of a transaction are of different configurations**, since they are in
different environments. -/
theorem RoundsFit.nodup {rounds : List Round} (h : RoundsFit s locks rounds)
    (hs : s.Consistent) : ((updatesOf rounds).map Update.configId).Nodup := by
  refine List.Nodup.map_on (fun u hu v hv hid => ?_) (List.Nodup.of_map _ h.separate)
  have hidentity := identity_of_id hs (h.known u hu).config (h.known v hv).config hid
  exact List.inj_on_of_nodup_map h.separate hu hv
    (congrArg FlagConfigRow.Identity.environmentId hidentity)

/-- What rounds need stays true until the commit: the rows they wrote are locked. -/
theorem RoundsFit.evolve {rounds : List Round} (h : RoundsFit s locks rounds)
    (hs : s.Evolves locks s') : RoundsFit s' locks rounds where
  known := fun u hu => (h.known u hu).evolve hs
  current := fun u hu => (h.current u hu).evolve hs (h.locked u hu)
  locked := h.locked
  separate := h.separate
  restored := fun u hu t ht => (h.restored u hu t ht).evolve hs

theorem Creation.Known.evolve {k : Creation} (h : k.Known s) (hs : s.Evolves locks s') :
    k.Known s' :=
  ⟨h.environmentKnown.evolve hs, hs.grows.projects.subset h.projectKnown, h.sameProject, h.built⟩

/-- No configuration is added to a flag that exists. -/
theorem Archiving.Known.evolve {a : Archiving} (h : a.Known s) (hs : s.Evolves locks s') :
    a.Known s' where
  flagKnown := h.flagKnown.evolve hs
  projectId := h.projectId
  environmentsKnown := fun item hi => (h.environmentsKnown item hi).evolve hs
  touchedKnown := fun item hi =>
    ⟨(h.touchedKnown item hi).1.evolve hs, (h.touchedKnown item hi).2⟩
  complete := by
    intro identity hi hflag
    refine h.complete identity (hs.created identity hi ?_) hflag
    obtain ⟨row, hrow, heq⟩ := List.mem_map.mp h.flagKnown
    rw [hflag, ← show row.id = a.flag.id from congrArg FeatureFlagRow.Identity.id heq]
    exact List.mem_map_of_mem hrow
  distinct := h.distinct

/-- **What an effect needs stays true until the commit.** -/
theorem Effect.Fits.evolve {effect : Effect} (h : effect.Fits s locks)
    (hs : s.Evolves locks s') : effect.Fits s' locks := by
  cases effect with
  | rounds rs => exact RoundsFit.evolve h hs
  | creation k => exact Creation.Known.evolve h hs
  | archiving a => exact Archiving.Known.evolve h hs
  | plain ws => exact h

end Stable

/-- The effect is one update of a flag in an environment. -/
def Effect.Updates (flagId environmentId : UUID) (effect : Effect) : Prop :=
  ∃ u : Update, effect = .rounds [⟨some u, none⟩] ∧ u.flag.id = flagId
    ∧ u.environment.id = environmentId

/-- **The effect is one of what was asked for**: it is about the flag and the
environment the request names, and where the endpoint authorizes the project or
the environment, the principal may use them. -/
def Effect.IsOf (s : Database) : Request → Effect → Prop
  | .createFeatureFlag principal _ _ payload, effect => ∃ k, effect = .creation k
      ∧ k.environment.id = payload.environmentId
      ∧ principal.MayUseEnvironment payload.environmentId
  | .replaceFlagConfiguration principal _ flagId payload, effect =>
    effect.Updates flagId payload.environmentId ∧ principal.MayUseEnvironment payload.environmentId
  | .rollbackFeatureFlag principal _ flagId _ payload, effect =>
    effect.Updates flagId payload.environmentId ∧ principal.MayUseEnvironment payload.environmentId
  | .addTargetingRule _ _ flagId payload, effect => effect.Updates flagId payload.environmentId
  | .archiveFlag principal _ flagId, effect => ∃ a, effect = .archiving a ∧ a.flag.id = flagId
      ∧ principal.MayUseProject a.flag.projectId
  | .scheduleChange _ _ flagId payload, effect => ∃ change event,
      effect = .plain [.change (.insert change), .audit event]
      ∧ ∃ row, s.KnowsConfig row ∧ row.id = change.configId ∧ row.flagId = flagId
        ∧ row.environmentId = payload.environmentId
  | .applyDueChanges, _ => True
  | _, effect => ∃ ws, effect = .plain ws ∧ ∀ w ∈ ws, w.change? = none

/-- What an effect is about does not change. -/
theorem Effect.IsOf.evolve {s s' : Database} {locks : List Row} {request : Request}
    {effect : Effect} (h : effect.IsOf s request) (hs : s.Evolves locks s') :
    effect.IsOf s' request := by
  cases request with
  | scheduleChange principal requestId flagId payload =>
    obtain ⟨change, event, heffect, row, hknows, hrow⟩ := h
    exact ⟨change, event, heffect, row, hknows.evolve hs, hrow⟩
  | _ => exact h

/-- **What every request commits**: the writes of an effect which fits and is of what was asked
for. It is the postcondition of the service, in which nothing is left of the statements a
program made. -/
def CommitsOf (request : Request) (writes : List Write) (locks : List Row) (s : Database)
    (outcome : Outcome) : Prop :=
  ∃ effect : Effect, effect.writes = writes ∧ effect.Fits s locks ∧ effect.Returns outcome
    ∧ effect.IsOf s request

/-- **The postcondition of every request**, without what was asked for. -/
def Commits (writes : List Write) (locks : List Row) (s : Database) (outcome : Outcome) : Prop :=
  ∃ effect : Effect, effect.writes = writes ∧ effect.Fits s locks ∧ effect.Returns outcome

/-- The weaker statement follows. -/
theorem CommitsOf.commits {request : Request} {writes : List Write} {locks : List Row}
    {s : Database} {outcome : Outcome} (h : CommitsOf request writes locks s outcome) :
    Commits writes locks s outcome := by
  obtain ⟨effect, hwrites, hfits, hreturns, -⟩ := h
  exact ⟨effect, hwrites, hfits, hreturns⟩

/-! ## The endpoints -/

section Requests

variable {s : Database}

/-- The writes of a transaction that made one update. -/
theorem roundWrites_singleton (u : Update) :
    roundWrites [⟨some u, none⟩] = u.statements ++ (u.pending
      ++ [.environment (.setRevision u.environment.id (u.environment.revision + 1))]) := by
  simp [roundWrites, Round.statements, Round.pending]

/-- **The transaction made one update.** -/
structure CommitsUpdate (u : Update) (writes : List Write) (locks : List Row) (s : Database)
    (outcome : Outcome) : Prop where
  writes_eq : roundWrites [⟨some u, none⟩] = writes
  fits : RoundsFit s locks [⟨some u, none⟩]
  returns : (Effect.rounds [⟨some u, none⟩]).Returns outcome

/-- One update is an effect. -/
theorem CommitsUpdate.commits {u : Update} {writes : List Write} {locks : List Row}
    {outcome : Outcome} (h : CommitsUpdate u writes locks s outcome) :
    Commits writes locks s outcome :=
  ⟨.rounds [⟨some u, none⟩], h.writes_eq, h.fits, h.returns⟩

/-- The end of an endpoint that updated a flag. -/
theorem ensures_commitUpdate {u : Update} {writes : List Write} {locks : List Row}
    {s' : Database} {out : FlagResponse × List Write} (h : Updated u [] [] s writes locks s' out)
    (hrestored : ∀ t, u.sourceVersion = some t → u.Restores s' t) {event : String}
    (hevent : event ≠ "flag.deleted") :
    (commitUpdate u.project u.environment u.flag.key event out.1 out.2).Ensures discipline
      (CommitsUpdate u) writes locks s' := by
  unfold commitUpdate
  refine ensures_flush (fun s₁ h₁ _ => Prog.Ensures.ret ?_)
  have hlock : .config u.configId ∈ locks := by
    rw [h.locks_eq]
    simp
  refine ⟨?_, ?_, ?_⟩
  · rw [roundWrites_singleton, h.writes_eq, h.pending_eq, List.nil_append]
  · have hfits : RoundsFit s' locks [⟨some u, none⟩] := by
      refine ⟨?_, ?_, ?_, List.nodup_singleton _, ?_⟩
      · exact List.forall_mem_singleton.mpr h.known
      · exact List.forall_mem_singleton.mpr (h.current (by simp [touchedConfigs]))
      · exact List.forall_mem_singleton.mpr hlock
      · exact List.forall_mem_singleton.mpr hrestored
    have hlater := RoundsFit.evolve hfits h₁
    exact ⟨hlater.known, hlater.current,
      fun v hv => List.mem_append_left _ (hlater.locked v hv), hlater.separate,
      hlater.restored⟩
  · refine ⟨.cons ⟨h.response_id, h.response_environmentId, h.response_version,
        h.response_content⟩ .nil,
      .cons ⟨rfl, rfl, rfl, h.response_version, rfl, hevent⟩ .nil⟩

/-- **`PUT /flags/{id}`.** -/
theorem ensures_replaceFlagConfiguration (principal : Principal) (requestId : Option String)
    (flagId : UUID) (payload : FlagUpdate) :
    (replaceFlagConfiguration principal requestId flagId payload).Ensures discipline
      (CommitsOf (.replaceFlagConfiguration principal requestId flagId payload)) [] [] s := by
  have hplace : ∀ w ∈ ([] : List Write), w.isInPlace = true := fun _ h => (by cases h)
  unfold replaceFlagConfiguration
  refine ensures_reads (ensures_getFlag hplace flagId) (fun s₁ found h₁ hfound => ?_)
  cases found with
  | none => exact trivial
  | some flag =>
    obtain ⟨hflag, hflagId⟩ := hfound flag rfl
    refine ensures_reads (ensures_authorizeProject hplace principal flag.projectId .flagWrite)
      (fun s₂ found₂ h₂ hproject => ?_)
    obtain ⟨project, membership⟩ := found₂
    refine ensures_reads (ensures_authorizeEnvironment hplace principal payload.environmentId
      .flagWrite) (fun s₃ found₃ h₃ henvironment => ?_)
    obtain ⟨environment, project', membership'⟩ := found₃
    obtain ⟨henvironment, henvironmentId, hscope⟩ := henvironment
    refine (ensures_updateFlag hplace ((hflag.evolve h₂).evolve h₃) henvironment
      (h₃.grows.projects.subset hproject.1) hproject.2.1.symm (fun _ h => (by cases h))).bind ?_
    rintro writes locks s' out ⟨configId, salt, compiled, final, hupdated, -⟩
    exact (ensures_commitUpdate hupdated (fun t ht => (by cases ht)) (by decide)).mono
      (fun _ _ _ _ h => ⟨_, h.writes_eq, h.fits, h.returns, ⟨_, rfl, hflagId, henvironmentId⟩,
        hscope⟩)

/-- **`POST /flags/{id}/rules`.** -/
theorem ensures_addTargetingRule (principal : Principal) (requestId : Option String)
    (flagId : UUID) (payload : RuleCreate) :
    (addTargetingRule principal requestId flagId payload).Ensures discipline
      (CommitsOf (.addTargetingRule principal requestId flagId payload)) [] [] s := by
  have hplace : ∀ w ∈ ([] : List Write), w.isInPlace = true := fun _ h => (by cases h)
  unfold addTargetingRule
  refine ensures_reads (ensures_getConfigByFlagEnvironment hplace flagId payload.environmentId)
    (fun s₁ config h₁ hconfig => ?_)
  obtain ⟨hknows, hflagId, henvironmentId, -⟩ := hconfig
  refine ensures_reads (ensures_authorizeProject hplace principal config.flag.projectId
    .flagWrite) (fun s₂ found₂ h₂ hproject => ?_)
  obtain ⟨project, membership⟩ := found₂
  refine ensures_attempt_bind (fun updatePayload _ => ?_)
  have hknows₂ := hknows.evolve h₂
  refine (ensures_updateFlag hplace hknows₂.flagKnown hknows₂.environmentKnown hproject.1
    hproject.2.1.symm ?_).bind ?_
  · rintro row h
    cases h
    exact ⟨hknows₂.configKnown, hknows₂.flagId, hknows₂.environmentId⟩
  · rintro writes locks s' out ⟨configId, salt, compiled, final, hupdated, -⟩
    refine (ensures_commitUpdate hupdated (fun t ht => (by cases ht)) ?_).mono
      (fun _ _ _ _ h => ⟨_, h.writes_eq, h.fits, h.returns, ⟨_, rfl, hflagId, henvironmentId⟩⟩)
    split <;> decide

/-- The payload expects the version it was told. -/
theorem updateFromConfiguration_expectedVersion {c : FlagConfiguration} {environmentId : UUID}
    {expectedVersion : ℕ} {payload : FlagUpdate}
    (h : updateFromConfiguration c environmentId expectedVersion = .ok payload) :
    payload.expectedVersion = expectedVersion := by
  unfold updateFromConfiguration at h
  obtain ⟨variations, -, h⟩ := bind_eq_ok.mp h
  obtain ⟨rules, -, h⟩ := bind_eq_ok.mp h
  obtain ⟨rollout, -, h⟩ := bind_eq_ok.mp h
  obtain ⟨stages, -, h⟩ := bind_eq_ok.mp h
  unfold FlagUpdate.create at h
  split at h
  · cases h
    rfl
  · cases h

/-- **The update is the rollback** of a flag in an environment to version `t`. -/
structure Update.RollsBack (u : Update) (flagId environmentId : UUID) (expectedVersion t : ℕ) :
    Prop where
  flagId : u.flag.id = flagId
  environmentId : u.environment.id = environmentId
  version : u.version = expectedVersion + 1
  source : u.sourceVersion = some t

/-- The SELECTs of a rollback find a version of the configuration that is
updated. -/
theorem ensures_rollbackFlag {flag : FeatureFlagRow} {environment : EnvironmentRow}
    {project : ProjectRow} {actorUserId actorApiKeyId : Option UUID} {requestId : Option String}
    (hflag : s.KnowsFlag flag) (henvironment : s.KnowsEnvironment environment)
    (hproject : project ∈ s.projects) (hprojectId : flag.projectId = project.id)
    (targetVersion expectedVersion : ℕ) :
    (rollbackFlag flag environment project targetVersion expectedVersion actorUserId
      actorApiKeyId requestId).Ensures discipline
      (fun writes' locks' s' out => ∃ u : Update, u.flag = flag ∧ u.environment = environment
        ∧ u.project = project ∧ Updated u [] [] s writes' locks' s' out
        ∧ (∀ t, u.sourceVersion = some t → u.Restores s' t)
        ∧ u.RollsBack flag.id environment.id expectedVersion targetVersion) [] [] s := by
  have hplace : ∀ w ∈ ([] : List Write), w.isInPlace = true := fun _ h => (by cases h)
  unfold rollbackFlag
  refine ensures_select (fun s₁ h₁ _ => ensures_select (fun s₂ h₂ hs₂ => ?_))
  cases hfind : (service.view [] s₂).versions.find? (fun row =>
      some row.configId = ((service.view [] s₁).configs.find? (fun row =>
        row.flagId = flag.id ∧ row.environmentId = environment.id)).map FlagConfigRow.id
      ∧ row.version = targetVersion) with
  | none => exact trivial
  | some version =>
    obtain ⟨hversion, hconfigId, htarget⟩ := mem_and_of_find? hfind
    obtain ⟨config, hconfig, hid⟩ := Option.map_eq_some_iff.mp hconfigId.symm
    obtain ⟨hmem, hpair⟩ := mem_and_of_find? hconfig
    have hknows : s₁.KnowsConfig config := List.mem_map_of_mem hmem
    dsimp only
    refine ensures_choose (fun s₃ chosen h₃ _ => ensures_attempt_bind (fun old hold => ?_))
    refine ensures_attempt_bind (fun payload hpayload => ?_)
    have hsince : s.Evolves [] s₃ := (h₁.trans h₂).trans h₃
    refine Prog.Ensures.mono ?_ (ensures_updateFlag hplace (hflag.evolve hsince)
      (henvironment.evolve hsince) (hsince.grows.projects.subset hproject) hprojectId
      (fun _ h => (by cases h)))
    rintro writes' locks' s' out ⟨configId, salt, compiled, final, hupdated, -⟩
    have hexpected : payload.expectedVersion = expectedVersion :=
      updateFromConfiguration_expectedVersion hpayload
    refine ⟨_, rfl, rfl, rfl, { hupdated with evolves := hsince.trans hupdated.evolves }, ?_,
      rfl, rfl, congrArg Nat.succ hexpected, rfl⟩
    rintro t ht
    cases ht
    refine ⟨version, hupdated.evolves.grows.versions.subset (h₃.grows.versions.subset hversion),
      chosen.column, old, ?_, htarget, hold, ?_⟩
    · -- the two SELECTs of the configuration found the same one
      have hsame := identity_of_pair hupdated.consistent
        (((hknows.evolve h₂).evolve h₃).evolve hupdated.evolves) hupdated.known.config
        hpair.1 hpair.2
      exact (Option.some.inj (hconfigId.trans (congrArg _ hconfig))).trans
        (congrArg FlagConfigRow.Identity.id hsame)
    · rw [hexpected]
      exact hpayload

/-- **`POST /flags/{id}/rollback/{version}`.** -/
theorem ensures_rollbackFeatureFlag (principal : Principal) (requestId : Option String)
    (flagId : UUID) (targetVersion : ℕ) (payload : RollbackRequest) :
    (rollbackFeatureFlag principal requestId flagId targetVersion payload).Ensures discipline
      (fun writes locks s' outcome => ∃ u, CommitsUpdate u writes locks s' outcome
        ∧ u.RollsBack flagId payload.environmentId payload.expectedVersion targetVersion
        ∧ principal.MayUseEnvironment payload.environmentId) [] [] s := by
  have hplace : ∀ w ∈ ([] : List Write), w.isInPlace = true := fun _ h => (by cases h)
  unfold rollbackFeatureFlag
  refine ensures_reads (ensures_getFlag hplace flagId) (fun s₁ found h₁ hfound => ?_)
  cases found with
  | none => exact trivial
  | some flag =>
    obtain ⟨hflag, hid⟩ := hfound flag rfl
    refine ensures_reads (ensures_authorizeProject hplace principal flag.projectId .flagWrite)
      (fun s₂ found₂ h₂ hproject => ?_)
    obtain ⟨project, membership⟩ := found₂
    refine ensures_reads (ensures_authorizeEnvironment hplace principal payload.environmentId
      .flagWrite) (fun s₃ found₃ h₃ henvironment => ?_)
    obtain ⟨environment, project', membership'⟩ := found₃
    obtain ⟨henvironment, henvironmentId, hscope⟩ := henvironment
    refine (ensures_rollbackFlag ((hflag.evolve h₂).evolve h₃) henvironment
      (h₃.grows.projects.subset hproject.1) hproject.2.1.symm targetVersion
      payload.expectedVersion).bind ?_
    rintro writes locks s' out ⟨u, rfl, rfl, rfl, hupdated, hrestored, hrolls⟩
    refine (ensures_commitUpdate hupdated hrestored (by decide)).mono
      (fun _ _ _ _ h => ⟨u, h, ?_, hscope⟩)
    exact { hrolls with
      flagId := hrolls.flagId.trans hid
      environmentId := hrolls.environmentId.trans henvironmentId }

/-- **`POST /projects/{id}/flags`.** -/
theorem ensures_createFeatureFlag (principal : Principal) (requestId : Option String)
    (projectId : UUID) (payload : FlagCreate) :
    (createFeatureFlag principal requestId projectId payload).Ensures discipline
      (CommitsOf (.createFeatureFlag principal requestId projectId payload)) [] [] s := by
  have hplace : ∀ w ∈ ([] : List Write), w.isInPlace = true := fun _ h => (by cases h)
  unfold createFeatureFlag
  refine ensures_reads (ensures_authorizeProject hplace principal projectId .flagWrite)
    (fun s₁ found₁ h₁ hproject => ?_)
  obtain ⟨project, membership⟩ := found₁
  refine ensures_reads (ensures_authorizeEnvironment hplace principal payload.environmentId
    .flagWrite) (fun s₂ found₂ h₂ henvironment => ?_)
  obtain ⟨environment, project', membership'⟩ := found₂
  dsimp only
  unfold createFlag
  rw [Prog.bind_assoc]
  refine ensures_raiseIf (fun hsame => ?_)
  rw [Prog.bind_assoc]
  refine ensures_select (fun s₃ h₃ _ => ?_)
  rw [Prog.bind_assoc]
  refine ensures_raiseIf (fun _ => ?_)
  rw [Prog.bind_assoc]
  refine ensures_choose (fun s₄ chosen h₄ _ => ?_)
  rw [Prog.bind_assoc]
  refine ensures_flush (fun s₅ h₅ _ => ?_)
  rw [Prog.bind_assoc]
  refine ensures_choose (fun s₆ salted h₆ _ => ?_)
  rw [Prog.bind_assoc]
  refine ensures_attempt_bind (fun compiled hbuilt => ?_)
  rw [Prog.bind_assoc]
  refine ensures_flush (fun s₇ h₇ _ => ?_)
  rw [Prog.bind_assoc]
  refine ensures_choose (fun s₈ final h₈ _ => ?_)
  rw [Prog.bind_assoc]
  refine ensures_attempt_bind (fun result hresponse => ?_)
  refine ensures_flush (fun s₉ h₉ _ => Prog.Ensures.ret ?_)
  obtain ⟨hid, henvid, hversion, hkey⟩ := response_eq_ok hresponse
  have hfields := buildConfiguration_eq_ok_iff.mp hbuilt
  have hlocks : ∀ locks : List Row, locks ++ [Write.flag (.insert ⟨chosen.ids 0, project.id,
      payload.key, payload.name, payload.description, payload.flagType, none⟩)].flatMap
        Write.locks = locks := fun locks => List.append_nil locks
  simp only [List.flatMap_cons, List.flatMap_nil, Write.locks, List.append_nil] at h₆ h₇ h₈ h₉
  have hsince : s₂.Evolves [] s₉ := by
    exact ((((((h₃.trans h₄).trans h₅).trans h₆).trans h₇).trans h₈).trans h₉)
  refine ⟨.creation ⟨project, environment, payload, chosen.ids 0, salted.ids 0, salted.secret,
    compiled, principal.userId, principal.apiKeyId, requestId, final⟩, rfl, ?_, ?_,
    ⟨_, rfl, henvironment.2.1, henvironment.2.2⟩⟩
  · exact ⟨henvironment.1.evolve hsince,
      hsince.grows.projects.subset (h₂.grows.projects.subset hproject.1), not_not.mp hsame,
      hbuilt⟩
  · exact ⟨result, _, rfl, hid, henvid.trans hfields.environmentId,
      hversion.trans hfields.configVersion, rfl, rfl, hkey, hversion.trans hfields.configVersion,
      rfl, rfl, content_of_response hresponse⟩

/-- The environments of the configurations of a flag are all found. -/
theorem ensures_getEnvironments {rows : List FlagConfigRow} {locks : List Row}
    (hrows : ∀ row ∈ rows, s.KnowsConfig row) :
    (getEnvironments rows).Ensures discipline
      (Reads (fun s' touched =>
        (∀ item ∈ touched, s'.KnowsEnvironment item.2 ∧ item.1 ∈ rows
          ∧ item.1.environmentId = item.2.id)
        ∧ touched.map Prod.fst = rows) [] locks s) [] locks s := by
  induction rows generalizing s with
  | nil => exact Reads.pure (.refl _ _) ⟨fun _ h => (by cases h), rfl⟩
  | cons row rows ih =>
    unfold getEnvironments
    refine ensures_select (fun s₁ h₁ hs₁ => ?_)
    have hknows := fun other hm => (hrows other hm).evolve h₁
    refine Reads.since h₁ (ensures_reads
      (ih (fun other hm => hknows other (List.mem_cons_of_mem row hm)))
      (fun s₂ others h₂ hothers => Reads.pure h₂ ?_))
    obtain ⟨hothers, hall⟩ := hothers
    -- the foreign key of the configuration says that the environment is there
    obtain ⟨row', hr', -, -, henv, -⟩ := (hknows row List.mem_cons_self).exists_row
    obtain ⟨environment, he, heid⟩ :=
      List.mem_map.mp (hs₁.references.configEnvironments row' hr')
    have hsome : (s₁.environments.find? (fun item => item.id = row.environmentId)).isSome
        = true := by
      rw [List.find?_isSome]
      exact ⟨environment, he, decide_eq_true (heid.trans henv)⟩
    obtain ⟨found, hfound⟩ := Option.isSome_iff_exists.mp hsome
    obtain ⟨hmem, hid⟩ := mem_and_of_find? hfound
    rw [show (service.view [] s₁).environments.find?
      (fun item => decide (item.id = row.environmentId)) = some found from hfound]
    show (∀ item ∈ (row, found) :: others, _) ∧ row :: others.map Prod.fst = row :: rows
    constructor
    · rintro item hi
      rcases List.mem_cons.mp hi with rfl | hi
      · have hfoundKnown : s₁.KnowsEnvironment found := List.mem_map_of_mem hmem
        exact ⟨hfoundKnown.evolve h₂, List.mem_cons_self, hid.symm⟩
      · obtain ⟨hk, hm, heq⟩ := hothers item hi
        exact ⟨hk, List.mem_cons_of_mem row hm, heq⟩
    · rw [hall]

/-- **`DELETE /flags/{id}`.** -/
theorem ensures_archiveFlag (principal : Principal) (requestId : Option String)
    (flagId : UUID) :
    (archiveFlag principal requestId flagId).Ensures discipline
      (CommitsOf (.archiveFlag principal requestId flagId)) [] [] s := by
  have hplace : ∀ w ∈ ([] : List Write), w.isInPlace = true := fun _ h => (by cases h)
  unfold archiveFlag
  refine ensures_reads (ensures_getFlag hplace flagId) (fun s₁ found h₁ hfound => ?_)
  cases found with
  | none => exact trivial
  | some flag =>
    obtain ⟨hflag, hflagId⟩ := hfound flag rfl
    dsimp only
    split
    · exact trivial
    refine ensures_reads (ensures_authorizeProject hplace principal flag.projectId .flagWrite)
      (fun s₂ found₂ h₂ hproject => ?_)
    obtain ⟨project, membership⟩ := found₂
    refine ensures_selectAll (fun s₃ rows h₃ hs₃ hrows => ?_)
    refine ensures_choose (fun s₄ chosen h₄ _ => ?_)
    have hmem : ∀ row, row ∈ rows ↔ row ∈ s₃.configs ∧ row.flagId = flag.id := by
      intro row
      rw [hrows.mem_iff]
      show row ∈ s₃.configs.filter _ ↔ _
      simp
    have hknows : ∀ row ∈ rows, s₄.KnowsConfig row := by
      intro row hr
      have hk : s₃.KnowsConfig row := List.mem_map_of_mem ((hmem row).mp hr).1
      exact hk.evolve h₄
    refine ensures_reads (ensures_getEnvironments hknows) (fun s₅ touched h₅ htouched => ?_)
    obtain ⟨htouched, hall⟩ := htouched
    refine ensures_flush (fun s₆ h₆ _ => Prog.Ensures.ret ?_)
    have hflag₃ := (hflag.evolve h₂).evolve h₃
    have hknown : Archiving.Known s₃ ⟨project, flag, touched, principal.userId,
        principal.apiKeyId, requestId, chosen.now⟩ → Archiving.Known s₆ _ := fun h =>
      ((h.evolve h₄).evolve h₅).evolve h₆
    refine ⟨.archiving ⟨project, flag, touched, principal.userId, principal.apiKeyId, requestId,
      chosen.now⟩, rfl, ?_, ⟨rfl, ?_⟩, ⟨_, rfl, hflagId, hproject.2.2⟩⟩
    · refine ⟨((hflag₃.evolve h₄).evolve h₅).evolve h₆, hproject.2.1.symm,
        fun item hi => (htouched item hi).1.evolve h₆, fun item hi => ?_, ?_, ?_⟩
      · obtain ⟨-, hm, heq⟩ := htouched item hi
        exact ⟨((hknows _ hm).evolve h₅).evolve h₆, ((hmem _).mp hm).2, heq⟩
      · -- a configuration of a flag that exists was there when they were listed
        intro identity hi hfid
        have hin : identity ∈ s₃.configs.map FlagConfigRow.identity := by
          refine ((h₄.trans h₅).trans h₆).created identity hi ?_
          obtain ⟨row, hrow, heq⟩ := List.mem_map.mp hflag₃
          rw [hfid, ← show row.id = flag.id from congrArg FeatureFlagRow.Identity.id heq]
          exact List.mem_map_of_mem hrow
        obtain ⟨row, hrow, rfl⟩ := List.mem_map.mp hin
        have hlisted := (hmem row).mpr ⟨hrow, hfid⟩
        rw [← hall] at hlisted
        obtain ⟨item, hitem, rfl⟩ := List.mem_map.mp hlisted
        exact ⟨item, hitem, rfl⟩
      · show (touched.map (FlagConfigRow.id ∘ Prod.fst)).Nodup
        rw [← List.map_map, hall, (hrows.map FlagConfigRow.id).nodup_iff]
        exact hs₃.keys.configIds.sublist (List.filter_sublist.map _)
    · refine List.forall₂_map_right_iff.mpr (List.forall₂_same.mpr (fun item _ => ?_))
      exact ⟨rfl, rfl, rfl, rfl, rfl, rfl⟩

/-- **`POST /flags/{id}/scheduled-changes`.** -/
theorem ensures_scheduleChange (principal : Principal) (requestId : Option String)
    (flagId : UUID) (payload : ScheduledChangeCreate) :
    (scheduleChange principal requestId flagId payload).Ensures discipline
      (CommitsOf (.scheduleChange principal requestId flagId payload)) [] [] s := by
  have hplace : ∀ w ∈ ([] : List Write), w.isInPlace = true := fun _ h => (by cases h)
  unfold scheduleChange
  refine ensures_reads (ensures_getConfigByFlagEnvironment hplace flagId payload.environmentId)
    (fun s₁ config h₁ hconfig => ?_)
  obtain ⟨hknows, hflagId, henvironmentId, -⟩ := hconfig
  refine ensures_reads (ensures_authorizeProject hplace principal config.flag.projectId
    .flagWrite) (fun s₂ found₂ h₂ _ => ?_)
  obtain ⟨project, membership⟩ := found₂
  refine ensures_raiseIf (fun _ => ensures_choose (fun s₃ chosen h₃ _ => ?_))
  refine ensures_flush (fun s₄ h₄ _ => ensures_flush (fun s₅ h₅ _ => Prog.Ensures.ret ?_))
  refine ⟨.plain _, rfl, by simp [recordAudit, Effect.Fits, Write.isPlain], ⟨rfl, rfl⟩, _, _,
    rfl, config.row, ?_, rfl, hknows.flagId.trans hflagId,
    hknows.environmentId.trans henvironmentId⟩
  exact ((((hknows.configKnown.evolve h₂).evolve h₃).evolve h₄).evolve h₅)

/-! ## Tenants -/

theorem ensures_createOrganization (principal : Principal) (requestId : Option String)
    (payload : OrganizationCreate) :
    (createOrganization principal requestId payload).Ensures discipline
      (CommitsOf (.createOrganization principal requestId payload)) [] [] s := by
  unfold createOrganization
  split
  · exact trivial
  · refine ensures_choose (fun s₁ chosen h₁ _ => ?_)
    refine ensures_flush (fun s₂ h₂ _ => ensures_flush (fun s₃ h₃ _ => Prog.Ensures.ret ?_))
    exact ⟨.plain _, rfl, by simp [recordAudit, Effect.Fits, Write.isPlain], ⟨rfl, rfl⟩, _, rfl,
    by simp [recordAudit, Write.change?]⟩

theorem ensures_createProject (principal : Principal) (requestId : Option String)
    (payload : ProjectCreate) :
    (createProject principal requestId payload).Ensures discipline
      (CommitsOf (.createProject principal requestId payload)) [] [] s := by
  unfold createProject
  refine ensures_reads (ensures_authorizeOrganization principal payload.organizationId
    .projectManage) (fun s₁ _ h₁ _ => ensures_choose (fun s₂ chosen h₂ _ => ?_))
  refine ensures_flush (fun s₃ h₃ _ => ensures_flush (fun s₄ h₄ _ => Prog.Ensures.ret ?_))
  exact ⟨.plain _, rfl, by simp [recordAudit, Effect.Fits, Write.isPlain], ⟨rfl, rfl⟩, _, rfl,
    by simp [recordAudit, Write.change?]⟩

theorem ensures_createEnvironment (principal : Principal) (requestId : Option String)
    (projectId : UUID) (payload : EnvironmentCreate) :
    (createEnvironment principal requestId projectId payload).Ensures discipline
      (CommitsOf (.createEnvironment principal requestId projectId payload)) [] [] s := by
  have hplace : ∀ w ∈ ([] : List Write), w.isInPlace = true := fun _ h => (by cases h)
  unfold createEnvironment
  refine ensures_reads (ensures_authorizeProject hplace principal projectId .environmentManage)
    (fun s₁ found h₁ _ => ?_)
  obtain ⟨project, membership⟩ := found
  refine ensures_choose (fun s₂ chosen h₂ _ => ?_)
  refine ensures_flush (fun s₃ h₃ _ => ensures_flush (fun s₄ h₄ _ => Prog.Ensures.ret ?_))
  exact ⟨.plain _, rfl, by simp [recordAudit, Effect.Fits, Write.isPlain], ⟨rfl, rfl⟩, _, rfl,
    by simp [recordAudit, Write.change?]⟩

theorem ensures_keyScopes (payload : APIKeyCreate) (kind : KeyKind) :
    (keyScopes payload kind).Ensures discipline (Reads (fun _ _ => True) [] [] s) [] [] s := by
  unfold keyScopes
  split
  · split
    · refine ensures_select (fun s₁ h₁ _ => ensures_select (fun s₂ h₂ _ => ?_))
      split
      · split
        · exact trivial
        · exact Reads.pure (h₁.trans h₂) trivial
      · exact trivial
    · exact trivial
  · refine ensures_raiseIf (fun _ => ensures_raiseIf (fun _ => ?_))
    exact Reads.pure (.refl _ _) trivial

theorem ensures_createKeyEndpoint (principal : Principal) (requestId : Option String)
    (payload : APIKeyCreate) (kind : KeyKind) :
    (createKeyEndpoint principal requestId payload kind).Ensures discipline
      (CommitsOf (.createKey principal requestId payload kind)) [] [] s := by
  unfold createKeyEndpoint
  refine ensures_reads (ensures_authorizeOrganization principal payload.organizationId
    .keyManage) (fun s₁ _ h₁ _ => ?_)
  unfold createApiKey
  rw [Prog.bind_assoc]
  refine ensures_reads (ensures_keyScopes payload kind) (fun s₂ found h₂ _ => ?_)
  obtain ⟨scopes, keyPrefix⟩ := found
  dsimp only
  rw [Prog.bind_assoc]
  refine ensures_choose (fun s₃ chosen h₃ _ => ?_)
  rw [Prog.bind_assoc]
  refine ensures_flush (fun s₄ h₄ _ => ensures_flush (fun s₅ h₅ _ => Prog.Ensures.ret ?_))
  exact ⟨.plain _, rfl, by simp [recordAudit, Effect.Fits, Write.isPlain], ⟨rfl, rfl⟩, _, rfl,
    by simp [recordAudit, Write.change?]⟩

end Requests

end CohortSwitch
