import CohortSwitch.AddRule
import CohortSwitch.ArchivedFlags
import CohortSwitch.SdkKeys
import CohortSwitch.AuditLog

/-!
# What a management key is confined to

A management key may be scoped to a project and an environment. Which part of
the scope is checked is up to each endpoint: `replaceFlagConfiguration`,
`rollbackFeatureFlag`, `createFeatureFlag`, `listFlags` and
`exportConfiguration` authorize the environment, `addTargetingRule`,
`scheduleChange`, `getFlagEndpoint` and `flagVersions` only the project of the
flag they found, `archiveFlag` too, although a flag is archived in every
environment, and `listAuditEvents` only the organization.

Where a request asks for nothing of another environment at those endpoints
(`Request.AsksFor`, `ManagementRead.AsksFor`), it stays in the scope of its key
(`management_keys_confined`); where it does ask, nothing stops it
(`management_key_leaves_scope`).

## What is written

The effect of a commit says which configurations it touches, so a request that asks for
one environment has effects within it (`Effect.IsOf.within`), and whatever is outside
stays as it is (`Effect.Within.staysIn`). Archiving is the effect that is not about one
environment: the flag must have no configuration elsewhere.

## What is read

A listing of events asks for nothing else where the organization has nothing else:
every event of a run is filed under what it is about (`AuditEventRow.Filed`), and a
flag has configurations in environments of its own project only, so that the one
project and the one environment are all that the events are about
(`not_concernsOther_of_hasOnly`). An archived flag is no exception: its event names no
environment and is about each that the flag was configured in.
-/

namespace CohortSwitch

/-! ## Staying in an environment -/

/-- A configuration of another environment. -/
def elsewhere (environmentId : UUID) (identity : FlagConfigRow.Identity) : Bool :=
  identity.environmentId ≠ environmentId

/-- The scheduled changes of other environments. -/
def Database.changesElsewhere (s : Database) (environmentId : UUID) : List ScheduledChangeRow :=
  s.changes.filter (fun change =>
    change.configId ∈ (s.configsWhere (elsewhere environmentId)).map FlagConfigRow.id)

/-- **What is changed stays in an environment**: the configurations of the others keep
their versions, their children and what is scheduled for them, and a flag that gets
archived is one of the project and of that environment alone. -/
structure Database.StaysIn (projectId environmentId : UUID) (s s' : Database) : Prop where
  /-- The configurations of other environments stay as they are. -/
  configs : s.KeepsConfigs (elsewhere environmentId) s'
  /-- So does what is scheduled for them. -/
  changes : s'.changesElsewhere environmentId = s.changesElsewhere environmentId
  /-- A flag that gets archived is configured nowhere else. -/
  archived : ∀ flag ∈ s'.flags, flag.archivedAt.isSome = true → s.FlagArchived flag.id
    ∨ (flag.projectId = projectId
      ∧ ∀ row ∈ s'.configs, row.flagId = flag.id → row.environmentId = environmentId)

/-- The flag is of an environment alone. -/
def Database.OnlyIn (s : Database) (flagId environmentId : UUID) : Prop :=
  ∀ row ∈ s.configs, row.flagId = flagId → row.environmentId = environmentId

/-- **The request asks for an environment only**, where its endpoint does not see to
it: it names the environment, or the flag to archive is of no other one. -/
def Request.AsksFor (s : Database) (environmentId : UUID) : Request → Prop
  | .addTargetingRule _ _ _ payload => payload.environmentId = environmentId
  | .scheduleChange _ _ _ payload => payload.environmentId = environmentId
  | .archiveFlag _ _ flagId => s.FlagArchived flagId ∨ s.OnlyIn flagId environmentId
  | _ => True

instance (s : Database) (flagId : UUID) : Decidable (s.FlagArchived flagId) :=
  inferInstanceAs (Decidable (∃ flag ∈ s.flags, _))

instance (s : Database) (flagId environmentId : UUID) : Decidable (s.OnlyIn flagId environmentId) :=
  inferInstanceAs (Decidable (∀ row ∈ s.configs, _))

instance (db : Database) (organizationId projectId environmentId : UUID) :
    Decidable (db.HasOnly organizationId projectId environmentId) :=
  decidable_of_iff
    ((∀ row ∈ db.projects, row.organizationId = organizationId → row.id = projectId)
      ∧ (∀ row ∈ db.environments, row.projectId = projectId → row.id = environmentId)
      ∧ ∀ row ∈ db.apiKeys, row.organizationId = organizationId →
        (∀ id ∈ row.projectId, id = projectId) ∧ ∀ id ∈ row.environmentId, id = environmentId)
    ⟨fun ⟨h₁, h₂, h₃⟩ => ⟨h₁, h₂, h₃⟩, fun ⟨h₁, h₂, h₃⟩ => ⟨h₁, h₂, h₃⟩⟩

instance (s : Database) (environmentId : UUID) (request : Request) :
    Decidable (request.AsksFor s environmentId) := by
  unfold Request.AsksFor
  split <;> infer_instance

/-! ## Effects within an environment -/

/-- **The effect is about an environment.** -/
def Effect.Within (s : Database) (projectId environmentId : UUID) : Effect → Prop
  | .rounds rs => ∃ u : Update, rs = [⟨some u, none⟩] ∧ u.environment.id = environmentId
  | .creation k => k.environment.id = environmentId
  | .archiving a => a.flag.projectId = projectId
      ∧ (s.FlagArchived a.flag.id ∨ s.OnlyIn a.flag.id environmentId)
  | .plain ws => ∀ op ∈ ws.filterMap Write.change?, ∃ change, op = .insert change
      ∧ ∃ row, s.KnowsConfig row ∧ row.id = change.configId ∧ row.environmentId = environmentId

/-- **Who is confined to an environment and asks for no other one** has effects within it. -/
theorem Effect.IsOf.within {s : Database} {request : Request} {effect : Effect}
    {principal : Principal} {projectId environmentId : UUID} (h : effect.IsOf s request)
    (hprincipal : request.principal? = some principal)
    (hproject : principal.projectId = some projectId)
    (henvironment : principal.environmentId = some environmentId)
    (hasks : request.AsksFor s environmentId) : effect.Within s projectId environmentId := by
  -- an environment the principal may use is the one it is confined to
  have hscope : ∀ id, principal.MayUseEnvironment id → id = environmentId :=
    fun id hmay => (hmay environmentId henvironment).symm
  have hupdates : ∀ flagId id, effect.Updates flagId id → id = environmentId →
      effect.Within s projectId environmentId := by
    rintro flagId id ⟨u, rfl, -, hid⟩ rfl
    exact ⟨u, rfl, hid⟩
  cases request with
  | createFeatureFlag _ _ _ payload =>
    cases hprincipal
    obtain ⟨k, rfl, hid, hmay⟩ := h
    exact hid.trans (hscope _ hmay)
  | replaceFlagConfiguration _ _ _ payload =>
    cases hprincipal
    exact hupdates _ _ h.1 (hscope _ h.2)
  | rollbackFeatureFlag _ _ _ _ payload =>
    cases hprincipal
    exact hupdates _ _ h.1 (hscope _ h.2)
  | addTargetingRule _ _ _ payload => exact hupdates _ _ h hasks
  | archiveFlag _ _ flagId =>
    cases hprincipal
    obtain ⟨a, rfl, rfl, hmay⟩ := h
    exact ⟨(hmay projectId hproject).symm, hasks⟩
  | scheduleChange _ _ _ payload =>
    obtain ⟨change, event, rfl, row, hknown, hid, -, henv⟩ := h
    intro op hop
    rw [List.mem_singleton.mp hop]
    exact ⟨change, rfl, row, hknown, hid, henv.trans hasks⟩
  | applyDueChanges => cases hprincipal
  | _ =>
    obtain ⟨ws, rfl, hnone⟩ := h
    intro op hop
    obtain ⟨w, hw, hchange⟩ := List.mem_filterMap.mp hop
    rw [hnone w hw] at hchange
    cases hchange

/-- **It is told of that environment alone.** -/
theorem Effect.Within.responses {s : Database} {effect : Effect} {outcome : Outcome}
    {projectId environmentId : UUID} (h : effect.Within s projectId environmentId)
    (hreturns : effect.Returns outcome) :
    ∀ r ∈ outcome.responses, r.environmentId = environmentId.str := by
  intro r hr
  cases effect with
  | rounds rs =>
    obtain ⟨u, rfl, rfl⟩ := h
    obtain ⟨v, hv, hresponds⟩ := (PermBy.of_forall₂ hreturns.1).exists_left hr
    rw [hresponds.environmentId, List.mem_singleton.mp hv]
  | creation k =>
    obtain ⟨response, note, rfl, -, henv, -⟩ := hreturns
    rw [List.mem_singleton.mp hr, henv, show k.environment.id = environmentId from h]
  | archiving a =>
    rw [hreturns.1] at hr
    cases hr
  | plain ws =>
    rw [hreturns.1] at hr
    cases hr

/-! ## Flags that get archived -/

/-- The flag a write archives. -/
def Write.archives? : Write → Option UUID
  | .flag (.setArchivedAt id _) => some id
  | .flag (.insert row) => if row.archivedAt.isSome then some row.id else none
  | _ => none

section Archived

variable {s : Database}

/-- An archived flag was archived, or the write archives it. -/
theorem archived_of_apply {w : Write} {flag : FeatureFlagRow} (hflag : flag ∈ (s.apply w).flags)
    (harchived : flag.archivedAt.isSome = true) :
    s.FlagArchived flag.id ∨ w.archives? = some flag.id := by
  cases w with
  | flag op =>
    cases op with
    | insert row =>
      rcases List.mem_append.mp hflag with hflag | hflag
      · exact .inl ⟨flag, hflag, rfl, harchived⟩
      · rw [List.mem_singleton.mp hflag] at harchived ⊢
        exact .inr (if_pos harchived)
    | setName id name =>
      obtain ⟨row, hrow, rfl⟩ := List.mem_map.mp hflag
      refine .inl ⟨row, hrow, ?_⟩
      split at harchived <;> exact ⟨by split <;> rfl, harchived⟩
    | setDescription id text =>
      obtain ⟨row, hrow, rfl⟩ := List.mem_map.mp hflag
      refine .inl ⟨row, hrow, ?_⟩
      split at harchived <;> exact ⟨by split <;> rfl, harchived⟩
    | setArchivedAt id t =>
      obtain ⟨row, hrow, rfl⟩ := List.mem_map.mp hflag
      by_cases hid : row.id = id
      · rw [if_pos hid]
        exact .inr (congrArg some hid.symm)
      · rw [if_neg hid] at harchived ⊢
        exact .inl ⟨row, hrow, rfl, harchived⟩
  | _ => exact .inl ⟨flag, hflag, rfl, harchived⟩

theorem archived_of_view {writes : List Write} {flag : FeatureFlagRow}
    (hflag : flag ∈ (service.view writes s).flags) (harchived : flag.archivedAt.isSome = true) :
    s.FlagArchived flag.id ∨ flag.id ∈ writes.filterMap Write.archives? := by
  induction writes generalizing s with
  | nil => exact .inl ⟨flag, hflag, rfl, harchived⟩
  | cons w writes ih =>
    rw [List.mem_filterMap]
    rcases ih (s := s.apply w) hflag with ⟨flag₁, hflag₁, hid, harchived₁⟩ | hmem
    · rw [← hid]
      rcases archived_of_apply hflag₁ harchived₁ with hold | hnew
      · exact .inl hold
      · exact .inr ⟨w, List.mem_cons_self, hnew⟩
    · obtain ⟨w', hw', hnew⟩ := List.mem_filterMap.mp hmem
      exact .inr ⟨w', List.mem_cons_of_mem _ hw', hnew⟩

/-- Updates archive nothing. -/
theorem archives_pending (u : Update) : u.pending.filterMap Write.archives? = [] := by
  have hnames : ∀ (names : Option String) (f : String → FlagWrite),
      (∀ name, Write.archives? (.flag (f name)) = none) →
      (names.toList.map (fun name => Write.flag (f name))).filterMap Write.archives? = [] := by
    intro names f hf
    cases names with
    | none => rfl
    | some name => simp [hf]
  show (_ ++ _ ++ [_, _, _]).filterMap Write.archives? = []
  rw [List.filterMap_append, List.filterMap_append, hnames _ _ (fun _ => rfl),
    hnames _ _ (fun _ => rfl)]
  rfl

/-- **The flags an effect archives.** -/
theorem Effect.archived_before {effect : Effect} {locks : List Row} (hfits : effect.Fits s locks)
    {flag : FeatureFlagRow} (hflag : flag ∈ (service.view effect.writes s).flags)
    (harchived : flag.archivedAt.isSome = true) :
    s.FlagArchived flag.id ∨ ∃ a, effect = .archiving a ∧ a.flag.id = flag.id := by
  refine (archived_of_view hflag harchived).imp_right (fun hmem => ?_)
  have hnone : effect.writes.filterMap Write.archives? = [] →
      ∃ a, effect = .archiving a ∧ a.flag.id = flag.id := by
    intro hnil
    rw [hnil] at hmem
    cases hmem
  cases effect with
  | rounds rs =>
    refine hnone ((filterMap_rounds rs (fun _ _ => rfl) (fun _ _ => rfl)).trans ?_)
    simp only [archives_pending]
    rw [List.flatMap_eq_nil_iff.mpr (fun _ _ => rfl), List.append_nil]
    exact List.flatMap_eq_nil_iff.mpr (fun _ _ => rfl)
  | creation k => exact hnone rfl
  | archiving a =>
    obtain ⟨w, hw, hid⟩ := List.mem_filterMap.mp hmem
    rcases List.mem_append.mp hw with hw | hw
    · rcases List.mem_cons.mp hw with rfl | hw
      · exact ⟨a, rfl, Option.some.inj hid⟩
      · obtain ⟨item, -, rfl⟩ := List.mem_map.mp hw
        cases hid
    · rw [List.mem_singleton.mp hw] at hid
      cases hid
  | plain ws =>
    refine hnone (filterMap_plain hfits (fun w hw => ?_))
    cases w with
    | flag op => cases hw
    | _ => rfl

end Archived

/-! ## Commits within an environment -/

section Commit

variable {s s' : Database} {locks : List Row} {effect : Effect} {projectId environmentId : UUID}

/-- Where only changes of the environment are added. -/
theorem changesElsewhere_append (new : List ScheduledChangeRow)
    (hconfigs : s'.configsWhere (elsewhere environmentId)
      = s.configsWhere (elsewhere environmentId))
    (hchanges : s'.changes = s.changes ++ new)
    (hnew : ∀ change ∈ new,
      change.configId ∉ (s.configsWhere (elsewhere environmentId)).map FlagConfigRow.id) :
    s'.changesElsewhere environmentId = s.changesElsewhere environmentId := by
  unfold Database.changesElsewhere
  rw [hconfigs, hchanges, List.filter_append, List.append_right_eq_self]
  exact List.filter_eq_nil_iff.mpr (fun change hchange => by simpa using hnew change hchange)

/-- The changes that are added. -/
theorem Effect.Within.changes (h : effect.Within s projectId environmentId)
    (hs : s.Consistent) : ∃ new, (service.view effect.writes s).changes = s.changes ++ new
      ∧ ∀ change ∈ new,
        change.configId ∉ (s.configsWhere (elsewhere environmentId)).map FlagConfigRow.id := by
  have hsame : effect.writes.filterMap Write.change? = [] → ∃ new,
      (service.view effect.writes s).changes = s.changes ++ new ∧ ∀ change ∈ new,
        change.configId ∉ (s.configsWhere (elsewhere environmentId)).map FlagConfigRow.id := by
    intro hnil
    rw [view_changes, hnil]
    exact ⟨[], (List.append_nil _).symm, fun _ hnot => absurd hnot List.not_mem_nil⟩
  cases effect with
  | rounds rs =>
    obtain ⟨u, rfl, -⟩ := h
    refine hsame ?_
    show (roundWrites [⟨some u, none⟩]).filterMap Write.change? = []
    rw [roundWrites_singleton, List.filterMap_append, List.filterMap_append,
      pending_filterMap _ _ (fun _ => rfl)]
    rfl
  | creation k => exact hsame rfl
  | archiving a => exact hsame (filterMap_archiving a (fun _ => rfl) (fun _ _ => rfl) rfl)
  | plain ws =>
    show ∃ new, (service.view ws s).changes = s.changes ++ new ∧ _
    rw [view_changes]
    -- the writes to the table of changes are insertions one after another
    have hall : ∀ op ∈ ws.filterMap Write.change?, ∃ change, op = .insert change
      ∧ ∃ row, s.KnowsConfig row ∧ row.id = change.configId
        ∧ row.environmentId = environmentId := h
    revert hall
    generalize ws.filterMap Write.change? = ops, s.changes = rows
    intro hall
    clear hsame h
    induction ops generalizing rows with
    | nil => exact ⟨[], (List.append_nil _).symm, fun _ hnot => absurd hnot List.not_mem_nil⟩
    | cons op ops ih =>
      obtain ⟨⟨change, rfl, row, hknown, hid, henv⟩, hrest⟩ := List.forall_mem_cons.mp hall
      obtain ⟨new, hrows, hnew⟩ := ih (rows ++ [change]) hrest
      refine ⟨change :: new, hrows.trans (List.append_assoc rows [change] new),
        List.forall_mem_cons.mpr ⟨?_, hnew⟩⟩
      rw [← hid]
      exact not_mem_configsWhere hs hknown (decide_eq_false (not_not.mpr henv))

/-- **A commit within an environment stays in it.** -/
theorem Effect.Within.staysIn (h : effect.Within s projectId environmentId) (hs : s.Consistent)
    (hfits : effect.Fits s locks) (hok : (service.view effect.writes s).Consistent) :
    s.StaysIn projectId environmentId (service.view effect.writes s) := by
  have hkeeps : s.KeepsConfigs (elsewhere environmentId) (service.view effect.writes s) := by
    refine effect.keepsConfigs hs hfits hok (fun rounds heq u hu => ?_) (fun identity hnew => ?_)
    · cases heq
      obtain ⟨v, rfl, henv⟩ := h
      rw [List.mem_singleton.mp hu]
      exact decide_eq_false (not_not.mpr henv)
    · cases effect with
      | creation k =>
        rw [List.mem_singleton.mp hnew]
        exact decide_eq_false (not_not.mpr (show k.environment.id = environmentId from h))
      | _ => cases hnew
  obtain ⟨new, hchanges, hnew⟩ := h.changes hs
  refine ⟨hkeeps, changesElsewhere_append new hkeeps.configs hchanges hnew,
    fun flag hflag harchived => ?_⟩
  refine (effect.archived_before hfits hflag harchived).elim .inl ?_
  rintro ⟨a, rfl, hid⟩
  obtain ⟨hproject, harchived | honly⟩ := h
  · exact .inl (hid ▸ harchived)
  refine .inr ⟨?_, fun row hrow hflagId => ?_⟩
  · obtain ⟨row, hrow, hsame⟩ := List.mem_map.mp
      ((grows_view a.writes s).flags.subset (Archiving.Known.flagKnown hfits))
    rw [List.inj_on_of_nodup_map hok.keys.flagIds hflag hrow
      (hid.symm.trans (congrArg FeatureFlagRow.Identity.id hsame).symm)]
    exact (congrArg FeatureFlagRow.Identity.projectId hsame).trans hproject
  · -- archiving creates no configuration
    have hidentity : row.identity ∈ s.configs.map FlagConfigRow.identity := by
      have hmem := List.mem_map_of_mem (f := FlagConfigRow.identity) hrow
      rw [Effect.identities hfits] at hmem
      rwa [show (Effect.archiving a).created = [] from rfl, List.append_nil] at hmem
    obtain ⟨row', hrow', hsame⟩ := List.mem_map.mp hidentity
    rw [← show row'.environmentId = row.environmentId from
      congrArg FlagConfigRow.Identity.environmentId hsame]
    exact honly row' hrow'
      ((congrArg FlagConfigRow.Identity.flagId hsame).trans (hflagId.trans hid.symm))

end Commit

/-! ## What an event is about -/

section Places

variable {db : Database} {event : AuditEventRow} {organizationId projectId environmentId : UUID}

/-- The project of a flag that is known. -/
theorem projectOfFlag_of_fact (hs : db.Consistent) {flagId : UUID}
    (h : .flag flagId projectId ∈ db.facts) : db.projectOfFlag flagId = some projectId := by
  obtain ⟨row, hrow, heq⟩ := List.mem_map.mp h
  obtain ⟨hid, hproject⟩ := Prod.mk.inj heq
  unfold Database.projectOfFlag
  rw [find?_eq_some_of_mem hs.keys.flagIds hrow hid, Option.map_some, hproject]

/-- The configuration of a change that was recorded. -/
theorem configOfChange_of_facts (hs : db.Consistent) {changeId configId flagId : UUID}
    {createdById : Option UUID} (hchange : .change changeId configId createdById ∈ db.facts)
    (hconfig : .config configId flagId environmentId ∈ db.facts) :
    ∃ row ∈ db.configs, db.configOfChange changeId = some row ∧ row.flagId = flagId := by
  obtain ⟨change, hchange, heq⟩ := List.mem_map.mp hchange
  obtain ⟨hid, hrest⟩ := Prod.mk.inj heq
  obtain ⟨row, hrow, heq'⟩ := List.mem_map.mp hconfig
  obtain ⟨hconfigId, hrest'⟩ := Prod.mk.inj heq'
  refine ⟨row, hrow, ?_, (Prod.mk.inj hrest').1⟩
  unfold Database.configOfChange
  rw [find?_eq_some_of_mem hs.keys.changeIds hchange hid, Option.bind_some]
  exact find?_eq_some_of_mem hs.keys.configIds hrow (hconfigId.trans (Prod.mk.inj hrest).1.symm)

/-! ### An organization that has nothing else -/

/-- A project of the organization is the one. -/
theorem project_of_hasOnly (h : db.HasOnly organizationId projectId environmentId) {id : UUID}
    (hproject : .project id organizationId ∈ db.facts) : id = projectId := by
  obtain ⟨row, hrow, heq⟩ := List.mem_map.mp hproject
  obtain ⟨hid, horganization⟩ := Prod.mk.inj heq
  exact hid.symm.trans (h.projects row hrow horganization)

/-- A flag of the organization is one of the project. -/
theorem flag_of_hasOnly (h : db.HasOnly organizationId projectId environmentId) {flagId : UUID}
    (howns : Owns db.facts organizationId flagId) : .flag flagId projectId ∈ db.facts := by
  obtain ⟨id, hflag, hproject⟩ := howns
  rwa [project_of_hasOnly h hproject] at hflag

/-- **A flag of the organization is configured in the environment alone.** -/
theorem environment_of_hasOnly (h : db.HasOnly organizationId projectId environmentId)
    (hs : db.Consistent) (hshares : db.SharesProjects) {flagId : UUID}
    (howns : Owns db.facts organizationId flagId) {row : FlagConfigRow} (hrow : row ∈ db.configs)
    (hflagId : row.flagId = flagId) : row.environmentId = environmentId := by
  obtain ⟨flag, hflag, heq⟩ := List.mem_map.mp (flag_of_hasOnly h howns)
  obtain ⟨hid, hproject⟩ := Prod.mk.inj heq
  obtain ⟨environment, henvironment, heid⟩ :=
    List.mem_map.mp (hs.references.configEnvironments row hrow)
  have hsame := hshares row hrow flag hflag (hid.trans hflagId.symm) environment henvironment heid
  rw [← heid]
  exact h.environments environment henvironment (hsame.symm.trans hproject)

/-- An API key of the organization is scoped to nothing else. -/
theorem key_of_hasOnly (h : db.HasOnly organizationId projectId environmentId)
    (hs : db.Consistent) {keyId : UUID} {scopes : List String}
    (hkey : .apiKey keyId organizationId scopes ∈ db.facts) :
    ∃ row, db.apiKeys.find? (fun row => row.id = keyId) = some row
      ∧ (∀ id ∈ row.projectId, id = projectId) ∧ ∀ id ∈ row.environmentId, id = environmentId := by
  obtain ⟨row, hrow, heq⟩ := List.mem_map.mp hkey
  obtain ⟨hid, hrest⟩ := Prod.mk.inj heq
  exact ⟨row, find?_eq_some_of_mem hs.keys.apiKeyIds hrow hid,
    h.apiKeys row hrow (Prod.mk.inj hrest).1⟩

/-- What an event is about is of the project. -/
theorem projectOf_of_hasOnly (h : db.HasOnly event.organizationId projectId environmentId)
    (hs : db.Consistent) (hfiled : event.Filed db.facts) :
    ∀ id ∈ db.projectOf event, id = projectId := by
  have hflags : ∀ {flagId : UUID}, Owns db.facts event.organizationId flagId →
      ∀ id ∈ db.projectOfFlag flagId, id = projectId := by
    intro flagId howns id hid
    rw [projectOfFlag_of_fact hs (flag_of_hasOnly h howns)] at hid
    exact (Option.mem_some.mp hid).symm
  intro id hid
  unfold Database.projectOf at hid
  cases hfiled with
  | organization resource =>
    simp only [resource] at hid
    cases hid
  | project resource owner =>
    simp only [resource] at hid
    exact (Option.mem_some.mp hid).symm.trans (project_of_hasOnly h owner)
  | environment resource owning belongs owner =>
    simp only [resource] at hid
    obtain ⟨row, hrow, heq⟩ := List.mem_map.mp belongs
    obtain ⟨henvironment, hproject⟩ := Prod.mk.inj heq
    rw [find?_eq_some_of_mem hs.keys.environmentIds hrow henvironment] at hid
    exact (Option.mem_some.mp hid).symm.trans (hproject.trans (project_of_hasOnly h owner))
  | flag resource owner named =>
    simp only [resource] at hid
    exact hflags owner id hid
  | change resource configId flagId asked createdById scheduled configured owner =>
    simp only [resource] at hid
    obtain ⟨row, -, hfound, rfl⟩ := configOfChange_of_facts hs scheduled configured
    rw [hfound] at hid
    exact hflags owner id hid
  | apiKey resource scopes owner =>
    simp only [resource] at hid
    obtain ⟨row, hfound, hproject, -⟩ := key_of_hasOnly h hs owner
    rw [hfound] at hid
    exact hproject id hid

/-- And of the environment. -/
theorem environmentsOf_of_hasOnly (h : db.HasOnly event.organizationId projectId environmentId)
    (hs : db.Consistent) (hshares : db.SharesProjects) (hfiled : event.Filed db.facts) :
    ∀ id ∈ db.environmentsOf event, id = environmentId := by
  intro id hid
  unfold Database.environmentsOf at hid
  cases hfiled with
  | organization resource =>
    simp only [resource] at hid
    cases hid
  | project resource owner =>
    simp only [resource] at hid
    cases hid
  | environment resource owning belongs owner =>
    simp only [resource] at hid
    obtain ⟨row, hrow, heq⟩ := List.mem_map.mp belongs
    obtain ⟨henvironment, hproject⟩ := Prod.mk.inj heq
    rw [List.mem_singleton.mp hid, ← henvironment]
    exact h.environments row hrow (hproject.trans (project_of_hasOnly h owner))
  | flag resource owner named =>
    simp only [resource] at hid
    cases hname : (event.metadata.lookup "environment_id").bind Json.str? with
    | some text =>
      -- the event names an environment that the flag is configured in
      rw [hname] at hid
      obtain ⟨value, hlookup, htext⟩ := Option.bind_eq_some_iff.mp hname
      obtain ⟨environment, hmem, rfl⟩ := List.mem_map.mp hid
      have hstr : environment.id.str = text := of_decide_eq_true (List.mem_filter.mp hmem).2
      have hvalue : value = .str text := by
        cases value with
        | str other => exact congrArg Json.str (Option.some.inj htext)
        | _ => cases htext
      obtain ⟨configId, asked, hconfig, hasked⟩ := named text (hvalue ▸ hlookup)
      obtain ⟨row, hrow, heq⟩ := List.mem_map.mp hconfig
      obtain ⟨-, hrest⟩ := Prod.mk.inj heq
      obtain ⟨hflagId, henvironment⟩ := Prod.mk.inj hrest
      rw [UUID.str_injective (hstr.trans hasked), ← henvironment]
      exact environment_of_hasOnly h hs hshares owner hrow hflagId
    | none =>
      rw [hname] at hid
      obtain ⟨row, hmem, rfl⟩ := List.mem_map.mp hid
      obtain ⟨hrow, hflagId⟩ := List.mem_filter.mp hmem
      exact environment_of_hasOnly h hs hshares owner hrow (of_decide_eq_true hflagId)
  | change resource configId flagId asked createdById scheduled configured owner =>
    simp only [resource] at hid
    obtain ⟨row, hrow, hfound, rfl⟩ := configOfChange_of_facts hs scheduled configured
    rw [hfound] at hid
    rw [List.mem_singleton.mp hid]
    exact environment_of_hasOnly h hs hshares owner hrow rfl
  | apiKey resource scopes owner =>
    simp only [resource] at hid
    obtain ⟨row, hfound, -, henvironment⟩ := key_of_hasOnly h hs owner
    rw [hfound] at hid
    exact henvironment id (Option.mem_toList.mp hid)

/-- **Where the organization has nothing else, no event of it is about anything else.** -/
theorem not_concernsOther_of_hasOnly
    (h : db.HasOnly event.organizationId projectId environmentId) (hs : db.Consistent)
    (hshares : db.SharesProjects) (hfiled : event.Filed db.facts) :
    ¬ db.ConcernsOther event projectId environmentId := by
  rintro (⟨id, hid, hne⟩ | ⟨id, hid, hne⟩)
  · exact hne (projectOf_of_hasOnly h hs hfiled id hid)
  · exact hne (environmentsOf_of_hasOnly h hs hshares hfiled id hid)

end Places

/-! ## Reads -/

/-- **What a confined principal reads is of its scope**, where it asks for nothing else. -/
theorem ManagementRead.confined {request : ManagementRead}
    {views : List (View Database Row Choice)} {last : View Database Row Choice} {answer : Answer}
    {projectId environmentId : UUID}
    (henvironment : request.principal.environmentId = some environmentId)
    (hgrows : ∀ v ∈ views ++ [last], v.state.Grows last.state) (hs : last.state.Consistent)
    (hshares : last.state.SharesProjects)
    (hfiled : ∀ event ∈ last.state.audits, event.Filed last.state.facts)
    (hasks : request.AsksFor last.state projectId environmentId)
    (h : request.program.observe (views ++ [last]) = some (.ok answer)) :
    answer.KeepsTo last.state projectId environmentId := by
  have hyields : request.program.Yields (fun answer =>
      answer.KeepsTo last.state projectId environmentId) →
      answer.KeepsTo last.state projectId environmentId := fun hall => hall.of_observe h
  cases request with
  | listOrganizations principal =>
    refine hyields ((Prog.yields_true (CohortSwitch.listOrganizations principal)).bind
      (fun _ _ => ?_))
    exact trivial
  | listApiKeys principal organizationId =>
    refine hyields ((Prog.yields_true
      (CohortSwitch.listApiKeys principal organizationId)).bind (fun _ _ => ?_))
    exact trivial
  | listFlags principal _ asked =>
    refine hyields ((environment_of_listFlags principal _ asked).bind
      (fun responses hresponses => ?_))
    show ∀ r ∈ responses, r.environmentId = environmentId.str
    rw [hresponses.1 environmentId henvironment]
    exact hresponses.2
  | getFlag principal flagId asked =>
    refine hyields ((environment_of_getFlag principal flagId asked).bind
      (fun response hresponse => ?_))
    show ∀ r ∈ [response], r.environmentId = environmentId.str
    rw [← show asked = environmentId from hasks]
    exact List.forall_mem_singleton.mpr hresponse
  | exportConfiguration principal _ asked ifNoneMatch =>
    refine hyields ((environment_of_export principal _ asked ifNoneMatch).bind
      (fun response hresponse => ?_))
    cases response with
    | notModified etag => exact trivial
    | bundle etag bundle =>
      obtain ⟨hscope, hflags⟩ := hresponse etag bundle rfl
      intro c hc
      rw [hscope environmentId henvironment]
      exact hflags c hc
  | flagVersions principal flagId asked =>
    obtain ⟨before, after, rows, hviews, hread, hreturn⟩ := observe_bind h
    cases after with
    | cons v rest => cases hreturn
    | nil =>
      cases hreturn
      rw [List.append_nil] at hviews
      obtain ⟨v, config, last', hv, hlast, hconfig, henv, hrows⟩ :=
        environment_of_flagVersions hread
      rw [← hviews] at hv
      -- the configuration that was found is still there at the last statement
      obtain ⟨row', hrow', hsame⟩ := List.mem_map.mp
        ((hgrows v hv).configs.subset (List.mem_map_of_mem hconfig))
      intro row hrow
      refine ⟨row', hrow', ?_, ?_⟩
      · rw [hrows row hrow]
        exact congrArg FlagConfigRow.Identity.id hsame
      · rw [show row'.environmentId = config.environmentId from
          congrArg FlagConfigRow.Identity.environmentId hsame, henv]
        exact hasks
  | listAuditEvents principal organizationId limit before =>
    obtain ⟨reading, after, rows, hviews, hread, hreturn⟩ := observe_bind h
    cases after with
    | cons v rest => cases hreturn
    | nil =>
      cases hreturn
      rw [List.append_nil] at hviews
      obtain ⟨authorizing, final, _, hsplit, -, hlist⟩ := observe_bind hread
      obtain ⟨v, events, rfl, hevents, rfl⟩ := observe_selectAll hlist
      obtain ⟨-, hlast⟩ := List.append_inj' (hviews.trans hsplit) rfl
      cases hlast
      intro event hevent
      have hlisted := hevents.subset ((mem_sortedBy _).mp (List.mem_of_mem_take hevent))
      obtain ⟨hmem, hof⟩ := List.mem_filter.mp hlisted
      rcases hasks with honly | hends
      · rw [← (of_decide_eq_true hof).1] at honly
        exact not_concernsOther_of_hasOnly honly hs hshares (hfiled event hmem)
      · intro hother
        have hlater := length_later_lt hevent
        rw [(hevents.filter _).length_eq] at hlater
        exact absurd (hends event hlisted hother) (not_le.mpr hlater)

/-! ## Every run -/

/-- **A scoped management key is confined to its scope, where it asks for nothing else.** In
every state a run reaches, what a request of the key commits stays in the environment
and what it returns is of it; and so is what a request reads at any later moments. -/
theorem management_keys_confined {actions : List (Action Choice Request)} {w : ServiceWorld}
    (hrun : service.run initial actions = some w) {key : APIKeyRow} {p e : UUID}
    (hproject : key.projectId = some p) (henvironment : key.environmentId = some e) :
    (∀ id tx w', w.running? id = some tx → tx.request.principal? = some (.ofKey key) →
      tx.request.AsksFor w.committed e → service.step w (.commit id) = some w' →
      w.committed.StaysIn p e w'.committed ∧ ∀ result, tx.prog = .ret result →
        ∀ r ∈ result.responses, r.environmentId = e.str)
    ∧ ∀ request : ManagementRead, request.principal = .ofKey key → ∀ views last answer,
      service.Moments w ((views ++ [last]).map View.state) → request.AsksFor last.state p e →
      request.program.observe (views ++ [last]) = some (.ok answer) →
        answer.KeepsTo last.state p e := by
  refine ⟨fun id tx w' htx hprincipal hasks hstep => ?_,
    fun request hprincipal views last answer hmoments hasks h => ?_⟩
  · have hgood := concluding_of_run hrun
    have hs := hgood.invariant.1.consistent
    obtain ⟨tx', result, htx', hprog, hok, rfl⟩ := service.commit_eq_some hstep
    rw [htx] at htx'
    cases htx'
    obtain ⟨s, hrely, -, effect, hwrites, hfits, hreturns, hof⟩ := hgood.of_running htx hprog
    have hwithin := (hof.evolve hrely.1).within hprincipal hproject henvironment hasks
    refine ⟨?_, fun result' hprog' => ?_⟩
    · show w.committed.StaysIn p e (service.view tx.writes w.committed)
      have hconsistent := Database.consistent_of_ok hok
      rw [← hwrites] at hconsistent ⊢
      exact hwithin.staysIn hs (hfits.evolve hrely.1) hconsistent
    · rw [hprog] at hprog'
      cases hprog'
      exact hwithin.responses hreturns
  · obtain ⟨-, -, hpairs⟩ :=
      service_respects.moments (fun _ _ _ => trivial) (good_of_run hrun) hmoments
    -- the last moment is in a run of its own, from the start on
    obtain ⟨later, w', hlater, hstate⟩ :=
      System.Moments.exists_run _ hmoments last.state (List.mem_map_of_mem List.mem_concat_self)
    have hrun' : service.run initial (actions ++ later) = some w' := by
      rw [System.run_append, hrun, Option.bind_some, hlater]
    have hs := (concluding_of_run hrun').invariant.1.consistent
    have hshares := sharesProjects_of_run hrun'
    have hfiled := filed_of_run hrun'
    rw [hstate] at hs hshares hfiled
    refine ManagementRead.confined (hprincipal ▸ henvironment) (fun v hv => ?_) hs hshares hfiled
      hasks h
    rw [List.map_append, List.pairwise_append] at hpairs
    rcases List.mem_append.mp hv with hv | hv
    · exact (hpairs.2.2 _ (List.mem_map_of_mem hv) _ (List.mem_singleton.mpr rfl)).grows
    · rw [List.mem_singleton.mp hv]
      exact .refl _

/-- The payload of a management key of the sample environment. -/
def robotKey : APIKeyCreate :=
  ⟨"robot", ⟨10⟩, some ⟨20⟩, some ⟨30⟩, ["audit:read", "flags:read", "flags:write"],
    robot_length, by decide⟩

/-- Who comes with the key. -/
def robot : Principal :=
  ⟨none, some ⟨60⟩, "MANAGEMENT", some ⟨10⟩, some ⟨20⟩, some ⟨30⟩,
    ["audit:read", "flags:read", "flags:write"]⟩

/-- The sample project with a second environment `31`, a flag `45` of it, and the key. -/
def robotTenant : List (Action Choice Request) :=
  sampleFlag
  ++ alone 4 31 5 (.createEnvironment sampleUser none ⟨20⟩ sampleStaging)
  ++ alone 5 45 12 (.createFeatureFlag sampleUser none ⟨20⟩
    { sampleCreate "footer" isFlagKey_footer with environmentId := ⟨31⟩ })
  ++ alone 6 60 4 (.createKey sampleUser none robotKey .management)

/-- The key adds a rule and is about to commit. -/
def robotAdds (flagId environmentId : UUID) : List (Action Choice Request) :=
  robotTenant ++ .start (.addTargetingRule robot none flagId
    { sampleRuleCreate 1 Nat.one_pos with environmentId := environmentId }) :: advances 7 70 18

/-- The sample tenant with its one environment, the flag and the key; then the flag is archived. -/
def robotAlone : List (Action Choice Request) :=
  sampleFlag
  ++ alone 4 60 4 (.createKey sampleUser none robotKey .management)
  ++ alone 5 80 7 (.archiveFlag sampleUser none ⟨40⟩)

/-- What a request reads in one statement more than `n` when nothing else happens. -/
def readsAlone (request : ManagementRead) (n : ℕ) (w : ServiceWorld) : Option Answer :=
  match request.program.observe (List.replicate n (sampleView w) ++ [sampleView w]) with
  | some (.ok answer) => some answer
  | _ => none

/-- What is read alone is read in some run. -/
theorem observe_of_readsAlone {request : ManagementRead} {n : ℕ} {w : ServiceWorld}
    {answer : Answer} (h : readsAlone request n w = some answer) :
    request.program.observe (List.replicate n (sampleView w) ++ [sampleView w])
      = some (.ok answer) := by
  unfold readsAlone at h
  split at h
  · rename_i hread
    cases h
    exact hread
  · cases h

/-- The states of such a read are all the same. -/
theorem moments_alone (w : ServiceWorld) (n : ℕ) :
    service.Moments w ((List.replicate n (sampleView w) ++ [sampleView w]).map View.state) := by
  rw [← List.replicate_succ', List.map_replicate, ← List.append_nil (List.replicate _ _)]
  exact moments_replicate w (n + 1) (.nil w)

/-- The types of what the events of an answer are about. -/
def Answer.resourceTypes : Answer → List String
  | .events rows => rows.map AuditEventRow.resourceType
  | _ => []

deriving instance DecidableEq for Principal

/-- The stored key, and more of what is found with it. -/
theorem exists_robot {actions : List (Action Choice Request)} {P : ServiceWorld → Prop}
    [DecidablePred P] (h : (service.run initial actions).any (fun w =>
      w.committed.apiKeys.any (fun key =>
        decide (key.kind = KeyKind.management.value ∧ .ofKey key = robot))
          && decide (P w)) = true) :
    ∃ w key, service.run initial actions = some w ∧ key ∈ w.committed.apiKeys
      ∧ key.kind = KeyKind.management.value ∧ .ofKey key = robot ∧ P w := by
  obtain ⟨w, hrun, h⟩ := (Option.any_eq_true _ _).mp h
  obtain ⟨hkey, hP⟩ := Bool.and_eq_true_iff.mp h
  obtain ⟨key, hkey, h⟩ := List.any_eq_true.mp hkey
  obtain ⟨hkind, hrobot⟩ := of_decide_eq_true h
  exact ⟨w, key, hrun, hkey, hkind, hrobot, of_decide_eq_true hP⟩

theorem management_keys_confined_sample : (∃ w key tx w' answer,
    service.run initial (robotAdds ⟨40⟩ ⟨30⟩) = some w ∧ key ∈ w.committed.apiKeys
    ∧ key.kind = KeyKind.management.value
    ∧ key.projectId = some ⟨20⟩ ∧ key.environmentId = some ⟨30⟩
    ∧ w.running? 7 = some tx ∧ tx.request.principal? = some (.ofKey key)
    ∧ service.step w (.commit 7) = some w' ∧ w.committed.StaysIn ⟨20⟩ ⟨30⟩ w'.committed
    ∧ (ManagementRead.getFlag (.ofKey key) ⟨40⟩ ⟨30⟩).program.observe
      (List.replicate 8 (sampleView w) ++ [sampleView w]) = some (.ok answer)
    ∧ answer.KeepsTo w.committed ⟨20⟩ ⟨30⟩)
    ∧ ∃ w key answer, service.run initial robotAlone = some w ∧ key ∈ w.committed.apiKeys
      ∧ key.projectId = some ⟨20⟩ ∧ key.environmentId = some ⟨30⟩
      ∧ (ManagementRead.listAuditEvents (.ofKey key) ⟨10⟩ 100 none).program.observe
        [sampleView w] = some (.ok answer)
      ∧ answer.resourceTypes = ["organization", "project", "environment", "feature_flag",
        "api_key", "feature_flag"]
      ∧ answer.KeepsTo w.committed ⟨20⟩ ⟨30⟩ := by
  constructor
  · obtain ⟨w, key, hrun, hkey, hkind, hrobot, hfacts⟩ := @exists_robot (robotAdds ⟨40⟩ ⟨30⟩)
      (fun w => (∃ tx ∈ w.running? 7, tx.request.principal? = some robot
        ∧ tx.request.AsksFor w.committed ⟨30⟩) ∧ (service.step w (.commit 7)).isSome = true
        ∧ (readsAlone (.getFlag robot ⟨40⟩ ⟨30⟩) 8 w).isSome = true) _ (by decide +kernel)
    obtain ⟨⟨tx, htx, hprincipal, hasks⟩, hstep, hgets⟩ := hfacts
    obtain ⟨w', hstep⟩ := Option.isSome_iff_exists.mp hstep
    obtain ⟨answer, hgets⟩ := Option.isSome_iff_exists.mp hgets
    have hread := observe_of_readsAlone hgets
    have hproject : key.projectId = some ⟨20⟩ := congrArg Principal.projectId hrobot
    have henvironment : key.environmentId = some ⟨30⟩ := congrArg Principal.environmentId hrobot
    rw [← hrobot] at hprincipal hread
    obtain ⟨hwrites, hreads⟩ := management_keys_confined hrun hproject henvironment
    exact ⟨w, key, tx, w', answer, hrun, hkey, hkind, hproject, henvironment, htx, hprincipal,
      hstep, (hwrites 7 tx w' htx hprincipal hasks hstep).1, hread,
      hreads (.getFlag (.ofKey key) ⟨40⟩ ⟨30⟩) rfl _ _ answer (moments_alone w 8) rfl hread⟩
  · obtain ⟨w, key, hrun, hkey, -, hrobot, hfacts⟩ := @exists_robot robotAlone
      (fun w => w.committed.HasOnly ⟨10⟩ ⟨20⟩ ⟨30⟩
        ∧ ∃ answer ∈ readsAlone (.listAuditEvents robot ⟨10⟩ 100 none) 0 w,
          answer.resourceTypes = ["organization", "project", "environment", "feature_flag",
            "api_key", "feature_flag"]) _ (by decide +kernel)
    obtain ⟨honly, answer, hlists, htypes⟩ := hfacts
    have hread := observe_of_readsAlone hlists
    have hproject : key.projectId = some ⟨20⟩ := congrArg Principal.projectId hrobot
    have henvironment : key.environmentId = some ⟨30⟩ := congrArg Principal.environmentId hrobot
    rw [← hrobot] at hread
    obtain ⟨-, hreads⟩ := management_keys_confined hrun hproject henvironment
    exact ⟨w, key, answer, hrun, hkey, hproject, henvironment, hread, htypes,
      hreads (.listAuditEvents (.ofKey key) ⟨10⟩ 100 none) rfl _ _ answer (moments_alone w 0)
        (.inl honly) hread⟩

/-! ## A key that leaves its scope -/

/-- **A key of one environment reads and changes another one**: `getFlagEndpoint` and
`addTargetingRule` compare only the project. -/
theorem management_key_leaves_scope : ∃ w key tx w' answer,
    service.run initial (robotAdds ⟨45⟩ ⟨31⟩) = some w ∧ key ∈ w.committed.apiKeys
    ∧ key.kind = KeyKind.management.value
    ∧ key.projectId = some ⟨20⟩ ∧ key.environmentId = some ⟨30⟩
    ∧ w.running? 7 = some tx ∧ tx.request.principal? = some (.ofKey key)
    ∧ service.step w (.commit 7) = some w' ∧ ¬ w.committed.StaysIn ⟨20⟩ ⟨30⟩ w'.committed
    ∧ (ManagementRead.getFlag (.ofKey key) ⟨45⟩ ⟨31⟩).program.observe
      (List.replicate 8 (sampleView w) ++ [sampleView w]) = some (.ok answer)
    ∧ ¬ answer.KeepsTo w.committed ⟨20⟩ ⟨30⟩ := by
  obtain ⟨w, key, hrun, hkey, hkind, hrobot, hfacts⟩ := @exists_robot (robotAdds ⟨45⟩ ⟨31⟩)
    (fun w => (∃ tx ∈ w.running? 7, tx.request.principal? = some robot)
      ∧ (∃ w' ∈ service.step w (.commit 7),
        (w.committed.configsWhere (elsewhere ⟨30⟩)).map FlagConfigRow.currentVersion = [1]
        ∧ (w'.committed.configsWhere (elsewhere ⟨30⟩)).map FlagConfigRow.currentVersion = [2])
      ∧ (readsAlone (.getFlag robot ⟨45⟩ ⟨31⟩) 8 w).isSome = true) _ (by decide +kernel)
  obtain ⟨⟨tx, htx, hprincipal⟩, ⟨w', hstep, hbefore, hafter⟩, hgets⟩ := hfacts
  obtain ⟨answer, hgets⟩ := Option.isSome_iff_exists.mp hgets
  have hread := observe_of_readsAlone hgets
  rw [← hrobot] at hprincipal hread
  refine ⟨w, key, tx, w', answer, hrun, hkey, hkind, congrArg Principal.projectId hrobot,
    congrArg Principal.environmentId hrobot, htx, hprincipal, hstep, fun hstays => ?_, hread, ?_⟩
  · rw [hstays.configs.configs, hbefore] at hafter
    cases hafter
  · refine Prog.Yields.of_observe (P := fun answer : Answer =>
      ¬ answer.KeepsTo w.committed ⟨20⟩ ⟨30⟩) ?_ hread
    refine (environment_of_getFlag (.ofKey key) ⟨45⟩ ⟨31⟩).bind (fun response hresponse => ?_)
    intro hkeeps
    have hsame := hkeeps response (List.mem_singleton.mpr rfl)
    rw [hresponse] at hsame
    exact absurd (UUID.str_injective hsame) (by decide)

end CohortSwitch
