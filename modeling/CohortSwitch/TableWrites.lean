import CohortSwitch.Effects
import CohortSwitch.Footprint

/-!
# The footprint of each request

Which rows an endpoint or a round of the scheduler can write at all
(`Request.mayWrite`, `Request.writes`). Whoever wants to know what a table goes
through has only the requests to look at that write to it: keys come from the
two endpoints that create them, a change is marked as applied by the scheduler
alone, and a version is written by whatever creates or updates a flag.

`Request.mayWrite` is a table with one line for each request, and it is decidable, so a
statement about one kind of write is settled request by request without looking at a
program. The programs are followed once, with the rules of `CohortSwitch.Footprint`: what
only reads has no footprint, and `updateFlag` has the same one wherever it is called.

The scheduler needs a little more than a footprint. Its writes come in an order, the
statements of all rounds first and then what they left pending, each round ending with
the mark of its change: `Marked` is that list, by induction on the changes.
-/

namespace CohortSwitch

/-! ## Writes by request -/

/-- The writes `updateFlag` makes at once. -/
def Write.isStatement : Write → Bool
  | .config (.update _ _ _ _) | .child _ | .environment (.increment _) => true
  | _ => false

/-- The writes of one passage through `updateFlag`, and of the commit after it. -/
def Write.isUpdate : Write → Bool
  | .config (.update _ _ _ _) | .child _ | .environment (.increment _)
  | .environment (.setRevision _ _) | .flag (.setName _ _) | .flag (.setDescription _ _)
  | .version _ | .audit _ => true
  | _ => false

/-- A statement of an update is a write of it. -/
theorem Write.isUpdate_of_isStatement {w : Write} (h : w.isStatement = true) :
    w.isUpdate = true := by
  unfold Write.isStatement at h
  split at h <;> first | rfl | cases h

/-- What is stored of a key is what was asked for. -/
def APIKeyRow.isFor (key : APIKeyRow) (payload : APIKeyCreate) (kind : KeyKind) : Bool :=
  key.organizationId = payload.organizationId ∧ key.projectId = payload.projectId
    ∧ key.environmentId = payload.environmentId ∧ key.kind = kind.value

/-- **The writes a request can make.** -/
def Request.mayWrite : Request → Write → Bool
  | .createOrganization _ _ _, .organization _ | .createOrganization _ _ _, .membership _
  | .createProject _ _ _, .project _ | .createEnvironment _ _ _ _, .environment (.insert _) => true
  | .createKey _ _ payload kind, .apiKey key => key.isFor payload kind
  | .createFeatureFlag _ _ _ _, .flag (.insert _) | .createFeatureFlag _ _ _ _, .config (.insert _)
  | .createFeatureFlag _ _ _ _, .child (.insert _) | .createFeatureFlag _ _ _ _, .version _
  | .createFeatureFlag _ _ _ _, .environment (.setRevision _ _) => true
  | .replaceFlagConfiguration _ _ _ _, w | .addTargetingRule _ _ _ _, w
  | .rollbackFeatureFlag _ _ _ _ _, w => w.isUpdate
  | .archiveFlag _ _ _, .flag (.setArchivedAt _ _)
  | .archiveFlag _ _ _, .environment (.setRevision _ _) => true
  | .scheduleChange _ _ _ _, .change (.insert row) => row.appliedAt.isNone
  | .applyDueChanges, .change (.setAppliedAt _ _) => true
  | .applyDueChanges, w => w.isUpdate
  | _, .audit _ => true
  | _, _ => false

/-- The requests that go through `updateFlag`. -/
def Request.updates : Request → Bool
  | .replaceFlagConfiguration _ _ _ _ | .addTargetingRule _ _ _ _ | .rollbackFeatureFlag _ _ _ _ _
  | .applyDueChanges => true
  | _ => false

/-- What goes through `updateFlag` may write what an update writes. -/
theorem Request.mayWrite_of_updates {request : Request} (h : request.updates = true) {w : Write}
    (hw : w.isUpdate = true) : request.mayWrite w = true := by
  cases request <;> first
    | exact absurd h Bool.false_ne_true
    | (unfold Request.mayWrite; split <;> first | rfl | exact hw | contradiction)

/-! ## One rule per statement -/

section Rules

variable {α β : Type} {P : Write → Prop} {Q : β → Prop}

/-- A statement that writes. -/
theorem writes_execute {writes : Database → List Write} {returning : Database → α} {k : α → Tx β}
    (hP : ∀ db, ∀ w ∈ writes db, P w) (h : ∀ a, (k a).Writes Write.locks P Q) :
    (execute writes returning >>= k).Writes Write.locks P Q := by
  refine fun v => ⟨hP v.state, fun r hr => ?_, h _⟩
  obtain ⟨w, hw, hlock⟩ := List.mem_flatMap.mp hr
  exact ⟨w, hP v.state w hw, hlock⟩

/-- The flush of what is pending. -/
theorem writes_flush {pending : List Write} {k : Unit → Tx β} (hP : ∀ w ∈ pending, P w)
    (h : (k ()).Writes Write.locks P Q) : (flush pending >>= k).Writes Write.locks P Q :=
  writes_execute (fun _ => hP) (fun _ => h)

/-- After a part that only reads. -/
theorem writes_after {m : Tx α} {k : α → Tx β} (hm : m.Reads)
    (h : ∀ a, (k a).Writes Write.locks P Q) : (m >>= k).Writes Write.locks P Q :=
  hm.writes.bind (fun a _ => h a)

end Rules

/-! ## What only reads -/

/-- A lookup only reads. -/
theorem reads_select {α : Type} (query : Database → α) : (select query).Reads :=
  Prog.reads_read _

theorem reads_selectAll {α : Type} (query : Database → List α) : (selectAll query).Reads :=
  Prog.reads_read _

theorem reads_choose : choose.Reads := Prog.reads_read _

theorem reads_raiseIf (condition : Prop) [Decidable condition] (error : PyError) :
    (Tx.raiseIf condition error).Reads :=
  Prog.reads_attempt _

/-- So does every authorization. -/
theorem reads_membershipFor (principal : Principal) (organizationId : UUID) :
    (membershipFor principal organizationId).Reads := by
  unfold membershipFor
  split
  · split <;> exact trivial
  · split
    · exact trivial
    · refine (reads_select _).bind (fun membership => ?_)
      cases membership <;> exact trivial

theorem reads_authorizeOrganization (principal : Principal) (organizationId : UUID)
    (permission : Permission) :
    (authorizeOrganization principal organizationId permission).Reads := by
  refine (reads_membershipFor _ _).bind (fun membership => ?_)
  split
  · split <;> exact trivial
  · exact (Prog.reads_attempt _).bind (fun _ => trivial)

theorem reads_authorizeProject (principal : Principal) (projectId : UUID)
    (permission : Permission) : (authorizeProject principal projectId permission).Reads := by
  refine (reads_select _).bind (fun project => ?_)
  cases project with
  | none => exact trivial
  | some project =>
    dsimp only
    split
    · exact trivial
    · exact (reads_authorizeOrganization _ _ _).bind (fun _ => trivial)

theorem reads_authorizeEnvironment (principal : Principal) (environmentId : UUID)
    (permission : Permission) :
    (authorizeEnvironment principal environmentId permission).Reads := by
  refine (reads_select _).bind (fun environment => ?_)
  cases environment with
  | none => exact trivial
  | some environment =>
    dsimp only
    split
    · exact trivial
    · exact (reads_authorizeProject _ _ _).bind (fun _ => trivial)

theorem reads_loadCollections (row : FlagConfigRow) (flag : FeatureFlagRow)
    (environment : EnvironmentRow) : (loadCollections row flag environment).Reads :=
  (reads_selectAll _).bind (fun _ => (reads_selectAll _).bind (fun _ =>
    (reads_selectAll _).bind (fun _ => (reads_selectAll _).bind (fun _ =>
      (reads_selectAll _).bind (fun _ => (reads_selectAll _).bind (fun _ =>
        (reads_selectAll _).bind (fun _ => trivial)))))))

theorem reads_getConfigByFlagEnvironment (flagId environmentId : UUID) :
    (getConfigByFlagEnvironment flagId environmentId).Reads := by
  refine (reads_select _).bind (fun found => ?_)
  cases found with
  | none => exact trivial
  | some found =>
    refine (reads_loadCollections _ _ _).bind (fun config => ?_)
    split <;> exact trivial

theorem reads_getEnvironments (rows : List FlagConfigRow) : (getEnvironments rows).Reads := by
  induction rows with
  | nil => exact trivial
  | cons row rest ih => exact (reads_select _).bind (fun _ => ih.bind (fun _ => trivial))

theorem reads_keyScopes (payload : APIKeyCreate) (kind : KeyKind) :
    (keyScopes payload kind).Reads := by
  unfold keyScopes
  split
  · split
    · refine (reads_select _).bind (fun project => (reads_select _).bind (fun environment => ?_))
      split
      · split <;> exact trivial
      · exact trivial
    · exact trivial
  · exact (reads_raiseIf _ _).bind (fun _ => (reads_raiseIf _ _).bind (fun _ => trivial))

/-! ## Updates -/

/-- What an update leaves pending: its writes, with one version among them. -/
def PendsOne (pending : List Write) : Prop :=
  (∀ w ∈ pending, w.isUpdate = true) ∧ (pending.filterMap Write.version?).length = 1

/-- A passage through `updateFlag` makes its statements, and leaves one version
pending. -/
theorem writes_updateFlag (known : Option FlagConfigRow) (flag : FeatureFlagRow)
    (environment : EnvironmentRow) (project : ProjectRow) (payload : FlagUpdate)
    (actorUserId actorApiKeyId : Option UUID) (requestId : Option String) (action : String)
    (sourceVersion : Option ℕ) :
    (updateFlag known flag environment project payload actorUserId actorApiKeyId requestId action
      sourceVersion).Writes Write.locks (fun w => w.isStatement = true)
      (fun out => PendsOne out.2) := by
  have hone : ∀ {w : Write}, w.isStatement = true → ∀ w' ∈ [w], w'.isStatement = true := by
    intro w hw w' hw'
    rw [List.mem_singleton.mp hw']
    exact hw
  refine writes_after (reads_select _) (fun found => ?_)
  cases found with
  | none => exact trivial
  | some row =>
    dsimp only
    split
    · exact trivial
    refine writes_after (Prog.reads_attempt _) (fun compiled => writes_execute ?_ ?_)
    · intro db w hw
      split at hw
      · exact hone rfl w hw
      · exact absurd hw List.not_mem_nil
    intro updated
    cases updated with
    | false => exact writes_after (reads_select _) (fun _ => trivial)
    | true =>
      rw [if_pos rfl]
      unfold deleteChildren
      simp only [Prog.bind_assoc]
      refine writes_execute (fun _ => hone rfl) (fun _ => writes_execute (fun _ => hone rfl)
        (fun _ => writes_execute (fun _ => hone rfl) (fun _ => writes_execute (fun _ => hone rfl)
          (fun _ => writes_after reads_choose (fun final => writes_execute (fun _ => hone rfl)
            (fun _ => writes_after (Prog.reads_attempt _) (fun result => ?_)))))))
      show PendsOne (updatePending _ _ _ _ _ _ _ _ _ _ _ _)
      constructor
      · intro w hw
        simp only [updatePending, List.mem_append, List.mem_map, List.mem_cons, List.not_mem_nil,
          or_false] at hw
        rcases hw with (⟨_, -, rfl⟩ | ⟨_, -, rfl⟩) | rfl | rfl | rfl <;> rfl
      · simp [updatePending, recordAudit, List.filterMap_append, List.filterMap_map,
          Function.comp_def, List.filterMap_cons, Write.version?]

/-- The end of an endpoint that updates a flag. -/
theorem writes_updateEndpoint {request : Request} (hrequest : request.updates = true)
    (known : Option FlagConfigRow) (flag : FeatureFlagRow) (environment : EnvironmentRow)
    (project : ProjectRow) (payload : FlagUpdate) (actorUserId actorApiKeyId : Option UUID)
    (requestId : Option String) (action : String) (sourceVersion : Option ℕ)
    {flagKey event : String} :
    (updateFlag known flag environment project payload actorUserId actorApiKeyId requestId action
      sourceVersion >>= fun out =>
        commitUpdate project environment flagKey event out.1 out.2).Writes Write.locks
      (fun w => request.mayWrite w = true) (fun _ => True) := by
  have hmay : ∀ w : Write, w.isUpdate = true → request.mayWrite w = true :=
    fun w => Request.mayWrite_of_updates hrequest
  refine ((writes_updateFlag _ _ _ _ _ _ _ _ _ _).mono
    (fun w hw => hmay w (Write.isUpdate_of_isStatement hw)) (fun _ h => h)).bind
      (fun out hout => writes_flush (fun w hw => ?_) trivial)
  rcases List.mem_append.mp hw with hw | hw
  · exact hmay w (hout.1 w hw)
  · rw [List.mem_singleton.mp hw]
    exact hmay _ rfl

/-- **What the loop leaves pending** for some changes: for each of them the writes
of at most one update, and then its mark. -/
inductive Marked : List ScheduledChangeRow → List Write → Prop
  | nil : Marked [] []
  | cons (change : ScheduledChangeRow) (t : Instant) {changes : List ScheduledChangeRow}
    {update rest : List Write} (writes : ∀ w ∈ update, w.isUpdate = true)
    (one : (update.filterMap Write.version?).length ≤ 1) (later : Marked changes rest) :
    Marked (change :: changes) (update ++ .change (.setAppliedAt change.id t) :: rest)

/-- What the session remembers is not read again; the rest is a SELECT. -/
theorem reads_sessionGetConfig (session : Session) (configId : UUID) :
    (session.getConfig configId).Reads := by
  unfold Session.getConfig
  split
  · exact trivial
  · exact reads_select _

theorem reads_sessionGetProject (session : Session) (projectId : UUID) :
    (session.getProject projectId).Reads := by
  unfold Session.getProject
  split
  · exact trivial
  · exact reads_select _

theorem reads_sessionLoadConfig (session : Session) (flagId environmentId : UUID) :
    (session.loadConfig flagId environmentId).Reads := by
  refine (reads_select _).bind (fun found => ?_)
  cases found with
  | none => exact trivial
  | some found =>
    refine Prog.Reads.bind ?_ (fun config => ?_)
    · unfold Session.loadCollections
      split
      · exact trivial
      · exact reads_loadCollections _ _ _
    · split <;> exact trivial

/-- **The loop** makes the statements of updates, and leaves the rest of them and
the marks of its changes pending, one change after the other. -/
theorem writes_applyChanges {batch : Batch} {changes : List ScheduledChangeRow} :
    (applyChanges batch changes).Writes Write.locks (fun w => w.isStatement = true)
      (fun batch' => ∃ new, batch'.pending = batch.pending ++ new ∧ Marked changes new) := by
  induction changes generalizing batch with
  | nil => exact ⟨[], (List.append_nil _).symm, .nil⟩
  | cons change rest ih =>
    refine Prog.Writes.bind (M := fun next => ∃ (update : List Write) (t : Instant),
      next.pending = batch.pending ++ (update ++ [.change (.setAppliedAt change.id t)])
        ∧ (∀ w ∈ update, w.isUpdate = true) ∧ (update.filterMap Write.version?).length ≤ 1) ?_ ?_
    · -- a change whose configuration is gone is marked and nothing else
      have hmarked : ∀ t : Instant, ∃ (update : List Write) (t' : Instant),
          batch.pending ++ [Write.change (.setAppliedAt change.id t)]
            = batch.pending ++ (update ++ [.change (.setAppliedAt change.id t')])
          ∧ (∀ w ∈ update, w.isUpdate = true) ∧ (update.filterMap Write.version?).length ≤ 1 :=
        fun t => ⟨[], t, rfl, fun _ hw => absurd hw List.not_mem_nil, Nat.zero_le _⟩
      refine writes_after (reads_sessionGetConfig _ _) (fun found => ?_)
      cases found with
      | none => exact writes_after reads_choose (fun chosen => hmarked chosen.now)
      | some configRow =>
        refine writes_after (reads_sessionLoadConfig _ _ _) (fun config =>
          writes_after (reads_sessionGetProject _ _) (fun project => ?_))
        cases project with
        | none => exact writes_after reads_choose (fun chosen => hmarked chosen.now)
        | some project =>
          refine writes_after (Prog.reads_attempt _) (fun compiled =>
            writes_after (Prog.reads_attempt _) (fun current =>
              writes_after (Prog.reads_attempt _) (fun applied => ?_)))
          refine (writes_updateFlag _ _ _ _ _ _ _ _ _ _).bind (fun out hout =>
            writes_after (reads_raiseIf _ _) (fun _ => writes_after reads_choose
              (fun chosen => ?_)))
          refine ⟨out.2 ++ [.environment (.setRevision config.environment.id
            (config.environment.revision + 1))], chosen.now, ?_, ?_, ?_⟩
          · simp only [List.append_assoc, List.cons_append, List.nil_append]
          · intro w hw
            rcases List.mem_append.mp hw with hw | hw
            · exact hout.1 w hw
            · rw [List.mem_singleton.mp hw]
              rfl
          · rw [List.filterMap_append, List.length_append, hout.2]
            exact le_refl _
    · rintro next ⟨update, t, hnext, hwrites, hone⟩
      refine ih.mono (fun _ h => h) (fun batch' hbatch => ?_)
      obtain ⟨new, hpending, hmarked⟩ := hbatch
      refine ⟨update ++ .change (.setAppliedAt change.id t) :: new, ?_, .cons change t hwrites hone
        hmarked⟩
      rw [hpending, hnext]
      simp only [List.append_assoc, List.cons_append, List.nil_append]

/-- A write that is left pending is one of an update, or a mark. -/
theorem Marked.mem {changes : List ScheduledChangeRow} {writes : List Write}
    (h : Marked changes writes) {w : Write} (hw : w ∈ writes) :
    w.isUpdate = true ∨ ∃ change ∈ changes, ∃ t, w = .change (.setAppliedAt change.id t) := by
  induction h with
  | nil => exact absurd hw List.not_mem_nil
  | cons change t hwrites hone later ih =>
    rcases List.mem_append.mp hw with hw | hw
    · exact .inl (hwrites w hw)
    rcases List.mem_cons.mp hw with rfl | hw
    · exact .inr ⟨change, List.mem_cons_self, t, rfl⟩
    · refine (ih hw).imp id (fun h => ?_)
      obtain ⟨other, hother, hmark⟩ := h
      exact ⟨other, List.mem_cons_of_mem _ hother, hmark⟩

/-! ## Every request -/

/-- **The footprint of a request.** -/
theorem Request.writes (request : Request) :
    request.program.Writes Write.locks (fun w => request.mayWrite w = true) (fun _ => True) := by
  cases request with
  | createOrganization principal requestId payload =>
    show (CohortSwitch.createOrganization principal requestId payload).Writes Write.locks _ _
    unfold CohortSwitch.createOrganization
    split
    · exact trivial
    · refine writes_after reads_choose (fun chosen => writes_flush ?_ (writes_flush ?_ trivial))
      · simp [Request.mayWrite]
      · simp [Request.mayWrite, recordAudit]
  | createProject principal requestId payload =>
    refine writes_after (reads_authorizeOrganization _ _ _) (fun _ =>
      writes_after reads_choose (fun chosen => writes_flush ?_ (writes_flush ?_ trivial)))
    · simp [Request.mayWrite]
    · simp [Request.mayWrite, recordAudit]
  | createEnvironment principal requestId projectId payload =>
    refine writes_after (reads_authorizeProject _ _ _) (fun found =>
      writes_after reads_choose (fun chosen => writes_flush ?_ (writes_flush ?_ trivial)))
    · simp [Request.mayWrite]
    · simp [Request.mayWrite, recordAudit]
  | createKey principal requestId payload kind =>
    refine writes_after (reads_authorizeOrganization _ _ _) (fun _ => ?_)
    unfold createApiKey
    rw [Prog.bind_assoc]
    refine writes_after (reads_keyScopes payload kind) (fun found => ?_)
    obtain ⟨scopes, keyPrefix⟩ := found
    dsimp only
    simp only [Prog.bind_assoc]
    refine writes_after reads_choose (fun chosen => writes_flush ?_ (writes_flush ?_ trivial))
    · simp [Request.mayWrite, APIKeyRow.isFor]
    · simp [Request.mayWrite, recordAudit]
  | createFeatureFlag principal requestId projectId payload =>
    refine writes_after (reads_authorizeProject _ _ _) (fun found =>
      writes_after (reads_authorizeEnvironment _ _ _) (fun found' => ?_))
    dsimp only
    unfold createFlag
    simp only [Prog.bind_assoc]
    refine writes_after (reads_raiseIf _ _) (fun _ => ?_)
    refine writes_after (reads_select _) (fun existing => ?_)
    refine writes_after (reads_raiseIf _ _) (fun _ => ?_)
    refine writes_after reads_choose (fun chosen => writes_flush (by simp [Request.mayWrite]) ?_)
    refine writes_after reads_choose (fun salted => ?_)
    refine writes_after (Prog.reads_attempt _) (fun compiled => ?_)
    refine writes_flush (by simp [Request.mayWrite]) ?_
    refine writes_after reads_choose (fun final => ?_)
    refine writes_after (Prog.reads_attempt _) (fun result => writes_flush ?_ trivial)
    simp [Request.mayWrite, recordAudit]
  | replaceFlagConfiguration principal requestId flagId payload =>
    refine writes_after (reads_select _) (fun found => ?_)
    cases found with
    | none => exact trivial
    | some flag =>
      refine writes_after (reads_authorizeProject _ _ _) (fun _ =>
        writes_after (reads_authorizeEnvironment _ _ _) (fun _ => ?_))
      exact writes_updateEndpoint rfl _ _ _ _ _ _ _ _ _ _
  | addTargetingRule principal requestId flagId payload =>
    refine writes_after (reads_getConfigByFlagEnvironment _ _) (fun config =>
      writes_after (reads_authorizeProject _ _ _) (fun _ =>
        writes_after (Prog.reads_attempt _) (fun updatePayload => ?_)))
    exact writes_updateEndpoint rfl _ _ _ _ _ _ _ _ _ _
  | rollbackFeatureFlag principal requestId flagId targetVersion payload =>
    refine writes_after (reads_select _) (fun found => ?_)
    cases found with
    | none => exact trivial
    | some flag =>
      refine writes_after (reads_authorizeProject _ _ _) (fun _ =>
        writes_after (reads_authorizeEnvironment _ _ _) (fun _ => ?_))
      dsimp only
      unfold rollbackFlag
      rw [Prog.bind_assoc]
      refine writes_after (reads_select _) (fun config => ?_)
      rw [Prog.bind_assoc]
      refine writes_after (reads_select _) (fun version => ?_)
      cases version with
      | none => exact trivial
      | some version =>
        dsimp only
        simp only [Prog.bind_assoc]
        refine writes_after reads_choose (fun chosen => writes_after (Prog.reads_attempt _)
          (fun old => writes_after (Prog.reads_attempt _) (fun updatePayload => ?_)))
        exact writes_updateEndpoint rfl _ _ _ _ _ _ _ _ _ _
  | archiveFlag principal requestId flagId =>
    refine writes_after (reads_select _) (fun found => ?_)
    cases found with
    | none => exact trivial
    | some flag =>
      dsimp only
      split
      · exact trivial
      refine writes_after (reads_authorizeProject _ _ _) (fun _ =>
        writes_after (reads_selectAll _) (fun configs => writes_after reads_choose (fun chosen =>
          writes_after (reads_getEnvironments _) (fun touched => writes_flush ?_ trivial))))
      intro w hw
      simp only [recordAudit, List.cons_append, List.mem_cons, List.mem_append, List.mem_map,
        List.not_mem_nil, or_false] at hw
      rcases hw with rfl | ⟨item, -, rfl⟩ | rfl <;> rfl
  | scheduleChange principal requestId flagId payload =>
    refine writes_after (reads_getConfigByFlagEnvironment _ _) (fun config =>
      writes_after (reads_authorizeProject _ _ _) (fun _ => writes_after (reads_raiseIf _ _)
        (fun _ => writes_after reads_choose (fun chosen => writes_flush ?_
          (writes_flush ?_ trivial)))))
    · simp [Request.mayWrite]
    · simp [Request.mayWrite, recordAudit]
  | applyDueChanges =>
    refine fun v => ⟨fun w hw => absurd hw List.not_mem_nil, fun r hr => ?_, ?_⟩
    · obtain ⟨change, -, rfl⟩ := List.mem_map.mp hr
      exact ⟨.change (.setAppliedAt change.id 0), rfl, List.mem_singleton.mpr rfl⟩
    have hmay : ∀ w : Write, w.isUpdate = true → Request.applyDueChanges.mayWrite w = true :=
      fun w => Request.mayWrite_of_updates rfl
    refine (writes_applyChanges.mono (fun w hw => hmay w (Write.isUpdate_of_isStatement hw))
      (fun _ h => h)).bind (fun batch hbatch => ?_)
    -- what the rounds leave pending are updates, and the marks of the changes
    obtain ⟨new, hpending, hmarked⟩ := hbatch
    refine writes_flush (fun w hw => ?_) trivial
    rw [hpending] at hw
    rcases hmarked.mem hw with hw | ⟨change, -, t, rfl⟩
    · exact hmay w hw
    · rfl

end CohortSwitch
