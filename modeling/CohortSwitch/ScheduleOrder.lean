import CohortSwitch.ScheduledOnce

/-!
# Scheduled changes in schedule order

A worker takes the due changes in the order of their times, and no batch that
commits has two changes of one configuration. So whether changes of one
configuration take effect in order is decided between workers. `SKIP LOCKED`
lets a worker pass over a change another one holds and take a later change of
the same configuration; and a change can be scheduled for a time before one
that has been taken already. Where neither happens (`StepInOrder`), whoever
holds a change holds the earlier ones that are still to be applied
(`OrderKept`), and the versions come in the order of the schedule
(`changes_in_order`).

## The invariant

The condition is on single steps: on what a statement locks, and on what a commit
schedules. What it protects is a property of all transactions under way: the changes one
of them holds are closed under earlier changes of the same configuration, as far as they
are not applied (`Database.ClaimedInOrder`). A worker that commits marks all it holds, so
nothing is applied before what comes first (`Database.AppliedInOrder`).

That a worker which takes a change takes the earlier ones is a fact about its query: the
rows come sorted by time, and it takes the first twenty (`mem_dueChanges_of_before`).

## The versions

Order of application is order of commits, and an update writes the next version of its
configuration. So of two changes of one configuration, the one that was applied by the
earlier commit has the lower version; `CommittedAt` is what is known at a commit of the
run, and `changes_in_order` compares two of them.
-/

namespace CohortSwitch

/-! ## Earlier changes -/

/-- The change is one of the same configuration for an earlier time. -/
def ScheduledChangeRow.Before (a b : ScheduledChangeRow) : Prop :=
  a.configId = b.configId ∧ a.activateAt < b.activateAt

instance (a b : ScheduledChangeRow) : Decidable (a.Before b) :=
  inferInstanceAs (Decidable (_ ∧ _))

/-- **A change is applied after the earlier ones.** -/
def Database.AppliedInOrder (s : Database) : Prop :=
  ∀ a ∈ s.changes, ∀ b ∈ s.changes, a.Before b → b.appliedAt.isSome = true →
    a.appliedAt.isSome = true

/-- **A change is held with the earlier ones** that are not applied. -/
def Database.ClaimedInOrder (s : Database) (locks : List Row) : Prop :=
  ∀ a ∈ s.changes, ∀ b ∈ s.changes, a.Before b → .change b.id ∈ locks →
    a.appliedAt.isSome = true ∨ .change a.id ∈ locks

/-- The change a write schedules. -/
def Write.scheduled? : Write → Option ScheduledChangeRow
  | .change (.insert row) => some row
  | _ => none

/-- The changes a transaction schedules. -/
def scheduledBy (writes : List Write) : List ScheduledChangeRow :=
  writes.filterMap Write.scheduled?

/-- The rows the next statement of a transaction locks. -/
def nextLocks (w : ServiceWorld) (tx : ServiceTx) (choice : Choice) : List Row :=
  match tx.prog with
  | .statement locks _ _ =>
    locks ⟨service.view tx.writes w.committed, w.lockedByOthers tx.id, choice⟩
  | _ => []

/-- **A step that keeps the order of the schedule.** A statement that locks a change
passes over no earlier one of the same configuration that is still to be
applied; and a change is scheduled only while the later ones of its
configuration are neither applied nor held. -/
def StepInOrder (w : ServiceWorld) : Action Choice Request → Prop
  | .advance id choice => ∀ tx ∈ (w.running? id).toList, ∀ b ∈ w.committed.changes,
    .change b.id ∈ nextLocks w tx choice → ∀ a ∈ w.committed.changes, a.Before b →
      a.appliedAt.isSome = true ∨ .change a.id ∉ w.lockedByOthers tx.id
  | .commit id => ∀ tx ∈ (w.running? id).toList, ∀ a ∈ scheduledBy tx.writes,
    ∀ b ∈ w.committed.changes, a.Before b →
      ¬ b.appliedAt.isSome = true ∧ ∀ other ∈ w.live, .change b.id ∉ other.locks
  | _ => True

instance (w : ServiceWorld) (action : Action Choice Request) :
    Decidable (StepInOrder w action) := by
  cases action <;> unfold StepInOrder <;> infer_instance

/-! ## The rows of changes -/

section Rows

variable {s : Database} {writes : List Write} {locks : List Row}

/-- Changes are added, never taken away. -/
theorem changeIds_view : (service.view writes s).changes.map ScheduledChangeRow.id
    = s.changes.map ScheduledChangeRow.id
      ++ (scheduledBy writes).map ScheduledChangeRow.id := by
  induction writes generalizing s with
  | nil => exact (List.append_nil _).symm
  | cons w rest ih =>
    show (service.view rest (s.apply w)).changes.map ScheduledChangeRow.id = _
    rw [ih]
    unfold scheduledBy
    rw [List.filterMap_cons]
    cases w with
    | change op =>
      cases op with
      | insert row =>
        show (s.changes ++ [row]).map ScheduledChangeRow.id ++ _ = _
        simp [Write.scheduled?]
      | setAppliedAt id t =>
        show (s.changes.map _).map ScheduledChangeRow.id ++ _ = _
        rw [List.map_map]
        congr 1
        refine List.map_congr_left (fun row _ => ?_)
        show ScheduledChangeRow.id (if row.id = id then _ else row) = row.id
        split <;> rfl
    | _ => rfl

/-- **Where the row of a change comes from.** -/
theorem exists_change_origin {row' : ScheduledChangeRow}
    (h : row' ∈ (service.view writes s).changes) :
    ∃ row, (row ∈ s.changes ∨ row ∈ scheduledBy writes) ∧ row'.id = row.id
      ∧ row'.configId = row.configId ∧ row'.activateAt = row.activateAt
      ∧ (row'.appliedAt.isSome = true → row.appliedAt.isSome = true ∨ row.id ∈ marks writes) := by
  induction writes generalizing s with
  | nil => exact ⟨row', .inl h, rfl, rfl, rfl, .inl⟩
  | cons w rest ih =>
    obtain ⟨row, horigin, hid, hconfig, hat, happlied⟩ := ih (s := s.apply w) h
    unfold scheduledBy at horigin ⊢
    unfold marks at happlied ⊢
    rw [List.filterMap_cons, List.filterMap_cons]
    cases w with
    | change op =>
      cases op with
      | insert new =>
        refine ⟨row, ?_, hid, hconfig, hat, happlied⟩
        have hcases : (row ∈ s.changes ++ [new]) ∨ row ∈ rest.filterMap Write.scheduled? := horigin
        simp only [List.mem_append, List.mem_singleton] at hcases
        show row ∈ s.changes ∨ row ∈ new :: rest.filterMap Write.scheduled?
        rw [List.mem_cons, ← or_assoc]
        exact hcases
      | setAppliedAt id t =>
        rcases horigin with hrow | hnew
        · obtain ⟨old, hold, hset⟩ := List.mem_map.mp hrow
          -- the row is the one that is marked, or it stays
          by_cases heq : old.id = id
          · rw [if_pos heq] at hset
            subst hset
            exact ⟨old, .inl hold, hid, hconfig, hat,
              fun _ => .inr (heq ▸ List.mem_cons_self)⟩
          · rw [if_neg heq] at hset
            subst hset
            exact ⟨old, .inl hold, hid, hconfig, hat,
              fun h => (happlied h).imp (fun h' => h') (List.mem_cons_of_mem _)⟩
        · exact ⟨row, .inr hnew, hid, hconfig, hat,
            fun h => (happlied h).imp (fun h' => h') (List.mem_cons_of_mem _)⟩
    | _ => exact ⟨row, horigin, hid, hconfig, hat, happlied⟩

/-- A commit leaves what others hold claimed in order, unless it schedules an
earlier change. -/
theorem Database.ClaimedInOrder.view (h : s.ClaimedInOrder locks)
    (hstored : ∀ id, .change id ∈ locks → id ∈ s.changes.map ScheduledChangeRow.id)
    (hnodup : ((service.view writes s).changes.map ScheduledChangeRow.id).Nodup)
    (hnew : ∀ a ∈ scheduledBy writes, ∀ b ∈ s.changes, a.Before b → .change b.id ∉ locks) :
    (service.view writes s).ClaimedInOrder locks := by
  intro a' ha' b' hb' hbefore hlock
  obtain ⟨a, ha, hida, hconfiga, hata, -⟩ := exists_change_origin ha'
  obtain ⟨b, hb, hidb, hconfigb, hatb, -⟩ := exists_change_origin hb'
  rw [hidb] at hlock
  rw [changeIds_view] at hnodup
  -- what is held was stored before the commit
  have hb : b ∈ s.changes := hb.resolve_right (fun hb => (List.nodup_append.mp hnodup).2.2 _
    (hstored b.id hlock) _ (List.mem_map_of_mem hb) rfl)
  have hab : a.Before b := by
    unfold ScheduledChangeRow.Before at hbefore ⊢
    rw [← hconfiga, ← hconfigb, ← hata, ← hatb]
    exact hbefore
  have ha : a ∈ s.changes := ha.resolve_right (fun ha => hnew a ha b hb hab hlock)
  rw [hida]
  refine (h a ha b hb hab hlock).imp (fun happlied => ?_) (fun h' => h')
  obtain ⟨row, hrow, hid, -, -, hkeeps⟩ := exists_change_view writes ha
  rw [← changeIds_view] at hnodup
  rw [List.inj_on_of_nodup_map hnodup ha' hrow (hida.trans hid.symm)]
  exact hkeeps (.inl happlied)

/-- **A commit keeps the order in which changes are applied**: what it marks it holds,
and it marks all it holds. -/
theorem Database.AppliedInOrder.view (h : s.AppliedInOrder) (hclaimed : s.ClaimedInOrder locks)
    (hmarks : ∀ id ∈ marks writes, .change id ∈ locks
      ∧ ∀ other, .change other ∈ locks → other ∈ marks writes)
    (hnodup : ((service.view writes s).changes.map ScheduledChangeRow.id).Nodup)
    (hscheduled : ∀ a ∈ scheduledBy writes, a.appliedAt = none ∧ marks writes = [])
    (hnew : ∀ a ∈ scheduledBy writes, ∀ b ∈ s.changes, a.Before b → ¬ b.appliedAt.isSome = true) :
    (service.view writes s).AppliedInOrder := by
  intro a' ha' b' hb' hbefore happlied'
  obtain ⟨a, ha, hida, hconfiga, hata, -⟩ := exists_change_origin ha'
  obtain ⟨b, hb, hidb, hconfigb, hatb, happlied⟩ := exists_change_origin hb'
  have happlied := happlied happlied'
  have hab : a.Before b := by
    unfold ScheduledChangeRow.Before at hbefore ⊢
    rw [← hconfiga, ← hconfigb, ← hata, ← hatb]
    exact hbefore
  -- a new change is not applied yet
  have hb : b ∈ s.changes := by
    refine hb.resolve_right (fun hb => ?_)
    obtain ⟨hnone, hmarks⟩ := hscheduled b hb
    rw [hnone, hmarks] at happlied
    exact happlied.elim (fun h => nomatch h) List.not_mem_nil
  have ha : a ∈ s.changes := by
    refine ha.resolve_right (fun ha => ?_)
    refine happlied.elim (hnew a ha b hb hab) (fun hmark => ?_)
    rw [(hscheduled a ha).2] at hmark
    exact List.not_mem_nil hmark
  have hdone : a.appliedAt.isSome = true ∨ a.id ∈ marks writes := by
    rcases happlied with happlied | hmark
    · exact .inl (h a ha b hb hab happlied)
    · obtain ⟨hlock, hall⟩ := hmarks b.id hmark
      exact (hclaimed a ha b hb hab hlock).imp (fun h' => h') (hall a.id)
  obtain ⟨row, hrow, hid, -, -, hkeeps⟩ := exists_change_view writes ha
  rw [List.inj_on_of_nodup_map hnodup ha' hrow (hida.trans hid.symm)]
  exact hkeeps hdone

end Rows

/-! ## Taking changes -/

/-- **A worker that takes a change takes the earlier ones**, unless they are applied
or others hold them. -/
theorem mem_dueChanges_of_before {v : View Database Row Choice} {a b : ScheduledChangeRow}
    (ha : a ∈ v.state.changes) (hb : b ∈ dueChanges v) (hab : a.Before b)
    (hnone : a.appliedAt = none) (hfree : .change a.id ∉ v.locked) : a ∈ dueChanges v := by
  unfold dueChanges at hb ⊢
  generalize hdue : sortedBy ScheduledChangeRow.activateAt (arrange v.choice.order
    (v.state.changes.filter (fun row =>
      row.appliedAt = none ∧ row.activateAt ≤ v.choice.now ∧ .change row.id ∉ v.locked))) = due
    at hb ⊢
  have hmem : ∀ row, row ∈ due ↔ row ∈ v.state.changes ∧ row.appliedAt = none
      ∧ row.activateAt ≤ v.choice.now ∧ .change row.id ∉ v.locked := by
    intro row
    rw [← hdue, mem_sortedBy, (arrange_perm _ _).mem_iff, List.mem_filter, decide_eq_true_iff]
  have hsorted : due.Pairwise (fun x y => x.activateAt ≤ y.activateAt) := by
    rw [← hdue]
    exact sortedBy_pairwise _ _
  have hnow := ((hmem b).mp (List.mem_of_mem_take hb)).2.2.1
  have hin : a ∈ due.take 20 ++ due.drop 20 := by
    rw [List.take_append_drop]
    exact (hmem a).mpr ⟨ha, hnone, hab.2.le.trans hnow, hfree⟩
  refine (List.mem_append.mp hin).resolve_right (fun hlater => ?_)
  rw [← List.take_append_drop 20 due, List.pairwise_append] at hsorted
  exact absurd (hsorted.2.2 b hb a hlater) (not_le.mpr hab.2)

/-- A batch marks its changes alone. -/
theorem writes_batch (changes : List ScheduledChangeRow) :
    (applyChanges ⟨.empty, [], [], []⟩ changes >>= fun batch => do
      flush batch.pending
      pure (⟨batch.responses, batch.notifications⟩ : Outcome)).Writes Write.locks
        (fun w => ∀ id, w.mark? = some id → id ∈ changes.map ScheduledChangeRow.id)
        (fun _ => True) := by
  refine (writes_applyChanges.mono (fun w hw id hmark => ?_) (fun _ h => h)).bind
    (fun batch hbatch => ?_)
  · rw [mark?_of_isUpdate (Write.isUpdate_of_isStatement hw)] at hmark
    cases hmark
  obtain ⟨new, hpending, hmarked⟩ := hbatch
  refine writes_flush (fun w hw id hmark => ?_) trivial
  rw [show batch.pending = new from hpending] at hw
  rw [← hmarked.marks]
  exact List.mem_filterMap.mpr ⟨w, hw, hmark⟩

/-- **What a transaction under way may still mark**: nothing but what it holds, or it is a
worker that has not taken anything yet. -/
def Claims (tx : ServiceTx) : Prop :=
  (tx.prog = applyDueChanges ∧ tx.writes = [] ∧ tx.locks = [])
    ∨ tx.prog.Writes Write.locks (fun w => ∀ id, w.mark? = some id → .change id ∈ tx.locks)
      (fun _ => True)

/-- A transaction that has just started holds nothing. -/
theorem claims_start (id : ℕ) (request : Request) :
    Claims ⟨id, request, request.program, [], []⟩ := by
  have hwrites := request.writes
  cases request with
  | applyDueChanges => exact .inl ⟨rfl, rfl, rfl⟩
  | _ =>
    refine .inr (hwrites.mono (fun w hw id hmark => ?_) (fun _ h => h))
    rw [mark?_of_mayWrite rfl hw] at hmark
    cases hmark

/-- **A statement of a transaction** locks no change it does not hold, unless it is the
one that takes the due changes. -/
theorem Claims.advance {tx : ServiceTx} (h : Claims tx)
    {locks : View Database Row Choice → List Row} {writes : View Database Row Choice → List Write}
    {next : View Database Row Choice → Tx Outcome} (hprog : tx.prog = .statement locks writes next)
    (v : View Database Row Choice) :
    Claims { tx with
        prog := next v
        writes := tx.writes ++ writes v
        locks := tx.locks ++ locks v }
      ∧ ((∀ id, .change id ∈ locks v → .change id ∈ tx.locks)
        ∨ (tx.writes = [] ∧ tx.locks = [])
          ∧ locks v = (dueChanges v).map (fun row => .change row.id)) := by
  rcases h with ⟨hstart, hnothing, hnone⟩ | hwrites
  · rw [hstart] at hprog
    have hlocks : locks = fun v => (dueChanges v).map (fun row => .change row.id) := by
      cases hprog
      rfl
    have hnext : next = fun v => (applyChanges ⟨.empty, [], [], []⟩ (dueChanges v)
        >>= fun batch => flush batch.pending
          >>= fun _ => pure ⟨batch.responses, batch.notifications⟩) := by
      cases hprog
      rfl
    refine ⟨.inr ?_, .inr ⟨⟨hnothing, hnone⟩, by rw [hlocks]⟩⟩
    rw [hnext, hlocks, hnone]
    refine (writes_batch (dueChanges v)).mono (fun w hw id hmark => ?_) (fun _ h => h)
    obtain ⟨change, hchange, rfl⟩ := List.mem_map.mp (hw id hmark)
    exact List.mem_map_of_mem (f := fun row : ScheduledChangeRow => Row.change row.id) hchange
  · rw [hprog] at hwrites
    obtain ⟨-, hlocks, hnext⟩ := hwrites v
    refine ⟨.inr (hnext.mono (fun w hw id hmark => List.mem_append_left _ (hw id hmark))
      (fun _ h => h)), .inl (fun id hid => ?_)⟩
    obtain ⟨w, hw, hlock⟩ := hlocks _ hid
    exact hw id (mark?_of_lock hlock)

/-! ## What a commit of the scheduler knows -/

/-- What a transaction knows besides when it commits: a worker the rounds of the
changes it took. -/
def TakesRounds : Request → List Write → List Row → Database → Outcome → Prop
  | .applyDueChanges, writes, locks, s, outcome => ∃ changes rounds,
    CommitsRounds changes rounds writes locks s outcome
      ∧ ∀ change ∈ changes, .change change.id ∈ locks ∧ change ∈ s.changes
  | request, writes, _, _, _ => ∀ w ∈ writes, request.mayWrite w = true

/-- What the workers rely on, and everyone who updates a flag. -/
def scheduling : Discipline Database Write Row := discipline.and claiming

/-- What a worker knows when it commits: the rounds of the changes it took. -/
theorem ensures_rounds (request : Request) (s : Database) :
    request.program.Ensures scheduling (TakesRounds request) [] [] s := by
  have hwrites : request.program.Ensures scheduling _ [] [] s :=
    request.writes.ensures (fun _ hw => absurd hw List.not_mem_nil)
  cases request with
  | applyDueChanges =>
    intro s₁ h₁ hs₁ locked choice _
    generalize hchanges : dueChanges ⟨s₁, locked, choice⟩ = changes
    have hdue : ∀ change ∈ changes, change ∈ s₁.changes := by
      rw [← hchanges]
      exact fun change hchange => (mem_dueChanges.1 change hchange).1
    show Prog.Ensures scheduling _
      (applyChanges ⟨.empty, [], [], []⟩ (dueChanges ⟨s₁, locked, choice⟩) >>= _) ([] ++ [])
      ([] ++ (dueChanges ⟨s₁, locked, choice⟩).map (fun row => .change row.id)) s₁
    rw [hchanges, List.nil_append, List.nil_append]
    have hbatch : Prog.Ensures scheduling _ _ []
        (changes.map (fun row => Row.change row.id)) s₁ :=
      (ensures_batch changes _ s₁).strict rfl (fun _ hi => hi.1) (fun _ _ _ hr => hr.1)
    refine (hbatch.frame_locked (changes.map (fun row => Row.change row.id))
      (K := fun t => ∀ change ∈ changes, change ∈ t.changes) ?_ (fun _ h => h) hdue).mono ?_
    · intro locks t t' hheld hrely h change hchange
      exact hrely.2.1 change (h change hchange) (hheld (List.mem_map_of_mem
        (f := fun row : ScheduledChangeRow => Row.change row.id) hchange))
    · rintro writes locks t outcome ⟨⟨rounds, hcommits⟩, hheld, hrows⟩
      exact ⟨changes, rounds, hcommits, fun change hchange => ⟨hheld (List.mem_map_of_mem
        (f := fun row : ScheduledChangeRow => Row.change row.id) hchange), hrows change hchange⟩⟩
  | _ => exact hwrites.mono (fun _ _ _ _ h => h.1)

/-- The invariant of the committed states. -/
def Scheduled (s : Database) (log : List (Request × Outcome)) : Prop :=
  History s log ∧ (s.changes.map ScheduledChangeRow.id).Nodup

/-- The postcondition of a request. -/
def Schedules (request : Request) (writes : List Write) (locks : List Row) (s : Database)
    (outcome : Outcome) : Prop :=
  (Commits writes locks s outcome ∧ MarksChanges request writes locks s outcome)
    ∧ TakesRounds request writes locks s outcome

/-- The service respects what workers and writers rely on. -/
theorem respects_scheduling :
    service.Respects scheduling Scheduled Schedules (fun _ _ _ => True ∧ True) :=
  (service_respects.and respects_marks).also (fun request s _ => ensures_rounds request s)

section Commit

variable {request : Request} {writes : List Write} {locks : List Row} {s : Database}
  {outcome : Outcome}

/-- A transaction marks what it holds, and all of it if anything. -/
theorem MarksChanges.held (h : MarksChanges request writes locks s outcome) {id : UUID}
    (hid : id ∈ marks writes) :
    .change id ∈ locks ∧ ∀ other, .change other ∈ locks → other ∈ marks writes := by
  cases request with
  | applyDueChanges =>
    obtain ⟨changes, statements, pending, rfl, hstatements, hmarked, -, hchanges, hall⟩ := h
    have hmarks : marks (statements ++ pending) = changes.map ScheduledChangeRow.id := by
      rw [(produced_statements hstatements pending).1, hmarked.marks]
    rw [hmarks] at hid ⊢
    obtain ⟨change, hchange, rfl⟩ := List.mem_map.mp hid
    exact ⟨(hchanges change hchange).1, hall⟩
  | _ =>
    rw [show marks writes = [] from h] at hid
    exact absurd hid List.not_mem_nil

/-- A change that is scheduled is not applied in the same commit. -/
theorem Schedules.scheduled (h : Schedules request writes locks s outcome)
    {a : ScheduledChangeRow} (ha : a ∈ scheduledBy writes) :
    a.appliedAt = none ∧ marks writes = [] := by
  obtain ⟨w, hw, hrow⟩ := List.mem_filterMap.mp ha
  obtain ⟨⟨-, hmarks⟩, hmay⟩ := h
  have hinsert : w = .change (.insert a) := by
    cases w with
    | change op =>
      cases op with
      | insert row =>
        cases hrow
        rfl
      | setAppliedAt id t => cases hrow
    | _ => cases hrow
  subst hinsert
  cases request with
  | applyDueChanges =>
    obtain ⟨changes, statements, pending, rfl, hstatements, hmarked, -, -, -⟩ := hmarks
    rcases List.mem_append.mp hw with hw | hw
    · cases hstatements _ hw
    · rcases hmarked.mem hw with hw | ⟨_, -, _, hw⟩
      · cases hw
      · cases hw
  | scheduleChange principal requestId flagId payload =>
    exact ⟨Option.isNone_iff_eq_none.mp (hmay _ hw), hmarks⟩
  | _ => exact absurd (hmay _ hw) Bool.false_ne_true

end Commit

/-! ## Every step -/

/-- **The order is kept**: what a transaction holds is stored, it holds it with all that
comes first, and nothing is applied before what comes first. -/
structure OrderKept (w : ServiceWorld) : Prop where
  claims : ∀ tx ∈ w.live, Claims tx
  stored : ∀ tx ∈ w.live, ∀ id, .change id ∈ tx.locks →
    id ∈ w.committed.changes.map ScheduledChangeRow.id
  claimed : ∀ tx ∈ w.live, w.committed.ClaimedInOrder tx.locks
  applied : w.committed.AppliedInOrder

section Step

variable {w w' : ServiceWorld}

/-- **A statement keeps the order**: the worker that takes the due changes takes what
comes first. -/
theorem OrderKept.advance (h : OrderKept w) (hgood : w.Good scheduling Scheduled Schedules)
    {id : ℕ} {choice : Choice} (hin : StepInOrder w (.advance id choice))
    (hstep : service.step w (.advance id choice) = some w') : OrderKept w' := by
  obtain ⟨tx, locks, writes, next, view, htx, hprog, rfl, hfree, rfl⟩ :=
    service.advance_eq_some hstep
  obtain ⟨hmem, hid⟩ := World.mem_of_running? htx
  obtain ⟨hclaims, hlocks⟩ := (h.claims tx hmem).advance hprog
    ⟨service.view tx.writes w.committed, w.lockedByOthers id, choice⟩
  have hin := hin tx (Option.mem_toList.mpr htx)
  unfold nextLocks at hin
  rw [hprog, hid] at hin
  generalize hv : View.mk (service.view tx.writes w.committed) (w.lockedByOthers id) choice = v
    at hclaims hlocks hin
  have hother : ∀ {P : ServiceTx → Prop}, (∀ t ∈ w.live, P t) →
      P { tx with prog := next v, writes := tx.writes ++ writes v, locks := tx.locks ++ locks v } →
      ∀ t ∈ (w.update { tx with
        prog := next v, writes := tx.writes ++ writes v, locks := tx.locks ++ locks v }).live,
        P t := by
    intro P hold hnew t ht
    rcases World.mem_update ht with rfl | ⟨ht, -⟩
    · exact hnew
    · exact hold t ht
  have hnodup := hgood.invariant.2
  refine ⟨hother h.claims hclaims, hother h.stored ?_, hother h.claimed ?_, h.applied⟩
  · intro other hlock
    rcases List.mem_append.mp hlock with hlock | hlock
    · exact h.stored tx hmem other hlock
    rcases hlocks with hlocks | ⟨⟨hnothing, -⟩, hlocks⟩
    · exact h.stored tx hmem other (hlocks other hlock)
    · rw [hlocks] at hlock
      obtain ⟨change, hchange, heq⟩ := List.mem_map.mp hlock
      have hrow := (mem_dueChanges.1 change hchange).1
      rw [← hv, hnothing] at hrow
      exact Row.change.inj heq ▸ List.mem_map_of_mem hrow
  · intro a ha b hb hab hlock
    rcases hlocks with hlocks | ⟨⟨hnothing, hnone⟩, hlocks⟩
    · -- nothing new is held
      have hlock : Row.change b.id ∈ tx.locks :=
        (List.mem_append.mp hlock).elim (fun h' => h') (hlocks b.id)
      exact (h.claimed tx hmem a ha b hb hab hlock).imp (fun h' => h') (List.mem_append_left _)
    · have hlock : Row.change b.id ∈ locks v := by
        refine (List.mem_append.mp hlock).resolve_left (fun hlock => ?_)
        rw [hnone] at hlock
        cases hlock
      by_cases hdone : a.appliedAt.isSome = true
      · exact .inl hdone
      have hpassed := (hin b hb hlock a ha hab).resolve_left hdone
      have hstate : v.state = w.committed := by
        rw [← hv, hnothing]
        rfl
      rw [hlocks] at hlock ⊢
      obtain ⟨change, hchange, heq⟩ := List.mem_map.mp hlock
      have hrow := (mem_dueChanges.1 change hchange).1
      rw [hstate] at hrow
      rw [List.inj_on_of_nodup_map hnodup hrow hb (Row.change.inj heq)] at hchange
      refine .inr (List.mem_append_right _ (List.mem_map_of_mem
        (f := fun row : ScheduledChangeRow => Row.change row.id)
        (mem_dueChanges_of_before ?_ hchange hab ?_ ?_)))
      · rw [hstate]
        exact ha
      · exact Option.not_isSome_iff_eq_none.mp hdone
      · rw [← hv]
        exact hpassed

/-- **A commit keeps the order.** -/
theorem OrderKept.commit (h : OrderKept w) (hgood : w.Good scheduling Scheduled Schedules)
    {id : ℕ} (hin : StepInOrder w (.commit id))
    (hstep : service.step w (.commit id) = some w') : OrderKept w' := by
  obtain ⟨tx, result, htx, hprog, hok, rfl⟩ := service.commit_eq_some hstep
  obtain ⟨hmem, hid⟩ := World.mem_of_running? htx
  obtain ⟨s, -, hpost⟩ := hgood.of_running htx hprog
  have hnew := hin tx (Option.mem_toList.mpr htx)
  have hnodup := (Database.consistent_of_ok hok).keys.changeIds
  refine ⟨fun t ht => h.claims t (World.mem_remove ht).1, fun t ht id hlock => ?_,
    fun t ht => ?_, ?_⟩
  · show id ∈ (service.view tx.writes w.committed).changes.map ScheduledChangeRow.id
    rw [changeIds_view]
    exact List.mem_append_left _ (h.stored t (World.mem_remove ht).1 id hlock)
  · have ht := (World.mem_remove ht).1
    exact (h.claimed t ht).view (h.stored t ht) hnodup
      (fun a ha b hb hab => (hnew a ha b hb hab).2 t ht)
  · exact h.applied.view (h.claimed tx hmem) (fun id hid => hpost.1.2.held hid) hnodup
      (fun a ha => hpost.scheduled ha) (fun a ha b hb hab => (hnew a ha b hb hab).1)

/-- **A step in order keeps the order.** -/
theorem OrderKept.step (h : OrderKept w) (hgood : w.Good scheduling Scheduled Schedules)
    {action : Action Choice Request} (hin : StepInOrder w action)
    (hstep : service.step w action = some w') : OrderKept w' := by
  cases action with
  | start request =>
    cases hstep
    have hlive : ∀ {P : ServiceTx → Prop}, (∀ tx ∈ w.live, P tx) →
        P ⟨w.next, request, request.program, [], []⟩ →
        ∀ tx ∈ w.live ++ [⟨w.next, request, request.program, [], []⟩], P tx :=
      fun hold hnew => List.forall_mem_append.mpr ⟨hold, List.forall_mem_singleton.mpr hnew⟩
    exact ⟨hlive h.claims (claims_start _ _), hlive h.stored (fun _ hid => nomatch hid),
      hlive h.claimed (fun _ _ _ _ _ hlock => nomatch hlock), h.applied⟩
  | advance id choice => exact h.advance hgood hin hstep
  | commit id => exact h.commit hgood hin hstep
  | abort id =>
    cases hstep
    exact ⟨fun tx htx => h.claims tx (World.mem_remove htx).1,
      fun tx htx => h.stored tx (World.mem_remove htx).1,
      fun tx htx => h.claimed tx (World.mem_remove htx).1, h.applied⟩

end Step

/-! ## Every run -/

/-- A world in good order in which the order of the schedule is kept. -/
def InOrder (w : ServiceWorld) : Prop :=
  w.Good scheduling Scheduled Schedules ∧ OrderKept w

/-- Nothing is out of order before the first request. -/
theorem inOrder_initial : InOrder initial := by
  refine ⟨World.good_init ⟨history_initial, List.nodup_nil⟩, ⟨?_, ?_, ?_, ?_⟩⟩
  · exact fun _ htx => nomatch htx
  · exact fun _ htx => nomatch htx
  · exact fun _ htx => nomatch htx
  · exact fun _ ha => nomatch ha

/-- **A run whose steps are in order keeps the order.** -/
theorem inOrder_of_run {actions : List (Action Choice Request)} {w : ServiceWorld}
    (hmeets : service.Meets StepInOrder initial actions)
    (hrun : service.run initial actions = some w) : InOrder w :=
  System.run_keeps (fun _ _ _ h hin hstep =>
    ⟨(respects_scheduling.step h.1 (fun _ _ _ _ => ⟨trivial, trivial⟩) hstep).1,
      h.2.step h.1 hin hstep⟩) inOrder_initial hmeets hrun

/-! ## The versions of a commit -/

section Versions

variable {changes : List ScheduledChangeRow} {rounds : List Round}

/-- The version before the mark of a round is the one of its update. -/
theorem producedFrom_pending
    (h : List.Forall₂ (fun change round => round.IsFor change) changes rounds)
    {item : UUID × FlagVersionRow}
    (hitem : item ∈ producedFrom none (rounds.flatMap Round.pending)) :
    ∃ change ∈ changes, ∃ u ∈ updatesOf rounds,
      change.id = item.1 ∧ u.configId = change.configId ∧ u.versionRow = item.2 := by
  induction h with
  | nil => exact absurd hitem List.not_mem_nil
  | @cons change round changes rounds hround _ ih =>
    obtain ⟨update, applied⟩ := round
    obtain ⟨hmark, hconfig⟩ := hround
    obtain ⟨mark, rfl, hid⟩ := Option.map_eq_some_iff.mp hmark
    -- what is produced in a later round
    have hlater : item ∈ producedFrom none (rounds.flatMap Round.pending) →
        ∃ change' ∈ change :: changes, ∃ u ∈ updatesOf (⟨update, some mark⟩ :: rounds),
          change'.id = item.1 ∧ u.configId = change'.configId ∧ u.versionRow = item.2 := by
      intro hrest
      obtain ⟨change', hchange', u, hu, hfound⟩ := ih hrest
      refine ⟨change', List.mem_cons_of_mem _ hchange', u, ?_, hfound⟩
      obtain ⟨round, hround, hupdate⟩ := List.mem_filterMap.mp hu
      exact List.mem_filterMap.mpr ⟨round, List.mem_cons_of_mem _ hround, hupdate⟩
    cases update with
    | none => exact hlater hitem
    | some u =>
      have hmarks : ∀ w ∈ u.pending ++ [Write.environment (.setRevision u.environment.id
          (u.environment.revision + 1))], w.mark? = none := by
        have hpending : u.pending.filterMap Write.mark? = [] :=
          pending_filterMap Write.mark? u (fun _ => rfl)
        exact List.forall_mem_append.mpr
          ⟨List.filterMap_eq_nil_iff.mp hpending, List.forall_mem_singleton.mpr rfl⟩
      have hversions : (u.pending ++ [Write.environment (.setRevision u.environment.id
          (u.environment.revision + 1))]).filterMap Write.version? = [u.versionRow] := by
        have hpending : u.pending.filterMap Write.version? = [u.versionRow] :=
          pending_filterMap Write.version? u (fun _ => rfl)
        rw [List.filterMap_append, hpending]
        rfl
      -- a round makes its version and then marks its change
      have hsplit : (Round.mk (some u) (some mark) :: rounds).flatMap Round.pending
          = (u.pending ++ [Write.environment (.setRevision u.environment.id
            (u.environment.revision + 1))])
            ++ .change (.setAppliedAt mark.1 mark.2) :: rounds.flatMap Round.pending := by
        simp [Round.pending]
      rw [hsplit, producedFrom_update hmarks, hversions] at hitem
      rcases List.mem_cons.mp hitem with rfl | hrest
      · exact ⟨change, List.mem_cons_self, u, List.mem_cons_self, hid.symm, hconfig u rfl, rfl⟩
      · exact hlater hrest

/-- What runs at once in some rounds. -/
theorem isStatement_statements (rounds : List Round) :
    ∀ w ∈ rounds.flatMap Round.statements, w.isStatement = true := by
  intro w hw
  obtain ⟨round, -, hw⟩ := List.mem_flatMap.mp hw
  obtain ⟨u, -, hw⟩ := List.mem_flatMap.mp hw
  simp only [Update.statements, List.mem_cons, List.not_mem_nil, or_false] at hw
  rcases hw with rfl | rfl | rfl | rfl | rfl | rfl <;> rfl

/-- **A version a change produced is the one of an update of its configuration.** -/
theorem produced_rounds (h : List.Forall₂ (fun change round => round.IsFor change) changes rounds)
    {item : UUID × FlagVersionRow} (hitem : item ∈ produced (roundWrites rounds)) :
    ∃ change ∈ changes, ∃ u ∈ updatesOf rounds,
      change.id = item.1 ∧ u.configId = change.configId ∧ u.versionRow = item.2 := by
  unfold roundWrites at hitem
  rw [(produced_statements (isStatement_statements rounds) _).2.1] at hitem
  exact producedFrom_pending h hitem

end Versions

/-- **What is known of the versions that changes produce** when a worker commits: each
is the next version of the configuration of its change, which was still to be
applied, and no two are of one configuration. -/
structure ProducesNext (s : Database) (writes : List Write) : Prop where
  next : ∀ item ∈ produced writes, ∃ change ∈ s.changes, change.id = item.1
    ∧ change.appliedAt = none ∧ item.2.configId = change.configId
    ∧ ∃ row ∈ s.configs, row.id = change.configId ∧ item.2.version = row.currentVersion + 1
  distinct : ((produced writes).map (fun item => item.2.configId)).Nodup

/-- **A worker that commits produces the next versions**, one for each of its changes at most.
-/
theorem Schedules.producesNext {request : Request} {writes : List Write} {locks : List Row}
    {s s' : Database} {outcome : Outcome} (h : Schedules request writes locks s outcome)
    (hrely : scheduling.rely locks s s') (hs' : s'.Consistent) : ProducesNext s' writes := by
  obtain ⟨⟨-, hmarks⟩, htakes⟩ := h
  cases request with
  | applyDueChanges =>
    obtain ⟨changes, rounds, hcommits, hheld⟩ := htakes
    obtain ⟨taken, statements, pending, heq, hstatements, hmarked, -, htaken, -⟩ := hmarks
    have hfits := hcommits.fits.evolve hrely.1
    have hwrites := hcommits.writes_eq
    -- the changes the worker holds are locked, so they are still as it took them
    have hstored : ∀ change ∈ changes, change ∈ s'.changes :=
      fun change hchange => hrely.2.1 change (hheld change hchange).2 (hheld change hchange).1
    constructor
    · intro item hitem
      have hmark : item.1 ∈ taken.map ScheduledChangeRow.id := by
        rw [← hmarked.marks, ← (produced_statements hstatements pending).1, ← heq]
        exact (produced_sublist none writes).subset (List.mem_map_of_mem hitem)
      rw [← hwrites] at hitem
      obtain ⟨change, hchange, u, hu, hid, hconfig, hversion⟩ :=
        produced_rounds hcommits.rounds hitem
      obtain ⟨row, hrow, hrowId, hcurrent⟩ := hfits.current u hu
      refine ⟨change, hstored change hchange, hid, ?_, ?_, row, hrow, hrowId.trans hconfig, ?_⟩
      · obtain ⟨other, hother, hsame⟩ := List.mem_map.mp hmark
        have hin := hrely.2.1 other (htaken other hother).2.1 (htaken other hother).1
        rw [List.inj_on_of_nodup_map hs'.keys.changeIds (hstored change hchange) hin
          (hid.trans hsame.symm)]
        exact (htaken other hother).2.2
      · rw [← hversion]
        exact hconfig
      · rw [← hversion, hcurrent]
        rfl
    · have hversions : (roundWrites rounds).filterMap Write.version?
          = (updatesOf rounds).map Update.versionRow :=
        filterMap_rounds_pending (fun _ _ => rfl) (fun _ _ => rfl) (fun _ => rfl) (fun _ => rfl)
          (fun _ => rfl)
      have hproduced : (produced writes).map Prod.snd
          = (updatesOf rounds).map Update.versionRow := by
        obtain ⟨-, hpending, hversion⟩ := produced_statements hstatements pending
        rw [← hversions, hwrites, heq, hpending, hversion]
        exact hmarked.versions.symm
      show ((produced writes).map (FlagVersionRow.configId ∘ Prod.snd)).Nodup
      rw [← List.map_map, hproduced, List.map_map]
      exact hfits.nodup hs'
  | _ =>
    -- whoever marks no change produces nothing for one
    have hnone : produced writes = [] := by
      have hsub := produced_sublist none writes
      rw [show marks writes = [] from hmarks, List.sublist_nil, List.map_eq_nil_iff] at hsub
      exact hsub
    refine ⟨fun item hitem => ?_, ?_⟩
    · rw [hnone] at hitem
      cases hitem
    · rw [hnone]
      exact .nil

/-- **A commit of a run**, with the state it is committed to and what came of it. -/
structure CommittedAt (pre : List (Request × List Write)) (commit : Request × List Write)
    (rest : List (Request × List Write)) (s final : Database) : Prop where
  /-- The state is the one that the commits before have left. -/
  before : s = service.view (pre.flatMap Prod.snd) .empty
  /-- The commits from here lead to the last state. -/
  after : final = service.view ((commit :: rest).flatMap Prod.snd) s
  /-- What the earlier commits applied, each of them applied once. -/
  once : AppliesOnce .empty pre s
  /-- No change was passed over so far. -/
  inOrder : s.AppliedInOrder
  /-- The versions of the state are numbered as the invariant says. -/
  history : ∃ log, History s log
  /-- Each version that the commit adds is the next one of its configuration. -/
  produces : ProducesNext s commit.2

/-- Every commit of a run in order is one of these. -/
theorem committedAt_of_run {actions : List (Action Choice Request)} {w : ServiceWorld}
    (hmeets : service.Meets StepInOrder initial actions)
    (hrun : service.run initial actions = some w) {pre rest : List (Request × List Write)}
    {commit : Request × List Write} (h : service.commits initial actions = pre ++ commit :: rest) :
    ∃ s, CommittedAt pre commit rest s w.committed := by
  obtain ⟨earlier, id, later, w₁, w₂, tx, rfl, hearlier, hpre, htx, rfl, hstep⟩ :=
    System.commits_split hrun h
  obtain ⟨hgood, hkept⟩ := inOrder_of_run hmeets.of_append hearlier
  obtain ⟨tx', result, htx', hprog, -, -⟩ := service.commit_eq_some hstep
  rw [htx] at htx'
  cases htx'
  obtain ⟨s₀, hrely, hpost⟩ := hgood.of_running htx hprog
  have hbefore : w₁.committed = service.view (pre.flatMap Prod.snd) .empty := by
    rw [← hpre]
    exact System.committed_of_run hearlier
  refine ⟨w₁.committed, hbefore, ?_, ?_, hkept.applied, ⟨_, hgood.invariant.1⟩,
    hpost.producesNext hrely hgood.invariant.1.consistent⟩
  · rw [System.committed_of_run hrun, h, List.flatMap_append, hbefore]
    exact List.foldl_append ..
  · rw [← hpre]
    exact appliesOnce_of_run hearlier

/-- **Scheduled changes take effect in schedule order.** Where every step keeps the
order of the schedule, of two changes of one configuration that have both been
applied the earlier one has the lower version. -/
theorem changes_in_order {actions : List (Action Choice Request)} {w : ServiceWorld}
    (hrun : service.run initial actions = some w)
    (hmeets : service.Meets StepInOrder initial actions) {a b : ScheduledChangeRow}
    (ha : a ∈ w.committed.changes) (hb : b ∈ w.committed.changes) (hab : a.Before b)
    {va vb : FlagVersionRow}
    (hva : (a.id, va)
      ∈ (service.commits initial actions).flatMap (fun commit => produced commit.2))
    (hvb : (b.id, vb)
      ∈ (service.commits initial actions).flatMap (fun commit => produced commit.2)) :
    va.configId = a.configId ∧ vb.configId = a.configId ∧ va.version < vb.version := by
  have hnodup := (inOrder_of_run hmeets hrun).1.invariant.2
  obtain ⟨ca, hca, hva⟩ := List.mem_flatMap.mp hva
  obtain ⟨cb, hcb, hvb⟩ := List.mem_flatMap.mp hvb
  -- the rows of a change before a commit and at the end agree
  have hfinal : ∀ {pre rest : List (Request × List Write)} {commit : Request × List Write}
      {s : Database}, CommittedAt pre commit rest s w.committed →
      ∀ row ∈ s.changes, ∀ last ∈ w.committed.changes, row.id = last.id →
        row.configId = last.configId ∧ row.activateAt = last.activateAt := by
    intro pre rest commit s hat row hrow last hlast hid
    obtain ⟨row', hrow', hid', hsame, -⟩ :=
      exists_change_view ((commit :: rest).flatMap Prod.snd) hrow
    rw [← hat.after] at hrow'
    rw [List.inj_on_of_nodup_map hnodup hlast hrow' (hid.symm.trans hid'.symm)]
    exact ⟨hsame.1.symm, hsame.2.symm⟩
  obtain ⟨pre, rest, hsplit⟩ := List.append_of_mem hca
  obtain ⟨s, hat⟩ := committedAt_of_run hmeets hrun hsplit
  obtain ⟨first, hfirst, hfirstId, hunapplied, hvaConfig, -⟩ := hat.produces.next _ hva
  have hfirstRow := hfinal hat first hfirst a ha hfirstId
  have hvaConfig : va.configId = a.configId := hvaConfig.trans hfirstRow.1
  rw [hsplit] at hcb
  rcases List.mem_append.mp hcb with hcb | hcb
  · -- the later change was applied first, so the earlier one was applied before it
    obtain ⟨second, hsecond, hsecondId, happlied⟩ :=
      (hat.once.fresh cb hcb b.id ((produced_sublist none cb.2).subset
        (List.mem_map_of_mem (f := Prod.fst) hvb))).2
    have hsecondRow := hfinal hat second hsecond b hb hsecondId
    have hdone := hat.inOrder first hfirst second hsecond
      ⟨hfirstRow.1.trans (hab.1.trans hsecondRow.1.symm), by
        rw [hfirstRow.2, hsecondRow.2]
        exact hab.2⟩ happlied
    rw [hunapplied] at hdone
    cases hdone
  rcases List.mem_cons.mp hcb with rfl | hcb
  · -- one commit has no two versions of a configuration
    obtain ⟨second, hsecond, hsecondId, -, hvbConfig, -⟩ := hat.produces.next _ hvb
    have hvbConfig : vb.configId = b.configId :=
      hvbConfig.trans (hfinal hat second hsecond b hb hsecondId).1
    have hsame := List.inj_on_of_nodup_map hat.produces.distinct hva hvb
      (hvaConfig.trans (hab.1.trans hvbConfig.symm))
    have hrow := List.inj_on_of_nodup_map hnodup ha hb (congrArg Prod.fst hsame)
    rw [hrow] at hab
    exact absurd hab.2 (lt_irrefl _)
  · obtain ⟨between, after, rfl⟩ := List.append_of_mem hcb
    have hsplit' : service.commits initial actions
        = (pre ++ ca :: between) ++ cb :: after := by
      rw [hsplit, List.append_assoc]
      rfl
    obtain ⟨s', hat'⟩ := committedAt_of_run hmeets hrun hsplit'
    obtain ⟨second, hsecond, hsecondId, -, hvbConfig, row, hrow, hrowId, hversion⟩ :=
      hat'.produces.next _ hvb
    have hsecondRow := hfinal hat' second hsecond b hb hsecondId
    have hvbConfig : vb.configId = a.configId :=
      hvbConfig.trans (hsecondRow.1.trans hab.1.symm)
    -- the version of the earlier change is stored by then
    have hstored : va ∈ s'.versions := by
      rw [hat'.before, view_versions]
      have hwrite : Write.version va ∈ ca.2 :=
        (version_of_produced hva).resolve_left (fun h => nomatch h)
      refine List.mem_append_right _ (List.mem_filterMap.mpr ⟨_, List.mem_flatMap.mpr ⟨ca, ?_,
        hwrite⟩, rfl⟩)
      exact List.mem_append_right _ List.mem_cons_self
    obtain ⟨log, hhistory⟩ := hat'.history
    have hle := (hhistory.configs row hrow).version_le hstored
      (hvaConfig.trans (hab.1.trans (hrowId.trans hsecondRow.1).symm))
    refine ⟨hvaConfig, hvbConfig, ?_⟩
    rw [show vb.version = row.currentVersion + 1 from hversion]
    exact Nat.lt_succ_of_le hle

/-! ## Two changes of one flag -/

/-- A change of the sample flag that is due later than `sampleScheduled`. -/
def sampleLater : ScheduledChangeCreate :=
  ⟨⟨30⟩, 1, "enable", ⟨[], List.nodup_nil⟩, 5, Nat.one_pos, by decide⟩

/-- Some statements of a transaction at a given time. -/
def advancesAt (t : Instant) (id n statements : ℕ) : List (Action Choice Request) :=
  List.replicate statements (.advance id { sampleChoice n with now := t })

/-- The sample flag with a change `50` for the time 0 and a change `60` for the
time 5. -/
def twoChanges : List (Action Choice Request) :=
  sampleFlag ++ alone 4 50 13 (.scheduleChange sampleUser none ⟨40⟩ sampleScheduled)
  ++ alone 5 60 13 (.scheduleChange sampleUser none ⟨40⟩ sampleLater)

/-- A worker for each of the changes, when it is due. -/
def inTurn : List (Action Choice Request) :=
  twoChanges ++ alone 6 70 21 .applyDueChanges
  ++ .start .applyDueChanges :: advancesAt 5 7 80 21 ++ [.commit 7]

/-- The version of a change, where its number is known. -/
theorem exists_of_producedNumbers {items : List (UUID × FlagVersionRow)} (id : UUID) (n : ℕ)
    (h : (id, n) ∈ items.map (fun item => (item.1, item.2.version))) :
    ∃ v, (id, v) ∈ items ∧ v.version = n := by
  obtain ⟨⟨id', v⟩, hitem, heq⟩ := List.mem_map.mp h
  cases heq
  exact ⟨v, hitem, rfl⟩

/-- The two changes after a run. -/
theorem exists_of_changes {s : Database}
    (h : s.changes.map (fun row => (row.id, row.configId, row.activateAt))
      = [(⟨50⟩, ⟨40⟩, 0), (⟨60⟩, ⟨40⟩, 5)]) :
    ∃ a ∈ s.changes, ∃ b ∈ s.changes, a.id = ⟨50⟩ ∧ b.id = ⟨60⟩ ∧ a.Before b := by
  have hfirst : ((⟨50⟩, ⟨40⟩, 0) : UUID × UUID × Instant)
      ∈ s.changes.map (fun row => (row.id, row.configId, row.activateAt)) := by
    rw [h]
    exact List.mem_cons_self
  have hsecond : ((⟨60⟩, ⟨40⟩, 5) : UUID × UUID × Instant)
      ∈ s.changes.map (fun row => (row.id, row.configId, row.activateAt)) := by
    rw [h]
    exact List.mem_cons_of_mem _ List.mem_cons_self
  obtain ⟨a, ha, hafields⟩ := List.mem_map.mp hfirst
  obtain ⟨b, hb, hbfields⟩ := List.mem_map.mp hsecond
  obtain ⟨haid, haconfig, haat⟩ := Prod.ext_iff.mp hafields |>.imp_right Prod.ext_iff.mp
  obtain ⟨hbid, hbconfig, hbat⟩ := Prod.ext_iff.mp hbfields |>.imp_right Prod.ext_iff.mp
  refine ⟨a, ha, b, hb, haid, hbid, haconfig.trans hbconfig.symm, ?_⟩
  show a.activateAt < b.activateAt
  rw [show a.activateAt = 0 from haat, show b.activateAt = 5 from hbat]
  decide

theorem changes_in_order_workers : ∃ w, service.run initial inTurn = some w
    ∧ ∃ a ∈ w.committed.changes, ∃ b ∈ w.committed.changes, a.Before b ∧ ∃ va vb : FlagVersionRow,
      va.version = 2 ∧ vb.version = 3
        ∧ va.configId = a.configId ∧ vb.configId = a.configId ∧ va.version < vb.version := by
  have hmeets : service.checkMeets (fun w action => decide (StepInOrder w action)) initial inTurn
      = true := by decide +kernel
  have hchanges : (service.run initial inTurn).map (fun w =>
      w.committed.changes.map (fun row => (row.id, row.configId, row.activateAt)))
      = some [(⟨50⟩, ⟨40⟩, 0), (⟨60⟩, ⟨40⟩, 5)] := by decide +kernel
  have hproduced : ((service.commits initial inTurn).flatMap (fun commit =>
      produced commit.2)).map (fun item => (item.1, item.2.version)) = [(⟨50⟩, 2), (⟨60⟩, 3)] := by
    decide +kernel
  obtain ⟨w, hrun, hrows⟩ := Option.map_eq_some_iff.mp hchanges
  obtain ⟨a, ha, b, hb, haid, hbid, hab⟩ := exists_of_changes hrows
  obtain ⟨va, hva, hversionA⟩ := exists_of_producedNumbers a.id 2 (by
    rw [hproduced, haid]
    exact List.mem_cons_self)
  obtain ⟨vb, hvb, hversionB⟩ := exists_of_producedNumbers b.id 3 (by
    rw [hproduced, hbid]
    exact List.mem_cons_of_mem _ List.mem_cons_self)
  exact ⟨w, hrun, a, ha, b, hb, hab, va, vb, hversionA, hversionB,
    changes_in_order hrun (System.meets_of_check hmeets) ha hb hab hva hvb⟩

/-- A worker takes the earlier change; before it goes on, another one passes over that
change, takes the later one and commits. -/
def overtaken : List (Action Choice Request) :=
  twoChanges ++ [.start .applyDueChanges, .start .applyDueChanges] ++ advances 6 70 1
  ++ advancesAt 5 7 80 21 ++ .commit 7 :: advances 6 70 20 ++ [.commit 6]

/-- **A later change is overtaken by an earlier one**: the workers commit versions in
the wrong order, and the configuration ends as the earlier change left it. -/
theorem changes_overtaken : ∃ w, service.run initial overtaken = some w
    ∧ w.committed.configs.map FlagConfigRow.currentVersion = [3]
    ∧ ∃ a ∈ w.committed.changes, ∃ b ∈ w.committed.changes, a.Before b ∧ ∃ va vb,
      (a.id, va) ∈ (service.commits initial overtaken).flatMap (fun commit => produced commit.2)
      ∧ (b.id, vb) ∈ (service.commits initial overtaken).flatMap (fun commit => produced commit.2)
      ∧ va.version = 3 ∧ vb.version = 2 ∧ ¬ va.version < vb.version := by
  have hresult : (service.run initial overtaken).map (fun w =>
      (w.committed.configs.map FlagConfigRow.currentVersion,
        w.committed.changes.map (fun row => (row.id, row.configId, row.activateAt))))
      = some ([3], [(⟨50⟩, ⟨40⟩, 0), (⟨60⟩, ⟨40⟩, 5)]) := by decide +kernel
  have hproduced : ((service.commits initial overtaken).flatMap (fun commit =>
      produced commit.2)).map (fun item => (item.1, item.2.version)) = [(⟨60⟩, 2), (⟨50⟩, 3)] := by
    decide +kernel
  obtain ⟨w, hrun, hstate⟩ := Option.map_eq_some_iff.mp hresult
  obtain ⟨hversion, hrows⟩ := Prod.ext_iff.mp hstate
  obtain ⟨a, ha, b, hb, haid, hbid, hab⟩ := exists_of_changes hrows
  obtain ⟨va, hva, hversionA⟩ := exists_of_producedNumbers a.id 3 (by
    rw [hproduced, haid]
    exact List.mem_cons_of_mem _ List.mem_cons_self)
  obtain ⟨vb, hvb, hversionB⟩ := exists_of_producedNumbers b.id 2 (by
    rw [hproduced, hbid]
    exact List.mem_cons_self)
  refine ⟨w, hrun, hversion, a, ha, b, hb, hab, va, vb, hva, hvb, hversionA, hversionB, ?_⟩
  rw [hversionA, hversionB]
  decide

end CohortSwitch
