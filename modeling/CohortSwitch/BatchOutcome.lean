import CohortSwitch.BatchConstraints
import Mathlib.Data.Nat.Pairing

/-!
# What becomes of a batch

One call of the scheduler while nothing else is under way, and with a database
that works. It commits exactly if every change it took can be applied and no two
are of one environment (`exists_call_iff`): the changes share a transaction and
a session, so one that cannot be applied takes the others with it, and so does
the second one of an environment, whose revision the session has expired.

From this follows what the callers of the loop rely on. A call makes progress on
the changes that could be committed one by one exactly under that condition
(`due_changes_progress`), and a batch has its sequential meaning exactly if its
changes are of different environments (`batch_sequential_iff`).

## Which changes a call takes

A call takes the first twenty of the changes that are due, in the order of their
activation and, among those of one time, of their rows. Nobody else holds one of them
here, so none is skipped. A commit marks all of them, and so fewer are due
afterwards (`length_due_lt`); a rollback leaves them for the next call, which takes
the same ones again (`due_changes_blocked`).

## The sequential meaning

`applyInTurn` says what some changes would make of a configuration, each applied to
the result of the one before. The scheduler is not written that way: it reads a
configuration once. For changes of different configurations the two agree, and the order
of the changes does not matter; two of one configuration could be applied in turn and
are not (`batch_not_sequential`).
-/

namespace CohortSwitch

/-! ## Calls -/

/-- **The database works**: no identifier is chosen twice, and none is in use. -/
structure Database.Works (s : Database) (choices : ℕ → Choice) : Prop where
  /-- Two choices never give the same identifier. -/
  distinct : ∀ n i n' i', (choices n).ids i = (choices n').ids i' → n = n' ∧ i = i'
  /-- And none that a rule has already. -/
  fresh : ∀ n i, (choices n).ids i ∉ s.children.rules.map TargetingRuleRow.id

/-- **A call of the scheduler commits**, with the given choices for its statements. -/
def Calls (w : ServiceWorld) (choices : ℕ → Choice) (w' : ServiceWorld) : Prop :=
  ∃ n, service.run w (soloCall .applyDueChanges choices w.next n) = some w'

section Calls

variable {s : Database} {choices : ℕ → Choice} {changes : List ScheduledChangeRow} {batch : Batch}
  {rounds : List Round} {writes : List Write} {n : ℕ} {w w' : ServiceWorld}

/-- The rules get the first ids of a choice. -/
theorem newRuleIds_eq (ruleIds : ℕ → UUID) (c : FlagConfiguration) :
    newRuleIds ruleIds c = (List.range c.rules.length).map ruleIds := by
  unfold newRuleIds identified
  rw [List.map_map, List.range_eq_range', ← List.zipIdx_map_snd 0 c.rules, List.map_map]
  rfl

/-- The rules of a batch have ids of their own. -/
theorem Batch.Follows.freshRules (h : batch.Follows s choices changes rounds writes n)
    (hworks : s.Works choices) : FreshRules s (updatesOf rounds) := by
  obtain ⟨used, hnodup, -, hfinals⟩ := h.finals
  have hchosen : ∀ u ∈ updatesOf rounds, ∃ j, u.final = choices j := by
    intro u hu
    have hmem : u.final ∈ (updatesOf rounds).map Update.final := List.mem_map_of_mem hu
    rw [hfinals] at hmem
    obtain ⟨j, -, hj⟩ := List.mem_map.mp hmem
    exact ⟨j, hj.symm⟩
  have hapart : (updatesOf rounds).Pairwise (fun u v => ∃ j j', j ≠ j' ∧ u.final = choices j
      ∧ v.final = choices j') := by
    rw [← List.pairwise_map (f := Update.final)
      (R := fun a b => ∃ j j', j ≠ j' ∧ a = choices j ∧ b = choices j'), hfinals, List.pairwise_map]
    exact hnodup.imp (fun hne => ⟨_, _, hne, rfl, rfl⟩)
  refine ⟨fun u hu => ?_, hapart.imp ?_, fun u hu => ?_⟩
  · obtain ⟨j, hj⟩ := hchosen u hu
    rw [newRuleIds_eq, hj]
    exact List.nodup_range.map (fun i i' heq => (hworks.distinct j i j i' heq).2)
  · rintro u v ⟨j, j', hne, hj, hj'⟩ id hid id' hid' rfl
    rw [newRuleIds_eq, hj] at hid
    rw [newRuleIds_eq, hj'] at hid'
    obtain ⟨i, -, rfl⟩ := List.mem_map.mp hid
    obtain ⟨i', -, heq⟩ := List.mem_map.mp hid'
    exact hne (hworks.distinct j i j' i' heq.symm).1
  · obtain ⟨j, hj⟩ := hchosen u hu
    rw [newRuleIds_eq, hj]
    intro id hid
    obtain ⟨i, -, rfl⟩ := List.mem_map.mp hid
    exact hworks.fresh j i

/-- **The updates of a batch**, one for each change. -/
theorem Batch.Follows.rounds_apply (h : batch.Follows s choices changes rounds writes n) :
    List.Forall₂ (fun change round => ∃ u t, round = ⟨some u, some (change.id, t)⟩
      ∧ u.configId = change.configId ∧ s.Admits change ∧ u.Applies s change) changes rounds := by
  refine List.Forall₂.mp ?_ h.marks h.applies
  rintro change _ ⟨u, t, rfl, hconfigId⟩ ⟨hadmits, happlies⟩
  exact ⟨u, t, rfl, hconfigId, hadmits, happlies u rfl⟩

/-- An update is made for a change. -/
theorem Batch.Follows.exists_change (h : batch.Follows s choices changes rounds writes n)
    {u : Update} (hu : u ∈ updatesOf rounds) :
    ∃ change ∈ changes, u.configId = change.configId ∧ u.Applies s change := by
  obtain ⟨round, hround, hupdate⟩ := List.mem_filterMap.mp hu
  obtain ⟨change, hchange, v, t, rfl, hconfigId, -, happlies⟩ :=
    (PermBy.of_forall₂ h.rounds_apply).exists_left hround
  cases hupdate
  exact ⟨change, hchange, hconfigId, happlies⟩

/-- And a change by an update. -/
theorem Batch.Follows.exists_update (h : batch.Follows s choices changes rounds writes n)
    {change : ScheduledChangeRow} (hchange : change ∈ changes) :
    s.Admits change ∧ ∃ u ∈ updatesOf rounds, u.configId = change.configId
      ∧ u.Applies s change := by
  obtain ⟨_, hround, u, t, rfl, hconfigId, hadmits, happlies⟩ :=
    (PermBy.of_forall₂ h.rounds_apply.flip).exists_left hchange
  exact ⟨hadmits, u, List.mem_filterMap.mpr ⟨_, hround, rfl⟩, hconfigId, happlies⟩

/-- Each change of a batch is marked. -/
theorem Batch.Follows.marked (h : batch.Follows s choices changes rounds writes n)
    {change : ScheduledChangeRow} (hchange : change ∈ changes) :
    change.id ∈ CohortSwitch.marks (roundWrites rounds) := by
  obtain ⟨_, hround, u, t, rfl, -⟩ := (PermBy.of_forall₂ h.marks.flip).exists_left hchange
  refine List.mem_filterMap.mpr ⟨.change (.setAppliedAt change.id t), ?_, rfl⟩
  refine List.mem_append_right _ (List.mem_flatMap.mpr ⟨_, hround, ?_⟩)
  exact List.mem_append_right _ (List.mem_singleton.mpr rfl)

/-- **A batch that can be applied commits.** -/
theorem exists_call (hs : w.committed.Settled) (hidle : w.live = [])
    (hworks : w.committed.Works choices)
    (hadmits : w.committed.AdmitsBatch (dueChanges ⟨w.committed, [], choices 0⟩)) :
    ∃ w', Calls w choices w' := by
  have halone : (service.program .applyDueChanges).Alone service w.committed choices False _ [] 0 :=
    (alone_applyDueChanges hs choices).mono (fun hraised => hraised hadmits)
      (fun _ _ _ hpost => hpost)
  have hok : ∀ writes (_ : ℕ) (_ : Outcome), (∃ batch rounds n,
      Batch.Follows w.committed choices (dueChanges ⟨w.committed, [], choices 0⟩) batch rounds
        (rounds.flatMap Round.statements) n ∧ writes = roundWrites rounds) →
      service.ok (service.view writes w.committed) = true := by
    rintro _ _ _ ⟨batch, rounds, n, hfollows, rfl⟩
    have happlies : ∀ u ∈ updatesOf rounds, u.Known w.committed ∧ u.Current w.committed := by
      intro u hu
      obtain ⟨_, -, -, happlies⟩ := hfollows.exists_change hu
      exact ⟨happlies.known, happlies.current⟩
    exact decide_eq_true (consistent_rounds hs (fun u hu => (happlies u hu).1)
      (fun u hu => (happlies u hu).2) (hfollows.configIds ▸ nodup_configIds hfollows.distinct)
      (hfollows.freshRules hworks))
  obtain ⟨n, _, _, _, w', -, hrun, -⟩ := System.exists_call_of_alone hidle halone hok
  exact ⟨w', n, hrun⟩

/-- **A call that commits has applied its batch**, which could be. -/
theorem of_calls (hs : w.committed.Settled) (hidle : w.live = []) (hcalls : Calls w choices w') :
    w.committed.AdmitsBatch (dueChanges ⟨w.committed, [], choices 0⟩)
      ∧ ∃ batch rounds n, Batch.Follows w.committed choices
          (dueChanges ⟨w.committed, [], choices 0⟩) batch rounds
          (rounds.flatMap Round.statements) n
        ∧ w'.committed = service.view (roundWrites rounds) w.committed := by
  obtain ⟨k, hrun⟩ := hcalls
  obtain ⟨_, _, _, ⟨batch, rounds, n, hfollows, rfl⟩, -, hcommitted, -⟩ :=
    System.alone_of_call hidle (alone_applyDueChanges hs choices) hrun
  exact ⟨hfollows.admitsBatch, batch, rounds, n, hfollows, hcommitted⟩

/-- **A call commits exactly if its batch can be applied.** -/
theorem exists_call_iff (hs : w.committed.Settled) (hidle : w.live = [])
    (hworks : w.committed.Works choices) :
    (∃ w', Calls w choices w')
      ↔ w.committed.AdmitsBatch (dueChanges ⟨w.committed, [], choices 0⟩) :=
  ⟨fun ⟨_, hcalls⟩ => (of_calls hs hidle hcalls).1, exists_call hs hidle hworks⟩

end Calls

/-! ## The changes that are due -/

/-- A change is due, and has not been applied. -/
def ScheduledChangeRow.Due (now : Instant) (row : ScheduledChangeRow) : Prop :=
  row.appliedAt = none ∧ row.activateAt ≤ now

instance (now : Instant) (row : ScheduledChangeRow) : Decidable (row.Due now) :=
  inferInstanceAs (Decidable (_ ∧ _))

/-- **The changes that are due.** -/
def Database.due (s : Database) (now : Instant) : List ScheduledChangeRow :=
  s.changes.filter (fun row => row.Due now)

/-- The same state, where nothing else is due. -/
def Database.onlyDue (s : Database) (now : Instant) (change : ScheduledChangeRow) : Database :=
  { s with changes := s.changes.filter (fun row => row.id = change.id ∨ ¬ row.Due now) }

section Due

variable {s : Database} {choice : Choice} {change : ScheduledChangeRow} {writes : List Write}

/-- A worker by itself takes the first twenty changes that are due. -/
theorem dueChanges_eq_take : dueChanges ⟨s, [], choice⟩
    = (sortedBy ScheduledChangeRow.activateAt
        (arrange choice.order (s.due choice.now))).take 20 := by
  have hfilter : s.changes.filter (fun row => row.appliedAt = none
      ∧ row.activateAt ≤ choice.now ∧ .change row.id ∉ ([] : List Row)) = s.due choice.now :=
    List.filter_congr (fun row _ => decide_eq_decide.mpr
      ⟨fun h => ⟨h.1, h.2.1⟩, fun h => ⟨h.1, h.2, List.not_mem_nil⟩⟩)
  show (sortedBy _ (arrange _ (s.changes.filter _))).take 20 = _
  rw [hfilter]

/-- Sorting keeps the changes. -/
theorem sorted_due_perm : (sortedBy ScheduledChangeRow.activateAt
    (arrange choice.order (s.due choice.now))).Perm (s.due choice.now) :=
  (sortedBy_perm _ _).trans (arrange_perm _ _)

/-- It takes only what is due. -/
theorem mem_due_of_mem_dueChanges (h : change ∈ dueChanges ⟨s, [], choice⟩) :
    change ∈ s.due choice.now := by
  rw [dueChanges_eq_take] at h
  exact sorted_due_perm.mem_iff.mp (List.mem_of_mem_take h)

/-- It takes all of them where there are no more. -/
theorem dueChanges_perm (hfew : (s.due choice.now).length ≤ 20) :
    (dueChanges ⟨s, [], choice⟩).Perm (s.due choice.now) := by
  rw [dueChanges_eq_take, List.take_of_length_le (sorted_due_perm.length_eq.trans_le hfew)]
  exact sorted_due_perm

/-- It takes at least one where there is one. -/
theorem exists_mem_dueChanges (h : change ∈ s.due choice.now) :
    ∃ first, first ∈ dueChanges ⟨s, [], choice⟩ := by
  rw [dueChanges_eq_take]
  cases hsorted : sortedBy ScheduledChangeRow.activateAt
      (arrange choice.order (s.due choice.now)) with
  | nil =>
    have hmem := sorted_due_perm.mem_iff.mpr h
    rw [hsorted] at hmem
    exact absurd hmem List.not_mem_nil
  | cons first rest => exact ⟨first, List.mem_cons_self⟩

/-- It takes the only one there is. -/
theorem dueChanges_onlyDue (hids : (s.changes.map ScheduledChangeRow.id).Nodup)
    (h : change ∈ s.due choice.now) :
    dueChanges ⟨s.onlyDue choice.now change, [], choice⟩ = [change] := by
  obtain ⟨hrow, hdue⟩ := List.mem_filter.mp h
  have honly : (s.onlyDue choice.now change).due choice.now
      = s.changes.filter (fun row => row.id = change.id) := by
    unfold Database.due Database.onlyDue
    rw [List.filter_filter]
    refine List.filter_congr (fun row hmem => ?_)
    by_cases hid : row.id = change.id
    · rw [List.inj_on_of_nodup_map hids hmem hrow hid]
      simpa using hdue
    · simp [hid]
  rw [filter_key_eq_singleton hids hrow] at honly
  have hperm : (dueChanges ⟨s.onlyDue choice.now change, [], choice⟩).Perm _ :=
    dueChanges_perm (by rw [honly]; exact Nat.le_add_left 1 19)
  rw [honly] at hperm
  exact List.perm_singleton.mp hperm

/-- A mark takes a change off those that are due. -/
theorem due_mark (rows : List ScheduledChangeRow) (id : UUID) (t now : Instant) :
    (rows.map (fun row => if row.id = id then { row with appliedAt := some t } else row)).filter
        (fun row => row.Due now)
      = (rows.filter (fun row => row.Due now)).filter (fun row => row.id ≠ id) := by
  induction rows with
  | nil => rfl
  | cons row rows ih =>
    rw [List.map_cons]
    by_cases hid : row.id = id
    · rw [if_pos hid, List.filter_cons_of_neg (by simp [ScheduledChangeRow.Due]), ih]
      by_cases hdue : row.Due now
      · rw [List.filter_cons_of_pos (by simpa using hdue), List.filter_cons_of_neg (by simp [hid])]
      · rw [List.filter_cons_of_neg (by simpa using hdue)]
    · rw [if_neg hid]
      by_cases hdue : row.Due now
      · rw [List.filter_cons_of_pos (by simpa using hdue),
          List.filter_cons_of_pos (by simpa using hdue),
          List.filter_cons_of_pos (by simpa using hid), ih]
      · rw [List.filter_cons_of_neg (by simpa using hdue),
          List.filter_cons_of_neg (by simpa using hdue), ih]

/-- **Marks take changes off those that are due.** -/
theorem due_view (h : ∀ w ∈ writes, w.keepsRows = true) (now : Instant) :
    (service.view writes s).due now
      = (s.due now).filter (fun row => row.id ∉ marks writes) := by
  induction writes generalizing s with
  | nil => simp [marks, System.view]
  | cons w writes ih =>
    have hfirst : (s.apply w).due now
        = (s.due now).filter (fun row => row.id ∉ w.mark?.toList) := by
      have hother : (s.apply w).changes = s.changes → w.mark? = none →
          (s.apply w).due now = (s.due now).filter (fun row => row.id ∉ w.mark?.toList) := by
        intro hsame hmark
        unfold Database.due
        simp [hsame, hmark]
      have hkeeps := h w List.mem_cons_self
      cases w with
      | change op =>
        cases op with
        | insert row => cases hkeeps
        | setAppliedAt id t =>
          refine (due_mark s.changes id t now).trans (List.filter_congr (fun row _ => ?_))
          simp [Write.mark?]
      | _ => exact hother rfl rfl
    show (service.view writes (s.apply w)).due now = _
    rw [ih (fun w' hw' => h w' (List.mem_cons_of_mem w hw')), hfirst, List.filter_filter]
    refine List.filter_congr (fun row _ => ?_)
    unfold marks
    rw [List.filterMap_cons]
    cases w.mark? <;> simp [Bool.and_comm]

end Due

/-! ## Progress -/

/-- **A change commits by itself**: a call commits where it is the only one that is due. -/
def CommitsByItself (w : ServiceWorld) (choices : ℕ → Choice) (change : ScheduledChangeRow) :
    Prop :=
  ∃ w', Calls { w with committed := w.committed.onlyDue (choices 0).now change } choices w'

/-- **A call makes progress**: where one of the due changes commits by itself, the call commits
and leaves fewer of them. -/
def MakesProgress (w : ServiceWorld) (choices : ℕ → Choice) : Prop :=
  (∃ change ∈ w.committed.due (choices 0).now, CommitsByItself w choices change) →
    ∃ w', Calls w choices w'
      ∧ (w'.committed.due (choices 0).now).length < (w.committed.due (choices 0).now).length

section Progress

variable {w w' : ServiceWorld} {choices : ℕ → Choice} {change : ScheduledChangeRow}

/-- **The changes that commit by themselves** are those that can be applied. -/
theorem commitsByItself_iff (hs : w.committed.Settled) (hidle : w.live = [])
    (hworks : w.committed.Works choices) (hchange : change ∈ w.committed.due (choices 0).now) :
    CommitsByItself w choices change ↔ w.committed.Admits change := by
  have hone := dueChanges_onlyDue hs.consistent.keys.changeIds hchange
  have hcalls := exists_call_iff
    (w := { w with committed := w.committed.onlyDue (choices 0).now change })
    (hs.changes List.filter_sublist) hidle ⟨hworks.distinct, hworks.fresh⟩
  unfold CommitsByItself
  rw [hcalls, hone]
  constructor
  · exact fun hadmits => hadmits.1 change List.mem_cons_self
  · exact fun hadmits => ⟨List.forall_mem_singleton.mpr hadmits, List.nodup_singleton _⟩

/-- A call that commits leaves fewer changes that are due. -/
theorem length_due_lt (hs : w.committed.Settled) (hidle : w.live = [])
    (hcalls : Calls w choices w') (hchange : change ∈ w.committed.due (choices 0).now) :
    (w'.committed.due (choices 0).now).length < (w.committed.due (choices 0).now).length := by
  obtain ⟨-, batch, rounds, n, hfollows, hcommitted⟩ := of_calls hs hidle hcalls
  obtain ⟨first, hfirst⟩ := exists_mem_dueChanges hchange
  rw [hcommitted, due_view (keepsRows_roundWrites rounds)]
  refine List.length_filter_lt_length_iff_exists.mpr ⟨first, mem_due_of_mem_dueChanges hfirst, ?_⟩
  simpa using hfollows.marked hfirst

/-- **When the scheduler makes progress.** A call makes progress exactly if none of the due
changes can be applied, or the first twenty all can and are of different environments. -/
theorem due_changes_progress {actions : List (Action Choice Request)}
    (hrun : service.run initial actions = some w) (hidle : w.live = [])
    (hworks : w.committed.Works choices) :
    MakesProgress w choices
      ↔ (∀ change ∈ w.committed.due (choices 0).now, ¬ w.committed.Admits change)
        ∨ w.committed.AdmitsBatch (dueChanges ⟨w.committed, [], choices 0⟩) := by
  have hs := settled_of_run hrun
  constructor
  · intro hprogress
    by_cases hsome : ∃ change ∈ w.committed.due (choices 0).now, w.committed.Admits change
    · obtain ⟨change, hchange, hadmits⟩ := hsome
      have halone := (commitsByItself_iff hs hidle hworks hchange).mpr hadmits
      obtain ⟨w', hcalls, -⟩ := hprogress ⟨change, hchange, halone⟩
      exact Or.inr (of_calls hs hidle hcalls).1
    · exact Or.inl (fun change hchange hadmits => hsome ⟨change, hchange, hadmits⟩)
  · rintro hcondition ⟨change, hchange, halone⟩
    have hadmits := (commitsByItself_iff hs hidle hworks hchange).mp halone
    rcases hcondition with hnone | hbatch
    · exact absurd hadmits (hnone change hchange)
    · obtain ⟨w', hcalls⟩ := exists_call hs hidle hworks hbatch
      exact ⟨w', hcalls, length_due_lt hs hidle hcalls hchange⟩

end Progress

/-- Choices at a given time whose identifiers are all different. -/
def choicesAt (now : Instant) (n : ℕ) : Choice :=
  { sampleChoice 0 with ids := fun i => ⟨1000 + Nat.pair n i⟩, now }

/-- They make a database work that has no rules. -/
theorem works_choicesAt {s : Database} (h : s.children.rules.isEmpty = true) (now : Instant) :
    s.Works (choicesAt now) := by
  refine ⟨fun n i n' i' heq => ?_, fun n i => ?_⟩
  · have hpair : 1000 + Nat.pair n i = 1000 + Nat.pair n' i' := UUID.mk.inj heq
    exact Nat.pair_eq_pair.mp (Nat.add_left_cancel hpair)
  · rw [List.isEmpty_iff.mp h]
    exact List.not_mem_nil

/-- The sample flag with the change `50`, which is due. -/
def oneChange : List (Action Choice Request) :=
  sampleFlag ++ alone 4 50 13 (.scheduleChange sampleUser none ⟨40⟩ sampleScheduled)

theorem due_changes_progress_one : ∃ w, service.run initial oneChange = some w
    ∧ ∃ w', Calls w (choicesAt 0) w'
      ∧ (w'.committed.due 0).length < (w.committed.due 0).length := by
  have hstate : (service.run initial oneChange).map (fun w => decide (w.live.isEmpty = true
      ∧ w.committed.children.rules.isEmpty = true
      ∧ (∃ change ∈ w.committed.due 0, w.committed.Admits change)
      ∧ w.committed.AdmitsBatch (dueChanges ⟨w.committed, [], choicesAt 0 0⟩))) = some true := by
    decide +kernel
  obtain ⟨w, hrun, hstate⟩ := Option.map_eq_some_iff.mp hstate
  obtain ⟨hlive, hrules, ⟨change, hchange, hadmits⟩, hbatch⟩ := of_decide_eq_true hstate
  have hidle := List.isEmpty_iff.mp hlive
  have hworks := works_choicesAt hrules 0
  exact ⟨w, hrun, (due_changes_progress hrun hidle hworks).mpr (.inr hbatch) ⟨change, hchange,
    (commitsByItself_iff (settled_of_run hrun) hidle hworks hchange).mpr hadmits⟩⟩

/-- A change of the flag `60` to a variation that its payload does not name. -/
def sampleUnnamed : ScheduledChangeCreate :=
  ⟨⟨31⟩, 1, "variation", ⟨[], List.nodup_nil⟩, 0, Nat.one_pos, by decide⟩

/-- The sample flag with the change `50`, and a flag `60` of another environment. -/
def changeBesideFlag : List (Action Choice Request) :=
  oneChange
  ++ alone 5 31 5 (.createEnvironment sampleUser none ⟨20⟩ sampleStaging)
  ++ alone 6 60 12 (.createFeatureFlag sampleUser none ⟨20⟩
    { sampleCreate "footer" isFlagKey_footer with environmentId := ⟨31⟩ })

/-- The flag `60` has a change that cannot be applied, and both changes are due. -/
def blocked : List (Action Choice Request) :=
  changeBesideFlag ++ alone 7 70 13 (.scheduleChange sampleUser none ⟨60⟩ sampleUnnamed)

/-- **A change that cannot be applied blocks the others.** -/
theorem due_changes_blocked : ∃ w, service.run initial blocked = some w ∧ w.live = []
    ∧ w.committed.Works (choicesAt 0) ∧ ¬ MakesProgress w (choicesAt 0) := by
  have hstate : (service.run initial blocked).map (fun w => decide (w.live.isEmpty = true
      ∧ w.committed.children.rules.isEmpty = true
      ∧ (∃ change ∈ w.committed.due 0, w.committed.Admits change)
      ∧ ¬ w.committed.AdmitsBatch (dueChanges ⟨w.committed, [], choicesAt 0 0⟩))) = some true := by
    decide +kernel
  obtain ⟨w, hrun, hstate⟩ := Option.map_eq_some_iff.mp hstate
  obtain ⟨hlive, hrules, ⟨change, hchange, hadmits⟩, hbatch⟩ := of_decide_eq_true hstate
  have hidle := List.isEmpty_iff.mp hlive
  have hworks := works_choicesAt hrules 0
  have hs := settled_of_run hrun
  refine ⟨w, hrun, hidle, hworks, fun hprogress => hbatch ?_⟩
  obtain ⟨w', hcalls, -⟩ := hprogress ⟨change, hchange,
    (commitsByItself_iff hs hidle hworks hchange).mpr hadmits⟩
  exact (of_calls hs hidle hcalls).1

/-! ## The sequential meaning -/

/-- **A change applied to a configuration**, where it can be. -/
def ScheduledChangeRow.applyTo (change : ScheduledChangeRow) (c : ConfigurationFields) :
    Option ConfigurationFields :=
  change.meaning.bind (fun m =>
    if ∀ name ∈ m.names, name ∈ c.variations.keys then some (m.result c (c.configVersion + 1))
    else none)

/-- **Changes applied one after the other**, each to the result of the one before. -/
def applyInTurn (c : ConfigurationFields) (changes : List ScheduledChangeRow) :
    Option ConfigurationFields :=
  changes.foldlM (fun c change => change.applyTo c) c

/-- The changes of one configuration. -/
def changesOf (configId : UUID) (changes : List ScheduledChangeRow) : List ScheduledChangeRow :=
  changes.filter (fun change => change.configId = configId)

/-- **Changes can be applied in turn**: no flag is archived, and each change can be applied to
what the changes before it leave. -/
structure Database.AppliesInTurn (s : Database) (changes : List ScheduledChangeRow) : Prop where
  /-- Their flags are there and not archived. -/
  flags : ∀ change ∈ changes, ∃ row ∈ s.configs, row.id = change.configId
    ∧ ∃ flag ∈ s.flags, flag.id = row.flagId ∧ flag.archivedAt = none
  /-- Each change can be applied to what those before it leave. -/
  configs : ∀ row ∈ s.configs, ∀ c, CurrentStored s row c →
    (applyInTurn c.toConfigurationFields (changesOf row.id changes)).isSome = true

/-- **Changes have been applied in turn**: they are marked, each configuration is what its
changes leave of it one after the other, and has a new version for each. -/
structure Database.AppliedInTurn (s s' : Database) (changes : List ScheduledChangeRow) : Prop where
  /-- The changes are marked. -/
  marked : ∀ change ∈ changes, s'.Applied change.id
  /-- A configuration is what its changes leave, and as many versions further. -/
  configs : ∀ row ∈ s.configs, ∀ c, CurrentStored s row c → ∃ row' ∈ s'.configs,
    row'.identity = row.identity
      ∧ row'.currentVersion = row.currentVersion + (changesOf row.id changes).length
      ∧ ∃ result d, applyInTurn c.toConfigurationFields (changesOf row.id changes) = some result
        ∧ CurrentStored s' row' d ∧ result.Rearranged Eq List.Perm d.toConfigurationFields
  /-- And each of these versions is stored. -/
  versions : ∀ row ∈ s.configs, s'.versions.countP (fun version => version.configId = row.id)
    = s.versions.countP (fun version => version.configId = row.id)
      + (changesOf row.id changes).length

section InTurn

variable {s : Database} {row : FlagConfigRow} {c d : FlagConfiguration}
  {changes : List ScheduledChangeRow} {change : ScheduledChangeRow}

/-- A change can be applied if it means something and names known variations. -/
theorem applyTo_eq_some {c e : ConfigurationFields} :
    change.applyTo c = some e ↔ ∃ m, change.meaning = some m
      ∧ (∀ name ∈ m.names, name ∈ c.variations.keys) ∧ m.result c (c.configVersion + 1) = e := by
  unfold ScheduledChangeRow.applyTo
  rw [Option.bind_eq_some_iff]
  simp only [Option.ite_none_right_eq_some, Option.some.injEq]

/-- One change in turn. -/
theorem applyInTurn_singleton (c : ConfigurationFields) :
    applyInTurn c [change] = change.applyTo c := by
  unfold applyInTurn
  rw [List.foldlM_cons]
  exact bind_pure _

/-- The stored version with the number of a row is its current configuration. -/
theorem CurrentStored.snapshot_eq (h : CurrentStored s row c) (hs : s.Consistent)
    {version : FlagVersionRow} (hversion : version ∈ s.versions) (hid : version.configId = row.id)
    (hnumber : version.version = row.currentVersion) :
    version.snapshot = c.toConfigurationFields := by
  obtain ⟨stored, hstored, hid', hnumber', hsnapshot⟩ := h.stored
  have hsame : version = stored :=
    List.inj_on_of_nodup_map hs.keys.versionNumbers hversion hstored
      (Prod.ext (hid.trans hid'.symm) (hnumber.trans hnumber'.symm))
  rw [hsame, hsnapshot]

/-- Its number is the one of the row. -/
theorem CurrentStored.configVersion (h : CurrentStored s row c) (hs : s.Consistent)
    (hrow : row ∈ s.configs) : c.configVersion = row.currentVersion := by
  obtain ⟨flag, hflag, hflagId⟩ := List.mem_map.mp (hs.references.configFlags row hrow)
  obtain ⟨environment, hin, hid⟩ := List.mem_map.mp (hs.references.configEnvironments row hrow)
  exact (h.describes flag hflag hflagId environment hin hid).configVersion

/-- The only change of a configuration. -/
theorem changesOf_eq_singleton (hnodup : (changes.map ScheduledChangeRow.configId).Nodup)
    (hchange : change ∈ changes) : changesOf change.configId changes = [change] :=
  filter_key_eq_singleton hnodup hchange

/-- A configuration without changes. -/
theorem changesOf_eq_nil {configId : UUID}
    (h : configId ∉ changes.map ScheduledChangeRow.configId) : changesOf configId changes = [] :=
  filter_eq_nil_of_ne (fun _ hchange heq => h (heq ▸ List.mem_map_of_mem hchange))

/-- A change leaves the variations as they are. -/
theorem keys_of_applyTo {c e : ConfigurationFields} (h : change.applyTo c = some e) :
    e.variations.keys = c.variations.keys := by
  obtain ⟨m, -, -, rfl⟩ := applyTo_eq_some.mp h
  cases m <;> rfl

/-- Changes can be applied in turn to one configuration exactly if each of them can. -/
theorem applyInTurn_isSome {c : ConfigurationFields} :
    (applyInTurn c changes).isSome = true ↔ ∀ change ∈ changes, ∃ m, change.meaning = some m
      ∧ ∀ name ∈ m.names, name ∈ c.variations.keys := by
  induction changes generalizing c with
  | nil => exact ⟨fun _ _ h => absurd h List.not_mem_nil, fun _ => rfl⟩
  | cons change changes ih =>
    have hcons : applyInTurn c (change :: changes)
        = (change.applyTo c).bind (fun e => applyInTurn e changes) := rfl
    rw [hcons, List.forall_mem_cons]
    cases happlies : change.applyTo c with
    | none =>
      refine ⟨fun h => absurd h Bool.false_ne_true, ?_⟩
      rintro ⟨⟨m, hm, hnames⟩, -⟩
      have hsome := applyTo_eq_some.mpr ⟨m, hm, hnames, rfl⟩
      rw [happlies] at hsome
      cases hsome
    | some e =>
      show (applyInTurn e changes).isSome = true ↔ _
      rw [ih, keys_of_applyTo happlies]
      obtain ⟨m, hm, hnames, -⟩ := applyTo_eq_some.mp happlies
      exact ⟨fun hrest => ⟨⟨m, hm, hnames⟩, hrest⟩, fun h => h.2⟩

/-- **Changes can be applied in turn** exactly if each can be applied. -/
theorem appliesInTurn_iff (hs : s.Settled) :
    s.AppliesInTurn changes ↔ ∀ change ∈ changes, s.Admits change := by
  constructor
  · intro h change hchange
    refine ⟨h.flags change hchange, ?_⟩
    obtain ⟨row, hrow, hid, -⟩ := h.flags change hchange
    obtain ⟨c, hc, -⟩ := hs.current row hrow
    obtain ⟨m, hm, hnames⟩ := applyInTurn_isSome.mp (h.configs row hrow c hc) change
      (List.mem_filter.mpr ⟨hchange, decide_eq_true hid.symm⟩)
    refine ⟨m, hm, fun name hname => ?_⟩
    rw [← hid]
    exact hc.mem_keys.mp (hnames name hname)
  · intro h
    refine ⟨fun change hchange => (h change hchange).1, fun row hrow c hc => ?_⟩
    refine applyInTurn_isSome.mpr (fun change hchange => ?_)
    obtain ⟨hchange, hid⟩ := List.mem_filter.mp hchange
    obtain ⟨m, hm, hnames⟩ := (h change hchange).2
    refine ⟨m, hm, fun name hname => ?_⟩
    rw [hc.mem_keys, ← of_decide_eq_true hid]
    exact hnames name hname

/-- **A batch applies its changes in turn.** -/
theorem Batch.Follows.appliedInTurn {choices : ℕ → Choice} {batch : Batch} {rounds : List Round}
    {writes : List Write} {n : ℕ} {log : List (Request × Outcome)}
    (h : batch.Follows s choices changes rounds writes n) (hs : s.Settled)
    (hchanges : ∀ change ∈ changes, change ∈ s.changes)
    (hhistory : History (service.view (roundWrites rounds) s) log) :
    s.AppliedInTurn (service.view (roundWrites rounds) s) changes := by
  have hnodup := nodup_configIds h.distinct
  have hdistinct := h.configIds ▸ hnodup
  have hversions : (service.view (roundWrites rounds) s).versions = _ := versions_rounds
  have hconfigs : (service.view (roundWrites rounds) s).configs = _ := configs_rounds
  have happlied : ∀ change ∈ changes,
      (service.view (roundWrites rounds) s).Applied change.id := by
    intro change hchange
    obtain ⟨row', hrow', hid, -, -, hmarks⟩ :=
      exists_change_view (roundWrites rounds) (hchanges change hchange)
    exact ⟨row', hrow', hid, hmarks (.inr (h.marked hchange))⟩
  generalize service.view (roundWrites rounds) s = s' at hhistory hversions hconfigs happlied ⊢
  have hs' := hhistory.consistent
  refine ⟨happlied, fun row hrow c hc => ?_, fun row hrow => ?_⟩
  · have hrow' : updatedRow (updatesOf rounds) row ∈ s'.configs := by
      rw [hconfigs]
      exact List.mem_map_of_mem hrow
    refine ⟨_, hrow', identity_updatedRow _ row, ?_⟩
    obtain ⟨d, hd⟩ := (hhistory.configs _ hrow').current
    by_cases hmem : row.id ∈ changes.map ScheduledChangeRow.configId
    · -- the only change of the configuration has made its next version
      obtain ⟨change, hchange, hid⟩ := List.mem_map.mp hmem
      obtain ⟨-, u, hu, hconfigId, happlies⟩ := h.exists_update hchange
      have huid : row.id = u.configId := hid.symm.trans hconfigId.symm
      rw [updatedRow_of_mem hdistinct hu huid] at hd ⊢
      rw [← hid, changesOf_eq_singleton hnodup hchange, applyInTurn_singleton]
      obtain ⟨row₀, hrow₀, hid₀, c₀, hc₀, m, hm, hmeant⟩ := happlies.meant
      have hsame : row₀ = row :=
        List.inj_on_of_nodup_map hs.consistent.keys.configIds hrow₀ hrow (hid₀.trans hid)
      subst hsame
      have hsame : c₀.toConfigurationFields = c.toConfigurationFields := by
        obtain ⟨version, hversion, hid, hnumber, hsnapshot⟩ := hc₀.stored
        rw [← hsnapshot]
        exact hc.snapshot_eq hs.consistent hversion hid hnumber
      have hnames : ∀ name ∈ m.names, name ∈ c.variations.keys := by
        obtain ⟨m', hm', hnames⟩ := (h.exists_update hchange).1.2
        cases hm.symm.trans hm'
        intro name hname
        rw [hc.mem_keys, ← hid]
        exact hnames name hname
      have hnumber : row₀.currentVersion = u.payload.expectedVersion :=
        happlies.current.eq_row hs.consistent hrow₀ huid
      have hstored : u.versionRow ∈ s'.versions := by
        rw [hversions]
        exact List.mem_append_right _ (List.mem_map_of_mem hu)
      have hcompiled : u.compiled.toConfigurationFields = d.toConfigurationFields :=
        hd.snapshot_eq hs' hstored huid.symm rfl
      refine ⟨?_, _, d, applyTo_eq_some.mpr ⟨m, hm, hnames, rfl⟩, hd, ?_⟩
      · show u.payload.expectedVersion + 1 = row₀.currentVersion + 1
        rw [hnumber]
      · rw [hc.configVersion hs.consistent hrow₀, ← hcompiled, ← hsame]
        exact hmeant
    · rw [← h.configIds] at hmem
      rw [updatedRow_of_not_mem hmem] at hd ⊢
      rw [h.configIds] at hmem
      rw [changesOf_eq_nil hmem]
      obtain ⟨version, hversion, hid, hnumber, hsnapshot⟩ := hc.stored
      have hstored : version ∈ s'.versions := by
        rw [hversions]
        exact List.mem_append_left _ hversion
      refine ⟨rfl, c.toConfigurationFields, d, rfl, hd, ?_⟩
      rw [← hd.snapshot_eq hs' hstored hid hnumber, hsnapshot]
      exact .refl (fun _ => rfl) (fun _ => .refl _) _
  · rw [hversions, List.countP_append, List.countP_map]
    have hcount : (updatesOf rounds).countP (fun u => decide (u.configId = row.id))
        = (changesOf row.id changes).length := by
      unfold changesOf
      rw [← List.countP_eq_length_filter]
      have hids := congrArg (List.countP (fun id => decide (id = row.id))) h.configIds
      rwa [List.countP_map, List.countP_map] at hids
    rw [← hcount]
    rfl

/-- For changes of different configurations the order does not matter. -/
theorem Database.AppliedInTurn.perm {s' : Database} {changes' : List ScheduledChangeRow}
    (h : s.AppliedInTurn s' changes) (hnodup : (changes.map ScheduledChangeRow.configId).Nodup)
    (hperm : changes.Perm changes') : s.AppliedInTurn s' changes' := by
  have hsame : ∀ configId, changesOf configId changes = changesOf configId changes' := by
    intro configId
    by_cases hmem : configId ∈ changes.map ScheduledChangeRow.configId
    · obtain ⟨change, hchange, rfl⟩ := List.mem_map.mp hmem
      rw [changesOf_eq_singleton hnodup hchange, changesOf_eq_singleton
        ((hperm.map _).nodup_iff.mp hnodup) (hperm.mem_iff.mp hchange)]
    · rw [changesOf_eq_nil hmem, changesOf_eq_nil (fun h => hmem ((hperm.map _).mem_iff.mpr h))]
  refine ⟨fun change hchange => h.marked change (hperm.mem_iff.mpr hchange), ?_, ?_⟩
  · simpa only [hsame] using h.configs
  · simpa only [hsame] using h.versions

end InTurn

/-- **When a batch has its sequential meaning.** A call commits and applies at most twenty due
changes in turn exactly if no two of them are of one environment. -/
theorem batch_sequential_iff {actions : List (Action Choice Request)} {w : ServiceWorld}
    (hrun : service.run initial actions = some w) (hidle : w.live = []) {choices : ℕ → Choice}
    (hworks : w.committed.Works choices) {changes : List ScheduledChangeRow}
    (hchanges : changes.Perm (w.committed.due (choices 0).now)) (hfew : changes.length ≤ 20)
    (happlies : w.committed.AppliesInTurn changes) :
    (∃ w', Calls w choices w' ∧ w.committed.AppliedInTurn w'.committed changes)
      ↔ (changes.map w.committed.environmentOf).Nodup := by
  have hs := settled_of_run hrun
  have hperm : (dueChanges ⟨w.committed, [], choices 0⟩).Perm changes :=
    (dueChanges_perm (hchanges.length_eq ▸ hfew)).trans hchanges.symm
  constructor
  · rintro ⟨w', hcalls, -⟩
    exact (hperm.map _).nodup_iff.mp (of_calls hs hidle hcalls).1.2
  · intro hnodup
    have hbatch : w.committed.AdmitsBatch (dueChanges ⟨w.committed, [], choices 0⟩) :=
      ⟨fun change hchange => (appliesInTurn_iff hs).mp happlies change
        (hperm.mem_iff.mp hchange),
        (hperm.map _).nodup_iff.mpr hnodup⟩
    obtain ⟨w', hcalls⟩ := exists_call hs hidle hworks hbatch
    obtain ⟨-, batch, rounds, n, hfollows, hcommitted⟩ := of_calls hs hidle hcalls
    obtain ⟨k, hcall⟩ := hcalls
    have hrun' : service.run initial (actions ++ soloCall .applyDueChanges choices w.next k)
        = some w' := by
      rw [System.run_append, hrun]
      exact hcall
    have hhistory := (good_of_run hrun').invariant
    rw [hcommitted] at hhistory
    have happlied := hfollows.appliedInTurn hs
      (fun change hchange => (mem_dueChanges.1 change hchange).1) hhistory
    refine ⟨w', ⟨k, hcall⟩, ?_⟩
    rw [hcommitted]
    exact happlied.perm (nodup_configIds hbatch.2) hperm

/-- Both flags have a change that is due. -/
def spread : List (Action Choice Request) :=
  changeBesideFlag ++ alone 7 70 13 (.scheduleChange sampleUser none ⟨60⟩
    { sampleScheduled with environmentId := ⟨31⟩ })

theorem batch_sequential_spread : ∃ w, service.run initial spread = some w
    ∧ (w.committed.due 0).map ScheduledChangeRow.id = [⟨50⟩, ⟨70⟩]
    ∧ ∃ w', Calls w (choicesAt 0) w'
      ∧ w.committed.AppliedInTurn w'.committed (w.committed.due 0) := by
  have hstate : (service.run initial spread).map (fun w => decide (w.live.isEmpty = true
      ∧ w.committed.children.rules.isEmpty = true
      ∧ (w.committed.due 0).map ScheduledChangeRow.id = [⟨50⟩, ⟨70⟩]
      ∧ (w.committed.due 0).length ≤ 20
      ∧ w.committed.AdmitsBatch (w.committed.due 0))) = some true := by
    decide +kernel
  obtain ⟨w, hrun, hstate⟩ := Option.map_eq_some_iff.mp hstate
  obtain ⟨hlive, hrules, hids, hfew, hadmits, hnodup⟩ := of_decide_eq_true hstate
  exact ⟨w, hrun, hids, (batch_sequential_iff hrun (List.isEmpty_iff.mp hlive)
    (works_choicesAt hrules 0) (.refl _) hfew
    ((appliesInTurn_iff (settled_of_run hrun)).mpr hadmits)).mpr hnodup⟩

/-- **A batch with two changes of one configuration** can be applied in turn, in the order of
activation, and is not. -/
theorem batch_not_sequential : ∃ w, service.run initial twoChanges = some w ∧ w.live = []
    ∧ w.committed.Works (choicesAt 5) ∧ (w.committed.due 5).length ≤ 20
    ∧ (w.committed.due 5).Pairwise (fun a b => a.activateAt ≤ b.activateAt)
    ∧ w.committed.AppliesInTurn (w.committed.due 5)
    ∧ ¬ ∃ w', Calls w (choicesAt 5) w'
      ∧ w.committed.AppliedInTurn w'.committed (w.committed.due 5) := by
  have hstate : (service.run initial twoChanges).map (fun w => decide (w.live.isEmpty = true
      ∧ w.committed.children.rules.isEmpty = true
      ∧ (w.committed.due 5).length ≤ 20
      ∧ (w.committed.due 5).Pairwise (fun a b => a.activateAt ≤ b.activateAt)
      ∧ (∀ change ∈ w.committed.due 5, w.committed.Admits change)
      ∧ ¬ w.committed.AdmitsBatch (dueChanges ⟨w.committed, [], choicesAt 5 0⟩))) = some true := by
    decide +kernel
  obtain ⟨w, hrun, hstate⟩ := Option.map_eq_some_iff.mp hstate
  obtain ⟨hlive, hrules, hfew, hordered, hadmits, hbatch⟩ := of_decide_eq_true hstate
  have hidle := List.isEmpty_iff.mp hlive
  have hs := settled_of_run hrun
  refine ⟨w, hrun, hidle, works_choicesAt hrules 5, hfew, hordered,
    (appliesInTurn_iff hs).mpr hadmits, ?_⟩
  rintro ⟨w', hcalls, -⟩
  exact hbatch (of_calls hs hidle hcalls).1

end CohortSwitch
