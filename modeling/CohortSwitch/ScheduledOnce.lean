import CohortSwitch.LinearHistory
import CohortSwitch.Runs
import CohortSwitch.TableWrites
import Mathlib.Data.List.Flatten

/-!
# Scheduled changes are applied once

Any number of scheduler workers take due changes, apply them and commit, each in
its own transaction, and any of them may abort. A worker locks the rows it
takes and passes over rows that others hold, so while it works nobody else can
mark its changes (`claiming`). It marks each of them in the commit that carries
the version the change produced. So no change is marked twice, and none produces
two versions (`changes_applied_once`).

## Which change produced a version

A stored version does not name a change. But the scheduler ends each round with the mark
of its change, so in the writes of its transaction the version before a mark is the one
that change produced (`produced`). This is read off the list of writes and used for the
account only.

## Marks

The lock is what makes the mark safe: the row was due and not applied when it was locked,
nobody else can mark it before the worker is done, and if the worker aborts nothing of it
remains. `AppliesOnce` is the account between two states, commit by commit; it is closed
under one commit more (`AppliesOnce.cons`), and so it holds of every run.
-/

namespace CohortSwitch

/-! ## Marks and versions -/

/-- The change a write marks as applied. -/
def Write.mark? : Write → Option UUID
  | .change (.setAppliedAt id _) => some id
  | _ => none

/-- The changes a transaction marks as applied. -/
def marks (writes : List Write) : List UUID := writes.filterMap Write.mark?

/-- The versions of a transaction with the changes they are from. The scheduler
ends each of its rounds with the mark of the change, so the version before a mark
is the one the change produced. -/
def producedFrom (found : Option FlagVersionRow) : List Write → List (UUID × FlagVersionRow)
  | [] => []
  | .version row :: rest => producedFrom (some row) rest
  | .change (.setAppliedAt id _) :: rest =>
    (found.map (fun row => (id, row))).toList ++ producedFrom none rest
  | _ :: rest => producedFrom found rest

/-- **The versions that changes produced** in a transaction. -/
def produced (writes : List Write) : List (UUID × FlagVersionRow) := producedFrom none writes

/-- Another write, neither a version nor a mark. -/
theorem producedFrom_cons {w : Write} (hversion : w.version? = none) (hmark : w.mark? = none)
    (found : Option FlagVersionRow) (rest : List Write) :
    producedFrom found (w :: rest) = producedFrom found rest := by
  cases w with
  | version row => cases hversion
  | change op =>
    cases op with
    | setAppliedAt id t => cases hmark
    | insert row => rfl
  | _ => rfl

/-- The marks of two lists of writes. -/
theorem marks_append (writes writes' : List Write) :
    marks (writes ++ writes') = marks writes ++ marks writes' :=
  List.filterMap_append

/-- **Only changes that are marked produce versions**, at most one each. -/
theorem produced_sublist (found : Option FlagVersionRow) (writes : List Write) :
    ((producedFrom found writes).map Prod.fst).Sublist (marks writes) := by
  induction writes generalizing found with
  | nil => exact .slnil
  | cons w rest ih =>
    cases w with
    | version row => exact ih (some row)
    | change op =>
      cases op with
      | insert row => exact ih found
      | setAppliedAt id t =>
        cases found with
        | none => exact (ih none).cons id
        | some row => exact (ih none).cons_cons id
    | _ => exact ih found

/-- A version a change produced is written by the transaction. -/
theorem version_of_produced {found : Option FlagVersionRow} {writes : List Write}
    {item : UUID × FlagVersionRow} (h : item ∈ producedFrom found writes) :
    found = some item.2 ∨ .version item.2 ∈ writes := by
  induction writes generalizing found with
  | nil => exact absurd h List.not_mem_nil
  | cons w rest ih =>
    have hrest : ∀ {found' : Option FlagVersionRow}, item ∈ producedFrom found' rest →
        found' = some item.2 ∨ .version item.2 ∈ w :: rest :=
      fun h => (ih h).imp id (List.mem_cons_of_mem w)
    cases w with
    | version row =>
      rcases ih (h : item ∈ producedFrom (some row) rest) with hfound | hin
      · cases hfound
        exact .inr List.mem_cons_self
      · exact .inr (List.mem_cons_of_mem _ hin)
    | change op =>
      cases op with
      | insert row => exact hrest h
      | setAppliedAt id t =>
        rcases List.mem_append.mp h with hfirst | hin
        · obtain ⟨row, rfl, rfl⟩ := Option.map_eq_some_iff.mp (Option.mem_toList.mp hfirst)
          exact .inl rfl
        · exact .inr ((hrest hin).resolve_left (fun hnone => nomatch hnone))
    | _ => exact hrest h

/-- The writes of one update leave their version to the mark that follows. -/
theorem producedFrom_update {found : Option FlagVersionRow} {update : List Write}
    (hmarks : ∀ w ∈ update, w.mark? = none) (rest : List Write) :
    producedFrom found (update ++ rest)
      = producedFrom ((update.filterMap Write.version?).getLast?.or found) rest := by
  induction update generalizing found with
  | nil => rfl
  | cons w update ih =>
    have hlater := fun u hu => hmarks u (List.mem_cons_of_mem _ hu)
    rw [List.cons_append, List.filterMap_cons]
    cases hversion : w.version? with
    | none =>
      rw [producedFrom_cons hversion (hmarks w List.mem_cons_self), ih hlater]
    | some row =>
      cases w with
      | version row' =>
        cases hversion
        show producedFrom (some row) (update ++ rest) = _
        rw [ih hlater, List.getLast?_cons]
        cases (update.filterMap Write.version?).getLast? <;> rfl
      | _ => cases hversion

/-- An update marks nothing. -/
theorem mark?_of_isUpdate {w : Write} (h : w.isUpdate = true) : w.mark? = none := by
  cases w with
  | change op => cases h
  | _ => rfl

/-- Only marks lock changes. -/
theorem mark?_of_lock {w : Write} {id : UUID} (h : .change id ∈ w.locks) : w.mark? = some id := by
  cases w with
  | change op =>
    cases op with
    | insert row => cases h
    | setAppliedAt id' t =>
      rw [Row.change.inj (List.mem_singleton.mp h)]
      rfl
  | environment op => cases op <;> simp [Write.locks] at h
  | flag op => cases op <;> simp [Write.locks] at h
  | config op => cases op <;> simp [Write.locks] at h
  | _ => cases h

/-- An update locks no change. -/
theorem change_notMem_locks {w : Write} (h : w.isStatement = true) {id : UUID} :
    .change id ∉ w.locks := by
  intro hlock
  have hmark := mark?_of_lock hlock
  rw [mark?_of_isUpdate (Write.isUpdate_of_isStatement h)] at hmark
  cases hmark

/-- **Every version the loop leaves pending is from a change.** -/
theorem Marked.versions {changes : List ScheduledChangeRow} {writes : List Write}
    (h : Marked changes writes) :
    writes.filterMap Write.version? = (produced writes).map Prod.snd := by
  induction h with
  | nil => rfl
  | @cons change t changes update rest hwrites hone later ih =>
    have hmarks := fun w hw => mark?_of_isUpdate (hwrites w hw)
    unfold produced at ih ⊢
    rw [producedFrom_update hmarks, List.filterMap_append]
    show _ ++ rest.filterMap Write.version? = (((Option.or _ none).map _).toList ++ _).map Prod.snd
    rw [List.map_append, ih]
    congr 1
    cases hversions : update.filterMap Write.version? with
    | nil => rfl
    | cons row others =>
      rw [hversions] at hone
      rw [List.length_eq_zero_iff.mp (Nat.le_zero.mp (Nat.le_of_succ_le_succ hone))]
      rfl

/-- The loop marks its changes in order. -/
theorem Marked.marks {changes : List ScheduledChangeRow} {writes : List Write}
    (h : Marked changes writes) : marks writes = changes.map ScheduledChangeRow.id := by
  induction h with
  | nil => rfl
  | cons change t hwrites hone later ih =>
    have hnone := List.filterMap_eq_nil_iff.mpr (fun w hw => mark?_of_isUpdate (hwrites w hw))
    rw [marks_append, show CohortSwitch.marks _ = _ from hnone]
    exact congrArg (change.id :: ·) ih

/-- Statements are no versions and mark nothing. -/
theorem produced_statements {statements : List Write}
    (h : ∀ w ∈ statements, w.isStatement = true) (rest : List Write) :
    marks (statements ++ rest) = marks rest ∧ produced (statements ++ rest) = produced rest
      ∧ (statements ++ rest).filterMap Write.version? = rest.filterMap Write.version? := by
  have hmark : ∀ w ∈ statements, w.mark? = none :=
    fun w hw => mark?_of_isUpdate (Write.isUpdate_of_isStatement (h w hw))
  have hversion : statements.filterMap Write.version? = [] := by
    refine List.filterMap_eq_nil_iff.mpr (fun w hw => ?_)
    cases w with
    | version row => exact absurd (h _ hw) Bool.false_ne_true
    | _ => rfl
  refine ⟨?_, ?_, ?_⟩
  · rw [marks_append, show marks statements = [] from List.filterMap_eq_nil_iff.mpr hmark]
    rfl
  · unfold produced
    rw [producedFrom_update hmark, hversion]
    rfl
  · rw [List.filterMap_append, hversion]
    rfl

/-! ## The changes of a state -/

/-- A change is marked as applied. -/
def Database.Applied (s : Database) (id : UUID) : Prop :=
  ∃ row ∈ s.changes, row.id = id ∧ row.appliedAt.isSome = true

section Changes

variable {s s' : Database} {writes : List Write}

variable (writes) in
/-- What becomes of the row of a change. -/
theorem exists_change_view {row : ScheduledChangeRow} (hrow : row ∈ s.changes) :
    ∃ row' ∈ (service.view writes s).changes, row'.id = row.id
      ∧ (row'.configId = row.configId ∧ row'.activateAt = row.activateAt)
      ∧ (row.id ∉ marks writes → row' = row)
      ∧ (row.appliedAt.isSome = true ∨ row.id ∈ marks writes → row'.appliedAt.isSome = true) := by
  induction writes generalizing s row with
  | nil =>
    exact ⟨row, hrow, rfl, ⟨rfl, rfl⟩, fun _ => rfl, fun h => h.resolve_right List.not_mem_nil⟩
  | cons w rest ih =>
    -- any other write leaves the row where it is
    have hother : w.change? = none ∨ (∃ new, w = .change (.insert new)) →
        ∃ row' ∈ (service.view (w :: rest) s).changes, row'.id = row.id
          ∧ (row'.configId = row.configId ∧ row'.activateAt = row.activateAt)
          ∧ (row.id ∉ marks (w :: rest) → row' = row)
          ∧ (row.appliedAt.isSome = true ∨ row.id ∈ marks (w :: rest) →
            row'.appliedAt.isSome = true) := by
      intro hw
      have hmarks : marks (w :: rest) = marks rest := by
        rcases hw with hw | ⟨new, rfl⟩
        · cases w <;> first | rfl | cases hw
        · rfl
      have hkeeps : row ∈ (s.apply w).changes := by
        rcases hw with hw | ⟨new, rfl⟩
        · cases w <;> first | exact hrow | cases hw
        · exact List.mem_append_left _ hrow
      rw [hmarks]
      exact ih hkeeps
    cases w with
    | change op =>
      cases op with
      | insert new => exact hother (.inr ⟨new, rfl⟩)
      | setAppliedAt id t =>
        show ∃ row' ∈ (service.view rest _).changes, row'.id = row.id
          ∧ (row'.configId = row.configId ∧ row'.activateAt = row.activateAt)
          ∧ (row.id ∉ id :: marks rest → _)
          ∧ (row.appliedAt.isSome = true ∨ row.id ∈ id :: marks rest → _)
        -- the mark of this row stays for good, and the mark of another one does not touch it
        by_cases hid : row.id = id
        · have hmarked : { row with appliedAt := some t }
              ∈ (s.apply (.change (.setAppliedAt id t))).changes :=
            List.mem_map.mpr ⟨row, hrow, if_pos hid⟩
          obtain ⟨row', hrow', hid', hkept, -, happlied⟩ := ih hmarked
          exact ⟨row', hrow', hid', hkept, fun h => absurd (hid ▸ List.mem_cons_self) h,
            fun _ => happlied (.inl rfl)⟩
        · have hkept : row ∈ (s.apply (.change (.setAppliedAt id t))).changes :=
            List.mem_map.mpr ⟨row, hrow, if_neg hid⟩
          obtain ⟨row', hrow', hid', hfixed, hsame, happlied⟩ := ih hkept
          refine ⟨row', hrow', hid', hfixed,
            fun h => hsame (fun hm => h (List.mem_cons_of_mem _ hm)),
            fun h => happlied (h.imp (fun h' => h') (fun hm => ?_))⟩
          exact (List.mem_cons.mp hm).resolve_left hid
    | _ => exact hother (.inl rfl)

/-- A change that is applied stays so. -/
theorem Database.Applied.view {id : UUID} (h : s.Applied id) :
    (service.view writes s).Applied id := by
  obtain ⟨row, hrow, rfl, happlied⟩ := h
  obtain ⟨row', hrow', hid, -, -, hkeeps⟩ := exists_change_view _ hrow
  exact ⟨row', hrow', hid, hkeeps (.inl happlied)⟩

end Changes

/-! ## Who marks a change -/

/-- **What a worker relies on**: others leave the rows it locked alone, and unmark
no change. -/
def claiming : Discipline Database Write Row where
  apply := Database.apply
  invariant := fun s => (s.changes.map ScheduledChangeRow.id).Nodup
  rely := fun locks s s' => (∀ row ∈ s.changes, .change row.id ∈ locks → row ∈ s'.changes)
    ∧ ∀ id, s.Applied id → s'.Applied id
  rely_refl := fun _ _ => ⟨fun _ h _ => h, fun _ h => h⟩
  rely_trans := fun _ _ _ _ h h' => ⟨fun row hrow hlock => h'.1 row (h.1 row hrow hlock) hlock,
    fun id hid => h'.2 id (h.2 id hid)⟩

/-- **What a transaction marks**: the scheduler the changes it holds, which are not
applied yet, and every other request none. -/
def MarksChanges : Request → List Write → List Row → Database → Outcome → Prop
  | .applyDueChanges, writes, locks, s, _ => ∃ changes statements pending,
    writes = statements ++ pending ∧ (∀ w ∈ statements, w.isStatement = true)
      ∧ Marked changes pending ∧ (changes.map ScheduledChangeRow.id).Nodup
      ∧ (∀ change ∈ changes, .change change.id ∈ locks ∧ change ∈ s.changes
        ∧ change.appliedAt = none)
      ∧ ∀ id, .change id ∈ locks → id ∈ changes.map ScheduledChangeRow.id
  | _, writes, _, _, _ => marks writes = []

/-- A worker takes each change once, and none that is applied. -/
theorem mem_dueChanges {v : View Database Row Choice} :
    (∀ change ∈ dueChanges v, change ∈ v.state.changes ∧ change.appliedAt = none)
      ∧ ((v.state.changes.map ScheduledChangeRow.id).Nodup →
        ((dueChanges v).map ScheduledChangeRow.id).Nodup) := by
  constructor
  · intro change hchange
    have hmem := (sortedBy_perm _ _).mem_iff.mp (List.mem_of_mem_take hchange)
    obtain ⟨hrow, hdue⟩ := List.mem_filter.mp ((arrange_perm _ _).mem_iff.mp hmem)
    exact ⟨hrow, (of_decide_eq_true hdue).1⟩
  · intro hnodup
    refine List.Nodup.sublist ((List.take_sublist _ _).map _) ?_
    rw [((sortedBy_perm _ _).map ScheduledChangeRow.id).nodup_iff,
      ((arrange_perm _ _).map ScheduledChangeRow.id).nodup_iff]
    exact hnodup.sublist (List.filter_sublist.map _)

/-- Only the scheduler marks changes. -/
theorem mark?_of_mayWrite {request : Request}
    (hother : request.mayWrite (.change (.setAppliedAt ⟨0⟩ 0)) = false) {w : Write}
    (h : request.mayWrite w = true) : w.mark? = none := by
  cases w with
  | change op =>
    cases op with
    | insert row => rfl
    | setAppliedAt id t =>
      cases request with
      | applyDueChanges => cases hother
      | _ => exact absurd h Bool.false_ne_true
  | _ => rfl

/-- Other requests mark nothing. -/
theorem marks_eq_nil {request : Request}
    (hother : request.mayWrite (.change (.setAppliedAt ⟨0⟩ 0)) = false) {writes : List Write}
    (h : ∀ w ∈ writes, request.mayWrite w = true) : marks writes = [] :=
  List.filterMap_eq_nil_iff.mpr (fun w hw => mark?_of_mayWrite hother (h w hw))

/-- **The scheduler marks what it holds.** -/
theorem ensures_marks_scheduler (s : Database) :
    applyDueChanges.Ensures claiming (MarksChanges .applyDueChanges) [] [] s := by
  intro s₁ h₁ hs₁ locked choice _
  generalize hchanges : dueChanges ⟨s₁, locked, choice⟩ = changes
  have hdue : ∀ change ∈ changes, change ∈ s₁.changes ∧ change.appliedAt = none := by
    rw [← hchanges]
    exact mem_dueChanges.1
  have hnodup : (changes.map ScheduledChangeRow.id).Nodup := by
    rw [← hchanges]
    exact mem_dueChanges.2 hs₁
  show Prog.Ensures claiming _ (applyChanges ⟨.empty, [], [], []⟩ (dueChanges ⟨s₁, locked, choice⟩)
    >>= _) ([] ++ []) ([] ++ (dueChanges ⟨s₁, locked, choice⟩).map (fun row => .change row.id)) s₁
  rw [hchanges, List.nil_append, List.nil_append]
  -- what the worker holds stays as it was found
  have hstable : ∀ locks t t', changes.map (fun row => Row.change row.id) ⊆ locks →
      claiming.rely locks t t' → (∀ change ∈ changes, change ∈ t.changes) →
      ∀ change ∈ changes, change ∈ t'.changes := by
    intro locks t t' hheld hrely h change hchange
    exact hrely.1 change (h change hchange)
      (hheld (List.mem_map_of_mem (f := fun row : ScheduledChangeRow => Row.change row.id) hchange))
  have hloop : (applyChanges ⟨.empty, [], [], []⟩ changes).Ensures claiming _ []
      (changes.map (fun row => .change row.id)) s₁ :=
    writes_applyChanges.ensures (fun _ hw => absurd hw List.not_mem_nil)
  -- and no other change gets locked
  have honly : (applyChanges ⟨.empty, [], [], []⟩ changes).Ensures claiming
      (fun _ locks _ _ => ∀ row ∈ locks, ∀ id, row = .change id →
        id ∈ changes.map ScheduledChangeRow.id) []
      (changes.map (fun row => .change row.id)) s₁ := by
    refine writes_applyChanges.ensures_locks (fun row hrow id heq => ?_)
      (fun w hw row hrow id heq => ?_)
    · obtain ⟨change, hchange, rfl⟩ := List.mem_map.mp hrow
      exact Row.change.inj heq ▸ List.mem_map_of_mem hchange
    · rw [heq] at hrow
      exact absurd hrow (change_notMem_locks hw)
  refine ((hloop.and honly).frame_locked _ hstable (fun _ h => h)
    (fun change hchange => (hdue change hchange).1)).bind
      (fun statements locks s₂ batch hbatch => ?_)
  obtain ⟨⟨⟨hstatements, new, hpending, hmarked⟩, hids⟩, hheld, hrows⟩ := hbatch
  rw [show batch.pending = new from hpending]
  intro s₃ h₃ _ locked' choice' _
  refine ⟨changes, statements, new, rfl, hstatements, hmarked, hnodup, fun change hchange => ?_,
    fun id hlock => ?_⟩
  · exact ⟨List.mem_append_left _ (hheld (List.mem_map_of_mem
      (f := fun row : ScheduledChangeRow => Row.change row.id) hchange)),
      hstable _ _ _ hheld h₃ hrows change hchange, (hdue change hchange).2⟩
  · rcases List.mem_append.mp hlock with hlock | hlock
    · exact hids _ hlock id rfl
    · obtain ⟨w, hw, hrow⟩ := List.mem_flatMap.mp hlock
      rw [← hmarked.marks]
      exact List.mem_filterMap.mpr ⟨w, hw, mark?_of_lock hrow⟩

/-- Every request marks what it may. -/
theorem ensures_marks (request : Request) (s : Database) :
    request.program.Ensures claiming (MarksChanges request) [] [] s := by
  have hwrites : request.program.Ensures claiming _ [] [] s :=
    request.writes.ensures (fun _ hw => absurd hw List.not_mem_nil)
  cases request with
  | applyDueChanges => exact ensures_marks_scheduler s
  | _ => exact hwrites.mono (fun _ _ _ _ h => marks_eq_nil rfl h.1)

/-- The service respects the claims of workers. -/
theorem respects_marks : service.Respects claiming
    (fun s _ => (s.changes.map ScheduledChangeRow.id).Nodup) MarksChanges (fun _ _ _ => True) where
  apply := rfl
  committed := fun _ _ h => h
  start := fun request s _ => ensures_marks request s
  commit := by
    intro request writes locks s s' result log hpost hrely _ hok _
    refine ⟨(Database.consistent_of_ok hok).keys.changeIds, fun locks' hfree => ⟨?_, ?_⟩⟩
    · -- what others hold is not marked: the marks are of rows this transaction holds
      intro row hrow hlock
      obtain ⟨row', hrow', -, -, hsame, -⟩ := exists_change_view _ hrow
      rw [← hsame (fun hmark => ?_)]
      · exact hrow'
      have hheld : .change row.id ∈ locks := by
        cases request with
        | applyDueChanges =>
          obtain ⟨changes, statements, pending, rfl, hstatements, hmarked, -, hchanges, -⟩ := hpost
          rw [(produced_statements hstatements pending).1, hmarked.marks] at hmark
          obtain ⟨change, hchange, hid⟩ := List.mem_map.mp hmark
          rw [← hid]
          exact (hchanges change hchange).1
        | _ =>
          rw [show marks writes = [] from hpost] at hmark
          exact absurd hmark List.not_mem_nil
      exact hfree _ hheld hlock
    · exact fun id h => h.view

/-! ## Every run -/

/-- **What commits do to the changes** between two states. -/
structure AppliesOnce (s : Database) (commits : List (Request × List Write)) (s' : Database) :
    Prop where
  /-- No change is marked twice. -/
  once : (commits.flatMap (fun commit => marks commit.2)).Nodup
  /-- What a commit marks was not applied before it, and is applied after. -/
  fresh : ∀ commit ∈ commits, ∀ id ∈ marks commit.2, ¬ s.Applied id ∧ s'.Applied id
  /-- What was applied stays so. -/
  kept : ∀ id, s.Applied id → s'.Applied id
  /-- Only the scheduler marks. -/
  scheduler : ∀ commit ∈ commits, marks commit.2 ≠ [] → commit.1 = .applyDueChanges
  /-- The versions a batch adds are those its changes produced, no more and no fewer. -/
  accounted : ∀ commit ∈ commits, commit.1 = .applyDueChanges →
    commit.2.filterMap Write.version? = (produced commit.2).map Prod.snd

/-- One commit more. -/
theorem AppliesOnce.cons {s : Database} {commit : Request × List Write}
    {rest : List (Request × List Write)} {s' : Database}
    (hcommit : CommitsAs service claiming (fun s _ => (s.changes.map ScheduledChangeRow.id).Nodup)
      MarksChanges s commit)
    (h : AppliesOnce (service.view commit.2 s) rest s') : AppliesOnce s (commit :: rest) s' := by
  obtain ⟨request, writes⟩ := commit
  obtain ⟨⟨log, hnodup⟩, -, locks, s₀, result, hrely, hpost⟩ := hcommit
  have hkept : ∀ id, s.Applied id → s'.Applied id := fun id hid => h.kept id hid.view
  have hmarks : (marks writes).Nodup ∧ (∀ id ∈ marks writes, ¬ s.Applied id
        ∧ (service.view writes s).Applied id)
      ∧ (marks writes ≠ [] → request = .applyDueChanges)
      ∧ (request = .applyDueChanges →
        writes.filterMap Write.version? = (produced writes).map Prod.snd) := by
    cases request with
    | applyDueChanges =>
      obtain ⟨changes, statements, pending, rfl, hstatements, hmarked, hids, hchanges, -⟩ := hpost
      obtain ⟨hmarks, hproduced, hversions⟩ := produced_statements hstatements pending
      refine ⟨?_, fun id hid => ?_, fun _ => rfl, fun _ => ?_⟩
      · rw [hmarks, hmarked.marks]
        exact hids
      · have hmem := hid
        rw [hmarks, hmarked.marks] at hmem
        obtain ⟨change, hchange, rfl⟩ := List.mem_map.mp hmem
        obtain ⟨hlock, hrow, hunapplied⟩ := hchanges change hchange
        have hrow := hrely.1 change hrow hlock
        constructor
        · rintro ⟨row, hrow', hrowId, happlied⟩
          rw [List.inj_on_of_nodup_map hnodup hrow' hrow hrowId, hunapplied] at happlied
          cases happlied
        · obtain ⟨row, hrow', hrowId, -, -, happlied⟩ := exists_change_view _ hrow
          exact ⟨row, hrow', hrowId, happlied (.inr hid)⟩
      · rw [hproduced, hversions]
        exact hmarked.versions
    | _ =>
      have hnone : marks writes = [] := hpost
      rw [hnone]
      exact ⟨.nil, fun _ h => absurd h List.not_mem_nil, fun h => absurd rfl h, fun h => nomatch h⟩
  obtain ⟨hself, hnew, honly, haccounted⟩ := hmarks
  refine ⟨?_, ?_, hkept, ?_, ?_⟩
  · show (marks writes ++ rest.flatMap _).Nodup
    refine List.nodup_append.mpr ⟨hself, h.once, fun id hid id' hid' heq => ?_⟩
    -- a change this commit marks is applied when the later ones mark theirs
    obtain ⟨commit, hcommit, hmark⟩ := List.mem_flatMap.mp hid'
    exact (h.fresh commit hcommit id' hmark).1 (heq ▸ (hnew id hid).2)
  · refine List.forall_mem_cons.mpr ⟨fun id hid => ⟨(hnew id hid).1, h.kept id (hnew id hid).2⟩,
      fun commit hcommit id hid => ⟨fun happlied => ?_, (h.fresh commit hcommit id hid).2⟩⟩
    exact (h.fresh commit hcommit id hid).1 happlied.view
  · exact List.forall_mem_cons.mpr ⟨honly, h.scheduler⟩
  · exact List.forall_mem_cons.mpr ⟨haccounted, h.accounted⟩

/-- The service before its first request, as the workers know it. -/
theorem good_changes : initial.Good claiming
    (fun s _ => (s.changes.map ScheduledChangeRow.id).Nodup) MarksChanges :=
  World.good_init List.nodup_nil

/-- **What every run does to the changes.** -/
theorem appliesOnce_of_run {actions : List (Action Choice Request)} {w : ServiceWorld}
    (hrun : service.run initial actions = some w) :
    AppliesOnce .empty (service.commits initial actions) w.committed := by
  refine respects_marks.commits_induction (fun s => ⟨.nil, fun _ h => absurd h List.not_mem_nil,
    fun _ h => h, fun _ h => absurd h List.not_mem_nil, fun _ h => absurd h List.not_mem_nil⟩) ?_
    good_changes (service.commitsMeet_of_forall (fun _ _ _ => trivial) _ _) hrun
  exact fun s commit rest s' hcommit _ h => h.cons hcommit

/-- **At-most-once scheduled changes.** Whatever workers and writers do and in
whatever order, each change has produced at most one committed version; it has
produced one only in a commit of the scheduler that also marks it as applied,
and none while it is not; and every version the scheduler commits was produced
by a change. -/
theorem changes_applied_once {actions : List (Action Choice Request)} {w : ServiceWorld}
    (hrun : service.run initial actions = some w) :
    (((service.commits initial actions).flatMap (fun commit => produced commit.2)).map
        Prod.fst).Nodup
      ∧ (∀ commit ∈ service.commits initial actions, ∀ item ∈ produced commit.2,
        commit.1 = .applyDueChanges ∧ .version item.2 ∈ commit.2 ∧ item.1 ∈ marks commit.2)
      ∧ (∀ change ∈ w.committed.changes, change.appliedAt = none →
        ∀ commit ∈ service.commits initial actions, ∀ item ∈ produced commit.2,
          item.1 ≠ change.id)
      ∧ ∀ commit ∈ service.commits initial actions, commit.1 = .applyDueChanges →
        commit.2.filterMap Write.version? = (produced commit.2).map Prod.snd := by
  have honce := appliesOnce_of_run hrun
  have hmarked : ∀ commit : Request × List Write, ∀ item ∈ produced commit.2,
      item.1 ∈ marks commit.2 :=
    fun commit item hitem => (produced_sublist none commit.2).subset (List.mem_map_of_mem hitem)
  refine ⟨?_, fun commit hcommit item hitem => ?_, fun change hchange hnone commit hcommit item
    hitem heq => ?_, honce.accounted⟩
  · rw [List.map_flatMap]
    exact honce.once.sublist (List.Sublist.flatMap_right _ (fun _ _ => produced_sublist _ _))
  · refine ⟨honce.scheduler commit hcommit (List.ne_nil_of_mem (hmarked commit item hitem)), ?_,
      hmarked commit item hitem⟩
    exact (version_of_produced hitem).resolve_left (fun h => nomatch h)
  · obtain ⟨row, hrow, hid, happlied⟩ :=
      (honce.fresh commit hcommit item.1 (hmarked commit item hitem)).2
    have hconsistent := (respects_marks.run_good good_changes
      (service.commitsMeet_of_forall (fun _ _ _ => trivial) _ _) hrun).1.invariant
    rw [List.inj_on_of_nodup_map hconsistent hrow hchange (hid.trans heq), hnone] at happlied
    cases happlied

/-! ## Two workers and one change -/

/-- A change of the sample flag that is due at once. -/
def sampleScheduled : ScheduledChangeCreate :=
  ⟨⟨30⟩, 1, "disable", ⟨[], List.nodup_nil⟩, 0, Nat.one_pos, by decide⟩

/-- Two workers look for due changes; the second finds the only one locked. -/
def twoWorkers : List (Action Choice Request) :=
  sampleFlag ++ alone 4 50 13 (.scheduleChange sampleUser none ⟨40⟩ sampleScheduled)
  ++ [.start .applyDueChanges, .start .applyDueChanges] ++ advances 5 60 1 ++ advances 6 70 2
  ++ advances 5 60 20 ++ [.commit 5, .commit 6]

theorem changes_applied_once_workers : ∃ w, service.run initial twoWorkers = some w
    ∧ (service.commits initial twoWorkers).flatMap (fun commit =>
        (produced commit.2).map (fun item => (item.1, item.2.version))) = [(⟨50⟩, 2)]
    ∧ (((service.commits initial twoWorkers).flatMap (fun commit => produced commit.2)).map
      Prod.fst).Nodup
    ∧ (∀ commit ∈ service.commits initial twoWorkers, ∀ item ∈ produced commit.2,
      commit.1 = .applyDueChanges ∧ .version item.2 ∈ commit.2 ∧ item.1 ∈ marks commit.2)
    ∧ (∀ change ∈ w.committed.changes, change.appliedAt = none →
      ∀ commit ∈ service.commits initial twoWorkers, ∀ item ∈ produced commit.2,
        item.1 ≠ change.id)
    ∧ ∀ commit ∈ service.commits initial twoWorkers, commit.1 = .applyDueChanges →
      commit.2.filterMap Write.version? = (produced commit.2).map Prod.snd := by
  have hruns : (service.run initial twoWorkers).isSome = true := by decide +kernel
  have hproduced : (service.commits initial twoWorkers).flatMap (fun commit =>
      (produced commit.2).map (fun item => (item.1, item.2.version))) = [(⟨50⟩, 2)] := by
    decide +kernel
  obtain ⟨w, hrun⟩ := Option.isSome_iff_exists.mp hruns
  exact ⟨w, hrun, hproduced, changes_applied_once hrun⟩

end CohortSwitch
