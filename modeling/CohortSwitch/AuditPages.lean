import CohortSwitch.ManagementReads
import CohortSwitch.AuditTrail
import CohortSwitch.Pagination

/-!
# Paging through the audit log

`list_audit_events` answers with the latest events of an organization, and with
those before a time where the client gives one. A client that gives the
`created_at` of the last event it has seen walks through the whole log, page by
page, while other requests go on to add events.

The log only grows, whatever commits: the endpoints of the service, the scheduler
and the revocation of a key only append to it (`audits_prefix_of_run`). So the walk
is a `PageWalk` over a growing table. The order among events of one time is the
database's, and the comparison with `before` is strict: an event is passed over
only where it has the very time at which the walk was cut.

The statements of one page see different states, since others commit between them. The
page is decided by the last of them, which reads the events, and the ones before it
authorize the principal (`page_of_observe`). A walk is thus one of the states in which
these last statements were made, and these go on with the log one after the other
(`audits_prefix_of_moments`).
-/

namespace CohortSwitch

open scoped List

/-- **A client pages through the audit log** of an organization: each page before the last
event of the page before it, down to a page that is not full. -/
inductive AuditWalk (principal : Principal) (organizationId : UUID) (limit : ℕ) :
    Option Instant → List (List (View Database Row Choice)) → List (List AuditEventRow) → Prop
  | last {before : Option Instant} {views : List (View Database Row Choice)}
    {page : List AuditEventRow}
    (answer : (listAuditEvents principal organizationId limit before).observe views
      = some (.ok page)) (short : page.length < limit) :
    AuditWalk principal organizationId limit before [views] [page]
  | next {before : Option Instant} {views : List (View Database Row Choice)}
    {page : List AuditEventRow} {event : AuditEventRow}
    {later : List (List (View Database Row Choice))} {pages : List (List AuditEventRow)}
    (answer : (listAuditEvents principal organizationId limit before).observe views
      = some (.ok page)) (lastEvent : page.getLast? = some event)
    (walk : AuditWalk principal organizationId limit (some event.createdAt) later pages) :
    AuditWalk principal organizationId limit before (views :: later) (page :: pages)

section Pages

variable {principal : Principal} {organizationId : UUID} {limit : ℕ} {before : Option Instant}

/-! ## One answer -/

/-- The events before a time are those of `rowsBefore`. -/
theorem eventsOf_eq (db : Database) (organizationId : UUID) (before : Option Instant) :
    db.eventsOf organizationId before
      = rowsBefore AuditEventRow.createdAt before (db.eventsOf organizationId none) := by
  unfold rowsBefore Database.eventsOf
  rw [List.filter_filter]
  refine List.filter_congr (fun row _ => ?_)
  cases before with
  | none => simp
  | some time => simp [Bool.and_comm]

/-- **An answer is a page** of the log as its last statement sees it. -/
theorem page_of_observe {views : List (View Database Row Choice)} {page : List AuditEventRow}
    (h : (listAuditEvents principal organizationId limit before).observe views
      = some (.ok page)) :
    ∃ v ∈ views, IsPage AuditEventRow.createdAt limit
      (rowsBefore AuditEventRow.createdAt before (v.state.eventsOf organizationId none)) page := by
  obtain ⟨authorizing, final, _, rfl, -, hlist⟩ := observe_bind h
  obtain ⟨v, events, rfl, hevents, rfl⟩ := observe_selectAll hlist
  refine ⟨v, List.mem_append_right _ List.mem_cons_self, _, ?_, ?_, rfl⟩
  · rw [← eventsOf_eq]
    exact (sortedBy_perm _ events).trans hevents
  · exact sortedBy_pairwise (fun row : AuditEventRow => OrderDual.toDual row.createdAt) events

/-- **A walk through the log is a walk through its events.** -/
theorem AuditWalk.pageWalk {views : List (List (View Database Row Choice))}
    {pages : List (List AuditEventRow)}
    (h : AuditWalk principal organizationId limit before views pages) :
    ∃ logs, PageWalk AuditEventRow.createdAt limit before logs pages
      ∧ ∀ log ∈ logs, ∃ v ∈ views.flatten, log = v.state.eventsOf organizationId none := by
  induction h with
  | @last before views page answer short =>
    obtain ⟨v, hv, hpage⟩ := page_of_observe answer
    refine ⟨[v.state.eventsOf organizationId none], .last hpage short, ?_⟩
    refine List.forall_mem_singleton.mpr ⟨v, ?_, rfl⟩
    rwa [List.flatten_cons, List.flatten_nil, List.append_nil]
  | @next before views page event later pages answer lastEvent walk ih =>
    obtain ⟨v, hv, hpage⟩ := page_of_observe answer
    obtain ⟨logs, hlater, hlogs⟩ := ih
    refine ⟨v.state.eventsOf organizationId none :: logs, .next hpage lastEvent hlater, ?_⟩
    rw [List.flatten_cons]
    refine List.forall_mem_cons.mpr ⟨⟨v, List.mem_append_left _ hv, rfl⟩, fun log hlog => ?_⟩
    obtain ⟨u, hu, hlog⟩ := hlogs log hlog
    exact ⟨u, List.mem_append_right _ hu, hlog⟩

end Pages

/-! ## The log grows -/

/-- A write appends to the log, or leaves it. -/
theorem UsageDatabase.audits_prefix_apply (s : UsageDatabase) (write : UsageWrite) :
    s.db.audits <+: (s.apply write).db.audits := by
  cases write with
  | service write => exact (grows_apply s.db write).audits
  | setRevokedAt keyId revokedAt => exact List.prefix_rfl
  | setLastUsedAt keyId lastUsedAt => exact List.prefix_rfl

/-- Some writes do. -/
theorem audits_prefix_view (writes : List UsageWrite) (s : UsageDatabase) :
    s.db.audits <+: (usageService.view writes s).db.audits := by
  induction writes generalizing s with
  | nil => exact List.prefix_rfl
  | cons write writes ih => exact (s.audits_prefix_apply write).trans (ih (s.apply write))

/-- A step does. -/
theorem audits_prefix_of_step {w w' : UsageWorld} {action : Action Choice UsageRequest}
    (hstep : usageService.step w action = some w') :
    w.committed.db.audits <+: w'.committed.db.audits := by
  cases action with
  | start request =>
    cases hstep
    exact List.prefix_rfl
  | abort id =>
    cases hstep
    exact List.prefix_rfl
  | advance id choice =>
    obtain ⟨tx, locks, writes, next, view, -, -, -, -, rfl⟩ := usageService.advance_eq_some hstep
    exact List.prefix_rfl
  | commit id =>
    obtain ⟨tx, result, -, -, -, rfl⟩ := usageService.commit_eq_some hstep
    exact audits_prefix_view tx.writes w.committed

/-- **A run goes on with the log.** -/
theorem audits_prefix_of_run {w w' : UsageWorld} {actions : List (Action Choice UsageRequest)}
    (hrun : usageService.run w actions = some w') :
    w.committed.db.audits <+: w'.committed.db.audits :=
  System.run_keeps (P := fun v => w.committed.db.audits <+: v.committed.db.audits)
    (fun _ _ _ hprefix _ hstep => hprefix.trans (audits_prefix_of_step hstep)) List.prefix_rfl
    (System.meets_of_forall (fun _ _ => trivial) w actions) hrun

/-- **Each moment goes on with the log of the ones before it.** -/
theorem audits_prefix_of_moments {w : UsageWorld} {states : List UsageDatabase}
    (h : usageService.Moments w states) :
    (∀ s ∈ states, w.committed.db.audits <+: s.db.audits)
      ∧ states.Pairwise (fun s t => s.db.audits <+: t.db.audits) := by
  induction h with
  | nil w => exact ⟨fun _ hs => absurd hs List.not_mem_nil, .nil⟩
  | @cons w w' states actions run later ih =>
    have hfirst := audits_prefix_of_run run
    refine ⟨List.forall_mem_cons.mpr ⟨hfirst, fun s hs => hfirst.trans (ih.1 s hs)⟩, ?_⟩
    exact .cons ih.1 ih.2

/-- The events of an organization are more in a longer log. -/
theorem eventsOf_subperm {s s' : Database} (h : s.audits <+: s'.audits) (organizationId : UUID) :
    s.eventsOf organizationId none <+~ s'.eventsOf organizationId none :=
  (h.sublist.filter _).subperm

/-! ## The walk -/

/-- **A walk through the audit log reads it all once**, whatever other requests of the
service commit between its pages: the events come latest first, each of them is
in the log when the last page is read and comes no more often than there; and
every event that was there before the first page is read, unless its time is that
of the last event of a page. -/
theorem audit_pages {w : UsageWorld} {views : List (List (View UsageDatabase Row Choice))}
    (hmoments : usageService.Moments w (views.flatten.map View.state)) {principal : Principal}
    {organizationId : UUID} {limit : ℕ} {pages : List (List AuditEventRow)}
    (hwalk : AuditWalk principal organizationId limit none
      (views.map (List.map (View.part UsageDatabase.db))) pages) :
    pages.flatten.Pairwise (fun event later => later.createdAt ≤ event.createdAt)
      ∧ (∀ v ∈ views.flatten.getLast?,
        pages.flatten <+~ v.state.db.eventsOf organizationId none)
      ∧ (w.committed.db.eventsOf organizationId none).filter
        (fun event => event.createdAt ∉ cuts AuditEventRow.createdAt pages) <+~ pages.flatten := by
  obtain ⟨logs, hpages, hlogs⟩ := hwalk.pageWalk
  obtain ⟨hgrows, hpairs⟩ := audits_prefix_of_moments hmoments
  have hread : ∀ log ∈ logs, ∃ v ∈ views.flatten,
      log = v.state.db.eventsOf organizationId none := by
    intro log hlog
    obtain ⟨part, hpart, rfl⟩ := hlogs log hlog
    rw [← List.map_flatten] at hpart
    obtain ⟨v, hv, rfl⟩ := List.mem_map.mp hpart
    exact ⟨v, hv, rfl⟩
  refine ⟨hpages.sorted.1, fun last hlast => ?_, ?_⟩
  · obtain ⟨init, hinit⟩ := List.getLast?_eq_some_iff.mp hlast
    have hfinal : ∀ log ∈ logs, log <+~ last.state.db.eventsOf organizationId none := by
      intro log hlog
      obtain ⟨v, hv, rfl⟩ := hread log hlog
      rw [hinit, List.map_append] at hpairs
      rw [hinit] at hv
      rcases List.mem_append.mp hv with hv | hv
      · have hall := (List.pairwise_append.mp hpairs).2.2
        exact eventsOf_subperm (hall _ (List.mem_map_of_mem hv) _ List.mem_cons_self) _
      · rw [List.mem_singleton.mp hv]
    exact (hpages.subperm hfinal).trans List.filter_sublist.subperm
  · have hfirst : ∀ log ∈ logs, w.committed.db.eventsOf organizationId none <+~ log := by
      intro log hlog
      obtain ⟨v, hv, rfl⟩ := hread log hlog
      exact eventsOf_subperm (hgrows _ (List.mem_map_of_mem hv)) _
    have hcomplete := hpages.complete hfirst
    rwa [← eventsOf_eq] at hcomplete

/-! ## A sample walk -/

/-- The clock shows the number of the identifiers. -/
def clocked : Action Choice UsageRequest → Action Choice UsageRequest
  | .advance id choice => .advance id { choice with now := Fin.ofNat _ (choice.ids 0).int }
  | action => action

/-- What a statement sees in a state at rest. -/
def restingView (w : UsageWorld) : View UsageDatabase Row Choice :=
  ⟨w.committed, [], sampleChoice 0⟩

/-- A page of two events of the sample organization. -/
def samplePage (w : UsageWorld) (before : Option Instant) : Option (List AuditEventRow) :=
  match (listAuditEvents sampleUser ⟨10⟩ 2 before).observe
    (List.replicate 2 ((restingView w).part UsageDatabase.db)) with
  | some (.ok page) => some page
  | _ => none

theorem observe_of_samplePage {w : UsageWorld} {before : Option Instant}
    {page : List AuditEventRow} (h : samplePage w before = some page) :
    (listAuditEvents sampleUser ⟨10⟩ 2 before).observe
      ((List.replicate 2 (restingView w)).map (View.part UsageDatabase.db))
      = some (.ok page) := by
  unfold samplePage at h
  split at h
  · rename_i hread
    cases h
    rw [List.map_replicate]
    exact hread
  · cases h

/-- The events of the sample flag and of its key, two by two; the key is revoked after the first
page. -/
theorem audit_pages_sample : ∃ (w w' : UsageWorld)
    (views : List (List (View UsageDatabase Row Choice))) (pages : List (List AuditEventRow)),
    usageService.run usageInitial (flagAndKey.map clocked) = some w
    ∧ usageService.run w ((sampleRevocation 5 70 4).map clocked) = some w'
    ∧ usageService.Moments w (views.flatten.map View.state)
    ∧ AuditWalk sampleUser ⟨10⟩ 2 none (views.map (List.map (View.part UsageDatabase.db))) pages
    ∧ w'.committed.db.audits.map AuditEventRow.action = w.committed.db.audits.map
      AuditEventRow.action ++ ["api_key.revoked"]
    ∧ pages.map (fun page => page.map AuditEventRow.createdAt) = [[60, 40], [30, 20], [10]]
    ∧ pages.flatten.Pairwise (fun event later => later.createdAt ≤ event.createdAt)
    ∧ (∀ v ∈ views.flatten.getLast?, pages.flatten <+~ v.state.db.eventsOf ⟨10⟩ none)
    ∧ (w.committed.db.eventsOf ⟨10⟩ none).filter
      (fun event => event.createdAt ∉ cuts AuditEventRow.createdAt pages) <+~ pages.flatten := by
  have hfacts : (usageService.run usageInitial (flagAndKey.map clocked)).any (fun w =>
      (usageService.run w ((sampleRevocation 5 70 4).map clocked)).any (fun w' =>
        decide (w'.committed.db.audits.map AuditEventRow.action = w.committed.db.audits.map
          AuditEventRow.action ++ ["api_key.revoked"])
        && (samplePage w none).any (fun first => (samplePage w' (some 40)).any (fun second =>
          decide (first.map AuditEventRow.createdAt = [60, 40])
          && decide (second.map AuditEventRow.createdAt = [30, 20])
          && (samplePage w' (some 20)).any (fun third =>
            decide (third.map AuditEventRow.createdAt = [10])))))) = true := by
    decide +kernel
  obtain ⟨w, hrun, hfacts⟩ := (Option.any_eq_true _ _).mp hfacts
  obtain ⟨w', hrun', hfacts⟩ := (Option.any_eq_true _ _).mp hfacts
  obtain ⟨haudits, hfacts⟩ := Bool.and_eq_true_iff.mp hfacts
  obtain ⟨first, hfirst, hfacts⟩ := (Option.any_eq_true _ _).mp hfacts
  obtain ⟨second, hsecond, hfacts⟩ := (Option.any_eq_true _ _).mp hfacts
  obtain ⟨hfacts, hthird⟩ := Bool.and_eq_true_iff.mp hfacts
  obtain ⟨htimes, htimes'⟩ := Bool.and_eq_true_iff.mp hfacts
  obtain ⟨third, hthird, hlength⟩ := (Option.any_eq_true _ _).mp hthird
  have htimes := of_decide_eq_true htimes
  have htimes' := of_decide_eq_true htimes'
  have hlength := of_decide_eq_true hlength
  -- the times of the last events of the pages
  have hlast : first.getLast?.map AuditEventRow.createdAt = some 40 := by
    rw [← List.getLast?_map, htimes]
    rfl
  have hlast' : second.getLast?.map AuditEventRow.createdAt = some 20 := by
    rw [← List.getLast?_map, htimes']
    rfl
  obtain ⟨event, hevent, htime⟩ := Option.map_eq_some_iff.mp hlast
  obtain ⟨event', hevent', htime'⟩ := Option.map_eq_some_iff.mp hlast'
  have hshort : third.length < 2 := by
    rw [← List.length_map AuditEventRow.createdAt, hlength]
    decide
  have hwalk : AuditWalk sampleUser ⟨10⟩ 2 none
      ([List.replicate 2 (restingView w), List.replicate 2 (restingView w'),
        List.replicate 2 (restingView w')].map (List.map (View.part UsageDatabase.db)))
      [first, second, third] :=
    .next (observe_of_samplePage hfirst) hevent
      (.next (observe_of_samplePage (htime ▸ hsecond)) hevent'
        (.last (observe_of_samplePage (htime' ▸ hthird)) hshort))
  have hmoments : usageService.Moments w ([List.replicate 2 (restingView w),
      List.replicate 2 (restingView w'), List.replicate 2 (restingView w')].flatten.map
        View.state) := by
    have hstay : ∀ v : UsageWorld, usageService.run v [] = some v := fun _ => rfl
    exact .cons (hstay w) (.cons (hstay w) (.cons hrun' (.cons (hstay w') (.cons (hstay w')
      (.cons (hstay w') (.nil w'))))))
  refine ⟨w, w', _, _, hrun, hrun', hmoments, hwalk, of_decide_eq_true haudits, ?_,
    audit_pages hmoments hwalk⟩
  rw [List.map_cons, List.map_cons, List.map_cons, htimes, htimes', hlength]
  rfl

end CohortSwitch
