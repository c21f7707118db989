import CohortSwitch.Revisions
import CohortSwitch.Runs

/-!
# Published revisions

After the commit of a write `invalidate_and_publish` is given a revision of the
environment: one more than the session read before the write. The statement of
the write increments what is committed at that time, so what is published need not
be what the transaction committed, nor need two writes publish different revisions.
A batch of the scheduler publishes one revision for each of its changes, and these
are of different environments.

`published_revisions` says when both are so: every transaction that assigns a
revision still finds committed what it read, and assigns it once. Where two
replacements of different flags have read the same revision, both publish the
next one (`published_twice`).

## How it is proved

What a transaction publishes is what it assigns (`published_eq_assigned`), so the
claim is about the statements of a commit. If they were made from what is
committed, then a revision ends one above (`hasRevision_of_assigned`) and no other
one goes down (`le_revision_of_assignsNext`). `PublishesUpwards` is the invariant that
follows for runs: the revisions that were published for an environment go up, and none
is above the committed one, so the next one is new.
-/

namespace CohortSwitch

/-! ## What is published -/

/-- The revision of an environment a notification carries. -/
def Notification.revision? (id : UUID) (n : Notification) : Option ℕ :=
  if n.environmentId = id then some n.revision else none

/-- **The revisions of an environment that a commit publishes.** -/
def Outcome.published (id : UUID) (outcome : Outcome) : List ℕ :=
  outcome.notifications.filterMap (Notification.revision? id)

/-- The revisions of an environment that some commits publish, in order. -/
def publishedRevisions (id : UUID) (log : List (Request × Outcome)) : List ℕ :=
  log.flatMap (fun entry => entry.2.published id)

/-- The committed revision of an environment. -/
def Database.HasRevision (s : Database) (id : UUID) (revision : ℕ) : Prop :=
  ∃ row ∈ s.environments, row.id = id ∧ row.revision = revision

/-- Lists that correspond have corresponding parts. -/
theorem filterMap_eq_of_forall₂ {α β γ : Type} {R : α → β → Prop} {f : α → Option γ}
    {g : β → Option γ} (hfg : ∀ a b, R a b → f a = g b) {xs : List α} {ys : List β}
    (h : List.Forall₂ R xs ys) : xs.filterMap f = ys.filterMap g := by
  induction h with
  | nil => rfl
  | cons hab _ ih => rw [List.filterMap_cons, List.filterMap_cons, hfg _ _ hab, ih]

section Effects

variable {s : Database} {locks : List Row} {effect : Effect} (id : UUID)

/-- **A transaction publishes the revisions it assigns.** -/
theorem published_eq_assigned (hfits : effect.Fits s locks) {outcome : Outcome}
    (hreturns : effect.Returns outcome) :
    outcome.published id = assignedRevisions id effect.writes := by
  cases effect with
  | rounds rs =>
    show _ = assignedRevisions id (roundWrites rs)
    rw [assigned_rounds]
    refine (filterMap_eq_of_forall₂ (fun u n hn => ?_) hreturns.2).symm
    show Update.assigned? id u = Notification.revision? id n
    unfold Update.assigned? Notification.revision?
    rw [hn.environmentId, hn.revision]
  | creation k =>
    obtain ⟨r, n, rfl, -, -, -, -, henvironment, -, -, hrevision, -⟩ := hreturns
    show [n].filterMap _ = assignedRevisions id k.writes
    rw [assigned_creation]
    unfold Notification.revision?
    rw [List.filterMap_cons, List.filterMap_nil, henvironment, hrevision]
    split <;> rename_i h
    · rw [h]
      rfl
    · rw [h]
      rfl
  | archiving a =>
    show _ = assignedRevisions id a.writes
    rw [assigned_archiving]
    refine (filterMap_eq_of_forall₂ (fun item n hn => ?_) hreturns.2).symm
    obtain ⟨-, henvironment, -, -, hrevision, -⟩ := hn
    show _ = Notification.revision? id n
    unfold Notification.revision?
    rw [henvironment, hrevision]
  | plain ws =>
    show _ = assignedRevisions id ws
    rw [assigned_plain id hfits]
    show outcome.notifications.filterMap _ = []
    rw [hreturns.2]
    rfl

/-- The environment whose revision is assigned is known. -/
theorem exists_environment_of_assigned (hfits : effect.Fits s locks) {revision : ℕ}
    (h : revision ∈ assignedRevisions id effect.writes) :
    ∃ row ∈ s.environments, row.id = id := by
  have hknown : ∀ {environment : EnvironmentRow}, s.KnowsEnvironment environment →
      environment.id = id → ∃ row ∈ s.environments, row.id = id := by
    intro environment hknows hid
    obtain ⟨row, hrow, heq⟩ := List.mem_map.mp hknows
    exact ⟨row, hrow, (congrArg EnvironmentRow.Identity.id heq).trans hid⟩
  cases effect with
  | rounds rs =>
    change revision ∈ assignedRevisions id (roundWrites rs) at h
    rw [assigned_rounds] at h
    obtain ⟨u, hu, hassigned⟩ := List.mem_filterMap.mp h
    unfold Update.assigned? at hassigned
    split at hassigned
    · rename_i hid
      exact hknown (hfits.known u hu).environmentKnown hid
    · cases hassigned
  | creation k =>
    change revision ∈ assignedRevisions id k.writes at h
    rw [assigned_creation] at h
    split at h
    · rename_i hid
      exact hknown hfits.environmentKnown hid
    · cases h
  | archiving a =>
    change revision ∈ assignedRevisions id a.writes at h
    rw [assigned_archiving] at h
    obtain ⟨item, hitem, hassigned⟩ := List.mem_filterMap.mp h
    split at hassigned
    · rename_i hid
      exact hknown (hfits.environmentsKnown item hitem) hid
    · cases hassigned
  | plain ws =>
    change revision ∈ assignedRevisions id ws at h
    rw [assigned_plain id hfits] at h
    cases h

/-- Where nothing is incremented the last assignment stays. -/
theorem foldl_revisionAfter_getLast? {writes : List Write}
    (h : .environment (.increment id) ∉ writes) (revision : ℕ) :
    writes.foldl (Write.revisionAfter id) revision
      = (assignedRevisions id writes).getLast?.getD revision := by
  induction writes generalizing revision with
  | nil => rfl
  | cons w writes ih =>
    have hrest := ih (fun hm => h (List.mem_cons_of_mem w hm)) (w.revisionAfter id revision)
    rw [List.foldl_cons, hrest]
    have hother : w.assigned? id = none → w.revisionAfter id revision = revision →
        (assignedRevisions id writes).getLast?.getD (w.revisionAfter id revision)
          = (assignedRevisions id (w :: writes)).getLast?.getD revision := by
      intro hnone hsame
      have hlist : assignedRevisions id (w :: writes) = assignedRevisions id writes :=
        List.filterMap_cons_none hnone
      rw [hlist, hsame]
    cases w with
    | environment op =>
      cases op with
      | insert row => exact hother rfl rfl
      | increment id' =>
        refine hother rfl (if_neg ?_)
        rintro rfl
        exact h List.mem_cons_self
      | setRevision id' revision' =>
        by_cases hid : id' = id
        · have hsome : assignedRevisions id (.environment (.setRevision id' revision') :: writes)
              = revision' :: assignedRevisions id writes :=
            List.filterMap_cons_some (if_pos hid)
          have hafter : Write.revisionAfter id revision (.environment (.setRevision id' revision'))
              = revision' := if_pos hid
          rw [hsome, hafter, List.getLast?_cons]
          rfl
        · exact hother (if_neg hid) (if_neg hid)
    | _ => exact hother rfl rfl

/-- **A revision ends as it was assigned last**: the statements that increment it
come before. -/
theorem revision_of_assigned (hfits : effect.Fits s locks) {revision assigned : ℕ}
    (h : (assignedRevisions id effect.writes).getLast? = some assigned) :
    effect.writes.foldl (Write.revisionAfter id) revision = assigned := by
  have hplain : .environment (.increment id) ∉ effect.writes →
      effect.writes.foldl (Write.revisionAfter id) revision = assigned := by
    intro hnone
    rw [foldl_revisionAfter_getLast? id hnone, h]
    rfl
  cases effect with
  | rounds rs =>
    show (rs.flatMap Round.statements ++ rs.flatMap Round.pending).foldl _ _ = _
    rw [List.foldl_append, foldl_revisionAfter_getLast?]
    · have hassigned : assignedRevisions id (roundWrites rs)
          = assignedRevisions id (rs.flatMap Round.statements)
            ++ assignedRevisions id (rs.flatMap Round.pending) := List.filterMap_append
      rw [assigned_statements, List.nil_append] at hassigned
      rw [← hassigned]
      show (assignedRevisions id (Effect.rounds rs).writes).getLast?.getD _ = _
      rw [h]
      rfl
    · intro hm
      obtain ⟨r, -, hm⟩ := List.mem_flatMap.mp hm
      simp [Round.pending, Update.pending, updatePending, recordAudit] at hm
  | creation k => exact hplain (by simp [Effect.writes, Creation.writes])
  | archiving a => exact hplain (by simp [Effect.writes, Archiving.writes])
  | plain ws => exact hplain (fun hm => absurd (hfits _ hm) (by simp [Write.isPlain]))

end Effects

/-! ## Commits that find what they read -/

/-- **The transaction assigns each revision once**, one more than the committed one:
what its session read is still committed. -/
def AssignsNext (writes : List Write) (s : Database) : Prop :=
  ReadsCurrent writes s
    ∧ ∀ environment ∈ s.environments, (assignedRevisions environment.id writes).length ≤ 1

instance (writes : List Write) (s : Database) : Decidable (AssignsNext writes s) :=
  inferInstanceAs (Decidable (_ ∧ _))

section Commit

variable {s : Database} {locks : List Row} {effect : Effect} {id : UUID}

/-- What such a transaction assigns to the revision of an environment. -/
theorem assigned_of_assignsNext (h : AssignsNext effect.writes s) {row : EnvironmentRow}
    (hrow : row ∈ s.environments) : assignedRevisions row.id effect.writes = []
      ∨ assignedRevisions row.id effect.writes = [row.revision + 1] := by
  have hfirst := h.1 row hrow
  have hlength := h.2 row hrow
  cases hassigned : assignedRevisions row.id effect.writes with
  | nil => exact Or.inl rfl
  | cons first rest =>
    rw [hassigned] at hfirst hlength
    have hrest : rest = [] := List.length_eq_zero_iff.mp (Nat.le_zero.mp (Nat.le_of_succ_le_succ
      hlength))
    have hnext : first = row.revision + 1 := hfirst first rfl
    rw [hrest, hnext]
    exact Or.inr rfl

/-- **It commits what it assigns.** -/
theorem hasRevision_of_assigned (hfits : effect.Fits s locks) (h : AssignsNext effect.writes s)
    {revision : ℕ} (hmem : revision ∈ assignedRevisions id effect.writes) :
    ∃ row ∈ s.environments, row.id = id ∧ revision = row.revision + 1
      ∧ assignedRevisions id effect.writes = [revision]
      ∧ (service.view effect.writes s).HasRevision id revision := by
  obtain ⟨row, hrow, rfl⟩ := exists_environment_of_assigned id hfits hmem
  rcases assigned_of_assignsNext h hrow with hnone | hone
  · rw [hnone] at hmem
    cases hmem
  · rw [hone, List.mem_singleton] at hmem
    rw [← hmem] at hone
    refine ⟨row, hrow, rfl, hmem, hone, ?_⟩
    obtain ⟨row', hrow', hid, hrevision⟩ := exists_revision_view s effect.writes hrow
    refine ⟨row', hrow', hid, ?_⟩
    rw [hrevision]
    exact revision_of_assigned row.id hfits (by rw [hone]; rfl)

/-- **No revision is lowered.** -/
theorem le_revision_of_assignsNext (hfits : effect.Fits s locks)
    (h : AssignsNext effect.writes s) {row : EnvironmentRow} (hrow : row ∈ s.environments) :
    ∃ row' ∈ (service.view effect.writes s).environments, row'.id = row.id
      ∧ row.revision ≤ row'.revision := by
  obtain ⟨row', hrow', hid, hrevision⟩ := exists_revision_view s effect.writes hrow
  refine ⟨row', hrow', hid, ?_⟩
  rcases assigned_of_assignsNext h hrow with hnone | hone
  · rw [hrevision]
    refine le_foldl_revisionAfter (fun n hn => ?_) (Or.inr le_rfl)
    rw [hnone] at hn
    cases hn
  · have hafter : effect.writes.foldl (Write.revisionAfter row.id) row.revision
        = row.revision + 1 := revision_of_assigned row.id hfits (by rw [hone]; rfl)
    rw [hrevision, hafter]
    exact Nat.le_succ _

end Commit

/-! ## Runs -/

/-- **What a step of the service does** to the committed state and to the log. -/
theorem logged_step {w w' : ServiceWorld} {action : Action Choice Request}
    (hgood : w.Good discipline History (fun _ => Commits))
    (hstep : service.step w action = some w') :
    (w'.committed = w.committed ∧ w'.log = w.log)
      ∨ ∃ id tx effect locks outcome, action = .commit id ∧ w.running? id = some tx
        ∧ tx.writes = Effect.writes effect ∧ effect.Fits w.committed locks
        ∧ effect.Returns outcome ∧ w'.log = w.log ++ [(tx.request, outcome)]
        ∧ w'.committed = service.view effect.writes w.committed := by
  cases action with
  | start request =>
    cases hstep
    exact Or.inl ⟨rfl, rfl⟩
  | abort id =>
    cases hstep
    exact Or.inl ⟨rfl, rfl⟩
  | advance id choice =>
    obtain ⟨tx, locks, writes, next, view, -, -, -, -, rfl⟩ := service.advance_eq_some hstep
    exact Or.inl ⟨rfl, rfl⟩
  | commit id =>
    obtain ⟨tx, result, htx, hprog, -, rfl⟩ := service.commit_eq_some hstep
    obtain ⟨s, hrely, effect, hwrites, hfits, hreturns⟩ := hgood.of_running htx hprog
    exact Or.inr ⟨id, tx, effect, tx.locks, result, rfl, htx, hwrites.symm, hfits.evolve hrely,
      hreturns, rfl, by rw [hwrites]⟩

/-- **What is published since some commits only grows**, and is committed or was
before. -/
structure PublishesUpwards (since : ℕ) (w : ServiceWorld) : Prop where
  /-- The commits are some of the log. -/
  since_le : since ≤ w.log.length
  /-- The revisions of an environment go up. -/
  upwards : ∀ id, (publishedRevisions id (w.log.drop since)).Pairwise (· < ·)
  /-- And none is above the committed one. -/
  reached : ∀ id, ∀ revision ∈ publishedRevisions id (w.log.drop since),
    ∃ row ∈ w.committed.environments, row.id = id ∧ revision ≤ row.revision

/-- **A step keeps it**, if what it commits is assigned to what was read. -/
theorem PublishesUpwards.step {since : ℕ} {w w' : ServiceWorld} {action : Action Choice Request}
    (h : PublishesUpwards since w) (hgood : w.Good discipline History (fun _ => Commits))
    (hmeets : ∀ id tx, action = .commit id → w.running? id = some tx →
      AssignsNext tx.writes w.committed)
    (hstep : service.step w action = some w') : PublishesUpwards since w' := by
  rcases logged_step hgood hstep with ⟨hcommitted, hlog⟩ | ⟨id, tx, effect, locks, outcome, rfl,
    htx, hwrites, hfits, hreturns, hlog, hcommitted⟩
  · refine ⟨hlog ▸ h.since_le, fun id => ?_, fun id => ?_⟩
    · rw [hlog]
      exact h.upwards id
    · rw [hlog, hcommitted]
      exact h.reached id
  have hnext := hmeets id tx rfl htx
  rw [hwrites] at hnext
  have hpublished : ∀ id, publishedRevisions id (w'.log.drop since)
      = publishedRevisions id (w.log.drop since) ++ assignedRevisions id effect.writes := by
    intro id
    rw [hlog, List.drop_append_of_le_length h.since_le, ← published_eq_assigned id hfits hreturns]
    unfold publishedRevisions
    rw [List.flatMap_append, List.flatMap_singleton]
  refine ⟨?_, fun id => ?_, fun id revision hrevision => ?_⟩
  · rw [hlog, List.length_append]
    exact le_trans h.since_le (Nat.le_add_right _ _)
  · rw [hpublished, List.pairwise_append]
    refine ⟨h.upwards id, ?_, fun old hold new hnew => ?_⟩
    · cases hassigned : assignedRevisions id effect.writes with
      | nil => exact .nil
      | cons first rest =>
        obtain ⟨_, -, -, -, hone, -⟩ :=
          hasRevision_of_assigned hfits hnext (hassigned ▸ List.mem_cons_self)
        rw [← hassigned, hone]
        exact List.pairwise_singleton _ _
    · -- what was published before is no more than what is committed now
      obtain ⟨row, hrow, hid, hle⟩ := h.reached id old hold
      obtain ⟨row', hrow', hid', hsucc, -⟩ := hasRevision_of_assigned hfits hnext hnew
      have hsame := List.inj_on_of_nodup_map hgood.invariant.consistent.keys.environmentIds hrow
        hrow' (hid.trans hid'.symm)
      rw [hsucc, ← hsame]
      exact Nat.lt_succ_of_le hle
  · rw [hcommitted]
    rw [hpublished] at hrevision
    rcases List.mem_append.mp hrevision with hold | hnew
    · obtain ⟨row, hrow, hid, hle⟩ := h.reached id revision hold
      obtain ⟨row', hrow', hid', hle'⟩ := le_revision_of_assignsNext hfits hnext hrow
      exact ⟨row', hrow', hid'.trans hid, le_trans hle hle'⟩
    · obtain ⟨_, -, -, -, -, row', hrow', hid', hsame⟩ :=
        hasRevision_of_assigned hfits hnext hnew
      exact ⟨row', hrow', hid', hsame.ge⟩

/-- **A run keeps it.** -/
theorem PublishesUpwards.run {since : ℕ} {w w' : ServiceWorld}
    {actions : List (Action Choice Request)} (h : PublishesUpwards since w)
    (hgood : w.Good discipline History (fun _ => Commits))
    (hmeets : service.CommitsMeet (fun _ => AssignsNext) w actions)
    (hrun : service.run w actions = some w') : PublishesUpwards since w' := by
  induction actions generalizing w with
  | nil =>
    cases hrun
    exact h
  | cons action rest ih =>
    obtain ⟨w₁, hstep, hrest⟩ := Option.bind_eq_some_iff.mp hrun
    have hgood₁ := (service_respects.step hgood (fun _ _ _ _ => trivial) hstep).1
    exact ih (h.step hgood hmeets.1 hstep) hgood₁ (hmeets.2 w₁ hstep) hrest

/-- **Published revisions are the stored ones**: a commit publishes the revision it
leaves, one more than the one it found, and no two publish the same one. -/
structure PublishesStored (w : ServiceWorld) (actions : List (Action Choice Request))
    (w' : ServiceWorld) : Prop where
  /-- A commit publishes the revision it leaves, one above the one it found. -/
  stored : ∀ earlier id later w₁ w₂ request outcome, actions = earlier ++ .commit id :: later →
    service.run w earlier = some w₁ → service.step w₁ (.commit id) = some w₂ →
    w₂.log = w₁.log ++ [(request, outcome)] → ∀ n ∈ outcome.notifications, ∃ revision,
      w₁.committed.HasRevision n.environmentId revision ∧ n.revision = revision + 1
        ∧ w₂.committed.HasRevision n.environmentId n.revision
  /-- No revision of an environment is published twice. -/
  distinct : ∀ environmentId,
    (publishedRevisions environmentId (w'.log.drop w.log.length)).Nodup

/-- **While every transaction finds what it read, published revisions are the stored
ones.** -/
theorem published_revisions {actions actions' : List (Action Choice Request)} {w w' : ServiceWorld}
    (hrun : service.run initial actions = some w) (hrun' : service.run w actions' = some w')
    (hmeets : service.CommitsMeet (fun _ => AssignsNext) w actions') :
    PublishesStored w actions' w' where
  stored := by
    intro earlier id later w₁ w₂ request outcome hactions hearlier hstep hlog n hn
    have hgood := good_of_run (System.run_append service initial actions earlier ▸ by
      rw [hrun]; exact hearlier : service.run initial (actions ++ earlier) = some w₁)
    rw [hactions] at hmeets
    have hlater := hmeets.later hearlier
    rcases logged_step hgood hstep with ⟨-, hsame⟩ | ⟨id', tx, effect, locks, outcome', heq, htx,
      hwrites, hfits, hreturns, hlog', hcommitted⟩
    · rw [hsame] at hlog
      exact absurd (List.self_eq_append_right.mp hlog) (List.cons_ne_nil _ _)
    cases heq
    have hnext := hlater.1 id tx rfl htx
    rw [hwrites] at hnext
    have hsame : (request, outcome) = (tx.request, outcome') :=
      List.singleton_inj.mp (List.append_cancel_left (hlog.symm.trans hlog'))
    have hassigned : n.revision ∈ assignedRevisions n.environmentId effect.writes := by
      rw [← published_eq_assigned n.environmentId hfits hreturns,
        ← show outcome = outcome' from congrArg Prod.snd hsame]
      exact List.mem_filterMap.mpr ⟨n, hn, if_pos rfl⟩
    obtain ⟨row, hrow, hid, hsucc, -, hafter⟩ := hasRevision_of_assigned hfits hnext hassigned
    rw [hcommitted]
    exact ⟨row.revision, ⟨row, hrow, hid, rfl⟩, hsucc, hafter⟩
  distinct := by
    intro environmentId
    have hstart : PublishesUpwards w.log.length w := by
      refine ⟨le_rfl, fun id => ?_, fun id revision h => ?_⟩
      · rw [List.drop_length]
        exact .nil
      · rw [List.drop_length] at h
        cases h
    have hupwards := hstart.run (good_of_run hrun) hmeets hrun'
    exact (hupwards.upwards environmentId).imp Nat.ne_of_lt

theorem published_revisions_sample : ∃ w w', service.run initial sampleFlag = some w
    ∧ service.run w sampleReplacement = some w'
    ∧ publishedRevisions ⟨30⟩ (w'.log.drop w.log.length) = [2]
    ∧ PublishesStored w sampleReplacement w' := by
  have hfacts : (service.run initial sampleFlag).any (fun w =>
      service.checkCommits (fun _ writes s => decide (AssignsNext writes s)) w sampleReplacement
        && (service.run w sampleReplacement).any (fun w' =>
          decide (publishedRevisions ⟨30⟩ (w'.log.drop w.log.length) = [2]))) = true := by
    decide +kernel
  obtain ⟨w, hrun, hfacts⟩ := (Option.any_eq_true _ _).mp hfacts
  obtain ⟨hcheck, hfacts⟩ := Bool.and_eq_true_iff.mp hfacts
  obtain ⟨w', hrun', hpublished⟩ := (Option.any_eq_true _ _).mp hfacts
  exact ⟨w, w', hrun, hrun', of_decide_eq_true hpublished,
    published_revisions hrun hrun' (System.commitsMeet_of_check service hcheck)⟩

/-! ## One revision published twice -/

/-- The sample flag and another one of its environment. -/
def twoFlags : List (Action Choice Request) :=
  sampleFlag
  ++ alone 4 60 12
    (.createFeatureFlag sampleUser none ⟨20⟩ (sampleCreate "footer" isFlagKey_footer))

/-- A replacement of each flag: the second one has read the environment when the first
one commits. -/
def overlapping : List (Action Choice Request) :=
  [.start (.replaceFlagConfiguration sampleUser none ⟨40⟩
      (sampleUpdate sampleContent 1 Nat.one_pos)),
    .start (.replaceFlagConfiguration sampleUser none ⟨60⟩
      (sampleUpdate sampleContent 1 Nat.one_pos))]
  ++ advances 6 80 6 ++ advances 5 70 15 ++ [.commit 5] ++ advances 6 80 9 ++ [.commit 6]

/-- **Two replacements publish one revision**: both have read revision 2. -/
theorem published_twice : ∃ w w', service.run initial twoFlags = some w
    ∧ service.run w overlapping = some w'
    ∧ publishedRevisions ⟨30⟩ (w'.log.drop w.log.length) = [3, 3]
    ∧ ¬ PublishesStored w overlapping w' := by
  have hfacts : (service.run initial twoFlags).any (fun w =>
      (service.run w overlapping).any (fun w' =>
        decide (publishedRevisions ⟨30⟩ (w'.log.drop w.log.length) = [3, 3]))) = true := by
    decide +kernel
  obtain ⟨w, hrun, hfacts⟩ := (Option.any_eq_true _ _).mp hfacts
  obtain ⟨w', hrun', hpublished⟩ := (Option.any_eq_true _ _).mp hfacts
  refine ⟨w, w', hrun, hrun', of_decide_eq_true hpublished, fun h => ?_⟩
  have hdistinct := h.distinct ⟨30⟩
  rw [of_decide_eq_true hpublished] at hdistinct
  exact absurd hdistinct (by decide)

end CohortSwitch
