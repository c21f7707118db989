import CohortSwitch.BatchOutcome

/-!
# The loop of the scheduler

A worker calls `apply_due_changes` again and again. One call takes at most twenty changes
and commits only if they can be applied and are of different environments, so the changes
of a configuration are spread over many calls, with calls that were rolled back between. What
the calls have done together is nevertheless what the changes mean one after the other, in
the order of their activation: `loop_in_turn`. Each call that commits takes twenty changes
off those that were due, or all there are.

A change that cannot be applied, once it is among the first twenty, stops the loop for good:
`loop_stalls`. Two changes of one environment that fall due together do so, too, for as
long as both are among the first twenty.

## How the calls are put together

`Database.AppliedByCalls` compares the state before some calls with the state after them and
the batches between. It says more than that the changes were applied in turn, so that two
stretches of calls can be joined (`Database.AppliedByCalls.append`): what is due later was due
before and has not been taken, and what was taken is no later than what is left. From these
the changes of later batches come later, and the order of activation is kept across the
batches as well as within one.

A call that is rolled back leaves the committed state as it was (`committed_of_broken`), at
whatever statement it broke off, so it counts as an iteration without a batch.
-/

namespace CohortSwitch

/-! ## Changes of a configuration, a few at a time -/

section Rearranged

variable {R : Json → Json → Prop} {P : List ProgressiveStage → List ProgressiveStage → Prop}

/-- Rearrangements compose. -/
theorem ConfigurationFields.Rearranged.trans (hR : ∀ a b c, R a b → R b c → R a c)
    (hP : ∀ a b c, P a b → P b c → P a c) {c d e : ConfigurationFields} (h : c.Rearranged R P d)
    (h' : d.Rearranged R P e) : c.Rearranged R P e := by
  have hconditions : ∀ {xs ys zs : List Condition}, PermBy (Condition.Same R) xs ys →
      PermBy (Condition.Same R) ys zs → PermBy (Condition.Same R) xs zs := by
    intro xs ys zs hxy hyz
    refine (hxy.trans hyz).mono ?_
    rintro x z ⟨y, h₁, h₂⟩
    exact ⟨h₁.attributeName.trans h₂.attributeName, h₁.operator.trans h₂.operator,
      hR _ _ _ h₁.value h₂.value⟩
  have hrules : PermBy (TargetingRule.Rearranged R P) c.rules e.rules := by
    refine (h.rules.trans h'.rules).mono ?_
    rintro x z ⟨y, h₁, h₂⟩
    exact ⟨h₁.name.trans h₂.name, h₁.priority.trans h₂.priority,
      hconditions h₁.conditions h₂.conditions, h₁.variation.trans h₂.variation,
      h₁.rollout.trans h₂.rollout, hP _ _ _ h₁.progressiveStages h₂.progressiveStages⟩
  have hvariations : PermBy (fun a b => a.1 = b.1 ∧ R a.2 b.2) c.variations.items
      e.variations.items := by
    refine (h.variations.trans h'.variations).mono ?_
    rintro x z ⟨y, h₁, h₂⟩
    exact ⟨h₁.1.trans h₂.1, hR _ _ _ h₁.2 h₂.2⟩
  exact ⟨⟨h.projectId.trans h'.projectId, h.environmentId.trans h'.environmentId,
    h.environmentKey.trans h'.environmentKey, h.flagId.trans h'.flagId,
    h.flagKey.trans h'.flagKey, h.flagType.trans h'.flagType, h.enabled.trans h'.enabled,
    h.defaultVariation.trans h'.defaultVariation, hvariations, h.salt.trans h'.salt, hrules,
    h.rollout.trans h'.rollout, hP _ _ _ h.progressiveStages h'.progressiveStages⟩,
    h.configVersion.trans h'.configVersion⟩

/-- A change means the same for a rearranged configuration. -/
theorem Meaning.result_rearranged (hP : ∀ stages, P stages stages) (m : Meaning)
    {c d : ConfigurationFields} (h : c.Rearranged R P d) (version : ℕ) :
    (m.result c version).Rearranged R P (m.result d version) := by
  cases m with
  | enabled value => exact { h with enabled := rfl, configVersion := rfl }
  | variation name =>
    exact { h with defaultVariation := rfl, rollout := rfl, progressiveStages := hP []
                   configVersion := rfl }
  | rollout percentage name fallback range =>
    exact { h with rollout := rfl, progressiveStages := hP [], configVersion := rfl }

end Rearranged

section InTurn

variable {s s₁ s₂ : Database} {changes more : List ScheduledChangeRow}

/-- And so does a change that is applied, -/
theorem applyTo_rearranged {change : ScheduledChangeRow} {c d e : ConfigurationFields}
    (h : c.Rearranged Eq List.Perm d) (happly : change.applyTo d = some e) :
    ∃ e', change.applyTo c = some e' ∧ e'.Rearranged Eq List.Perm e := by
  obtain ⟨m, hm, hnames, rfl⟩ := applyTo_eq_some.mp happly
  refine ⟨m.result c (c.configVersion + 1), applyTo_eq_some.mpr ⟨m, hm, fun name hname => ?_, rfl⟩,
    ?_⟩
  · exact h.keys_perm.mem_iff.mpr (hnames name hname)
  · rw [h.configVersion]
    exact m.result_rearranged (fun _ => .refl _) h _

/-- or some in turn. -/
theorem applyInTurn_rearranged {c d e : ConfigurationFields} (h : c.Rearranged Eq List.Perm d)
    (happly : applyInTurn d changes = some e) :
    ∃ e', applyInTurn c changes = some e' ∧ e'.Rearranged Eq List.Perm e := by
  induction changes generalizing c d with
  | nil =>
    cases happly
    exact ⟨c, rfl, h⟩
  | cons change changes ih =>
    obtain ⟨d₁, hfirst, hrest⟩ := Option.bind_eq_some_iff.mp happly
    obtain ⟨c₁, hc₁, h₁⟩ := applyTo_rearranged h hfirst
    obtain ⟨e', he', hlast⟩ := ih h₁ hrest
    exact ⟨e', Option.bind_eq_some_iff.mpr ⟨c₁, hc₁, he'⟩, hlast⟩

/-- Some changes, and then some more. -/
theorem applyInTurn_append (c : ConfigurationFields) (changes more : List ScheduledChangeRow) :
    applyInTurn c (changes ++ more)
      = (applyInTurn c changes).bind (fun d => applyInTurn d more) :=
  List.foldlM_append

/-- The changes of one configuration among them. -/
theorem changesOf_append (configId : UUID) (changes more : List ScheduledChangeRow) :
    changesOf configId (changes ++ more) = changesOf configId changes ++ changesOf configId more :=
  List.filter_append ..

/-- Nothing is applied where there is no change. -/
theorem appliedInTurn_nil (s : Database) : s.AppliedInTurn s [] where
  marked := fun _ h => absurd h List.not_mem_nil
  configs := fun row hrow c hc => ⟨row, hrow, rfl, rfl, c.toConfigurationFields, c, rfl, hc,
    .refl (fun _ => rfl) (fun _ => .refl _) _⟩
  versions := fun _ _ => rfl

/-- **What is applied in turn in two parts** is applied in turn. -/
theorem Database.AppliedInTurn.append (hs : s.Settled) (h : s.AppliedInTurn s₁ changes)
    (h' : s₁.AppliedInTurn s₂ more) (hmarked : ∀ id, s₁.Applied id → s₂.Applied id) :
    s.AppliedInTurn s₂ (changes ++ more) where
  marked := by
    intro change hchange
    rcases List.mem_append.mp hchange with hold | hnew
    · exact hmarked _ (h.marked change hold)
    · exact h'.marked change hnew
  configs := by
    intro row hrow c hc
    obtain ⟨row₁, hrow₁, hidentity₁, hversion₁, e, d, he, hd, hed⟩ := h.configs row hrow c hc
    obtain ⟨row₂, hrow₂, hidentity₂, hversion₂, e₁, d₂, he₁, hd₂, hed₁⟩ :=
      h'.configs row₁ hrow₁ d hd
    have hid : row₁.id = row.id := congrArg FlagConfigRow.Identity.id hidentity₁
    rw [hid] at hversion₂ he₁
    obtain ⟨e₂, he₂, hed₂⟩ := applyInTurn_rearranged hed he₁
    have hboth : e₂.Rearranged Eq List.Perm d₂.toConfigurationFields :=
      ConfigurationFields.Rearranged.trans (R := Eq) (P := List.Perm) (fun _ _ _ => Eq.trans)
        (fun _ _ _ => List.Perm.trans) hed₂ hed₁
    refine ⟨row₂, hrow₂, hidentity₂.trans hidentity₁, ?_, e₂, d₂, ?_, hd₂, hboth⟩
    · rw [hversion₂, hversion₁, changesOf_append, List.length_append, Nat.add_assoc]
    · rw [changesOf_append, applyInTurn_append, he]
      exact he₂
  versions := by
    intro row hrow
    obtain ⟨c, hc, -⟩ := hs.current row hrow
    obtain ⟨row₁, hrow₁, hidentity, -⟩ := h.configs row hrow c hc
    have hid : row₁.id = row.id := congrArg FlagConfigRow.Identity.id hidentity
    have hlater := h'.versions row₁ hrow₁
    rw [hid] at hlater
    rw [hlater, h.versions row hrow, changesOf_append, List.length_append, Nat.add_assoc]

end InTurn

/-! ## What a call takes -/

section Taken

variable {s : Database} {choice : Choice} {a b : ScheduledChangeRow} {t : Instant}

/-- What is due. -/
theorem mem_due {now : Instant} : a ∈ s.due now ↔ a ∈ s.changes ∧ a.Due now := by
  unfold Database.due
  rw [List.mem_filter, decide_eq_true_eq]

/-- The changes come in the order of their activation. -/
theorem pairwise_dueChanges :
    (dueChanges ⟨s, [], choice⟩).Pairwise (fun a b => a.activateAt ≤ b.activateAt) := by
  rw [dueChanges_eq_take]
  exact (sortedBy_pairwise _ _).sublist (List.take_sublist _ _)

/-- What is left for later calls is activated later. -/
theorem activateAt_le_of_left (ha : a ∈ dueChanges ⟨s, [], choice⟩) (hb : b ∈ s.due choice.now)
    (hleft : b ∉ dueChanges ⟨s, [], choice⟩) : a.activateAt ≤ b.activateAt := by
  have hsorted := sortedBy_pairwise ScheduledChangeRow.activateAt
    (arrange choice.order (s.due choice.now))
  have hmem := sorted_due_perm.mem_iff.mpr hb
  rw [dueChanges_eq_take] at ha hleft
  rw [← List.take_append_drop 20 (sortedBy _ _)] at hmem hsorted
  have hlater := (List.mem_append.mp hmem).resolve_left hleft
  exact (List.pairwise_append.mp hsorted).2.2 a ha b hlater

/-- Of a sorted list the first items are the ones up to a bound, if there are so many. -/
theorem length_filter_drop {xs : List ScheduledChangeRow}
    (h : xs.Pairwise (fun a b => a.activateAt ≤ b.activateAt)) (n : ℕ) :
    ((xs.drop n).filter (fun a => a.activateAt ≤ t)).length
      = (xs.filter (fun a => a.activateAt ≤ t)).length - n := by
  induction xs generalizing n with
  | nil => simp
  | cons x xs ih =>
    obtain ⟨hfirst, hrest⟩ := List.pairwise_cons.mp h
    cases n with
    | zero => rfl
    | succ n =>
      rw [List.drop_succ_cons, ih hrest]
      by_cases hx : x.activateAt ≤ t
      · rw [List.filter_cons_of_pos (by simpa using hx), List.length_cons, Nat.add_sub_add_right]
      · have hnone : xs.filter (fun a => a.activateAt ≤ t) = [] :=
          List.filter_eq_nil_iff.mpr (fun a ha hle =>
            hx ((hfirst a ha).trans (of_decide_eq_true hle)))
        rw [List.filter_cons_of_neg (by simpa using hx), hnone, List.length_nil, Nat.zero_sub,
          Nat.zero_sub]

/-- **A call takes twenty changes** off those that were due at some time before, or all. -/
theorem length_due_left (hids : (s.changes.map ScheduledChangeRow.id).Nodup)
    (ht : t ≤ choice.now) : ((s.due t).filter (fun row =>
      row.id ∉ (dueChanges ⟨s, [], choice⟩).map ScheduledChangeRow.id)).length
        = (s.due t).length - 20 := by
  generalize hsorted : sortedBy ScheduledChangeRow.activateAt
    (arrange choice.order (s.due choice.now)) = sorted
  have hperm : sorted.Perm (s.due choice.now) := hsorted ▸ sorted_due_perm
  have hpairwise : sorted.Pairwise (fun a b => a.activateAt ≤ b.activateAt) :=
    hsorted ▸ sortedBy_pairwise _ _
  have htaken : dueChanges ⟨s, [], choice⟩ = sorted.take 20 := by
    rw [dueChanges_eq_take, hsorted]
  have hearlier : (s.due t).Perm (sorted.filter (fun row => row.activateAt ≤ t)) := by
    refine List.Perm.trans (.of_eq ?_) (hperm.symm.filter _)
    unfold Database.due
    rw [List.filter_filter]
    refine List.filter_congr (fun row _ => ?_)
    rw [← Bool.decide_and, decide_eq_decide]
    exact ⟨fun h => ⟨h.2, h.1, h.2.trans ht⟩, fun h => ⟨h.2.1, h.1⟩⟩
  -- all but those that are taken are the rest of the sorted list
  have hnodup : (sorted.map ScheduledChangeRow.id).Nodup :=
    (hperm.map _).nodup_iff.mpr (hids.sublist (List.filter_sublist.map _))
  have hrest : sorted.filter (fun row => row.id ∉ (sorted.take 20).map ScheduledChangeRow.id)
      = sorted.drop 20 := by
    rw [← List.take_append_drop 20 sorted, List.map_append, List.nodup_append] at hnodup
    conv_lhs => rw [← List.take_append_drop 20 sorted]
    rw [List.filter_append, List.take_append_drop, List.filter_eq_nil_iff.mpr,
      List.filter_eq_self.mpr, List.nil_append]
    · intro row hrow
      exact decide_eq_true (fun hmem => hnodup.2.2 _ hmem _ (List.mem_map_of_mem hrow) rfl)
    · intro row hrow hleft
      exact of_decide_eq_true hleft (List.mem_map_of_mem hrow)
  rw [(hearlier.filter _).length_eq, htaken, List.filter_filter, hearlier.length_eq,
    ← length_filter_drop hpairwise, ← hrest, List.filter_filter]
  exact congrArg List.length (List.filter_congr (fun row _ => Bool.and_comm _ _))

/-- Rounds mark the changes they apply. -/
theorem marks_rounds (rounds : List Round) :
    marks (roundWrites rounds) = rounds.flatMap (fun r => r.applied.toList.map Prod.fst) := by
  have hstatements : ∀ r : Round, r.statements.filterMap Write.mark? = [] := by
    intro r
    unfold Round.statements
    cases r.update <;> rfl
  have hpending : ∀ r : Round, r.pending.filterMap Write.mark?
      = r.applied.toList.map Prod.fst := by
    intro r
    unfold Round.pending
    rw [List.filterMap_append, List.filterMap_flatMap]
    cases r.applied <;> cases r.update with
    | none => rfl
    | some u =>
      show (u.pending ++ [_]).filterMap Write.mark? ++ [] ++ _ = _
      rw [List.filterMap_append, pending_filterMap Write.mark? u (fun _ => rfl)]
      rfl
  unfold marks roundWrites
  rw [List.filterMap_append, List.filterMap_flatMap, List.filterMap_flatMap]
  simp only [hstatements, hpending]
  rw [List.flatMap_eq_nil_iff.mpr (fun _ _ => rfl), List.nil_append]

theorem Batch.Follows.marks_eq {choices : ℕ → Choice} {changes : List ScheduledChangeRow}
    {batch : Batch} {rounds : List Round} {writes : List Write} {n : ℕ}
    (h : batch.Follows s choices changes rounds writes n) :
    CohortSwitch.marks (roundWrites rounds) = changes.map ScheduledChangeRow.id := by
  rw [marks_rounds]
  have hmarks := h.marks
  clear h
  induction hmarks with
  | nil => rfl
  | cons hround _ ih =>
    obtain ⟨u, at_, rfl, -⟩ := hround
    rw [List.flatMap_cons, List.map_cons, ih]
    rfl

end Taken

/-! ## The loop -/

/-- A call whose transaction is rolled back after some statements. -/
def brokenCall (choices : ℕ → Choice) (id n : ℕ) : List (Action Choice Request) :=
  .start .applyDueChanges :: (List.range' 0 n).map (fun i => .advance id (choices i))
    ++ [.abort id]

/-- **One iteration of the loop of `run`** with the batches it applies: the call commits what
it takes, or what it did is rolled back. -/
inductive Iterates (w : ServiceWorld) (choices : ℕ → Choice) :
    List (List ScheduledChangeRow) → ServiceWorld → Prop
  | applied {w' : ServiceWorld} (hcalls : Calls w choices w') :
    Iterates w choices [dueChanges ⟨w.committed, [], choices 0⟩] w'
  | rolledBack {w' : ServiceWorld} (n : ℕ)
    (hrun : service.run w (brokenCall choices w.next n) = some w') : Iterates w choices [] w'

/-- **Some iterations**, with nothing else under way. -/
inductive Loops : ServiceWorld → List (ℕ → Choice) → List (List ScheduledChangeRow) →
    ServiceWorld → Prop
  | nil (w : ServiceWorld) : Loops w [] [] w
  | cons {w w₁ w' : ServiceWorld} {choices : ℕ → Choice} {rest : List (ℕ → Choice)}
    {batches more : List (List ScheduledChangeRow)} (hfirst : Iterates w choices batches w₁)
    (hrest : Loops w₁ rest more w') : Loops w (choices :: rest) (batches ++ more) w'

/-- **What the calls have done together**: the changes of their batches are applied one after
the other, each once and in the order of activation, and none of those that are left comes
before them. Those of one batch are of different environments. -/
structure Database.AppliedByCalls (s s' : Database) (batches : List (List ScheduledChangeRow)) :
    Prop where
  /-- The changes were applied one after the other, -/
  inTurn : s.AppliedInTurn s' batches.flatten
  /-- in the order of activation, -/
  inOrder : batches.flatten.Pairwise (fun a b => a.activateAt ≤ b.activateAt)
  /-- each once. -/
  once : (batches.flatten.map ScheduledChangeRow.id).Nodup
  /-- They were there and not yet applied. -/
  taken : ∀ change ∈ batches.flatten, change ∈ s.changes ∧ change.appliedAt = none
  /-- What is due is what was due and was not taken, -/
  left : ∀ now, s'.due now
    = (s.due now).filter (fun row => row.id ∉ batches.flatten.map ScheduledChangeRow.id)
  /-- and it is activated no earlier. -/
  ahead : ∀ a ∈ batches.flatten, ∀ now, ∀ b ∈ s'.due now, a.activateAt ≤ b.activateAt
  /-- What was applied stays applied. -/
  stays : ∀ id, s.Applied id → s'.Applied id
  /-- Configurations stay in their environments. -/
  places : s'.environmentOf = s.environmentOf
  /-- The changes of one batch are of different environments. -/
  apart : ∀ batch ∈ batches, (batch.map s.environmentOf).Nodup

/-- Where the configurations keep their columns, the changes keep their environments. -/
theorem environmentOf_congr {s s' : Database}
    (h : s'.configs.map FlagConfigRow.identity = s.configs.map FlagConfigRow.identity) :
    s'.environmentOf = s.environmentOf := by
  have hidentity : ∀ (db : Database) change, db.environmentOf change
      = ((db.configs.map FlagConfigRow.identity).find? (fun row => row.id = change.configId)).map
        FlagConfigRow.Identity.environmentId := by
    intro db change
    unfold Database.environmentOf
    rw [List.find?_map, Option.map_map]
    rfl
  funext change
  rw [hidentity, hidentity, h]

section Append

variable {s s₁ s₂ : Database} {batches more : List (List ScheduledChangeRow)}

/-- Nothing is applied in no batch. -/
theorem appliedByCalls_nil (s : Database) : s.AppliedByCalls s [] where
  inTurn := appliedInTurn_nil s
  inOrder := .nil
  once := List.nodup_nil
  taken := fun _ h => absurd h List.not_mem_nil
  left := fun _ => (List.filter_eq_self.mpr (fun _ _ => decide_eq_true List.not_mem_nil)).symm
  ahead := fun _ h => absurd h List.not_mem_nil
  stays := fun _ h => h
  places := rfl
  apart := fun _ h => absurd h List.not_mem_nil

/-- What later calls take was due before, and no earlier one has taken it. -/
theorem Database.AppliedByCalls.due_of_taken (h : s.AppliedByCalls s₁ batches)
    (h' : s₁.AppliedByCalls s₂ more) {change : ScheduledChangeRow}
    (hchange : change ∈ more.flatten) :
    change ∈ s₁.due change.activateAt ∧ change ∈ s.due change.activateAt
      ∧ change.id ∉ batches.flatten.map ScheduledChangeRow.id := by
  have hdue : change ∈ s₁.due change.activateAt :=
    mem_due.mpr ⟨(h'.taken change hchange).1, (h'.taken change hchange).2, le_rfl⟩
  have hbefore := hdue
  rw [h.left] at hbefore
  obtain ⟨hold, hother⟩ := List.mem_filter.mp hbefore
  exact ⟨hdue, hold, of_decide_eq_true hother⟩

/-- **Calls after calls.** -/
theorem Database.AppliedByCalls.append (hs : s.Settled) (h : s.AppliedByCalls s₁ batches)
    (h' : s₁.AppliedByCalls s₂ more) : s.AppliedByCalls s₂ (batches ++ more) where
  inTurn := by
    rw [List.flatten_append]
    exact h.inTurn.append hs h'.inTurn h'.stays
  inOrder := by
    rw [List.flatten_append, List.pairwise_append]
    exact ⟨h.inOrder, h'.inOrder, fun a ha b hb =>
      h.ahead a ha b.activateAt b (h.due_of_taken h' hb).1⟩
  once := by
    rw [List.flatten_append, List.map_append, List.nodup_append]
    refine ⟨h.once, h'.once, ?_⟩
    rintro _ hid _ hid' rfl
    obtain ⟨change, hchange, rfl⟩ := List.mem_map.mp hid'
    exact (h.due_of_taken h' hchange).2.2 hid
  taken := by
    intro change hchange
    rw [List.flatten_append] at hchange
    rcases List.mem_append.mp hchange with hfirst | hlater
    · exact h.taken change hfirst
    · obtain ⟨hmem, hnone, -⟩ := mem_due.mp (h.due_of_taken h' hlater).2.1
      exact ⟨hmem, hnone⟩
  left := by
    intro now
    rw [h'.left, h.left, List.filter_filter, List.flatten_append, List.map_append]
    refine List.filter_congr (fun row _ => ?_)
    rw [← Bool.decide_and, decide_eq_decide, List.mem_append, not_or, and_comm]
  ahead := by
    intro a ha now b hb
    rw [List.flatten_append] at ha
    rcases List.mem_append.mp ha with hfirst | hlater
    · rw [h'.left] at hb
      exact h.ahead a hfirst now b (List.mem_filter.mp hb).1
    · exact h'.ahead a hlater now b hb
  stays := fun id hid => h'.stays id (h.stays id hid)
  places := h'.places.trans h.places
  apart := by
    intro batch hbatch
    rcases List.mem_append.mp hbatch with hfirst | hlater
    · exact h.apart batch hfirst
    · rw [← h.places]
      exact h'.apart batch hlater

end Append

section Loop

variable {w w₁ w' : ServiceWorld} {choices : ℕ → Choice} {css : List (ℕ → Choice)}
  {batches : List (List ScheduledChangeRow)}

/-- The statements of a transaction that is alone commit nothing. -/
theorem run_advances (id : ℕ) (tx : ServiceTx) (htx : tx.id = id) (hlive : w.live = [tx])
    {cs : List Choice} (hrun : service.run w (cs.map (fun c => .advance id c) ++ [.abort id])
      = some w') : w'.committed = w.committed ∧ w'.log = w.log ∧ w'.live = [] := by
  induction cs generalizing w tx with
  | nil =>
    cases hrun
    refine ⟨rfl, rfl, ?_⟩
    show w.live.filter _ = []
    rw [hlive]
    simp [htx]
  | cons c cs ih =>
    obtain ⟨w₁, hstep, hrest⟩ := Option.bind_eq_some_iff.mp hrun
    obtain ⟨tx', locks, writes, next, view, htx', -, -, -, rfl⟩ := service.advance_eq_some hstep
    have hid : tx'.id = id := (mem_and_of_find? htx').2
    have hlive₁ : ∀ tx₁ : ServiceTx, tx₁.id = id → (w.update tx₁).live = [tx₁] := by
      intro tx₁ hid₁
      show w.live.map _ = _
      rw [hlive]
      simp [htx, hid₁]
    have hlater := ih { tx' with
      prog := next view
      writes := tx'.writes ++ writes view
      locks := tx'.locks ++ locks view } hid (hlive₁ _ hid) hrest
    exact hlater

/-- **What a call does that commits.** -/
theorem appliedByCalls_of_calls {actions : List (Action Choice Request)}
    (hrun : service.run initial actions = some w) (hidle : w.live = [])
    (hcalls : Calls w choices w') : (∃ actions', service.run initial actions' = some w')
      ∧ w'.live = []
      ∧ w.committed.AppliedByCalls w'.committed [dueChanges ⟨w.committed, [], choices 0⟩] := by
  have hs := settled_of_run hrun
  obtain ⟨hadmits, batch, rounds, n, hfollows, hcommitted⟩ := of_calls hs hidle hcalls
  obtain ⟨k, hcall⟩ := hcalls
  have hrun' : service.run initial (actions ++ soloCall .applyDueChanges choices w.next k)
      = some w' := by
    rw [System.run_append, hrun]
    exact hcall
  have hidle' : w'.live = [] := by
    rw [System.run_call hidle] at hcall
    obtain ⟨_, _, _, -, -, rfl⟩ := System.alone_of_run (w := { w with next := w.next + 1 })
      (alone_applyDueChanges hs choices) hcall
    rfl
  have hhistory := (good_of_run hrun').invariant
  rw [hcommitted] at hhistory
  have htaken : ∀ change ∈ dueChanges ⟨w.committed, [], choices 0⟩, change ∈ w.committed.changes
      ∧ change.appliedAt = none := mem_dueChanges.1
  refine ⟨⟨_, hrun'⟩, hidle', ?_⟩
  rw [hcommitted]
  -- the marks take off what is due exactly the changes of the batch
  have hleft : ∀ now, (service.view (roundWrites rounds) w.committed).due now
      = (w.committed.due now).filter (fun row => row.id
        ∉ (dueChanges ⟨w.committed, [], choices 0⟩).map ScheduledChangeRow.id) := by
    intro now
    rw [due_view (keepsRows_roundWrites rounds), hfollows.marks_eq]
  have hplaces := (sameRows_view (keepsRows_roundWrites rounds) w.committed).configs
  refine ⟨?_, ?_, ?_, ?_, ?_, ?_, ?_, environmentOf_congr hplaces,
    List.forall_mem_singleton.mpr hadmits.2⟩ <;> try rw [List.flatten_singleton]
  · exact hfollows.appliedInTurn hs (fun change hchange => (htaken change hchange).1) hhistory
  · exact pairwise_dueChanges
  · exact mem_dueChanges.2 hs.consistent.keys.changeIds
  · exact htaken
  · exact hleft
  · intro a ha now b hb
    rw [hleft] at hb
    obtain ⟨hb, hother⟩ := List.mem_filter.mp hb
    obtain ⟨hmem, hnone, -⟩ := mem_due.mp hb
    -- what was not due yet is activated after all that was
    rcases le_or_gt b.activateAt (choices 0).now with hdue | hlater
    · exact activateAt_le_of_left ha (mem_due.mpr ⟨hmem, hnone, hdue⟩)
        (fun hb' => of_decide_eq_true hother (List.mem_map_of_mem hb'))
    · exact (mem_due.mp (mem_due_of_mem_dueChanges ha)).2.2.trans hlater.le
  · rintro id ⟨row, hrow, rfl, happlied⟩
    obtain ⟨row', hrow', hid, -, -, hkeeps⟩ := exists_change_view (roundWrites rounds) hrow
    exact ⟨row', hrow', hid, hkeeps (.inl happlied)⟩

/-- What a call did that is rolled back is gone. -/
theorem committed_of_broken (hidle : w.live = []) {n : ℕ}
    (hbroken : service.run w (brokenCall choices w.next n) = some w') :
    w'.committed = w.committed ∧ w'.live = [] := by
  obtain ⟨w₁, hstart, hrest⟩ := Option.bind_eq_some_iff.mp hbroken
  cases hstart
  have hmap : (List.range' 0 n).map (fun i => Action.advance w.next (choices i))
      = ((List.range' 0 n).map choices).map (fun c => (.advance w.next c : Action Choice Request))
      := (List.map_map ..).symm
  change service.run _ ((List.range' 0 n).map (fun i => Action.advance w.next (choices i))
    ++ [.abort w.next]) = some w' at hrest
  rw [hmap, hidle] at hrest
  obtain ⟨hcommitted, -, hidle'⟩ := run_advances w.next _ rfl rfl hrest
  exact ⟨hcommitted, hidle'⟩

/-- **What an iteration does.** -/
theorem Iterates.appliedByCalls {actions : List (Action Choice Request)}
    (hrun : service.run initial actions = some w) (hidle : w.live = [])
    (h : Iterates w choices batches w') : (∃ actions', service.run initial actions' = some w')
      ∧ w'.live = [] ∧ w.committed.AppliedByCalls w'.committed batches := by
  cases h with
  | applied hcalls => exact appliedByCalls_of_calls hrun hidle hcalls
  | rolledBack n hbroken =>
    have hrun' : service.run initial (actions ++ brokenCall choices w.next n) = some w' := by
      rw [System.run_append, hrun]
      exact hbroken
    obtain ⟨hcommitted, hidle'⟩ := committed_of_broken hidle hbroken
    refine ⟨⟨_, hrun'⟩, hidle', ?_⟩
    rw [hcommitted]
    exact appliedByCalls_nil w.committed

/-- **What a loop does.** -/
theorem Loops.appliedByCalls {actions : List (Action Choice Request)}
    (hrun : service.run initial actions = some w) (hidle : w.live = [])
    (h : Loops w css batches w') : w.committed.AppliedByCalls w'.committed batches := by
  induction h generalizing actions with
  | nil w => exact appliedByCalls_nil w.committed
  | cons hfirst _ ih =>
    obtain ⟨⟨actions₁, hrun₁⟩, hidle₁, happlied⟩ := hfirst.appliedByCalls hrun hidle
    exact happlied.append (settled_of_run hrun) (ih hrun₁ hidle₁)

/-- Each call that commits takes twenty changes off those that are due, or all. -/
theorem Loops.length_due {actions : List (Action Choice Request)}
    (hrun : service.run initial actions = some w) (hidle : w.live = [])
    (h : Loops w css batches w') {now : Instant} (hnow : ∀ choices ∈ css, now ≤ (choices 0).now) :
    (w'.committed.due now).length = (w.committed.due now).length - 20 * batches.length := by
  induction h generalizing actions with
  | nil w => rfl
  | @cons w w₁ w' choices rest batches more hfirst _ ih =>
    obtain ⟨⟨actions₁, hrun₁⟩, hidle₁, happlied⟩ := hfirst.appliedByCalls hrun hidle
    have hone : (w₁.committed.due now).length
        = (w.committed.due now).length - 20 * batches.length := by
      rw [happlied.left]
      cases hfirst with
      | applied hcalls =>
        rw [List.flatten_singleton]
        exact length_due_left (settled_of_run hrun).consistent.keys.changeIds
          (hnow choices List.mem_cons_self)
      | rolledBack n hbroken => exact congrArg List.length (List.filter_eq_self.mpr (fun _ _ =>
          decide_eq_true List.not_mem_nil))
    rw [ih hrun₁ hidle₁ (fun c hc => hnow c (List.mem_cons_of_mem _ hc)), hone, List.length_append]
    omega

/-- **The scheduler's loop applies changes in turn.** However the changes are spread over the
calls of a worker that is alone, and whichever calls are rolled back, together they apply
changes one after the other, in the order of activation: each configuration is what its changes
make of it, with a version for each. What is left is activated no earlier than what is applied,
what one call applies is of different environments, and each call that commits takes twenty
changes off those that were due before the first one, or all there are. -/
theorem loop_in_turn {actions : List (Action Choice Request)}
    (hrun : service.run initial actions = some w) (hidle : w.live = [])
    (hloop : Loops w css batches w') : w.committed.AppliedByCalls w'.committed batches
      ∧ ∀ now, (∀ choices ∈ css, now ≤ (choices 0).now) → (w'.committed.due now).length
        = (w.committed.due now).length - 20 * batches.length :=
  ⟨hloop.appliedByCalls hrun hidle, fun _ hnow => hloop.length_due hrun hidle hnow⟩

/-- The two changes of one configuration fall due one after the other. The first call takes
one, the second is rolled back after three statements, and the third takes what it left. -/
theorem loop_in_turn_twice : ∃ w w' batches, service.run initial twoChanges = some w
    ∧ Loops w [choicesAt 0, choicesAt 5, choicesAt 5] batches w'
    ∧ batches.map (fun batch => batch.map ScheduledChangeRow.id) = [[⟨50⟩], [⟨60⟩]]
    ∧ w.committed.AppliedByCalls w'.committed batches
    ∧ ∀ now, (∀ choices ∈ [choicesAt 0, choicesAt 5, choicesAt 5], now ≤ (choices 0).now) →
      (w'.committed.due now).length = (w.committed.due now).length - 20 * batches.length := by
  have hfacts : (service.run initial twoChanges).any (fun w => w.live.isEmpty
      && decide ((dueChanges ⟨w.committed, [], choicesAt 0 0⟩).map ScheduledChangeRow.id = [⟨50⟩])
      && (service.run w (soloCall .applyDueChanges (choicesAt 0) w.next 21)).any (fun w₁ =>
        (service.run w₁ (brokenCall (choicesAt 5) w₁.next 3)).any (fun w₂ =>
          decide ((dueChanges ⟨w₂.committed, [], choicesAt 5 0⟩).map ScheduledChangeRow.id
            = [⟨60⟩])
          && (service.run w₂ (soloCall .applyDueChanges (choicesAt 5) w₂.next 21)).isSome)))
      = true := by
    decide +kernel
  obtain ⟨w, hrun, hfacts⟩ := (Option.any_eq_true _ _).mp hfacts
  obtain ⟨hstart, hfacts⟩ := Bool.and_eq_true_iff.mp hfacts
  obtain ⟨hlive, hfirst⟩ := Bool.and_eq_true_iff.mp hstart
  obtain ⟨w₁, hcalls₁, hfacts⟩ := (Option.any_eq_true _ _).mp hfacts
  obtain ⟨w₂, hbroken, hfacts⟩ := (Option.any_eq_true _ _).mp hfacts
  obtain ⟨hsecond, hfacts⟩ := Bool.and_eq_true_iff.mp hfacts
  obtain ⟨w', hcalls₂⟩ := Option.isSome_iff_exists.mp hfacts
  have hloop : Loops w [choicesAt 0, choicesAt 5, choicesAt 5] _ w' :=
    .cons (.applied ⟨21, hcalls₁⟩) (.cons (.rolledBack 3 hbroken)
      (.cons (.applied ⟨21, hcalls₂⟩) (.nil w')))
  refine ⟨w, w', _, hrun, hloop, ?_, loop_in_turn hrun (List.isEmpty_iff.mp hlive) hloop⟩
  exact congrArg₂ (fun ids ids' => [ids, ids']) (of_decide_eq_true hfirst)
    (of_decide_eq_true hsecond)

/-- A change that no more than twenty come before is taken. -/
theorem mem_dueChanges_of_few {s : Database} {choice : Choice}
    (hids : (s.changes.map ScheduledChangeRow.id).Nodup) {change : ScheduledChangeRow}
    (hchange : change ∈ s.changes) (hnone : change.appliedAt = none)
    (hfew : (s.due change.activateAt).length ≤ 20) (hdue : change.activateAt ≤ choice.now) :
    change ∈ dueChanges ⟨s, [], choice⟩ := by
  have hlength := length_due_left hids hdue
  rw [Nat.sub_eq_zero_of_le hfew, List.length_eq_zero_iff, List.filter_eq_nil_iff] at hlength
  have htaken : change.id ∈ (dueChanges ⟨s, [], choice⟩).map ScheduledChangeRow.id := by
    by_contra hleft
    exact hlength change (mem_due.mpr ⟨hchange, hnone, le_rfl⟩) (decide_eq_true hleft)
  obtain ⟨taken, hmem, hid⟩ := List.mem_map.mp htaken
  rw [List.inj_on_of_nodup_map hids hchange (mem_dueChanges.1 taken hmem).1 hid.symm]
  exact hmem

/-- **A change that cannot be applied stops the loop for good**, once no more than twenty are to
be applied up to its activation, itself among them. No call commits any more, and no scheduled
change is applied, of whatever flag, project or organization. -/
theorem loop_stalls {actions : List (Action Choice Request)}
    (hrun : service.run initial actions = some w) (hidle : w.live = [])
    {change : ScheduledChangeRow} (hchange : change ∈ w.committed.changes)
    (hnone : change.appliedAt = none) (hbad : ¬ w.committed.Admits change)
    (hfew : (w.committed.due change.activateAt).length ≤ 20)
    (hdue : ∀ choices ∈ css, change.activateAt ≤ (choices 0).now)
    (hloop : Loops w css batches w') : batches = [] ∧ w'.committed = w.committed := by
  induction hloop generalizing actions with
  | nil w => exact ⟨rfl, rfl⟩
  | @cons w w₁ w' choices rest batches more hfirst _ ih =>
    have hs := settled_of_run hrun
    obtain ⟨⟨actions₁, hrun₁⟩, hidle₁, -⟩ := hfirst.appliedByCalls hrun hidle
    cases hfirst with
    | applied hcalls =>
      have hmem := mem_dueChanges_of_few hs.consistent.keys.changeIds hchange hnone hfew
        (hdue choices List.mem_cons_self)
      exact absurd ((of_calls hs hidle hcalls).1.1 change hmem) hbad
    | rolledBack n hbroken =>
      obtain ⟨hcommitted, -⟩ := committed_of_broken hidle hbroken
      rw [← hcommitted] at hchange hbad hfew
      obtain ⟨hmore, hlater⟩ := ih hrun₁ hidle₁ hchange hbad hfew
        (fun c hc => hdue c (List.mem_cons_of_mem _ hc))
      exact ⟨hmore, hlater.trans hcommitted⟩

/-- The change of the other flag could be applied. -/
theorem loop_stalls_blocked : ∃ w w', service.run initial blocked = some w
    ∧ Loops w [choicesAt 0] [] w' ∧ w'.committed = w.committed
    ∧ ∃ change ∈ w'.committed.due 0, w'.committed.Admits change := by
  have hstate : (service.run initial blocked).map (fun w => decide (w.live.isEmpty = true
      ∧ (∃ change ∈ w.committed.changes, change.appliedAt = none ∧ ¬ w.committed.Admits change
        ∧ (w.committed.due change.activateAt).length ≤ 20 ∧ change.activateAt ≤ 0)
      ∧ ∃ change ∈ w.committed.due 0, w.committed.Admits change)) = some true := by
    decide +kernel
  obtain ⟨w, hrun, hstate⟩ := Option.map_eq_some_iff.mp hstate
  obtain ⟨hlive, ⟨change, hchange, hnone, hbad, hfew, hdue⟩, hother⟩ := of_decide_eq_true hstate
  have hidle := List.isEmpty_iff.mp hlive
  obtain ⟨w', hbroken⟩ : ∃ w', service.run w (brokenCall (choicesAt 0) w.next 0) = some w' :=
    ⟨_, rfl⟩
  have hloop : Loops w [choicesAt 0] [] w' := .cons (.rolledBack 0 hbroken) (.nil w')
  obtain ⟨-, hsame⟩ := loop_stalls hrun hidle hchange hnone hbad hfew
    (List.forall_mem_singleton.mpr hdue) hloop
  exact ⟨w, w', hrun, hloop, hsame, hsame ▸ hother⟩

end Loop

end CohortSwitch
