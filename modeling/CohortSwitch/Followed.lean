import CohortSwitch.Transactions

/-!
# One transaction of a run

The other modules about transactions say what holds of all of them. Here one is
followed by its id, from a moment of the run on at which something is known of it
that its request alone does not say.

A transaction under way has just started, or has made a statement, or is what it
was while others went on (`Respects.live_cases`). So what its statements keep
(`Discipline.Keeps`) and the commits of others cannot undo holds of it for as long
as it is under way (`Respects.holds_of_run`): an id is given once, and no other
transaction takes its place.

A program may only return certain results after it has come by a certain point
(`Prog.ComesBy`). A transaction that returns such a result has come by that point
in the run, and the run divides there: into the steps before, the statement the
transaction makes at that point, and the steps since (`Respects.exists_point`).

This is what a condition on the interleaving needs. To say that nobody committed this
or that between two statements of a request one has to name the steps between them,
and a postcondition, which knows the state of the commit alone, cannot.
-/

namespace CohortSwitch

variable {σ W R χ ε q ρ α β : Type}

/-! ## Where a transaction comes from -/

section Live

variable [DecidableEq R] {sys : System σ W R χ ε q ρ} {d : Discipline σ W R}
  {invariant : σ → List (q × ρ) → Prop} {post : q → List W → List R → σ → ρ → Prop}
  {condition : q → List W → σ → Prop} {w w' : World σ W R χ ε q ρ} {id : ℕ}

/-- A transaction that has just made a statement, in the world before it. -/
structure MadeStatement (d : Discipline σ W R) (w : World σ W R χ ε q ρ)
    (action : Action χ q) (old tx : Running σ W R χ ε q ρ) (choice : χ)
    (locks : View σ R χ → List R) (writes : View σ R χ → List W)
    (next : View σ R χ → Prog (View σ R χ) W R ε ρ) : Prop where
  /-- The step is the transaction's own, -/
  action : action = .advance tx.id choice
  /-- which was running, -/
  running : w.running? tx.id = some old
  /-- with this statement next. -/
  prog : old.prog = .statement locks writes next
  /-- Nobody else held a row that it locks. -/
  free : ∀ row ∈ locks ⟨old.writes.foldl d.apply w.committed, w.lockedByOthers tx.id, choice⟩,
    row ∉ w.lockedByOthers tx.id
  /-- It goes on with what it saw, and has the writes and the locks of the statement. -/
  eq : tx = { old with
    prog := next ⟨old.writes.foldl d.apply w.committed, w.lockedByOthers tx.id, choice⟩
    writes := old.writes
      ++ writes ⟨old.writes.foldl d.apply w.committed, w.lockedByOthers tx.id, choice⟩
    locks := old.locks
      ++ locks ⟨old.writes.foldl d.apply w.committed, w.lockedByOthers tx.id, choice⟩ }

/-- **Where a transaction under way comes from**: it has just started, it has made a
statement, or it is as it was, in a state others may have changed. -/
theorem System.Respects.live_cases (h : sys.Respects d invariant post condition)
    (hgood : w.Good d invariant post) {action : Action χ q}
    (hcondition : ∀ id tx, action = .commit id → w.running? id = some tx →
      condition tx.request tx.writes w.committed)
    (hstep : sys.step w action = some w') {tx : Running σ W R χ ε q ρ} (htx : tx ∈ w'.live) :
    (∃ request, tx = ⟨w.next, request, sys.program request, [], []⟩
        ∧ w'.committed = w.committed)
      ∨ (∃ old choice locks writes next, MadeStatement d w action old tx choice locks writes next
        ∧ w'.committed = w.committed)
      ∨ (tx ∈ w.live ∧ d.rely tx.locks w.committed w'.committed) := by
  cases action with
  | start request =>
    cases hstep
    rcases List.mem_append.mp htx with htx | htx
    · exact .inr (.inr ⟨htx, d.rely_refl _ _⟩)
    · exact .inl ⟨request, List.mem_singleton.mp htx, rfl⟩
  | abort other =>
    cases hstep
    exact .inr (.inr ⟨(World.mem_remove htx).1, d.rely_refl _ _⟩)
  | commit other =>
    obtain ⟨-, -, hlive⟩ := h.of_commit hgood (fun tx htx => hcondition other tx rfl htx) hstep
    exact .inr (.inr (hlive tx htx))
  | advance other choice =>
    obtain ⟨old, locks, writes, next, view, hold, hprog, rfl, hfree, rfl⟩ :=
      sys.advance_eq_some hstep
    have hview : sys.view old.writes w.committed = old.writes.foldl d.apply w.committed := by
      unfold System.view
      rw [h.apply]
    rcases World.mem_update htx with rfl | ⟨htx, -⟩
    · have hid : other = old.id := (World.mem_of_running? hold).2.symm
      subst hid
      rw [hview] at hfree ⊢
      exact .inr (.inl ⟨old, choice, locks, writes, next, ⟨rfl, hold, hprog, hfree, rfl⟩, rfl⟩)
    · exact .inr (.inr ⟨htx, d.rely_refl _ _⟩)

/-- Ids are given one after the other. -/
theorem System.next_of_step {action : Action χ q} (hstep : sys.step w action = some w') :
    w.next ≤ w'.next := by
  cases action with
  | start request =>
    cases hstep
    exact Nat.le_succ _
  | abort id =>
    cases hstep
    exact Nat.le_refl _
  | advance id choice =>
    obtain ⟨old, locks, writes, next, view, -, -, -, -, rfl⟩ := sys.advance_eq_some hstep
    exact Nat.le_refl _
  | commit id =>
    obtain ⟨old, result, -, -, -, rfl⟩ := sys.commit_eq_some hstep
    exact Nat.le_refl _

/-- Those of the transactions under way are below the next one. -/
theorem System.ids_of_step {action : Action χ q} (hids : ∀ tx ∈ w.live, tx.id < w.next)
    (hstep : sys.step w action = some w') : ∀ tx ∈ w'.live, tx.id < w'.next := by
  intro tx htx
  cases action with
  | start request =>
    cases hstep
    rcases List.mem_append.mp htx with htx | htx
    · exact Nat.lt_succ_of_lt (hids tx htx)
    · rw [List.mem_singleton.mp htx]
      exact Nat.lt_succ_self _
  | advance id choice =>
    obtain ⟨old, locks, writes, next, view, hold, -, -, -, rfl⟩ := sys.advance_eq_some hstep
    rcases World.mem_update htx with rfl | ⟨htx, -⟩
    · exact hids old (World.mem_of_running? hold).1
    · exact hids tx htx
  | commit id =>
    obtain ⟨old, result, -, -, -, rfl⟩ := sys.commit_eq_some hstep
    exact hids tx (World.mem_remove htx).1
  | abort id =>
    cases hstep
    exact hids tx (World.mem_remove htx).1

/-- So are those of a run. -/
theorem System.ids_of_run {actions : List (Action χ q)} (hids : ∀ tx ∈ w.live, tx.id < w.next)
    (hrun : sys.run w actions = some w') : ∀ tx ∈ w'.live, tx.id < w'.next := by
  induction actions generalizing w with
  | nil =>
    cases hrun
    exact hids
  | cons action rest ih =>
    obtain ⟨w₁, hstep, hrest⟩ := Option.bind_eq_some_iff.mp hrun
    exact ih (System.ids_of_step hids hstep) hrest

end Live

/-! ## What statements keep -/

/-- **Statements keep an assertion** on what is left of a transaction, on what it wrote and
locked, and on the state committed at its last statement. -/
def Discipline.Keeps (d : Discipline σ W R)
    (A : q → Prog (View σ R χ) W R ε ρ → List W → List R → σ → Prop) : Prop :=
  ∀ request locks' writes' next writes locks s,
    A request (.statement locks' writes' next) writes locks s →
    ∀ s', d.rely locks s s' → d.invariant s' → ∀ locked choice,
      (∀ row ∈ locks' ⟨writes.foldl d.apply s', locked, choice⟩, row ∉ locked) →
      A request (next ⟨writes.foldl d.apply s', locked, choice⟩)
        (writes ++ writes' ⟨writes.foldl d.apply s', locked, choice⟩)
        (locks ++ locks' ⟨writes.foldl d.apply s', locked, choice⟩) s'

/-- **An assertion holds of the transaction of an id**, at a state others may have changed
since. -/
def World.Holds (w : World σ W R χ ε q ρ) (d : Discipline σ W R)
    (A : q → Prog (View σ R χ) W R ε ρ → List W → List R → σ → Prop) (id : ℕ) : Prop :=
  ∀ tx ∈ w.live, tx.id = id → ∃ s, d.rely tx.locks s w.committed
    ∧ A tx.request tx.prog tx.writes tx.locks s

section Holds

variable [DecidableEq R] {sys : System σ W R χ ε q ρ} {d : Discipline σ W R}
  {invariant : σ → List (q × ρ) → Prop} {post : q → List W → List R → σ → ρ → Prop}
  {condition : q → List W → σ → Prop} {w w' : World σ W R χ ε q ρ} {id : ℕ}
  {A : q → Prog (View σ R χ) W R ε ρ → List W → List R → σ → Prop}

/-- **A step keeps an assertion** that statements keep. -/
theorem System.Respects.holds_step (h : sys.Respects d invariant post condition)
    (hkeeps : d.Keeps A) (hgood : w.Good d invariant post) (hid : id < w.next)
    (hholds : w.Holds d A id) {action : Action χ q}
    (hcondition : ∀ id tx, action = .commit id → w.running? id = some tx →
      condition tx.request tx.writes w.committed)
    (hstep : sys.step w action = some w') : w'.Holds d A id := by
  intro tx htx htxid
  rcases h.live_cases hgood hcondition hstep htx with ⟨request, rfl, -⟩
    | ⟨old, choice, locks, writes, next, hmade, hcommitted⟩ | ⟨hlive, hrely⟩
  · exact absurd htxid (Nat.ne_of_gt hid)
  · obtain ⟨hold, holdId⟩ := World.mem_of_running? hmade.running
    obtain ⟨s, hrely, hassertion⟩ := hholds old hold (holdId.trans htxid)
    rw [hmade.prog] at hassertion
    rw [hmade.eq, hcommitted]
    exact ⟨w.committed, d.rely_refl _ _, hkeeps _ _ _ _ _ _ _ hassertion w.committed hrely
      (h.committed _ _ hgood.invariant) _ choice hmade.free⟩
  · obtain ⟨s, hrely', hassertion⟩ := hholds tx hlive htxid
    exact ⟨s, d.rely_trans _ _ _ _ hrely' hrely, hassertion⟩

/-- **A run keeps an assertion** that statements keep. -/
theorem System.Respects.holds_of_run (h : sys.Respects d invariant post condition)
    (hkeeps : d.Keeps A) {actions : List (Action χ q)} (hgood : w.Good d invariant post)
    (hid : id < w.next) (hholds : w.Holds d A id)
    (hcondition : sys.CommitsMeet condition w actions) (hrun : sys.run w actions = some w') :
    w'.Holds d A id := by
  induction actions generalizing w with
  | nil =>
    cases hrun
    exact hholds
  | cons action rest ih =>
    obtain ⟨w₁, hstep, hrest⟩ := Option.bind_eq_some_iff.mp hrun
    exact ih (h.step hgood hcondition.1 hstep).1
      (Nat.lt_of_lt_of_le hid (System.next_of_step hstep))
      (h.holds_step hkeeps hgood hid hholds hcondition.1 hstep) (hcondition.2 w₁ hstep) hrest

omit [DecidableEq R] in
/-- The request of a transaction stays. -/
theorem Discipline.keeps_request (d : Discipline σ W R) (request : q) :
    d.Keeps (χ := χ) (ε := ε) (ρ := ρ) (fun request' _ _ _ _ => request' = request) :=
  fun _ _ _ _ _ _ _ h _ _ _ _ _ _ => h

omit [DecidableEq R] in
/-- What a program ensures, it ensures after each of its statements. -/
theorem Discipline.keeps_ensures (d : Discipline σ W R)
    (post : List W → List R → σ → ρ → Prop) : d.Keeps (q := q) (χ := χ) (ε := ε)
      (fun _ prog writes locks s => prog.Ensures d post writes locks s) :=
  fun _ _ _ _ _ _ _ h => h

end Holds

/-! ## A point of a program -/

/-- **A program comes by a point** before it returns a result of one kind. The point is an
assertion on what is left of the program, so it marks a statement of the source; a program that
returns another result, or raises, need not come by it. -/
def Prog.ComesBy (d : Discipline σ W R)
    (P : Prog (View σ R χ) W R ε α → List W → List R → σ → Prop) (Q : α → Prop) :
    Prog (View σ R χ) W R ε α → List W → List R → σ → Prop
  | .ret a, _, _, _ => ¬ Q a
  | .raise _, _, _, _ => True
  | .statement locks' writes' next, writes, locks, s =>
    P (.statement locks' writes' next) writes locks s
      ∨ ∀ s', d.rely locks s s' → d.invariant s' → ∀ locked choice,
        (∀ row ∈ locks' ⟨writes.foldl d.apply s', locked, choice⟩, row ∉ locked) →
        (next ⟨writes.foldl d.apply s', locked, choice⟩).ComesBy d P Q
          (writes ++ writes' ⟨writes.foldl d.apply s', locked, choice⟩)
          (locks ++ locks' ⟨writes.foldl d.apply s', locked, choice⟩) s'

section Points

variable {d : Discipline σ W R}
  {P : Prog (View σ R χ) W R ε β → List W → List R → σ → Prop} {Q : β → Prop}
  {writes : List W} {locks : List R} {s : σ}

/-- What a program does before the point may be any other program. -/
theorem Prog.Ensures.comesBy {m : Prog (View σ R χ) W R ε α} {f : α → Prog (View σ R χ) W R ε β}
    {M : List W → List R → σ → α → Prop} (hm : m.Ensures d M writes locks s)
    (hf : ∀ writes locks s a, M writes locks s a → (f a).ComesBy d P Q writes locks s) :
    (m >>= f).ComesBy d P Q writes locks s := by
  induction m generalizing writes locks s with
  | ret a => exact hf _ _ _ a hm
  | raise e => exact trivial
  | statement locks' writes' next ih =>
    exact .inr (fun s' hrely hinv locked choice hfree =>
      ih _ (hm s' hrely hinv locked choice hfree))

/-- A program that returns no result of the kind comes by any point. -/
theorem Prog.Yields.comesBy {m : Prog (View σ R χ) W R ε β} (h : m.Yields (fun b => ¬ Q b)) :
    m.ComesBy d P Q writes locks s := by
  induction m generalizing writes locks s with
  | ret b => exact h
  | raise e => exact trivial
  | statement locks' writes' next ih => exact .inr (fun _ _ _ _ _ _ => ih _ (h _))

end Points

section Runs

variable [DecidableEq R] {sys : System σ W R χ ε q ρ} {d : Discipline σ W R}
  {invariant : σ → List (q × ρ) → Prop} {post : q → List W → List R → σ → ρ → Prop}
  {condition : q → List W → σ → Prop} {w w' : World σ W R χ ε q ρ}
  {P : q → Prog (View σ R χ) W R ε ρ → List W → List R → σ → Prop} {Q : q → ρ → Prop}

/-- **Where a run comes by a point** of a transaction: the world before the statement the
transaction makes there, and the world after it. -/
structure PointOf (sys : System σ W R χ ε q ρ) (d : Discipline σ W R)
    (P : q → Prog (View σ R χ) W R ε ρ → List W → List R → σ → Prop)
    (tx : Running σ W R χ ε q ρ) (choice : χ) (w₀ w₁ : World σ W R χ ε q ρ) : Prop where
  step : sys.step w₀ (.advance tx.id choice) = some w₁
  point : ∃ tx₀ s, w₀.running? tx.id = some tx₀ ∧ tx₀.request = tx.request
    ∧ d.rely tx₀.locks s w₀.committed ∧ P tx₀.request tx₀.prog tx₀.writes tx₀.locks s

/-- **A transaction that returns has come by its point**, and the run divides there. -/
theorem System.Respects.exists_point (h : sys.Respects d invariant post condition)
    (hprograms : ∀ request s, d.invariant s →
      (sys.program request).ComesBy d (P request) (Q request) [] [] s)
    {actions : List (Action χ q)} (hgood : w.Good d invariant post)
    (hids : ∀ tx ∈ w.live, tx.id < w.next) {tx : Running σ W R χ ε q ρ}
    (hlive : w.Holds d (fun request prog => prog.ComesBy d (P request) (Q request)) tx.id)
    (hcondition : sys.CommitsMeet condition w actions) (hrun : sys.run w actions = some w')
    (htx : tx ∈ w'.live) {result : ρ} (hprog : tx.prog = .ret result)
    (hresult : Q tx.request result) :
    ∃ before choice during w₀ w₁, actions = before ++ .advance tx.id choice :: during
      ∧ sys.run w before = some w₀ ∧ PointOf sys d P tx choice w₀ w₁
      ∧ sys.run w₁ during = some w' := by
  induction actions generalizing w with
  | nil =>
    cases hrun
    obtain ⟨s, -, hcomes⟩ := hlive tx htx rfl
    rw [hprog] at hcomes
    exact absurd hresult hcomes
  | cons action rest ih =>
    obtain ⟨w₁, hstep, hrest⟩ := Option.bind_eq_some_iff.mp hrun
    have hgood₁ := (h.step hgood hcondition.1 hstep).1
    have hids₁ := System.ids_of_step hids hstep
    by_cases hlater :
        w₁.Holds d (fun request prog => prog.ComesBy d (P request) (Q request)) tx.id
    · -- the point is still to come
      obtain ⟨before, choice, during, w₀, w₂, rfl, hbefore, hpoint, hduring⟩ :=
        ih hgood₁ hids₁ hlater (hcondition.2 w₁ hstep) hrest
      refine ⟨action :: before, choice, during, w₀, w₂, rfl, ?_, hpoint, hduring⟩
      exact Option.bind_eq_some_iff.mpr ⟨w₁, hstep, hbefore⟩
    obtain ⟨now, hnow, hnowId, hnot⟩ : ∃ now ∈ w₁.live, now.id = tx.id ∧ ∀ s,
        d.rely now.locks s w₁.committed →
        ¬ now.prog.ComesBy d (P now.request) (Q now.request) now.writes now.locks s := by
      unfold World.Holds at hlater
      push Not at hlater
      exact hlater
    rcases h.live_cases hgood hcondition.1 hstep hnow with ⟨request, rfl, hcommitted⟩
      | ⟨old, choice, locks, writes, next, hmade, hcommitted⟩ | ⟨hmem, hrely⟩
    · exact absurd (hprograms request _ (h.committed _ _ hgood₁.invariant))
        (hnot _ (d.rely_refl _ _))
    · -- the transaction makes its statement at the point
      obtain ⟨hold, holdId⟩ := World.mem_of_running? hmade.running
      obtain ⟨s, hrely, hcomes⟩ := hlive old hold (holdId.trans hnowId)
      rw [hmade.prog] at hcomes
      rw [hmade.eq, hcommitted] at hnot
      have hpoint := hcomes.resolve_right (fun hnext => hnot _ (d.rely_refl _ _)
        (hnext w.committed hrely (h.committed _ _ hgood.invariant) _ choice hmade.free))
      have hrunning : w.running? tx.id = some old := hnowId ▸ hmade.running
      have haction : action = .advance tx.id choice := hnowId ▸ hmade.action
      have hadvance : sys.step w (.advance tx.id choice) = some w₁ := haction ▸ hstep
      have hrequest : w₁.Holds d (fun request' _ _ _ _ => request' = old.request) tx.id := by
        obtain ⟨old', _, _, _, _, hold', -, -, -, hw₁⟩ := sys.advance_eq_some hadvance
        intro tx' htx' htxid
        refine ⟨w₁.committed, d.rely_refl _ _, ?_⟩
        rw [hw₁] at htx'
        rcases World.mem_update htx' with rfl | ⟨-, hother⟩
        · show old'.request = old.request
          rw [Option.some.inj (hold'.symm.trans hrunning)]
        · exact absurd (htxid.trans (World.mem_of_running? hold').2.symm) hother
      have hnext : tx.id < w₁.next := hnowId ▸ hids₁ now hnow
      obtain ⟨-, -, hsame⟩ := h.holds_of_run (d.keeps_request old.request) hgood₁ hnext hrequest
        (hcondition.2 w₁ hstep) hrest tx htx rfl
      exact ⟨[], choice, rest, w, w₁, haction ▸ rfl, rfl,
        ⟨hadvance, old, s, hrunning, hsame.symm, hrely, hmade.prog ▸ hpoint⟩, hrest⟩
    · obtain ⟨s, hrely', hcomes⟩ := hlive now hmem hnowId
      exact absurd hcomes (hnot _ (d.rely_trans _ _ _ _ hrely' hrely))

end Runs

end CohortSwitch
