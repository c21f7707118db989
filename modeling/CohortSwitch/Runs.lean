import CohortSwitch.Followed
import CohortSwitch.Footprint

/-!
# Runs and what they commit

What a run commits is a list of writes, transaction after transaction
(`System.commits`), and the committed state is what these writes make of the
first one (`System.committed_of_run`). A run may be one in which every step
meets a condition (`System.Meets`): then it keeps what such steps keep, and a
transaction whose first statement finds what it needs ensures more than it does
from any state (`System.Respects.underway_of_run`).

## Conditions on runs

Not every property holds of every run, and where one fails, the question is which
steps have to be excluded. `System.Meets` asks a condition of each step in the world
before it, `System.CommitsMeet` of each commit with its writes. Both are relative to the
states a run reaches, so a condition may be replaced by one that agrees there
(`System.meets_congr`), and both are computed for a run that is given by its actions.

## Two disciplines

A server may respect several disciplines, each about tables of its own. They need not be
merged by hand: their conjunction is respected as well (`System.Respects.and`), so an
invariant can be proved where it is needed and joined to the others later.

## Accounts

`System.Respects.commits_induction` is induction over the commits of a run, each with its
postcondition and the state it is committed to. What is said of all that a run commits,
one after the other, is said by it.
-/

namespace CohortSwitch

variable {σ V W R χ ε q ρ α β : Type}

/-! ## Two disciplines at once -/

/-- What is relied on in either discipline. -/
def Discipline.and (d d' : Discipline σ W R) : Discipline σ W R where
  apply := d.apply
  invariant := fun s => d.invariant s ∧ d'.invariant s
  rely := fun locks s s' => d.rely locks s s' ∧ d'.rely locks s s'
  rely_refl := fun locks s => ⟨d.rely_refl locks s, d'.rely_refl locks s⟩
  rely_trans := fun locks s s' s'' h h' =>
    ⟨d.rely_trans locks s s' s'' h.1 h'.1, d'.rely_trans locks s s' s'' h.2 h'.2⟩

section Both

variable {sys : System σ W R χ ε q ρ} {d d' : Discipline σ W R}
  {invariant invariant' : σ → List (q × ρ) → Prop}
  {post post' : q → List W → List R → σ → ρ → Prop} {condition condition' : q → List W → σ → Prop}

/-- **A server that respects two disciplines respects both at once.** -/
theorem System.Respects.and (h : sys.Respects d invariant post condition)
    (h' : sys.Respects d' invariant' post' condition') :
    sys.Respects (d.and d') (fun s log => invariant s log ∧ invariant' s log)
      (fun request writes locks s result => post request writes locks s result
        ∧ post' request writes locks s result)
      (fun request writes s => condition request writes s ∧ condition' request writes s) where
  apply := h.apply
  committed := fun s log hinv => ⟨h.committed s log hinv.1, h'.committed s log hinv.2⟩
  start := by
    intro request s hinv
    have hleft : (sys.program request).Ensures (d.and d') (post request) [] [] s :=
      (h.start request s hinv.1).strict rfl (fun _ hi => hi.1) (fun _ _ _ hr => hr.1)
    have hright : (sys.program request).Ensures (d.and d') (post' request) [] [] s :=
      (h'.start request s hinv.2).strict (h.apply.trans h'.apply.symm) (fun _ hi => hi.2)
        (fun _ _ _ hr => hr.2)
    exact hleft.and hright
  commit := by
    intro request writes locks s s' result log hpost hrely hinv hok hcondition
    obtain ⟨hleft, hrely₁⟩ := h.commit request writes locks s s' result log hpost.1 hrely.1 hinv.1
      hok hcondition.1
    obtain ⟨hright, hrely₂⟩ := h'.commit request writes locks s s' result log hpost.2 hrely.2
      hinv.2 hok hcondition.2
    exact ⟨⟨hleft, hright⟩, fun locks' hfree => ⟨hrely₁ locks' hfree, hrely₂ locks' hfree⟩⟩

/-- What its programs ensure besides. -/
theorem System.Respects.also (h : sys.Respects d invariant post condition)
    (hpost : ∀ request s, d.invariant s →
      (sys.program request).Ensures d (post' request) [] [] s) :
    sys.Respects d invariant (fun request writes locks s result =>
      post request writes locks s result ∧ post' request writes locks s result) condition where
  apply := h.apply
  committed := h.committed
  start := fun request s hinv => (h.start request s hinv).and (hpost request s hinv)
  commit := fun request writes locks s s' result log hboth =>
    h.commit request writes locks s s' result log hboth.1

end Both

/-! ## Every step of a run -/

section Steps

variable [DecidableEq R] (sys : System σ W R χ ε q ρ)

/-- Every step of the run meets a condition on the world before it. -/
def System.Meets (condition : World σ W R χ ε q ρ → Action χ q → Prop)
    (w : World σ W R χ ε q ρ) : List (Action χ q) → Prop
  | [] => True
  | action :: rest =>
    condition w action ∧ ∀ w', sys.step w action = some w' → System.Meets condition w' rest

/-- Whether every step of the run meets a condition that can be computed. -/
def System.checkMeets (condition : World σ W R χ ε q ρ → Action χ q → Bool)
    (w : World σ W R χ ε q ρ) : List (Action χ q) → Bool
  | [] => true
  | action :: rest =>
    condition w action
      && (sys.step w action).all (fun w' => System.checkMeets condition w' rest)

variable {sys} {condition : World σ W R χ ε q ρ → Action χ q → Prop} {w w' : World σ W R χ ε q ρ}

/-- A condition that was computed along the run is met. -/
theorem System.meets_of_check [∀ w action, Decidable (condition w action)]
    {actions : List (Action χ q)}
    (h : sys.checkMeets (fun w action => decide (condition w action)) w actions = true) :
    sys.Meets condition w actions := by
  induction actions generalizing w with
  | nil => exact trivial
  | cons action rest ih =>
    obtain ⟨hnow, hrest⟩ := Bool.and_eq_true_iff.mp h
    refine ⟨of_decide_eq_true hnow, fun w' hstep => ?_⟩
    rw [hstep] at hrest
    exact ih hrest

/-- A weaker condition is met, too. -/
theorem System.Meets.mono {condition' : World σ W R χ ε q ρ → Action χ q → Prop}
    {actions : List (Action χ q)} (h : sys.Meets condition w actions)
    (himp : ∀ w action, condition w action → condition' w action) :
    sys.Meets condition' w actions := by
  induction actions generalizing w with
  | nil => exact trivial
  | cons action rest ih => exact ⟨himp _ _ h.1, fun w' hstep => ih (h.2 w' hstep)⟩

/-- A condition that always holds is met. -/
theorem System.meets_of_forall (h : ∀ w action, condition w action)
    (w : World σ W R χ ε q ρ) (actions : List (Action χ q)) : sys.Meets condition w actions := by
  induction actions generalizing w with
  | nil => exact trivial
  | cons action rest ih => exact ⟨h w action, fun w' _ => ih w'⟩

/-- **Two conditions that agree in every state a run reaches** are met by the same runs. -/
theorem System.meets_congr {P : World σ W R χ ε q ρ → Prop}
    {condition' : World σ W R χ ε q ρ → Action χ q → Prop}
    (hkeeps : ∀ w w' action, P w → condition w action → sys.step w action = some w' → P w')
    (h : ∀ w action, P w → (condition w action ↔ condition' w action)) {actions : List (Action χ q)}
    (hw : P w) : sys.Meets condition w actions ↔ sys.Meets condition' w actions := by
  induction actions generalizing w with
  | nil => exact Iff.rfl
  | cons action rest ih =>
    refine (and_congr_right fun hnow => ?_).trans (and_congr_left fun _ => h w action hw)
    exact forall_congr' fun w' => forall_congr' fun hstep => ih (hkeeps w w' action hw hnow hstep)

/-- The first steps of a run that meets a condition meet it. -/
theorem System.Meets.of_append {actions actions' : List (Action χ q)}
    (h : sys.Meets condition w (actions ++ actions')) : sys.Meets condition w actions := by
  induction actions generalizing w with
  | nil => exact trivial
  | cons action rest ih => exact ⟨h.1, fun w' hstep => ih (h.2 w' hstep)⟩

/-- A step in the middle of a run that meets a condition meets it. -/
theorem System.Meets.at {before after : List (Action χ q)} {action : Action χ q}
    {u : World σ W R χ ε q ρ} (h : sys.Meets condition w (before ++ action :: after))
    (hrun : sys.run w before = some u) : condition u action := by
  induction before generalizing w with
  | nil =>
    cases hrun
    exact h.1
  | cons first rest ih =>
    obtain ⟨w₁, hstep, hrest⟩ := Option.bind_eq_some_iff.mp hrun
    exact ih (h.2 w₁ hstep) hrest

/-- The commits of a run meet a weaker condition too. -/
theorem System.CommitsMeet.mono {condition condition' : q → List W → σ → Prop}
    (h : ∀ request writes s, condition request writes s → condition' request writes s)
    {actions : List (Action χ q)} (hmeets : sys.CommitsMeet condition w actions) :
    sys.CommitsMeet condition' w actions := by
  induction actions generalizing w with
  | nil => exact trivial
  | cons action rest ih =>
    exact ⟨fun id tx haction htx => h _ _ _ (hmeets.1 id tx haction htx),
      fun w' hstep => ih (hmeets.2 w' hstep)⟩

/-- The later commits of a run that meets a condition meet it. -/
theorem System.CommitsMeet.later {condition : q → List W → σ → Prop} {w w₁ : World σ W R χ ε q ρ}
    {actions actions' : List (Action χ q)}
    (h : sys.CommitsMeet condition w (actions ++ actions'))
    (hrun : sys.run w actions = some w₁) : sys.CommitsMeet condition w₁ actions' := by
  induction actions generalizing w with
  | nil =>
    cases hrun
    exact h
  | cons action rest ih =>
    obtain ⟨w₂, hstep, hrest⟩ := Option.bind_eq_some_iff.mp hrun
    exact ih (h.2 w₂ hstep) hrest

/-- **A run keeps what its steps keep.** -/
theorem System.run_keeps {P : World σ W R χ ε q ρ → Prop}
    (hstep : ∀ w w' action, P w → condition w action → sys.step w action = some w' → P w')
    {actions : List (Action χ q)} (hp : P w) (hmeets : sys.Meets condition w actions)
    (hrun : sys.run w actions = some w') : P w' := by
  induction actions generalizing w with
  | nil =>
    cases hrun
    exact hp
  | cons action rest ih =>
    obtain ⟨w₁, hw₁, hrest⟩ := Option.bind_eq_some_iff.mp hrun
    exact ih (hstep w w₁ action hp hmeets.1 hw₁) (hmeets.2 w₁ hw₁) hrest

end Steps

/-! ## The states a run passes -/

section Passes

variable [DecidableEq R] (sys : System σ W R χ ε q ρ)

/-- **What is committed at successive moments of a run.** -/
inductive System.Passes : World σ W R χ ε q ρ → List (Action χ q) → List σ → Prop
  | nil (w : World σ W R χ ε q ρ) (actions : List (Action χ q)) : Passes w actions []
  | now {w : World σ W R χ ε q ρ} {actions : List (Action χ q)} {states : List σ}
    (later : Passes w actions states) : Passes w actions (w.committed :: states)
  | step {w w' : World σ W R χ ε q ρ} {action : Action χ q} {rest : List (Action χ q)}
    {states : List σ} (step : sys.step w action = some w') (later : Passes w' rest states) :
    Passes w (action :: rest) states

variable {sys} {w w' : World σ W R χ ε q ρ}

/-- What a run passes from its last state on. -/
theorem System.Passes.of_run {actions actions' : List (Action χ q)} {states : List σ}
    (hrun : sys.run w actions = some w') (h : sys.Passes w' actions' states) :
    sys.Passes w (actions ++ actions') states := by
  induction actions generalizing w with
  | nil =>
    cases hrun
    exact h
  | cons action rest ih =>
    obtain ⟨w₁, hstep, hrest⟩ := Option.bind_eq_some_iff.mp hrun
    exact .step hstep (ih hrest)

/-- Moments at which nothing happens. -/
theorem System.Passes.replicate {actions : List (Action χ q)} (n : ℕ) {states : List σ}
    (h : sys.Passes w actions states) :
    sys.Passes w actions (List.replicate n w.committed ++ states) := by
  induction n with
  | zero => exact h
  | succ n ih => exact .now ih

/-- **The states a run passes are related** as the states before and after each of
its steps are. -/
theorem System.Passes.related {condition : q → List W → σ → Prop}
    {P : World σ W R χ ε q ρ → Prop} {T : σ → σ → Prop}
    (hrefl : ∀ w, P w → T w.committed w.committed)
    (htrans : ∀ s s' s'', T s s' → T s' s'' → T s s'')
    (hstep : ∀ w w' action, P w → (∀ id tx, action = .commit id → w.running? id = some tx →
      condition tx.request tx.writes w.committed) → sys.step w action = some w' →
      P w' ∧ T w.committed w'.committed)
    {actions : List (Action χ q)} {states : List σ} (h : sys.Passes w actions states) (hp : P w)
    (hmeets : sys.CommitsMeet condition w actions) :
    (∀ s ∈ states, (∃ w', P w' ∧ w'.committed = s) ∧ T w.committed s) ∧ states.Pairwise T := by
  induction h with
  | nil w actions => exact ⟨fun _ hs => absurd hs List.not_mem_nil, .nil⟩
  | @now w actions states later ih =>
    obtain ⟨hall, hpairs⟩ := ih hp hmeets
    refine ⟨List.forall_mem_cons.mpr ⟨⟨⟨w, hp, rfl⟩, hrefl w hp⟩, hall⟩, ?_⟩
    exact .cons (fun s hs => (hall s hs).2) hpairs
  | @step w w₁ action rest states step later ih =>
    obtain ⟨hp₁, hfirst⟩ := hstep w w₁ action hp hmeets.1 step
    obtain ⟨hall, hpairs⟩ := ih hp₁ (hmeets.2 w₁ step)
    exact ⟨fun s hs => ⟨(hall s hs).1, htrans _ _ _ hfirst (hall s hs).2⟩, hpairs⟩

end Passes

/-! ## From the first statement -/

/-- **A program ensures its postcondition if its first statement finds what it
needs.** After that the committed state may change as the discipline allows. -/
def Prog.EnsuresFrom (d : Discipline σ W R) (pre : σ → Prop)
    (post : List W → List R → σ → α → Prop) : Prog (View σ R χ) W R ε α → Prop
  | .ret a => ∀ s, post [] [] s a
  | .raise _ => True
  | .statement locks writes next => ∀ s, d.invariant s → pre s → ∀ locked choice,
    (∀ row ∈ locks ⟨s, locked, choice⟩, row ∉ locked) →
      (next ⟨s, locked, choice⟩).Ensures d post (writes ⟨s, locked, choice⟩)
        (locks ⟨s, locked, choice⟩) s

/-- The rule of consequence. -/
theorem Prog.EnsuresFrom.mono {d : Discipline σ W R} {pre : σ → Prop}
    {post post' : List W → List R → σ → α → Prop} {m : Prog (View σ R χ) W R ε α}
    (h : m.EnsuresFrom d pre post)
    (hpost : ∀ writes locks s a, post writes locks s a → post' writes locks s a) :
    m.EnsuresFrom d pre post' := by
  cases m with
  | ret a => exact fun s => hpost _ _ _ _ (h s)
  | raise e => exact trivial
  | statement locks writes next =>
    exact fun s hinv hpre locked choice hfree => (h s hinv hpre locked choice hfree).mono hpost

/-- What is ensured anyway needs nothing. -/
theorem Prog.ensuresFrom_of_ensures {d : Discipline σ W R} {pre : σ → Prop}
    {post : List W → List R → σ → α → Prop} {m : Prog (View σ R χ) W R ε α}
    (h : ∀ s, m.Ensures d post [] [] s) : m.EnsuresFrom d pre post := by
  cases m with
  | ret a => exact h
  | raise e => exact trivial
  | statement locks writes next =>
    exact fun s hinv _ locked choice hfree => h s s (d.rely_refl [] s) hinv locked choice hfree

/-- **A program that first reads**: it goes on with what it finds. -/
theorem Prog.ensuresFrom_read {d : Discipline σ W R} {pre : σ → Prop}
    {post : List W → List R → σ → β → Prop} {query : View σ R χ → α}
    {f : α → Prog (View σ R χ) W R ε β}
    (h : ∀ s locked choice found, d.invariant s → pre s → query ⟨s, locked, choice⟩ = found →
      (f found).Ensures d post [] [] s) : (Prog.read query >>= f).EnsuresFrom d pre post :=
  fun s hinv hpre locked choice _ => h s locked choice _ hinv hpre rfl

section First

variable [DecidableEq R] {sys : System σ W R χ ε q ρ} {d : Discipline σ W R}
  {invariant : σ → List (q × ρ) → Prop} {post post' : q → List W → List R → σ → ρ → Prop}
  {condition : q → List W → σ → Prop} {pre : q → σ → Prop} {w w' : World σ W R χ ε q ρ}

/-- The first statement of a transaction finds what its request needs. -/
def FirstStatement (sys : System σ W R χ ε q ρ) (id : ℕ) (pre : q → σ → Prop)
    (w : World σ W R χ ε q ρ) : Action χ q → Prop
  | .advance other _ => other = id → ∀ tx, w.running? id = some tx →
    tx.prog = sys.program tx.request → pre tx.request w.committed
  | _ => True

/-- Every statement of a transaction finds what its request needs. Other than for the first
one this can be computed. -/
def EveryStatement (id : ℕ) (pre : q → σ → Prop) (w : World σ W R χ ε q ρ) :
    Action χ q → Prop
  | .advance other _ => other = id → ∀ tx ∈ (w.running? id).toList, pre tx.request w.committed
  | _ => True

instance [∀ request s, Decidable (pre request s)] (id : ℕ) (w : World σ W R χ ε q ρ)
    (action : Action χ q) : Decidable (EveryStatement id pre w action) := by
  cases action <;> unfold EveryStatement <;> infer_instance

omit [DecidableEq R] in
/-- If all statements find it, the first one does. -/
theorem EveryStatement.first {id : ℕ} {action : Action χ q}
    (h : EveryStatement id pre w action) : FirstStatement sys id pre w action := by
  cases action with
  | advance other choice => exact fun hid tx htx _ => h hid tx (Option.mem_toList.mpr htx)
  | _ => exact trivial

/-- A transaction that has not made a statement, or ensures its postcondition. -/
def World.Underway (sys : System σ W R χ ε q ρ) (d : Discipline σ W R)
    (post : q → List W → List R → σ → ρ → Prop) (w : World σ W R χ ε q ρ)
    (tx : Running σ W R χ ε q ρ) : Prop :=
  (tx.prog = sys.program tx.request ∧ tx.writes = [] ∧ tx.locks = [])
    ∨ ∃ s, d.rely tx.locks s w.committed
      ∧ tx.prog.Ensures d (post tx.request) tx.writes tx.locks s

/-- **A step keeps a transaction under way**, if its first statement finds what it
needs. -/
theorem System.Respects.underway (h : sys.Respects d invariant post condition)
    (hprograms : ∀ request, (sys.program request).EnsuresFrom d (pre request) (post' request))
    (hgood : w.Good d invariant post) {id : ℕ}
    (hlive : ∀ tx ∈ w.live, tx.id = id → w.Underway sys d post' tx) {action : Action χ q}
    (hcondition : ∀ other tx, action = .commit other → w.running? other = some tx →
      condition tx.request tx.writes w.committed)
    (hfirst : FirstStatement sys id pre w action) (hstep : sys.step w action = some w') :
    ∀ tx ∈ w'.live, tx.id = id → w'.Underway sys d post' tx := by
  intro tx htx hid
  rcases h.live_cases hgood hcondition hstep htx with ⟨request, rfl, -⟩
    | ⟨old, choice, locks, writes, next, hmade, hcommitted⟩ | ⟨hmem, hrely⟩
  · exact .inl ⟨rfl, rfl, rfl⟩
  · have hinv := h.committed _ _ hgood.invariant
    obtain ⟨hold, holdId⟩ := World.mem_of_running? hmade.running
    rw [hmade.action] at hfirst
    have hfree := hmade.free
    unfold World.Underway
    rw [hmade.eq, hcommitted]
    refine .inr ⟨w.committed, d.rely_refl _ _, ?_⟩
    rcases hlive old hold (holdId.trans hid) with ⟨hstart, hwrites, hlocks⟩ | ⟨s, hs, hensures⟩
    · -- the first statement
      have hpre := hfirst hid old (hid ▸ hmade.running) hstart
      have hfrom := hprograms old.request
      rw [← hstart, hmade.prog] at hfrom
      rw [hwrites] at hfree
      rw [hwrites, hlocks]
      exact hfrom w.committed hinv hpre _ choice hfree
    · rw [hmade.prog] at hensures
      exact hensures w.committed hs hinv _ choice hfree
  · refine (hlive tx hmem hid).imp (fun h' => h') (fun hrunning => ?_)
    obtain ⟨s, hs, hensures⟩ := hrunning
    exact ⟨s, d.rely_trans _ _ _ _ hs hrely, hensures⟩

/-- **A transaction whose first statement finds what it needs** ensures its
postcondition to the end of the run. -/
theorem System.Respects.underway_of_run (h : sys.Respects d invariant post condition)
    (hprograms : ∀ request, (sys.program request).EnsuresFrom d (pre request) (post' request))
    (hconditions : ∀ request writes s, condition request writes s)
    (hgood : w.Good d invariant post) {id : ℕ}
    (hlive : ∀ tx ∈ w.live, tx.id = id → w.Underway sys d post' tx) {actions : List (Action χ q)}
    (hmeets : sys.Meets (FirstStatement sys id pre) w actions)
    (hrun : sys.run w actions = some w') :
    w'.Good d invariant post ∧ ∀ tx ∈ w'.live, tx.id = id → w'.Underway sys d post' tx :=
  System.run_keeps
    (P := fun w => w.Good d invariant post ∧ ∀ tx ∈ w.live, tx.id = id → w.Underway sys d post' tx)
    (fun _ _ _ hp hfirst hstep =>
      ⟨(h.step hp.1 (fun _ _ _ _ => hconditions _ _ _) hstep).1,
        h.underway hprograms hp.1 hp.2 (fun _ _ _ _ => hconditions _ _ _) hfirst hstep⟩)
    ⟨hgood, hlive⟩ hmeets hrun

end First

/-! ## What a run commits -/

section Commits

variable [DecidableEq R] (sys : System σ W R χ ε q ρ)

/-- The transaction a step commits: its request and its writes. -/
def World.commits (w : World σ W R χ ε q ρ) : Action χ q → Option (q × List W)
  | .commit id => (w.running? id).map (fun tx => (tx.request, tx.writes))
  | _ => none

/-- **The transactions a run commits**, in order. -/
def System.commits (w : World σ W R χ ε q ρ) : List (Action χ q) → List (q × List W)
  | [] => []
  | action :: rest =>
    (w.commits action).toList
      ++ ((sys.step w action).map (fun w' => System.commits w' rest)).getD []

variable {sys} {w w' : World σ W R χ ε q ρ}

/-- One step commits the writes of one transaction or none. -/
theorem System.committed_of_step {action : Action χ q} (h : sys.step w action = some w') :
    w'.committed = sys.view ((w.commits action).toList.flatMap Prod.snd) w.committed := by
  cases action with
  | start request =>
    cases h
    rfl
  | abort id =>
    cases h
    rfl
  | advance id choice =>
    obtain ⟨tx, locks, writes, next, view, -, -, -, -, rfl⟩ := sys.advance_eq_some h
    rfl
  | commit id =>
    obtain ⟨tx, result, htx, -, -, rfl⟩ := sys.commit_eq_some h
    show sys.view tx.writes w.committed
      = sys.view (((w.running? id).map _).toList.flatMap Prod.snd) w.committed
    rw [htx]
    show _ = sys.view (tx.writes ++ []) w.committed
    rw [List.append_nil]

/-- **What is committed** is what the committed writes make of the first state. -/
theorem System.committed_of_run {actions : List (Action χ q)}
    (h : sys.run w actions = some w') :
    w'.committed = sys.view ((sys.commits w actions).flatMap Prod.snd) w.committed := by
  induction actions generalizing w with
  | nil =>
    cases h
    rfl
  | cons action rest ih =>
    obtain ⟨w₁, hstep, hrest⟩ := Option.bind_eq_some_iff.mp h
    show _ = sys.view (((w.commits action).toList
      ++ ((sys.step w action).map (fun w' => sys.commits w' rest)).getD []).flatMap Prod.snd) _
    rw [hstep, ih hrest, System.committed_of_step hstep, List.flatMap_append]
    exact (List.foldl_append ..).symm

/-- The commits of a run, step by step. -/
theorem System.commits_cons {action : Action χ q} {rest : List (Action χ q)}
    (h : sys.step w action = some w') :
    sys.commits w (action :: rest) = (w.commits action).toList ++ sys.commits w' rest := by
  show _ ++ ((sys.step w action).map _).getD [] = _
  rw [h]
  rfl

/-- **Where a commit of a run stands**: the steps before it, and the world they
lead to. -/
theorem System.commits_split {actions : List (Action χ q)} (hrun : sys.run w actions = some w')
    {pre rest : List (q × List W)} {commit : q × List W}
    (h : sys.commits w actions = pre ++ commit :: rest) :
    ∃ earlier id later w₁ w₂ tx, actions = earlier ++ .commit id :: later
      ∧ sys.run w earlier = some w₁ ∧ sys.commits w earlier = pre
      ∧ w₁.running? id = some tx ∧ commit = (tx.request, tx.writes)
      ∧ sys.step w₁ (.commit id) = some w₂ := by
  induction actions generalizing w pre with
  | nil =>
    have hlength := congrArg List.length h
    rw [List.length_append] at hlength
    cases hlength
  | cons action others ih =>
    obtain ⟨w₁, hstep, hrest⟩ := Option.bind_eq_some_iff.mp hrun
    rw [System.commits_cons hstep] at h
    -- the commit comes later
    have hgoOn : ∀ {pre' : List (q × List W)}, (w.commits action).toList ++ pre' = pre →
        sys.commits w₁ others = pre' ++ commit :: rest → ∃ earlier id later w₁ w₂ tx,
          action :: others = earlier ++ .commit id :: later
          ∧ sys.run w earlier = some w₁ ∧ sys.commits w earlier = pre
          ∧ w₁.running? id = some tx ∧ commit = (tx.request, tx.writes)
          ∧ sys.step w₁ (.commit id) = some w₂ := by
      intro pre' hpre hcommits
      obtain ⟨earlier, id, later, w₂, w₃, tx, rfl, hearlier, hcommits', htx, heq, hlast⟩ :=
        ih hrest hcommits
      refine ⟨action :: earlier, id, later, w₂, w₃, tx, rfl, ?_, ?_, htx, heq, hlast⟩
      · show (sys.step w action).bind _ = some w₂
        rw [hstep]
        exact hearlier
      · rw [System.commits_cons hstep, hcommits', hpre]
    cases hcommit : w.commits action with
    | none =>
      rw [hcommit] at h hgoOn
      exact hgoOn rfl h
    | some first =>
      rw [hcommit] at h hgoOn
      cases pre with
      | cons other pre =>
        obtain ⟨hfirst, hothers⟩ := List.cons.inj h
        exact hgoOn (congrArg (· :: pre) hfirst) hothers
      | nil =>
        obtain ⟨rfl, -⟩ := List.cons.inj h
        cases action with
        | commit id =>
          obtain ⟨tx, htx, heq⟩ := Option.map_eq_some_iff.mp hcommit
          exact ⟨[], id, others, w, w₁, tx, rfl, rfl, rfl, htx, heq.symm, hstep⟩
        | _ => cases hcommit

/-- A transaction that commits, as its postcondition knows it. -/
structure CommitsAs (sys : System σ W R χ ε q ρ) (d : Discipline σ W R)
    (invariant : σ → List (q × ρ) → Prop) (post : q → List W → List R → σ → ρ → Prop)
    (before : σ) (commit : q × List W) : Prop where
  invariant : ∃ log, invariant before log
  ok : sys.ok (sys.view commit.2 before) = true
  post : ∃ locks s result, d.rely locks s before ∧ post commit.1 commit.2 locks s result

/-- **Induction over what a run commits**: what holds of no commits, and of a commit
that meets its postcondition before others of which it holds, holds of every
run. -/
theorem System.Respects.commits_induction {d : Discipline σ W R}
    {invariant : σ → List (q × ρ) → Prop} {post : q → List W → List R → σ → ρ → Prop}
    {condition : q → List W → σ → Prop} (h : sys.Respects d invariant post condition)
    {P : σ → List (q × List W) → σ → Prop} (nil : ∀ s, P s [] s)
    (cons : ∀ s commit rest s', CommitsAs sys d invariant post s commit →
      condition commit.1 commit.2 s → P (sys.view commit.2 s) rest s' → P s (commit :: rest) s')
    {actions : List (Action χ q)} (hgood : w.Good d invariant post)
    (hmeets : sys.CommitsMeet condition w actions) (hrun : sys.run w actions = some w') :
    P w.committed (sys.commits w actions) w'.committed := by
  induction actions generalizing w with
  | nil =>
    cases hrun
    exact nil _
  | cons action rest ih =>
    obtain ⟨w₁, hstep, hrest⟩ := Option.bind_eq_some_iff.mp hrun
    have hgood₁ := (h.step hgood hmeets.1 hstep).1
    have hlater := ih hgood₁ (hmeets.2 w₁ hstep) hrest
    have hcommitted := System.committed_of_step hstep
    rw [System.commits_cons hstep]
    cases hcommit : w.commits action with
    | none =>
      rw [hcommit] at hcommitted
      rw [show w₁.committed = w.committed from hcommitted] at hlater
      exact hlater
    | some commit =>
      cases action with
      | commit id =>
        obtain ⟨tx, htx, rfl⟩ := Option.map_eq_some_iff.mp hcommit
        obtain ⟨tx', result, htx', hprog, hok, rfl⟩ := sys.commit_eq_some hstep
        rw [htx] at htx'
        cases htx'
        obtain ⟨s, hrely, hpost⟩ := hgood.of_running htx hprog
        exact cons _ _ _ _ ⟨⟨_, hgood.invariant⟩, hok, tx.locks, s, result, hrely, hpost⟩
          (hmeets.1 id tx rfl htx) hlater
      | _ => cases hcommit

end Commits

end CohortSwitch
