import Mathlib.Data.List.Basic

/-!
# Interleaved transactions

A database server runs transactions statement by statement. A transaction is a
`Prog`: a tree of statements, each of which sees the state committed at the
moment it starts with the transaction's own writes on top, takes row locks,
records its writes, and decides how to go on. Nothing a transaction writes is
visible to another one before it commits, and what it writes it writes as a
whole: this is READ COMMITTED isolation. A `System` is the server: how a write
changes a state, which states its constraints allow, and which program a
request runs. `System.step` interleaves any number of transactions in any
order, and a transaction may abort at any point.

Three things are left to the environment in each statement: the order in which
rows come back, the clock, and random identifiers. They arrive with the view of
the statement (`View.choice`), so a program is a function of what it sees, and a
theorem about every run quantifies over them.

## The discipline of a server

What such a system keeps is proved transaction by transaction. A `Discipline`
names the invariant of the committed states and a relation `rely`: what the
commits of other transactions may do to a state while certain rows are locked.
`Prog.Ensures` follows one program, lets the state change by `rely` before
each statement, and asks for a postcondition at the end; `Ensures.bind`
composes it along the program. The postcondition speaks of what the transaction
wrote, which rows it holds and the state it last saw, so that the commit can be
judged by what others may have made of that state since.

If every program ensures its postcondition, and a commit with that postcondition
keeps the invariant and is a change the others rely on, then every run keeps the
invariant (`System.run_good`). This is rely-guarantee reasoning with locks: the
rows a transaction has locked appear in `rely`, and a commit has to be a change
that every other transaction relies on with the rows that it holds.

## Runs and moments

`System.run` is a run given as a list of actions; an action that cannot be taken
ends it. `System.Moments` are the states committed at successive moments of one
run. A reader that takes several statements, each of which sees a committed
state, is placed on such moments, and `System.Respects.moments` gives what the
discipline says of any two of them.
-/

namespace CohortSwitch

/-! ## Programs -/

/-- What a statement sees: the state, the rows other transactions hold locked, and everything
that is up to the environment (the order in which rows come, the clock, random identifiers). -/
structure View (σ R χ : Type) where
  /-- What is committed, with the writes of the transaction on top. -/
  state : σ
  /-- The rows it would have to wait for. -/
  locked : List R
  /-- What is up to the environment. -/
  choice : χ

/-- **A transaction**, as a tree of statements. A statement is given a view of the state and
gives back the rows it locks, its writes, and the rest of the program for the result it returns;
a leaf is a result or an exception. What the code does between two statements is in the
branches, so a program says everything a transaction can do without saying what it will see. -/
inductive Prog (V W R ε α : Type) where
  /-- The transaction is done and may commit. -/
  | ret (a : α)
  /-- An exception ends it, and it rolls back. -/
  | raise (e : ε)
  /-- A statement: what it locks, what it writes, and how the program goes on with what it saw.
  -/
  | statement (locks : V → List R) (writes : V → List W) (next : V → Prog V W R ε α)

namespace Prog

variable {V W R ε α β : Type}

/-- One program after another. -/
def bind (f : α → Prog V W R ε β) : Prog V W R ε α → Prog V W R ε β
  | ret a => f a
  | raise e => raise e
  | statement locks writes next => statement locks writes (fun v => (next v).bind f)

instance : Monad (Prog V W R ε) where
  pure := ret
  bind m f := m.bind f

/-- Sequencing is associative. -/
theorem bind_assoc {γ : Type} (m : Prog V W R ε α) (f : α → Prog V W R ε β)
    (g : β → Prog V W R ε γ) : (m >>= f) >>= g = m >>= (fun a => f a >>= g) := by
  induction m with
  | ret a => rfl
  | raise e => rfl
  | statement locks writes next ih => exact congrArg (statement locks writes) (funext ih)

/-- What a computation without statements returns or raises. -/
def attempt : Except ε α → Prog V W R ε α
  | .ok a => ret a
  | .error e => raise e

/-- A statement that only reads. -/
def read (f : V → α) : Prog V W R ε α :=
  statement (fun _ => []) (fun _ => []) (fun v => ret (f v))

/-- **What a program that only reads returns**, when its statements see the
given views one after the other. -/
def observe : Prog V W R ε α → List V → Option (Except ε α)
  | ret a, [] => some (.ok a)
  | raise e, [] => some (.error e)
  | statement _ _ next, v :: views => (next v).observe views
  | _, _ => none

/-- What is made of the result of a program changes nothing it observes. -/
theorem observe_map (f : α → β) (m : Prog V W R ε α) (views : List V) :
    (m >>= fun a => pure (f a)).observe views = (m.observe views).map (Except.map f) := by
  induction m generalizing views with
  | ret a => cases views <;> rfl
  | raise e => cases views <;> rfl
  | statement locks writes next ih =>
    cases views with
    | nil => rfl
    | cons v views => exact ih v views

/-- **What a program that only reads returns** where every statement sees the
same. -/
def resultIn (v : V) : Prog V W R ε α → Except ε α
  | ret a => .ok a
  | raise e => .error e
  | statement _ _ next => (next v).resultIn v

/-- In one view a sequence runs its parts in turn. -/
theorem resultIn_bind (v : V) (m : Prog V W R ε α) (f : α → Prog V W R ε β) :
    (m >>= f).resultIn v = m.resultIn v >>= fun a => (f a).resultIn v := by
  induction m with
  | ret a => rfl
  | raise e => rfl
  | statement locks writes next ih => exact ih v

@[simp] theorem resultIn_attempt (v : V) (x : Except ε α) :
    (attempt x : Prog V W R ε α).resultIn v = x := by
  cases x <;> rfl

/-- **Whatever a program returns** has a property, whatever its statements
see. -/
def Yields (P : α → Prop) : Prog V W R ε α → Prop
  | ret a => P a
  | raise _ => True
  | statement _ _ next => ∀ v, (next v).Yields P

/-- The rule of composition for what is returned. -/
theorem Yields.bind {m : Prog V W R ε α} {f : α → Prog V W R ε β} {P : α → Prop}
    {Q : β → Prop} (hm : m.Yields P) (hf : ∀ a, P a → (f a).Yields Q) : (m >>= f).Yields Q := by
  induction m with
  | ret a => exact hf a hm
  | raise e => exact trivial
  | statement locks writes next ih => exact fun v => ih v (hm v)

/-- The rule of consequence for what is returned. -/
theorem Yields.mono {m : Prog V W R ε α} {P Q : α → Prop} (hpq : ∀ a, P a → Q a)
    (hm : m.Yields P) : m.Yields Q := by
  induction m with
  | ret a => exact hpq a hm
  | raise e => exact trivial
  | statement locks writes next ih => exact fun v => ih v (hm v)

/-- What a computation without statements returns. -/
theorem yields_attempt {x : Except ε α} {P : α → Prop} (h : ∀ a, x = .ok a → P a) :
    (attempt x : Prog V W R ε α).Yields P := by
  cases x with
  | ok a => exact h a rfl
  | error e => exact trivial

/-- Nothing is asked of what is returned. -/
theorem yields_true (m : Prog V W R ε α) : m.Yields (fun _ => True) := by
  induction m with
  | ret a => exact trivial
  | raise e => exact trivial
  | statement locks writes next ih => exact ih

/-- **A program that only reads**: no statement locks or writes. -/
def Reads : Prog V W R ε α → Prop
  | ret _ => True
  | raise _ => True
  | statement locks writes next => ∀ v, locks v = [] ∧ writes v = [] ∧ (next v).Reads

/-- A statement that only reads does. -/
theorem reads_read (f : V → α) : (read f : Prog V W R ε α).Reads := fun _ => ⟨rfl, rfl, trivial⟩

/-- No statement writes nothing. -/
theorem reads_attempt (x : Except ε α) : (attempt x : Prog V W R ε α).Reads := by
  cases x <;> exact trivial

/-- **Programs that only read compose.** -/
theorem Reads.bind {m : Prog V W R ε α} {f : α → Prog V W R ε β} (hm : m.Reads)
    (hf : ∀ a, (f a).Reads) : (m >>= f).Reads := by
  induction m with
  | ret a => exact hf a
  | raise e => exact trivial
  | statement locks writes next ih =>
    exact fun v => ⟨(hm v).1, (hm v).2.1, ih v (hm v).2.2⟩

end Prog

/-! ## The server -/

/-- **A server**: the effect of a write, the constraints a committed state has to satisfy, and
the program of each request. It is all that has to be given of a service; what can happen to its
requests is then `step`. -/
structure System (σ W R χ ε q ρ : Type) where
  /-- The effect of a write. -/
  apply : σ → W → σ
  /-- The constraints of the schema, checked at the commit. -/
  ok : σ → Bool
  /-- What a request runs. -/
  program : q → Prog (View σ R χ) W R ε ρ

/-- A transaction under way: what is left of its program, and what it wrote
and locked. -/
structure Running (σ W R χ ε q ρ : Type) where
  id : ℕ
  request : q
  /-- What is left of its program. -/
  prog : Prog (View σ R χ) W R ε ρ
  /-- What it wrote so far, which no other transaction sees. -/
  writes : List W
  /-- The rows it holds until it ends. -/
  locks : List R

/-- **A state of the server**: what is committed, the results returned so far, and the
transactions under way. The writes of a transaction are kept with it until it commits, so an
abort has nothing to undo. -/
structure World (σ W R χ ε q ρ : Type) where
  /-- What a statement that starts now would see. -/
  committed : σ
  /-- The requests that committed, with what they returned, in the order of their commits. -/
  log : List (q × ρ)
  live : List (Running σ W R χ ε q ρ)
  /-- The id of the next transaction. -/
  next : ℕ

/-- One step of some transaction: a request comes, a statement runs with what the environment
chooses, and the transaction ends one way or the other. -/
inductive Action (χ q : Type) where
  /-- A request comes in. -/
  | start (request : q)
  /-- The next statement of a transaction runs. -/
  | advance (id : ℕ) (choice : χ)
  /-- Its writes become visible, all at once. -/
  | commit (id : ℕ)
  /-- It ends and leaves nothing. -/
  | abort (id : ℕ)

variable {σ W R χ ε q ρ α β : Type}

/-- The state a transaction sees: what is committed with its own writes on
top. -/
def System.view (sys : System σ W R χ ε q ρ) (writes : List W) (s : σ) : σ :=
  writes.foldl sys.apply s

namespace World

variable (w : World σ W R χ ε q ρ)

/-- The transaction of an id. -/
def running? (id : ℕ) : Option (Running σ W R χ ε q ρ) :=
  w.live.find? (fun tx => tx.id = id)

/-- The rows other transactions hold locked. -/
def lockedByOthers (id : ℕ) : List R :=
  (w.live.filter (fun tx => tx.id ≠ id)).flatMap Running.locks

/-- The world with a transaction in its new state. -/
def update (tx : Running σ W R χ ε q ρ) : World σ W R χ ε q ρ :=
  { w with live := w.live.map (fun other => if other.id = tx.id then tx else other) }

/-- The world without a transaction. -/
def remove (id : ℕ) : World σ W R χ ε q ρ :=
  { w with live := w.live.filter (fun tx => tx.id ≠ id) }

end World

namespace System

variable [DecidableEq R] (sys : System σ W R χ ε q ρ)

/-- **One step of the server.** A statement waits while another transaction
holds a row it locks, so it has no step then; a commit has none where the
constraints refuse the result. -/
def step (w : World σ W R χ ε q ρ) : Action χ q → Option (World σ W R χ ε q ρ)
  | .start request =>
    some { w with
      live := w.live ++ [⟨w.next, request, sys.program request, [], []⟩]
      next := w.next + 1 }
  | .advance id choice =>
    match w.running? id with
    | none => none
    | some tx =>
      match tx.prog with
      | .statement locks writes next =>
        let view := View.mk (sys.view tx.writes w.committed) (w.lockedByOthers id) choice
        if ∀ row ∈ locks view, row ∉ view.locked then
          some (w.update { tx with
            prog := next view
            writes := tx.writes ++ writes view
            locks := tx.locks ++ locks view })
        else none
      | _ => none
  | .commit id =>
    match w.running? id with
    | none => none
    | some tx =>
      match tx.prog with
      | .ret result =>
        let committed := sys.view tx.writes w.committed
        if sys.ok committed then
          some { w.remove id with committed, log := w.log ++ [(tx.request, result)] }
        else none
      | _ => none
  | .abort id => some (w.remove id)

/-- **A run of the server.** -/
def run (w : World σ W R χ ε q ρ) : List (Action χ q) → Option (World σ W R χ ε q ρ)
  | [] => some w
  | action :: rest => (sys.step w action).bind (fun w' => run w' rest)

/-- Every transaction that commits in the run meets a condition on what it
writes and on the state it commits to. -/
def CommitsMeet (condition : q → List W → σ → Prop) (w : World σ W R χ ε q ρ) :
    List (Action χ q) → Prop
  | [] => True
  | action :: rest =>
    (∀ id tx, action = .commit id → w.running? id = some tx →
      condition tx.request tx.writes w.committed)
    ∧ ∀ w', sys.step w action = some w' → CommitsMeet condition w' rest

/-- A condition that always holds is met. -/
theorem commitsMeet_of_forall {condition : q → List W → σ → Prop}
    (h : ∀ request writes s, condition request writes s) (w : World σ W R χ ε q ρ)
    (actions : List (Action χ q)) : sys.CommitsMeet condition w actions := by
  induction actions generalizing w with
  | nil => exact trivial
  | cons action rest ih => exact ⟨fun _ _ _ _ => h _ _ _, fun w' _ => ih w'⟩

/-- Whether every commit of the run meets a condition that can be computed. -/
def checkCommits (condition : q → List W → σ → Bool) (w : World σ W R χ ε q ρ) :
    List (Action χ q) → Bool
  | [] => true
  | action :: rest =>
    (match action with
      | .commit id =>
        (w.running? id).all (fun tx => condition tx.request tx.writes w.committed)
      | _ => true)
    && (sys.step w action).all (fun w' => checkCommits condition w' rest)

/-- A condition that was computed along the run is met. -/
theorem commitsMeet_of_check {condition : q → List W → σ → Prop}
    [∀ request writes s, Decidable (condition request writes s)] {w : World σ W R χ ε q ρ}
    {actions : List (Action χ q)}
    (h : sys.checkCommits (fun request writes s => decide (condition request writes s)) w actions
      = true) : sys.CommitsMeet condition w actions := by
  induction actions generalizing w with
  | nil => exact trivial
  | cons action rest ih =>
    obtain ⟨hcommit, hrest⟩ := Bool.and_eq_true_iff.mp h
    refine ⟨?_, fun w' hstep => ?_⟩
    · rintro id tx rfl htx
      change (w.running? id).all _ = true at hcommit
      rw [htx] at hcommit
      exact of_decide_eq_true hcommit
    · rw [hstep] at hrest
      exact ih hrest

/-- **What the statement of a transaction does.** -/
theorem advance_eq_some {w w' : World σ W R χ ε q ρ} {id : ℕ} {choice : χ}
    (h : sys.step w (.advance id choice) = some w') :
    ∃ tx locks writes next view, w.running? id = some tx
      ∧ tx.prog = .statement locks writes next
      ∧ view = View.mk (sys.view tx.writes w.committed) (w.lockedByOthers id) choice
      ∧ (∀ row ∈ locks view, row ∉ view.locked)
      ∧ w' = w.update { tx with
          prog := next view
          writes := tx.writes ++ writes view
          locks := tx.locks ++ locks view } := by
  dsimp only [step] at h
  split at h
  · cases h
  · rename_i tx htx
    split at h
    · rename_i locks writes next hprog
      split at h
      · rename_i hfree
        cases h
        exact ⟨tx, locks, writes, next, _, htx, hprog, rfl, hfree, rfl⟩
      · cases h
    · cases h

/-- **What the commit of a transaction does.** -/
theorem commit_eq_some {w w' : World σ W R χ ε q ρ} {id : ℕ}
    (h : sys.step w (.commit id) = some w') :
    ∃ tx result, w.running? id = some tx ∧ tx.prog = .ret result
      ∧ sys.ok (sys.view tx.writes w.committed) = true
      ∧ w' = { w.remove id with
          committed := sys.view tx.writes w.committed
          log := w.log ++ [(tx.request, result)] } := by
  dsimp only [step] at h
  split at h
  · cases h
  · rename_i tx htx
    split at h
    · rename_i result hprog
      split at h
      · rename_i hok
        cases h
        exact ⟨tx, result, htx, hprog, hok, rfl⟩
      · cases h
    · cases h

/-- A run goes on from where another one ended. -/
theorem run_append (w : World σ W R χ ε q ρ) (actions actions' : List (Action χ q)) :
    sys.run w (actions ++ actions')
      = (sys.run w actions).bind (fun w' => sys.run w' actions') := by
  induction actions generalizing w with
  | nil => rfl
  | cons action rest ih =>
    show (sys.step w action).bind _ = ((sys.step w action).bind _).bind _
    cases sys.step w action with
    | none => rfl
    | some w' => exact ih w'

/-- **What is committed at successive moments of a run** that goes on from a
world. -/
inductive Moments : World σ W R χ ε q ρ → List σ → Prop
  | nil (w : World σ W R χ ε q ρ) : Moments w []
  | cons {w w' : World σ W R χ ε q ρ} {actions : List (Action χ q)} {states : List σ}
    (run : sys.run w actions = some w') (later : Moments w' states) :
    Moments w (w'.committed :: states)

/-- Each of the states is the one a run leads to. -/
theorem Moments.exists_run {w : World σ W R χ ε q ρ} {states : List σ}
    (h : sys.Moments w states) :
    ∀ s ∈ states, ∃ actions w', sys.run w actions = some w' ∧ w'.committed = s := by
  induction h with
  | nil w => exact fun s hs => absurd hs List.not_mem_nil
  | @cons w w' actions states run later ih =>
    refine List.forall_mem_cons.mpr ⟨⟨actions, w', run, rfl⟩, fun s hs => ?_⟩
    obtain ⟨actions', w'', run', hs⟩ := ih s hs
    refine ⟨actions ++ actions', w'', ?_, hs⟩
    rw [run_append, run, Option.bind_some, run']

end System

/-! ## Reasoning about one transaction -/

/-- **What transactions rely on**: an invariant of the committed states, and what commits of
others may change while one holds certain rows locked. The second part is a relation between
states that is reflexive and transitive, so it does not matter how many others commit between
two statements. -/
structure Discipline (σ W R : Type) where
  apply : σ → W → σ
  /-- What holds of every committed state. -/
  invariant : σ → Prop
  /-- What others may do to the state while the given rows are locked. -/
  rely : List R → σ → σ → Prop
  rely_refl : ∀ locks s, rely locks s s
  rely_trans : ∀ locks s s' s'', rely locks s s' → rely locks s' s'' → rely locks s s''

/-- **A program ensures its postcondition**, from the given writes and locks and the state
committed at its last statement. Before each statement the committed state may change as the
discipline allows, which is where the commits of others come in; an exception rolls back and
ensures nothing. -/
def Prog.Ensures (d : Discipline σ W R) (post : List W → List R → σ → α → Prop) :
    Prog (View σ R χ) W R ε α → List W → List R → σ → Prop
  | .ret a, writes, locks, s => post writes locks s a
  | .raise _, _, _, _ => True
  | .statement locks' writes' next, writes, locks, s =>
    ∀ s', d.rely locks s s' → d.invariant s' → ∀ locked choice,
      (∀ row ∈ locks' ⟨writes.foldl d.apply s', locked, choice⟩, row ∉ locked) →
      (next ⟨writes.foldl d.apply s', locked, choice⟩).Ensures d post
        (writes ++ writes' ⟨writes.foldl d.apply s', locked, choice⟩)
        (locks ++ locks' ⟨writes.foldl d.apply s', locked, choice⟩) s'

namespace Prog

variable {d : Discipline σ W R} {writes : List W} {locks : List R} {s : σ}

/-- **The rule of composition.** -/
theorem Ensures.bind {m : Prog (View σ R χ) W R ε α} {f : α → Prog (View σ R χ) W R ε β}
    {M : List W → List R → σ → α → Prop} {post : List W → List R → σ → β → Prop}
    (hm : m.Ensures d M writes locks s)
    (hf : ∀ writes locks s a, M writes locks s a → (f a).Ensures d post writes locks s) :
    (m >>= f).Ensures d post writes locks s := by
  induction m generalizing writes locks s with
  | ret a => exact hf _ _ _ a hm
  | raise e => exact trivial
  | statement locks' writes' next ih =>
    intro s' hrely hinv locked choice hfree
    exact ih _ (hm s' hrely hinv locked choice hfree)

/-- The rule of consequence. -/
theorem Ensures.mono {m : Prog (View σ R χ) W R ε α}
    {post post' : List W → List R → σ → α → Prop}
    (hpost : ∀ writes locks s a, post writes locks s a → post' writes locks s a)
    (hm : m.Ensures d post writes locks s) : m.Ensures d post' writes locks s := by
  induction m generalizing writes locks s with
  | ret a => exact hpost _ _ _ a hm
  | raise e => exact trivial
  | statement locks' writes' next ih =>
    intro s' hrely hinv locked choice hfree
    exact ih _ (hm s' hrely hinv locked choice hfree)

/-- **The frame rule**: what no commit of others can undo holds to the end. -/
theorem Ensures.frame {m : Prog (View σ R χ) W R ε α}
    {post : List W → List R → σ → α → Prop} (hm : m.Ensures d post writes locks s)
    {K : σ → Prop} (hstable : ∀ locks s s', d.rely locks s s' → K s → K s')
    (h : K s) :
    m.Ensures d (fun writes locks s a => post writes locks s a ∧ K s) writes locks s := by
  induction m generalizing writes locks s with
  | ret a => exact ⟨hm, h⟩
  | raise e => exact trivial
  | statement locks' writes' next ih =>
    intro s' hrely hinv locked choice hfree
    exact ih _ (hm s' hrely hinv locked choice hfree) (hstable _ _ _ hrely h)

/-- The rule of the last step. -/
theorem Ensures.ret {post : List W → List R → σ → α → Prop} {a : α}
    (h : post writes locks s a) :
    (pure a : Prog (View σ R χ) W R ε α).Ensures d post writes locks s :=
  h

/-- A statement that only reads. -/
theorem ensures_read {f : View σ R χ → α} {post : List W → List R → σ → α → Prop}
    (h : ∀ s', d.rely locks s s' → d.invariant s' → ∀ locked choice,
      post writes locks s' (f ⟨writes.foldl d.apply s', locked, choice⟩)) :
    (read f : Prog (View σ R χ) W R ε α).Ensures d post writes locks s := by
  intro s' hrely hinv locked choice _
  show post (writes ++ []) (locks ++ []) s' _
  rw [List.append_nil, List.append_nil]
  exact h s' hrely hinv locked choice

/-- **A program that only reads** leaves the transaction where it was, in a
state others may have changed. -/
theorem Reads.ensures {m : Prog (View σ R χ) W R ε α} {P : α → Prop} (hm : m.Reads)
    (hyields : m.Yields P) :
    m.Ensures d (fun writes' locks' s' a => writes' = writes ∧ locks' = locks
      ∧ d.rely locks s s' ∧ P a) writes locks s := by
  induction m generalizing s with
  | ret a => exact ⟨rfl, rfl, d.rely_refl _ _, hyields⟩
  | raise e => exact trivial
  | statement locks' writes' next ih =>
    intro s' hrely _ locked choice _
    obtain ⟨hlocks, hwrites, hnext⟩ := hm ⟨writes.foldl d.apply s', locked, choice⟩
    rw [hlocks, hwrites, List.append_nil, List.append_nil]
    refine (ih _ hnext (hyields _)).mono (fun writes'' locks'' s'' a h => ?_)
    exact ⟨h.1, h.2.1, d.rely_trans _ _ _ _ hrely h.2.2.1, h.2.2.2⟩

end Prog

/-! ## Every run -/

section Soundness

variable [DecidableEq R]

/-- **A world in good order**: the invariant holds, no row is locked twice, and every
transaction under way still ensures its postcondition. It is the invariant of the runs: a step
of one transaction leaves what the others ensure, since it changes the committed state only as
they allow. -/
structure World.Good (d : Discipline σ W R) (invariant : σ → List (q × ρ) → Prop)
    (post : q → List W → List R → σ → ρ → Prop) (w : World σ W R χ ε q ρ) : Prop where
  invariant : invariant w.committed w.log
  /-- Locks exclude each other. -/
  separate : ∀ tx ∈ w.live, ∀ other ∈ w.live, tx.id ≠ other.id →
    ∀ row ∈ tx.locks, row ∉ other.locks
  /-- Each transaction still ensures its postcondition, from a state that others may have
  changed into the present one. -/
  running : ∀ tx ∈ w.live, ∃ s, d.rely tx.locks s w.committed
    ∧ tx.prog.Ensures d (post tx.request) tx.writes tx.locks s

/-- **What the programs of a server have to give.** Each program ensures its postcondition, and
a commit with this postcondition keeps the invariant and is a change the others rely on.
Everything that is proved of runs is proved from these. -/
structure System.Respects (sys : System σ W R χ ε q ρ) (d : Discipline σ W R)
    (invariant : σ → List (q × ρ) → Prop) (post : q → List W → List R → σ → ρ → Prop)
    (condition : q → List W → σ → Prop) : Prop where
  /-- Both speak of the same writes. -/
  apply : d.apply = sys.apply
  /-- The invariant of the server implies that of the discipline. -/
  committed : ∀ s log, invariant s log → d.invariant s
  /-- A program ensures its postcondition when it starts. -/
  start : ∀ request s, d.invariant s →
    (sys.program request).Ensures d (post request) [] [] s
  /-- A commit keeps the invariant, and others may rely on what it does as long as they hold
  none of its rows. -/
  commit : ∀ request writes locks s s' result log,
    post request writes locks s result → d.rely locks s s' → invariant s' log →
    sys.ok (sys.view writes s') = true → condition request writes s' →
    invariant (sys.view writes s') (log ++ [(request, result)])
      ∧ ∀ locks', (∀ row ∈ locks, row ∉ locks') → d.rely locks' s' (sys.view writes s')

variable {sys : System σ W R χ ε q ρ} {d : Discipline σ W R}
  {invariant : σ → List (q × ρ) → Prop} {post : q → List W → List R → σ → ρ → Prop}
  {condition : q → List W → σ → Prop} {w w' : World σ W R χ ε q ρ}

omit [DecidableEq R] in
/-- A transaction that is found is under way, under its id. -/
theorem World.mem_of_running? {id : ℕ} {tx : Running σ W R χ ε q ρ}
    (h : w.running? id = some tx) : tx ∈ w.live ∧ tx.id = id :=
  ⟨List.mem_of_find?_eq_some h, by simpa using List.find?_some h⟩

omit [DecidableEq R] in
/-- Who is under way after a step of one transaction. -/
theorem World.mem_update {tx other : Running σ W R χ ε q ρ} (h : other ∈ (w.update tx).live) :
    other = tx ∨ (other ∈ w.live ∧ other.id ≠ tx.id) := by
  obtain ⟨u, hu, heq⟩ := List.mem_map.mp h
  by_cases hid : u.id = tx.id
  · rw [if_pos hid] at heq
    exact Or.inl heq.symm
  · rw [if_neg hid] at heq
    exact Or.inr ⟨heq ▸ hu, heq ▸ hid⟩

omit [DecidableEq R] in
/-- Who is under way after one has ended. -/
theorem World.mem_remove {id : ℕ} {tx : Running σ W R χ ε q ρ} (h : tx ∈ (w.remove id).live) :
    tx ∈ w.live ∧ tx.id ≠ id := by
  obtain ⟨hm, hid⟩ := List.mem_filter.mp h
  exact ⟨hm, of_decide_eq_true hid⟩

/-- **A commit is a change the others rely on**, each with the rows it holds. -/
theorem System.Respects.of_commit (h : sys.Respects d invariant post condition)
    (hgood : w.Good d invariant post) {id : ℕ}
    (hcondition : ∀ tx, w.running? id = some tx → condition tx.request tx.writes w.committed)
    (hstep : sys.step w (.commit id) = some w') :
    invariant w'.committed w'.log ∧ d.rely [] w.committed w'.committed
      ∧ ∀ tx ∈ w'.live, tx ∈ w.live ∧ d.rely tx.locks w.committed w'.committed := by
  obtain ⟨tx, result, htx, hprog, hok, rfl⟩ := sys.commit_eq_some hstep
  obtain ⟨hmem, hid⟩ := World.mem_of_running? htx
  obtain ⟨s, hrely, hensures⟩ := hgood.running tx hmem
  rw [hprog] at hensures
  obtain ⟨hinv', hrely'⟩ := h.commit tx.request tx.writes tx.locks s w.committed result
    w.log hensures hrely hgood.invariant hok (hcondition tx htx)
  refine ⟨hinv', hrely' [] (fun _ _ => List.not_mem_nil), fun t ht => ?_⟩
  obtain ⟨hlive, hne⟩ := World.mem_remove ht
  exact ⟨hlive, hrely' t.locks
    (hgood.separate tx hmem t hlive (fun h' => hne (h'.symm.trans hid)))⟩

/-- **A step keeps the world in good order**, and what it does to the committed
state is a change others rely on. -/
theorem System.Respects.step (h : sys.Respects d invariant post condition)
    (hgood : w.Good d invariant post) {action : Action χ q}
    (hcondition : ∀ id tx, action = .commit id → w.running? id = some tx →
      condition tx.request tx.writes w.committed)
    (hstep : sys.step w action = some w') :
    w'.Good d invariant post ∧ d.rely [] w.committed w'.committed := by
  have hinv := h.committed _ _ hgood.invariant
  cases action with
  | start request =>
    cases hstep
    refine ⟨⟨hgood.invariant, ?_, ?_⟩, d.rely_refl _ _⟩
    · intro tx htx other hother hne row hrow
      rcases List.mem_append.mp htx with htx | htx
      · rcases List.mem_append.mp hother with hother | hother
        · exact hgood.separate tx htx other hother hne row hrow
        · rw [List.mem_singleton.mp hother]
          exact List.not_mem_nil
      · rw [List.mem_singleton.mp htx] at hrow
        cases hrow
    · intro tx htx
      rcases List.mem_append.mp htx with htx | htx
      · exact hgood.running tx htx
      · rw [List.mem_singleton.mp htx]
        exact ⟨w.committed, d.rely_refl _ _, h.start request _ hinv⟩
  | abort id =>
    cases hstep
    exact ⟨⟨hgood.invariant,
      fun tx htx other hother => hgood.separate tx (World.mem_remove htx).1 other
        (World.mem_remove hother).1,
      fun tx htx => hgood.running tx (World.mem_remove htx).1⟩, d.rely_refl _ _⟩
  | advance id choice =>
    obtain ⟨tx, locks, writes, next, view, htx, hprog, rfl, hfree, rfl⟩ :=
      sys.advance_eq_some hstep
    obtain ⟨hmem, hid⟩ := World.mem_of_running? htx
    obtain ⟨s, hrely, hensures⟩ := hgood.running tx hmem
    rw [hprog] at hensures
    have hlocked : ∀ row ∈ locks ⟨sys.view tx.writes w.committed, w.lockedByOthers id, choice⟩,
        ∀ other ∈ w.live, other.id ≠ id → row ∉ other.locks := by
      intro row hrow other hother hne hin
      exact hfree row hrow (List.mem_flatMap.mpr
        ⟨other, List.mem_filter.mpr ⟨hother, decide_eq_true hne⟩, hin⟩)
    refine ⟨⟨hgood.invariant, ?_, ?_⟩, d.rely_refl _ _⟩
    · -- the new locks are none that another transaction holds
      intro t ht u hu hne row hrow
      rcases World.mem_update ht with rfl | ⟨ht, htid⟩
      · rcases World.mem_update hu with rfl | ⟨hu, huid⟩
        · exact absurd rfl hne
        · rcases List.mem_append.mp hrow with hrow | hrow
          · exact hgood.separate tx hmem u hu (fun h' => huid h'.symm) row hrow
          · exact hlocked row hrow u hu (hid ▸ huid)
      · rcases World.mem_update hu with rfl | ⟨hu, huid⟩
        · intro hin
          rcases List.mem_append.mp hin with hin | hin
          · exact hgood.separate t ht tx hmem htid row hrow hin
          · exact hlocked row hin t ht (hid ▸ htid) hrow
        · exact hgood.separate t ht u hu hne row hrow
    · intro t ht
      rcases World.mem_update ht with rfl | ⟨ht, -⟩
      · refine ⟨w.committed, d.rely_refl _ _, ?_⟩
        have hview : sys.view tx.writes w.committed = tx.writes.foldl d.apply w.committed := by
          unfold System.view
          rw [h.apply]
        rw [hview] at hfree ⊢
        exact hensures w.committed hrely hinv _ choice hfree
      · exact hgood.running t ht
  | commit id =>
    -- The others have not moved; it is the state under them that changed, by a
    -- step they rely on with the locks they hold.
    obtain ⟨hinv', hrely, hlive⟩ := h.of_commit hgood (fun tx htx => hcondition id tx rfl htx) hstep
    refine ⟨⟨hinv', ?_, ?_⟩, hrely⟩
    · intro t ht u hu
      exact hgood.separate t (hlive t ht).1 u (hlive u hu).1
    · intro t ht
      obtain ⟨hold, hrely'⟩ := hlive t ht
      obtain ⟨s₁, hrely₁, hensures₁⟩ := hgood.running t hold
      exact ⟨s₁, d.rely_trans _ _ _ _ hrely₁ hrely', hensures₁⟩

omit [DecidableEq R] in
/-- What is known of a transaction that commits. -/
theorem World.Good.of_running (hgood : w.Good d invariant post) {id : ℕ}
    {tx : Running σ W R χ ε q ρ} {result : ρ} (htx : w.running? id = some tx)
    (hprog : tx.prog = .ret result) :
    ∃ s, d.rely tx.locks s w.committed ∧ post tx.request tx.writes tx.locks s result := by
  obtain ⟨s, hrely, hensures⟩ := hgood.running tx (World.mem_of_running? htx).1
  rw [hprog] at hensures
  exact ⟨s, hrely, hensures⟩

/-- **Every run keeps the world in good order.** -/
theorem System.Respects.run_good (h : sys.Respects d invariant post condition)
    {actions : List (Action χ q)} (hgood : w.Good d invariant post)
    (hcondition : sys.CommitsMeet condition w actions) (hrun : sys.run w actions = some w') :
    w'.Good d invariant post ∧ d.rely [] w.committed w'.committed := by
  induction actions generalizing w with
  | nil =>
    cases hrun
    exact ⟨hgood, d.rely_refl _ _⟩
  | cons action rest ih =>
    unfold System.run at hrun
    cases hstep : sys.step w action with
    | none =>
      rw [hstep] at hrun
      cases hrun
    | some w₁ =>
      rw [hstep] at hrun
      obtain ⟨hgood₁, hrely₁⟩ := h.step hgood hcondition.1 hstep
      obtain ⟨hgood', hrely'⟩ := ih hgood₁ (hcondition.2 w₁ hstep) hrun
      exact ⟨hgood', d.rely_trans _ _ _ _ hrely₁ hrely'⟩

/-- **The states at successive moments** satisfy the invariant, and each is what
others may have made of every earlier one. -/
theorem System.Respects.moments (h : sys.Respects d invariant post condition)
    (hcondition : ∀ request writes s, condition request writes s) {states : List σ}
    (hgood : w.Good d invariant post) (hmoments : sys.Moments w states) :
    (∀ s ∈ states, ∃ log, invariant s log) ∧ (∀ s ∈ states, d.rely [] w.committed s)
      ∧ states.Pairwise (d.rely []) := by
  induction hmoments with
  | nil w => exact ⟨fun _ hs => (by cases hs), fun _ hs => (by cases hs), .nil⟩
  | cons hrun later ih =>
    obtain ⟨hgood', hrely⟩ := h.run_good hgood (sys.commitsMeet_of_forall hcondition _ _) hrun
    obtain ⟨hinv, hlater, hpairs⟩ := ih hgood'
    refine ⟨List.forall_mem_cons.mpr ⟨⟨_, hgood'.invariant⟩, hinv⟩, ?_, .cons hlater hpairs⟩
    refine List.forall_mem_cons.mpr ⟨hrely, fun s hs => ?_⟩
    exact d.rely_trans _ _ _ _ hrely (hlater s hs)

/-- **What the program of a request keeps, its results have.** `L` is kept by the statements of a
program, and a result that satisfies `L` satisfies `P`; then every entry of the log does. -/
theorem System.run_log {L : q → Prog (View σ R χ) W R ε ρ → Prop} {P : q → ρ → Prop}
    (hnext : ∀ request locks writes next view, L request (.statement locks writes next) →
      L request (next view))
    (hret : ∀ request result, L request (.ret result) → P request result)
    {actions : List (Action χ q)}
    (hstarts : ∀ request, .start request ∈ actions → L request (sys.program request))
    (hlive : ∀ tx ∈ w.live, L tx.request tx.prog) (hlog : ∀ entry ∈ w.log, P entry.1 entry.2)
    (hrun : sys.run w actions = some w') : ∀ entry ∈ w'.log, P entry.1 entry.2 := by
  induction actions generalizing w with
  | nil =>
    cases hrun
    exact hlog
  | cons action rest ih =>
    obtain ⟨w₁, hstep, hrest⟩ := Option.bind_eq_some_iff.mp hrun
    have hlater : ∀ request, .start request ∈ rest → L request (sys.program request) :=
      fun request h => hstarts request (List.mem_cons_of_mem _ h)
    refine ih hlater (fun tx htx => ?_) (fun entry hentry => ?_) hrest
    · cases action with
      | start request =>
        cases hstep
        rcases List.mem_append.mp htx with htx | htx
        · exact hlive tx htx
        · rw [List.mem_singleton.mp htx]
          exact hstarts request List.mem_cons_self
      | abort id =>
        cases hstep
        exact hlive tx (World.mem_remove htx).1
      | advance id choice =>
        obtain ⟨old, locks, writes, next, view, hold, hprog, rfl, -, rfl⟩ :=
          sys.advance_eq_some hstep
        rcases World.mem_update htx with rfl | ⟨htx, -⟩
        · have hkept := hlive old (World.mem_of_running? hold).1
          rw [hprog] at hkept
          exact hnext _ _ _ _ _ hkept
        · exact hlive tx htx
      | commit id =>
        obtain ⟨old, result, -, -, -, rfl⟩ := sys.commit_eq_some hstep
        exact hlive tx (World.mem_remove htx).1
    · cases action with
      | start request =>
        cases hstep
        exact hlog entry hentry
      | abort id =>
        cases hstep
        exact hlog entry hentry
      | advance id choice =>
        obtain ⟨old, locks, writes, next, view, -, -, -, -, rfl⟩ := sys.advance_eq_some hstep
        exact hlog entry hentry
      | commit id =>
        obtain ⟨old, result, hold, hprog, -, rfl⟩ := sys.commit_eq_some hstep
        rcases List.mem_append.mp hentry with hentry | hentry
        · exact hlog entry hentry
        · have hkept := hlive old (World.mem_of_running? hold).1
          rw [hprog] at hkept
          rw [List.mem_singleton.mp hentry]
          exact hret _ _ hkept

/-- **Every result in the log is one the request can have.** -/
theorem System.run_yields {P : q → ρ → Prop}
    (hprograms : ∀ request, (sys.program request).Yields (P request))
    {actions : List (Action χ q)} (hlive : ∀ tx ∈ w.live, tx.prog.Yields (P tx.request))
    (hlog : ∀ entry ∈ w.log, P entry.1 entry.2) (hrun : sys.run w actions = some w') :
    ∀ entry ∈ w'.log, P entry.1 entry.2 :=
  System.run_log (L := fun request prog => prog.Yields (P request)) (fun _ _ _ _ view h => h view)
    (fun _ _ h => h) (fun request _ => hprograms request) hlive hlog hrun

omit [DecidableEq R] in
/-- A server that starts in a state of the invariant starts in good order. -/
theorem World.good_init {s : σ} (hinv : invariant s []) :
    (World.mk s [] [] 0 : World σ W R χ ε q ρ).Good d invariant post where
  invariant := hinv
  separate := fun _ h => (by cases h)
  running := fun _ h => (by cases h)

end Soundness

end CohortSwitch
