import CohortSwitch.Followed

/-!
# What a transaction raises

`Prog.Ensures` says what is true when a transaction returns. `Prog.Raises` says it of an
exception: what is true of the exception and of the state that was committed at the last
statement, whatever others have done before as far as the discipline allows it. The two
compose (`Prog.Raises.bind`): what a program raises is raised by its first part, or by what
follows a result that the first part ensures.

An exception need not be described in full. `Prog.MayRaise` only says of which kind it is,
whatever the statements see, and is enough for the parts of a program that cannot raise
what one is after; a program that may raise nothing else raises as described
(`MayRaise.raises`). Only for the one statement that matters the state is looked at.

`System.Respects.raises` is the rule for runs. A transaction is followed from its start
(`Respects.holds_of_run`), and the exception it ends in is as described, at a state that
others may have changed since.
-/

namespace CohortSwitch

/-! ## Computations -/

section Computations

variable {ε α β : Type} {P : ε → Prop}

/-- **A computation raises only** exceptions of one kind. -/
def RaisesOnly (P : ε → Prop) (x : Except ε α) : Prop := ∀ e, x = .error e → P e

/-- A result is no exception. -/
theorem raisesOnly_ok (a : α) : RaisesOnly P (.ok a) := fun _ h => nomatch h

/-- One exception. -/
theorem raisesOnly_error {e : ε} (h : P e) : RaisesOnly P (.error e : Except ε α) := by
  rintro _ ⟨⟩
  exact h

/-- Composition. -/
theorem RaisesOnly.bind {x : Except ε α} {f : α → Except ε β} (hx : RaisesOnly P x)
    (hf : ∀ a, RaisesOnly P (f a)) : RaisesOnly P (x >>= f) := by
  cases x with
  | ok a => exact hf a
  | error e => exact raisesOnly_error (hx e rfl)

/-- A loop. -/
theorem raisesOnly_mapM {f : α → Except ε β} (hf : ∀ a, RaisesOnly P (f a)) (xs : List α) :
    RaisesOnly P (xs.mapM f) := by
  induction xs with
  | nil => exact raisesOnly_ok []
  | cons x xs ih =>
    rw [List.mapM_cons]
    exact (hf x).bind (fun b => ih.bind (fun bs => raisesOnly_ok (b :: bs)))

/-- A value that is checked before it is built. -/
theorem raisesOnly_dite {c : Prop} [Decidable c] {f : c → α} {e : ε} (h : P e) :
    RaisesOnly P (if hc : c then .ok (f hc) else .error e) := by
  split
  · exact raisesOnly_ok _
  · exact raisesOnly_error h

end Computations

/-! ## Programs -/

variable {σ V W R χ ε q ρ α β : Type}

/-- **Whatever a program raises** is of one kind, whatever its statements see. -/
def Prog.MayRaise (P : ε → Prop) : Prog V W R ε α → Prop
  | .ret _ => True
  | .raise e => P e
  | .statement _ _ next => ∀ v, (next v).MayRaise P

/-- **What a program raises**, from the given writes and locks and the state committed at its
last statement. Before each statement the committed state may change as the discipline
allows. -/
def Prog.Raises (d : Discipline σ W R) (raised : σ → ε → Prop) :
    Prog (View σ R χ) W R ε α → List W → List R → σ → Prop
  | .ret _, _, _, _ => True
  | .raise e, _, _, s => raised s e
  | .statement locks' writes' next, writes, locks, s =>
    ∀ s', d.rely locks s s' → d.invariant s' → ∀ locked choice,
      (∀ row ∈ locks' ⟨writes.foldl d.apply s', locked, choice⟩, row ∉ locked) →
      (next ⟨writes.foldl d.apply s', locked, choice⟩).Raises d raised
        (writes ++ writes' ⟨writes.foldl d.apply s', locked, choice⟩)
        (locks ++ locks' ⟨writes.foldl d.apply s', locked, choice⟩) s'

namespace Prog

section MayRaise

variable {P : ε → Prop}

/-- Composition of programs. -/
theorem MayRaise.bind {m : Prog V W R ε α} {f : α → Prog V W R ε β} (hm : m.MayRaise P)
    (hf : ∀ a, (f a).MayRaise P) : (m >>= f).MayRaise P := by
  induction m with
  | ret a => exact hf a
  | raise e => exact hm
  | statement locks writes next ih => exact fun v => ih v (hm v)

/-- A computation within a program. -/
theorem mayRaise_attempt {x : Except ε α} (hx : RaisesOnly P x) :
    (attempt x : Prog V W R ε α).MayRaise P := by
  cases x with
  | ok a => exact trivial
  | error e => exact hx e rfl

end MayRaise

variable {d : Discipline σ W R} {raised : σ → ε → Prop} {writes : List W} {locks : List R} {s : σ}

/-- **A kind of exceptions is a description of them.** -/
theorem MayRaise.raises {m : Prog (View σ R χ) W R ε α} {P : ε → Prop} (hm : m.MayRaise P)
    (h : ∀ s e, P e → raised s e) : m.Raises d raised writes locks s := by
  induction m generalizing writes locks s with
  | ret a => exact trivial
  | raise e => exact h s e hm
  | statement locks' writes' next ih =>
    intro s' _ _ locked choice _
    exact ih _ (hm _)

/-- **The rule of composition.** -/
theorem Raises.bind {m : Prog (View σ R χ) W R ε α} {f : α → Prog (View σ R χ) W R ε β}
    {M : List W → List R → σ → α → Prop} (hm : m.Raises d raised writes locks s)
    (hensures : m.Ensures d M writes locks s)
    (hf : ∀ writes locks s a, M writes locks s a → (f a).Raises d raised writes locks s) :
    (m >>= f).Raises d raised writes locks s := by
  induction m generalizing writes locks s with
  | ret a => exact hf _ _ _ a hensures
  | raise e => exact hm
  | statement locks' writes' next ih =>
    intro s' hrely hinv locked choice hfree
    exact ih _ (hm s' hrely hinv locked choice hfree) (hensures s' hrely hinv locked choice hfree)

/-- What follows need not know what was returned. -/
theorem Raises.bind_any {m : Prog (View σ R χ) W R ε α} {f : α → Prog (View σ R χ) W R ε β}
    (hm : m.Raises d raised writes locks s)
    (hf : ∀ writes locks s a, (f a).Raises d raised writes locks s) :
    (m >>= f).Raises d raised writes locks s := by
  induction m generalizing writes locks s with
  | ret a => exact hf _ _ _ a
  | raise e => exact hm
  | statement locks' writes' next ih =>
    intro s' hrely hinv locked choice hfree
    exact ih _ (hm s' hrely hinv locked choice hfree)

/-- A computation first. -/
theorem raises_attempt_bind {x : Except ε α} {f : α → Prog (View σ R χ) W R ε β}
    (hx : RaisesOnly (raised s) x)
    (hf : ∀ a, x = .ok a → (f a).Raises d raised writes locks s) :
    (attempt x >>= f).Raises d raised writes locks s := by
  cases x with
  | ok a => exact hf a rfl
  | error e => exact hx e rfl

/-- A statement that only reads. -/
theorem raises_read_bind {query : View σ R χ → α} {f : α → Prog (View σ R χ) W R ε β}
    (h : ∀ s', d.rely locks s s' → d.invariant s' → ∀ locked choice,
      (f (query ⟨writes.foldl d.apply s', locked, choice⟩)).Raises d raised writes locks s') :
    (read query >>= f).Raises d raised writes locks s := by
  intro s' hrely hinv locked choice _
  show (f _).Raises d raised (writes ++ []) (locks ++ []) s'
  rw [List.append_nil, List.append_nil]
  exact h s' hrely hinv locked choice

end Prog

/-! ## Every run -/

/-- The transaction of an id raises only what is described. -/
def World.Raising (w : World σ W R χ ε q ρ) (d : Discipline σ W R) (raised : σ → ε → Prop)
    (id : ℕ) : Prop :=
  w.Holds d (fun _ prog writes locks s => prog.Raises d raised writes locks s) id

section Soundness

variable [DecidableEq R] {sys : System σ W R χ ε q ρ} {d : Discipline σ W R}
  {invariant : σ → List (q × ρ) → Prop} {post : q → List W → List R → σ → ρ → Prop}
  {condition : q → List W → σ → Prop} {raised : σ → ε → Prop} {w w' : World σ W R χ ε q ρ}
  {id : ℕ}

/-- **What a transaction has raised at the end of a run** is as described. -/
theorem System.Respects.raises (h : sys.Respects d invariant post condition)
    {actions : List (Action χ q)} (hgood : w.Good d invariant post) (hid : id < w.next)
    (hraising : w.Raising d raised id) (hcondition : sys.CommitsMeet condition w actions)
    (hrun : sys.run w actions = some w') {tx : Running σ W R χ ε q ρ} (htx : tx ∈ w'.live)
    (htxid : tx.id = id) {e : ε} (hraised : tx.prog = .raise e) :
    ∃ s, d.rely tx.locks s w'.committed ∧ raised s e := by
  -- what a program raises, it raises after each of its statements
  have hkeeps : d.Keeps (q := q) (χ := χ) (ρ := ρ)
      (fun _ prog writes locks s => prog.Raises d raised writes locks s) :=
    fun _ _ _ _ _ _ _ h => h
  obtain ⟨s, hrely, hraises⟩ :=
    h.holds_of_run hkeeps hgood hid hraising hcondition hrun tx htx htxid
  rw [hraised] at hraises
  exact ⟨s, hrely, hraises⟩

/-- A request that has just started is followed by the id it is given. -/
theorem World.raising_start (hids : ∀ tx ∈ w.live, tx.id < w.next) {request : q}
    (hprogram : (sys.program request).Raises d raised [] [] w.committed)
    (hstep : sys.step w (.start request) = some w') : w'.Raising d raised w.next := by
  cases hstep
  intro tx htx htxid
  rcases List.mem_append.mp htx with htx | htx
  · exact absurd htxid (Nat.ne_of_lt (hids tx htx))
  · rw [List.mem_singleton.mp htx]
    exact ⟨w.committed, d.rely_refl _ _, hprogram⟩

end Soundness

end CohortSwitch
