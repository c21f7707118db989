import CohortSwitch.Transactions

/-!
# A transaction by itself

While nothing else is under way, a transaction sees what is committed with its
own writes on top, no row is locked by others, and all that is left open are the
choices of the environment, one for each statement. `Prog.Alone` follows a
program through one such sequence of choices: where the program returns, a
postcondition holds of what it wrote, of the number of choices it used and of
its result, and where it raises, `raised` does. With `raised` false it says that
the program returns.

The other judgments about programs are upper bounds: they say what may happen
among others, and are true of a program that raises. This one determines the
outcome, and so it can prove that something does happen. A judgment of the other kind
still holds of a program that is alone (`Prog.Ensures.alone`), so the two are
combined where a fact is already known.

`soloCall` is the run of the server that starts a request, makes as many
statements, and commits. It succeeds if the program returns and the constraints
accept what it wrote (`exists_call_of_alone`), and only then (`alone_of_call`).
-/

namespace CohortSwitch

variable {σ W R χ ε q ρ α β : Type} [DecidableEq R]

/-! ## Programs -/

/-- **What a program does by itself**, with the given choices from the `n`-th on. -/
def Prog.Alone (sys : System σ W R χ ε q ρ) (s : σ) (choices : ℕ → χ) (raised : Prop)
    (post : List W → ℕ → α → Prop) : Prog (View σ R χ) W R ε α → List W → ℕ → Prop
  | .ret a, writes, n => post writes n a
  | .raise _, _, _ => raised
  | .statement _ adds next, writes, n =>
    let view := View.mk (sys.view writes s) [] (choices n)
    Alone sys s choices raised post (next view) (writes ++ adds view) (n + 1)

section Rules

variable {sys : System σ W R χ ε q ρ} {s : σ} {choices : ℕ → χ} {raised : Prop}
  {post : List W → ℕ → α → Prop} {writes : List W} {n : ℕ}

omit [DecidableEq R] in
/-- **The rule of composition**: the second part goes on with the writes and the choices of the
first. -/
theorem Prog.Alone.bind {m : Prog (View σ R χ) W R ε α} {f : α → Prog (View σ R χ) W R ε β}
    {post' : List W → ℕ → β → Prop}
    (h : m.Alone sys s choices raised (fun writes n a =>
      (f a).Alone sys s choices raised post' writes n) writes n) :
    (m >>= f).Alone sys s choices raised post' writes n := by
  induction m generalizing writes n with
  | ret a => exact h
  | raise e => exact h
  | statement locks adds next ih => exact ih _ h

omit [DecidableEq R] in
/-- A weaker postcondition holds, too. -/
theorem Prog.Alone.mono {m : Prog (View σ R χ) W R ε α} {raised' : Prop}
    {post' : List W → ℕ → α → Prop} (h : m.Alone sys s choices raised post writes n)
    (hraised : raised → raised') (hpost : ∀ writes n a, post writes n a → post' writes n a) :
    m.Alone sys s choices raised' post' writes n := by
  induction m generalizing writes n with
  | ret a => exact hpost _ _ a h
  | raise e => exact hraised h
  | statement locks adds next ih => exact ih _ h

omit [DecidableEq R] in
/-- Two postconditions hold together. -/
theorem Prog.Alone.and {m : Prog (View σ R χ) W R ε α} {raised' : Prop}
    {post' : List W → ℕ → α → Prop} (h : m.Alone sys s choices raised post writes n)
    (h' : m.Alone sys s choices raised' post' writes n) :
    m.Alone sys s choices (raised ∧ raised')
      (fun writes n a => post writes n a ∧ post' writes n a) writes n := by
  induction m generalizing writes n with
  | ret a => exact ⟨h, h'⟩
  | raise e => exact ⟨h, h'⟩
  | statement locks adds next ih => exact ih _ h h'

omit [DecidableEq R] in
/-- **What is ensured among others is so alone**, where the program returns. -/
theorem Prog.Ensures.alone {d : Discipline σ W R} (happly : d.apply = sys.apply)
    (hs : d.invariant s) {m : Prog (View σ R χ) W R ε α}
    {post' : List W → List R → σ → α → Prop} {locks : List R}
    (h : m.Ensures d post' writes locks s) :
    m.Alone sys s choices True (fun writes _ a => ∃ locks, post' writes locks s a) writes n := by
  induction m generalizing writes locks n with
  | ret a => exact ⟨locks, h⟩
  | raise e => exact trivial
  | statement locks' adds next ih =>
    have hview : writes.foldl d.apply s = sys.view writes s := by
      rw [happly]
      rfl
    have hnext := h s (d.rely_refl locks s) hs [] (choices n) (fun _ _ => List.not_mem_nil)
    rw [hview] at hnext
    exact ih _ hnext

omit [DecidableEq R] in
/-- A computation without statements. -/
theorem Prog.alone_attempt {x : Except ε α} (hok : ∀ a, x = .ok a → post writes n a)
    (herror : ∀ e, x = .error e → raised) :
    (Prog.attempt x : Prog (View σ R χ) W R ε α).Alone sys s choices raised post writes n := by
  cases x with
  | ok a => exact hok a rfl
  | error e => exact herror e rfl

end Rules

/-! ## Calls -/

/-- **The call of a request** by the transaction `id`: its start, `n` statements and the
commit. -/
def soloCall (request : q) (choices : ℕ → χ) (id n : ℕ) : List (Action χ q) :=
  .start request :: (List.range' 0 n).map (fun i => .advance id (choices i)) ++ [.commit id]

namespace System

variable {sys : System σ W R χ ε q ρ} {w w' : World σ W R χ ε q ρ} {request : q}
  {choices : ℕ → χ} {raised : Prop} {post : List W → ℕ → ρ → Prop}

/-- The only transaction makes a statement. -/
theorem step_advance_alone {id : ℕ} {locks : View σ R χ → List R} {adds : View σ R χ → List W}
    {next : View σ R χ → Prog (View σ R χ) W R ε ρ} {writes : List W} {held : List R} {c : χ} :
    sys.step { w with live := [⟨id, request, .statement locks adds next, writes, held⟩] }
        (.advance id c)
      = some { w with live := [⟨id, request, next ⟨sys.view writes w.committed, [], c⟩,
          writes ++ adds ⟨sys.view writes w.committed, [], c⟩,
          held ++ locks ⟨sys.view writes w.committed, [], c⟩⟩] } := by
  simp [step, World.running?, World.lockedByOthers, World.update]

/-- The only transaction commits. -/
theorem step_commit_alone {id : ℕ} {a : ρ} {writes : List W} {held : List R} :
    sys.step { w with live := [⟨id, request, .ret a, writes, held⟩] } (.commit id)
      = if sys.ok (sys.view writes w.committed) then
          some { w with
            committed := sys.view writes w.committed
            log := w.log ++ [(request, a)]
            live := [] }
        else none := by
  simp [step, World.running?, World.remove]

/-- **A transaction that is alone and returns commits**, where the constraints accept what
it wrote. -/
theorem exists_run_of_alone {prog : Prog (View σ R χ) W R ε ρ} {writes : List W} {held : List R}
    {id n : ℕ} (h : prog.Alone sys w.committed choices False post writes n)
    (hok : ∀ writes n a, post writes n a → sys.ok (sys.view writes w.committed) = true) :
    ∃ k writes' n' a, post writes' n' a
      ∧ sys.run { w with live := [⟨id, request, prog, writes, held⟩] }
          ((List.range' n k).map (fun i => .advance id (choices i)) ++ [.commit id])
        = some { w with
            committed := sys.view writes' w.committed
            log := w.log ++ [(request, a)]
            live := [] } := by
  induction prog generalizing writes held n with
  | ret a =>
    refine ⟨0, writes, n, a, h, ?_⟩
    show (sys.step _ (.commit id)).bind _ = _
    rw [step_commit_alone, if_pos (hok _ _ _ h)]
    rfl
  | raise e => exact h.elim
  | statement locks adds next ih =>
    obtain ⟨k, writes', n', a, hpost, hrun⟩ := ih _ h
    refine ⟨k + 1, writes', n', a, hpost, ?_⟩
    show (sys.step _ (.advance id (choices n))).bind _ = _
    rw [step_advance_alone]
    exact hrun

/-- **A transaction that is alone and commits has returned.** -/
theorem alone_of_run {prog : Prog (View σ R χ) W R ε ρ} {writes : List W} {held : List R}
    {id n k : ℕ} (h : prog.Alone sys w.committed choices raised post writes n)
    (hrun : sys.run { w with live := [⟨id, request, prog, writes, held⟩] }
      ((List.range' n k).map (fun i => .advance id (choices i)) ++ [.commit id]) = some w') :
    ∃ writes' n' a, post writes' n' a ∧ sys.ok (sys.view writes' w.committed) = true
      ∧ w' = { w with
          committed := sys.view writes' w.committed
          log := w.log ++ [(request, a)]
          live := [] } := by
  induction prog generalizing writes held n k with
  | ret a =>
    cases k with
    | zero =>
      change (sys.step _ (.commit id)).bind _ = some w' at hrun
      rw [step_commit_alone] at hrun
      split at hrun
      · rename_i hok
        cases hrun
        exact ⟨writes, n, a, h, hok, rfl⟩
      · cases hrun
    | succ k => simp [run, step, World.running?, List.range'_succ] at hrun
  | raise e => cases k <;> simp [run, step, World.running?, List.range'_succ] at hrun
  | statement locks adds next ih =>
    cases k with
    | zero => simp [run, step, World.running?] at hrun
    | succ k =>
      change (sys.step _ (.advance id (choices n))).bind _ = some w' at hrun
      rw [step_advance_alone] at hrun
      exact ih _ h hrun

/-- A request starts in an idle world. -/
theorem run_call (hidle : w.live = []) (n : ℕ) :
    sys.run w (soloCall request choices w.next n)
      = sys.run { w with
          next := w.next + 1
          live := [⟨w.next, request, sys.program request, [], []⟩] }
        ((List.range' 0 n).map (fun i => .advance w.next (choices i)) ++ [.commit w.next]) := by
  show (some _ : Option (World σ W R χ ε q ρ)).bind _ = _
  rw [hidle]
  rfl

/-- **The call of a request that returns commits**, where the constraints accept what it
wrote. -/
theorem exists_call_of_alone (hidle : w.live = [])
    (h : (sys.program request).Alone sys w.committed choices False post [] 0)
    (hok : ∀ writes n a, post writes n a → sys.ok (sys.view writes w.committed) = true) :
    ∃ n writes' n' a w', post writes' n' a
      ∧ sys.run w (soloCall request choices w.next n) = some w'
      ∧ w'.committed = sys.view writes' w.committed ∧ w'.log = w.log ++ [(request, a)]
      ∧ w'.live = [] := by
  obtain ⟨n, writes', n', a, hpost, hrun⟩ :=
    exists_run_of_alone (w := { w with next := w.next + 1 }) h hok
  exact ⟨n, writes', n', a, _, hpost, (run_call hidle n).trans hrun, rfl, rfl, rfl⟩

/-- **A call that commits has returned.** -/
theorem alone_of_call (hidle : w.live = [])
    (h : (sys.program request).Alone sys w.committed choices raised post [] 0) {n : ℕ}
    (hrun : sys.run w (soloCall request choices w.next n) = some w') :
    ∃ writes' n' a, post writes' n' a ∧ sys.ok (sys.view writes' w.committed) = true
      ∧ w'.committed = sys.view writes' w.committed ∧ w'.log = w.log ++ [(request, a)] := by
  rw [run_call hidle] at hrun
  obtain ⟨writes', n', a, hpost, hok, rfl⟩ :=
    alone_of_run (w := { w with next := w.next + 1 }) h hrun
  exact ⟨writes', n', a, hpost, hok, rfl, rfl⟩

end System

end CohortSwitch
