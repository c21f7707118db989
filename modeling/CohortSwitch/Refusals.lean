import CohortSwitch.Runs

/-!
# Programs that are refused

A transaction that only reads leaves everything as it was, and one that can
only end in an exception is refused whatever its statements see.
`Prog.EndsIn` says both of a program at once: no statement of it locks or
writes, its exceptions are among some, and so are its results. It is composed
along the program like the other judgments (`Prog.EndsIn.bind`), so a program
is refused as soon as one part of it is (`Prog.Refused.bind`).

The judgment is about the text of a program and not about a state: it quantifies
over everything a statement may return. That is what makes it fit a server, where
the statements of a refused request are answered from states that other
transactions have changed in the meantime. `Running.Refused` is the invariant of a
transaction under way, whose program is what is left to run.

A server never commits a request whose program is refused, and no transaction
of such a request holds or writes a row (`System.refused_of_run`,
`System.not_commits_refused`).
-/

namespace CohortSwitch

/-! ## Programs -/

namespace Prog

variable {V W R ε α β : Type} {raised : ε → Prop} {returned : α → Prop}

/-- **A program that only reads, and how it ends**: in an exception of some
kind or in a result of some kind. -/
def EndsIn (raised : ε → Prop) (returned : α → Prop) : Prog V W R ε α → Prop
  | ret a => returned a
  | raise e => raised e
  | statement locks writes next =>
    ∀ v, locks v = [] ∧ writes v = [] ∧ (next v).EndsIn raised returned

/-- **A program that only reads and then raises.** -/
abbrev Refused (raised : ε → Prop) (m : Prog V W R ε α) : Prop := m.EndsIn raised (fun _ => False)

/-- **The rule of composition.** -/
theorem EndsIn.bind {m : Prog V W R ε α} {f : α → Prog V W R ε β} {ended : β → Prop}
    (hm : m.EndsIn raised returned) (hf : ∀ a, returned a → (f a).EndsIn raised ended) :
    (m >>= f).EndsIn raised ended := by
  induction m with
  | ret a => exact hf a hm
  | raise e => exact hm
  | statement locks writes next ih => exact fun v => ⟨(hm v).1, (hm v).2.1, ih v (hm v).2.2⟩

/-- What follows a program that is refused does not matter. -/
theorem Refused.bind {m : Prog V W R ε α} (hm : m.Refused raised) (f : α → Prog V W R ε β)
    (ended : β → Prop) : (m >>= f).EndsIn raised ended :=
  EndsIn.bind hm (fun _ h => h.elim)

/-- More exceptions and more results may be allowed. -/
theorem EndsIn.mono {m : Prog V W R ε α} {raised' : ε → Prop} {returned' : α → Prop}
    (hm : m.EndsIn raised returned) (hraised : ∀ e, raised e → raised' e)
    (hreturned : ∀ a, returned a → returned' a) : m.EndsIn raised' returned' := by
  induction m with
  | ret a => exact hreturned a hm
  | raise e => exact hraised e hm
  | statement locks writes next ih => exact fun v => ⟨(hm v).1, (hm v).2.1, ih v (hm v).2.2⟩

/-- A program that only reads ends somehow. -/
theorem Reads.endsIn {m : Prog V W R ε α} (hm : m.Reads) (hraised : ∀ e, raised e)
    (hreturned : ∀ a, returned a) : m.EndsIn raised returned := by
  induction m with
  | ret a => exact hreturned a
  | raise e => exact hraised e
  | statement locks writes next ih => exact fun v => ⟨(hm v).1, (hm v).2.1, ih v (hm v).2.2⟩

/-- What it returns. -/
theorem EndsIn.yields {m : Prog V W R ε α} (hm : m.EndsIn raised returned) :
    m.Yields returned := by
  induction m with
  | ret a => exact hm
  | raise e => exact trivial
  | statement locks writes next ih => exact fun v => ih v (hm v).2.2

/-- A statement that reads ends in what it may return. -/
theorem endsIn_read {f : V → α} (h : ∀ v, returned (f v)) :
    (read f : Prog V W R ε α).EndsIn raised returned := fun v => ⟨rfl, rfl, h v⟩

end Prog

/-! ## Servers -/

variable {σ W R χ ε q ρ : Type} {raised : ε → Prop}

/-- A transaction that is refused: it has neither written nor locked, and what
is left of it raises. -/
structure Running.Refused (raised : ε → Prop) (tx : Running σ W R χ ε q ρ) : Prop where
  /-- What is left of it raises, and only reads until then. -/
  prog : tx.prog.Refused raised
  /-- It has written nothing. -/
  writes : tx.writes = []
  /-- And locked nothing. -/
  locks : tx.locks = []

section Server

variable [DecidableEq R] {sys : System σ W R χ ε q ρ} {denied : q → Prop}
  {w w' : World σ W R χ ε q ρ}

/-- **A step keeps the transactions of refused requests refused.** -/
theorem System.refused_step (hdenied : ∀ request, denied request →
      (sys.program request).Refused raised)
    (h : ∀ tx ∈ w.live, denied tx.request → tx.Refused raised) {action : Action χ q}
    (hstep : sys.step w action = some w') :
    ∀ tx ∈ w'.live, denied tx.request → tx.Refused raised := by
  cases action with
  | start request =>
    cases hstep
    intro tx htx hrequest
    rcases List.mem_append.mp htx with hold | hnew
    · exact h tx hold hrequest
    · rw [List.mem_singleton.mp hnew] at hrequest ⊢
      exact ⟨hdenied request hrequest, rfl, rfl⟩
  | abort id =>
    cases hstep
    exact fun tx htx => h tx (World.mem_remove htx).1
  | commit id =>
    obtain ⟨_, _, -, -, -, rfl⟩ := sys.commit_eq_some hstep
    exact fun tx htx => h tx (World.mem_remove htx).1
  | advance id choice =>
    obtain ⟨old, locks, writes, next, view, hold, hprog, -, -, rfl⟩ := sys.advance_eq_some hstep
    intro tx htx hrequest
    rcases World.mem_update htx with rfl | ⟨hother, -⟩
    · have hrefused := h old (World.mem_of_running? hold).1 hrequest
      have hprogram := hrefused.prog
      rw [hprog] at hprogram
      obtain ⟨hlocks, hwrites, hnext⟩ := hprogram view
      refine ⟨hnext, ?_, ?_⟩
      · show old.writes ++ writes view = []
        rw [hwrites, hrefused.writes, List.append_nil]
      · show old.locks ++ locks view = []
        rw [hlocks, hrefused.locks, List.append_nil]
    · exact h tx hother hrequest

/-- **In every run** the transactions of refused requests neither write nor
lock. -/
theorem System.refused_of_run (hdenied : ∀ request, denied request →
      (sys.program request).Refused raised)
    (h : ∀ tx ∈ w.live, denied tx.request → tx.Refused raised) {actions : List (Action χ q)}
    (hrun : sys.run w actions = some w') :
    ∀ tx ∈ w'.live, denied tx.request → tx.Refused raised := by
  induction actions generalizing w with
  | nil =>
    cases hrun
    exact h
  | cons action rest ih =>
    obtain ⟨w₁, hstep, hrest⟩ := Option.bind_eq_some_iff.mp hrun
    exact ih (System.refused_step hdenied h hstep) hrest

/-- **No run commits a refused request.** -/
theorem System.not_commits_refused (hdenied : ∀ request, denied request →
      (sys.program request).Refused raised)
    (h : ∀ tx ∈ w.live, denied tx.request → tx.Refused raised) {actions : List (Action χ q)}
    (hrun : sys.run w actions = some w') {commit : q × List W}
    (hcommit : commit ∈ sys.commits w actions) : ¬ denied commit.1 := by
  obtain ⟨earlier, later, hsplit⟩ := List.append_of_mem hcommit
  obtain ⟨before, id, _, w₁, _, tx, -, hbefore, -, htx, rfl, hlast⟩ :=
    System.commits_split hrun hsplit
  intro hrequest
  have hrefused := System.refused_of_run hdenied h hbefore tx (World.mem_of_running? htx).1 hrequest
  obtain ⟨tx', result, htx', hprog, -, -⟩ := sys.commit_eq_some hlast
  have hreturn := hrefused.prog
  rw [Option.some.inj (htx.symm.trans htx'), hprog] at hreturn
  exact hreturn

end Server

end CohortSwitch
