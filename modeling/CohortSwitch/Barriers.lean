import CohortSwitch.Runs

/-!
# Barriers

A condition on the committed states that no commit undoes can shut requests out:
their programs raise where the first statement finds it. Once it holds, such a
request is answered only if it had begun before (`System.answers_begun`). The
statement is about every step of a run that goes on from there, and nothing is
asked of what the others do meanwhile.

A request that has begun may have seen the state before the condition held, and nothing
can be said of it. One that has not begun makes its first statement in some later state,
where the condition still holds, and raises there; so it never gets to its commit
(`ShutOut`). The world that is remembered is the one in which the condition came to
hold, since having begun is a matter of that moment.
-/

namespace CohortSwitch

variable {σ V W R χ ε q ρ α β : Type}

/-- **A program that fails where a condition holds**: its first statement raises. -/
def Prog.FailsWhere (K : σ → Prop) : Prog (View σ R χ) W R ε α → Prop
  | .ret _ => False
  | .raise _ => True
  | .statement _ _ next => ∀ v, K v.state → ∃ e, next v = .raise e

/-- What follows the first statement does not matter. -/
theorem Prog.FailsWhere.bind {K : σ → Prop} {m : Prog (View σ R χ) W R ε α}
    (hm : m.FailsWhere K) (f : α → Prog (View σ R χ) W R ε β) : (m >>= f).FailsWhere K := by
  cases m with
  | ret a => exact hm.elim
  | raise e => exact trivial
  | statement locks writes next =>
    intro v hv
    obtain ⟨e, he⟩ := hm v hv
    refine ⟨e, ?_⟩
    show (next v).bind f = .raise e
    rw [he]
    rfl

/-- A transaction that has made no statement. -/
structure Running.Fresh (sys : System σ W R χ ε q ρ) (tx : Running σ W R χ ε q ρ) : Prop where
  /-- All of its program is left. -/
  prog : tx.prog = sys.program tx.request
  /-- It has written nothing. -/
  writes : tx.writes = []

/-- **The transaction has begun.** -/
def World.HasBegun (sys : System σ W R χ ε q ρ) (w : World σ W R χ ε q ρ) (id : ℕ) : Prop :=
  ∃ tx ∈ w.live, tx.id = id ∧ ¬ tx.Fresh sys

/-- **The step answers no request that is shut out**, unless it had begun by then. -/
def AnswersBegun (sys : System σ W R χ ε q ρ) (F : q → Prop) (w v : World σ W R χ ε q ρ) :
    Action χ q → Prop
  | .commit id => ∀ tx result, v.running? id = some tx → tx.prog = .ret result → F tx.request →
    w.HasBegun sys id
  | _ => True

section Run

variable [DecidableEq R] {sys : System σ W R χ ε q ρ} {K : σ → Prop} {F : q → Prop}
  {P : World σ W R χ ε q ρ → Prop} {w v v' : World σ W R χ ε q ρ}

/-- Since the condition holds: whoever had not begun has not begun yet, or fails. -/
def ShutOut (sys : System σ W R χ ε q ρ) (F : q → Prop) (w v : World σ W R χ ε q ρ) : Prop :=
  ∀ tx ∈ v.live, F tx.request → ¬ w.HasBegun sys tx.id → tx.Fresh sys ∨ ∃ e, tx.prog = .raise e

/-- **A step keeps them out.** -/
theorem ShutOut.step (hfails : ∀ request, F request → (sys.program request).FailsWhere K)
    (h : ShutOut sys F w v) (hK : K v.committed) {action : Action χ q}
    (hstep : sys.step v action = some v') : ShutOut sys F w v' := by
  cases action with
  | start request =>
    cases hstep
    intro tx htx hF hbegun
    rcases List.mem_append.mp htx with htx | htx
    · exact h tx htx hF hbegun
    · rw [List.mem_singleton.mp htx]
      exact .inl ⟨rfl, rfl⟩
  | abort id =>
    cases hstep
    exact fun tx htx => h tx (World.mem_remove htx).1
  | commit id =>
    obtain ⟨old, result, -, -, -, rfl⟩ := sys.commit_eq_some hstep
    exact fun tx htx => h tx (World.mem_remove htx).1
  | advance id choice =>
    obtain ⟨old, locks, writes, next, view, hold, hprog, rfl, -, rfl⟩ :=
      sys.advance_eq_some hstep
    intro tx htx hF hbegun
    rcases World.mem_update htx with rfl | ⟨htx, -⟩
    · rcases h old (World.mem_of_running? hold).1 hF hbegun with hfresh | ⟨e, he⟩
      · -- its first statement
        have hfailing := hfails old.request hF
        rw [← hfresh.prog, hprog] at hfailing
        rw [hfresh.writes]
        exact .inr (hfailing _ hK)
      · rw [hprog] at he
        cases he
    · exact h tx htx hF hbegun

/-- **A barrier**: from a world on in which the condition holds for good, a request that
is shut out is answered only if it had begun by then. -/
theorem System.answers_begun
    (hfails : ∀ request, F request → (sys.program request).FailsWhere K)
    (hkeeps : ∀ v v' action, P v → sys.step v action = some v' → P v')
    (hK : ∀ v, P v → K v.committed) (hw : P w) (actions : List (Action χ q)) :
    sys.Meets (AnswersBegun sys F w) w actions := by
  have hrun : ∀ v, P v → ShutOut sys F w v → sys.Meets (AnswersBegun sys F w) v actions := by
    induction actions with
    | nil => exact fun _ _ _ => trivial
    | cons action rest ih =>
      intro v hv hout
      refine ⟨?_, fun v' hstep => ih v' (hkeeps v v' action hv hstep)
        (hout.step hfails (hK v hv) hstep)⟩
      cases action with
      | commit id =>
        intro tx result htx hprog hF
        obtain ⟨hmem, hid⟩ := World.mem_of_running? htx
        by_contra hbegun
        rcases hout tx hmem hF (hid.symm ▸ hbegun) with hfresh | ⟨e, he⟩
        · have hfailing := hfails tx.request hF
          rw [← hfresh.prog, hprog] at hfailing
          exact hfailing
        · rw [hprog] at he
          cases he
      | _ => exact trivial
  refine hrun w hw (fun tx htx _ hbegun => .inl ?_)
  by_contra hfresh
  exact hbegun ⟨tx, htx, rfl, hfresh⟩

end Run

end CohortSwitch
