import CohortSwitch.Transactions

/-!
# Footprints

Which writes a program can make at all, whatever its statements see and
whatever others commit meanwhile. `Prog.Writes lock P Q` says that every write
of the program has `P`, that it locks only rows such writes lock, and that its
result has `Q`; it composes along the program and needs no discipline. A
footprint is a postcondition in any discipline (`Prog.Writes.ensures`), so it
can be joined to whatever else a program ensures (`Prog.Ensures.and`).

The point of a separate notion is economy. To see that a program never touches a
table one does not have to know what the rows it reads look like later; the induction is
over the program alone, and a statement is done as soon as its writes are looked at.

The rules about disciplines that have nothing to do with one of them are here, too: who
relies on more ensures as much (`Prog.Ensures.strict`), and what others cannot undo while
certain rows are locked holds to the end (`Prog.Ensures.frame_locked`).
-/

namespace CohortSwitch

variable {σ V W R χ ε q ρ α β : Type}

namespace Prog

/-- **The footprint of a program**: every write has one property, every lock is one
such a write takes, and the result has another property, whatever its
statements see. -/
def Writes (lock : W → List R) (P : W → Prop) (Q : α → Prop) : Prog V W R ε α → Prop
  | ret a => Q a
  | raise _ => True
  | statement locks writes next => ∀ v, (∀ w ∈ writes v, P w)
    ∧ (∀ r ∈ locks v, ∃ w, P w ∧ r ∈ lock w) ∧ (next v).Writes lock P Q

variable {lock : W → List R} {P P' : W → Prop} {M Q Q' : α → Prop} {m : Prog V W R ε α}

/-- **Footprints compose.** A part of a program first, then the rest. -/
theorem Writes.bind {Q : β → Prop} {f : α → Prog V W R ε β} (hm : m.Writes lock P M)
    (hf : ∀ a, M a → (f a).Writes lock P Q) : (m >>= f).Writes lock P Q := by
  induction m with
  | ret a => exact hf a hm
  | raise e => exact trivial
  | statement locks writes next ih => exact fun v => ⟨(hm v).1, (hm v).2.1, ih v (hm v).2.2⟩

/-- The rule of consequence. -/
theorem Writes.mono (hm : m.Writes lock P Q) (hP : ∀ w, P w → P' w) (hQ : ∀ a, Q a → Q' a) :
    m.Writes lock P' Q' := by
  induction m with
  | ret a => exact hQ a hm
  | raise e => exact trivial
  | statement locks writes next ih =>
    intro v
    obtain ⟨hwrites, hlocks, hnext⟩ := hm v
    refine ⟨fun w hw => hP w (hwrites w hw), fun r hr => ?_, ih v hnext⟩
    obtain ⟨w, hw, hlock⟩ := hlocks r hr
    exact ⟨w, hP w hw, hlock⟩

/-- A program that only reads has the empty footprint. -/
theorem Reads.writes (hm : m.Reads) : m.Writes lock P (fun _ => True) := by
  induction m with
  | ret a => exact trivial
  | raise e => exact trivial
  | statement locks writes next ih =>
    intro v
    obtain ⟨hlocks, hwrites, hnext⟩ := hm v
    rw [hlocks, hwrites]
    exact ⟨fun _ hw => absurd hw List.not_mem_nil, fun _ hr => absurd hr List.not_mem_nil,
      ih v hnext⟩

section Ensures

variable {d d' : Discipline σ W R} {writes : List W} {locks : List R} {s : σ}
  {m : Prog (View σ R χ) W R ε α}

/-- **A footprint is a postcondition.** -/
theorem Writes.ensures (hm : m.Writes lock P Q) (hwrites : ∀ w ∈ writes, P w) :
    m.Ensures d (fun writes' _ _ a => (∀ w ∈ writes', P w) ∧ Q a) writes locks s := by
  induction m generalizing writes locks s with
  | ret a => exact ⟨hwrites, hm⟩
  | raise e => exact trivial
  | statement locks' writes' next ih =>
    intro s' hrely hinv locked choice hfree
    obtain ⟨hnow, -, hnext⟩ := hm ⟨writes.foldl d.apply s', locked, choice⟩
    refine ih _ hnext (fun w hw => ?_)
    rcases List.mem_append.mp hw with hw | hw
    · exact hwrites w hw
    · exact hnow w hw

/-- What a program returns whatever it sees, it ensures. -/
theorem Yields.ensures {P : α → Prop} (hm : m.Yields P) :
    m.Ensures d (fun _ _ _ a => P a) writes locks s := by
  induction m generalizing writes locks s with
  | ret a => exact hm
  | raise e => exact trivial
  | statement locks' writes' next ih => exact fun _ _ _ _ _ _ => ih _ (hm _)

/-- A footprint tells which rows are locked. -/
theorem Writes.ensures_locks (hm : m.Writes lock P Q) {L : R → Prop}
    (hlocks : ∀ r ∈ locks, L r) (hlock : ∀ w, P w → ∀ r ∈ lock w, L r) :
    m.Ensures d (fun _ locks' _ _ => ∀ r ∈ locks', L r) writes locks s := by
  induction m generalizing writes locks s with
  | ret a => exact hlocks
  | raise e => exact trivial
  | statement locks' writes' next ih =>
    intro s' hrely hinv locked choice hfree
    obtain ⟨-, hnow, hnext⟩ := hm ⟨writes.foldl d.apply s', locked, choice⟩
    refine ih _ hnext (fun r hr => ?_)
    rcases List.mem_append.mp hr with hr | hr
    · exact hlocks r hr
    · obtain ⟨w, hw, hrow⟩ := hnow r hr
      exact hlock w hw r hrow

/-- Every program ensures nothing. -/
theorem ensures_true : m.Ensures d (fun _ _ _ _ => True) writes locks s := by
  induction m generalizing writes locks s with
  | ret a => exact trivial
  | raise e => exact trivial
  | statement locks' writes' next ih => exact fun _ _ _ _ _ _ => ih _

/-- **What is ensured twice is ensured together.** -/
theorem Ensures.and {post post' : List W → List R → σ → α → Prop}
    (h : m.Ensures d post writes locks s) (h' : m.Ensures d post' writes locks s) :
    m.Ensures d (fun ws ls t a => post ws ls t a ∧ post' ws ls t a) writes locks s := by
  induction m generalizing writes locks s with
  | ret a => exact ⟨h, h'⟩
  | raise e => exact trivial
  | statement locks' writes' next ih =>
    intro s' hrely hinv locked choice hfree
    exact ih _ (h s' hrely hinv locked choice hfree) (h' s' hrely hinv locked choice hfree)

/-- **The rule of a stricter discipline**: who relies on more ensures as much. -/
theorem Ensures.strict {post : List W → List R → σ → α → Prop}
    (hm : m.Ensures d post writes locks s) (happly : d'.apply = d.apply)
    (hinvariant : ∀ s, d'.invariant s → d.invariant s)
    (hrely : ∀ locks s s', d'.rely locks s s' → d.rely locks s s') :
    m.Ensures d' post writes locks s := by
  induction m generalizing writes locks s with
  | ret a => exact hm
  | raise e => exact trivial
  | statement locks' writes' next ih =>
    intro s' hr hi locked choice hfree
    rw [happly] at hfree ⊢
    exact ih _ (hm s' (hrely _ _ _ hr) (hinvariant _ hi) locked choice hfree)

/-- **The frame rule for locked rows**: what others cannot undo while some rows are
locked holds to the end of a program that starts with these locks. -/
theorem Ensures.frame_locked {post : List W → List R → σ → α → Prop}
    (hm : m.Ensures d post writes locks s) (held : List R) {K : σ → Prop}
    (hstable : ∀ locks s s', held ⊆ locks → d.rely locks s s' → K s → K s')
    (hheld : held ⊆ locks) (h : K s) :
    m.Ensures d (fun ws ls t a => post ws ls t a ∧ held ⊆ ls ∧ K t) writes locks s := by
  induction m generalizing writes locks s with
  | ret a => exact ⟨hm, hheld, h⟩
  | raise e => exact trivial
  | statement locks' writes' next ih =>
    intro s' hrely hinv locked choice hfree
    exact ih _ (hm s' hrely hinv locked choice hfree)
      (fun _ hrow => List.mem_append_left _ (hheld hrow)) (hstable _ _ _ hheld hrely h)

/-- **What a program that only reads observes** are states that others made one of the
other. -/
theorem Reads.observed (hm : m.Reads) :
    m.Ensures d (fun writes' locks' s' a => writes' = writes ∧ locks' = locks
      ∧ d.rely locks s s' ∧ ∃ views, m.observe views = some (.ok a)
        ∧ ∀ v ∈ views, ∃ t, v.state = writes.foldl d.apply t ∧ d.rely locks s t
          ∧ d.rely locks t s') writes locks s := by
  induction m generalizing s with
  | ret a => exact ⟨rfl, rfl, d.rely_refl _ _, [], rfl, fun _ hv => absurd hv List.not_mem_nil⟩
  | raise e => exact trivial
  | statement locks' writes' next ih =>
    intro s₁ hrely _ locked choice _
    obtain ⟨hlocks, hwrites, hnext⟩ := hm ⟨writes.foldl d.apply s₁, locked, choice⟩
    rw [hlocks, hwrites, List.append_nil, List.append_nil]
    refine (ih _ hnext).mono (fun writes'' locks'' s'' a h => ?_)
    obtain ⟨hw, hl, hlater, views, hobserve, hviews⟩ := h
    refine ⟨hw, hl, d.rely_trans _ _ _ _ hrely hlater, _ :: views, hobserve,
      List.forall_mem_cons.mpr ⟨⟨s₁, rfl, hrely, hlater⟩, fun v hv => ?_⟩⟩
    obtain ⟨t, hstate, hbefore, hafter⟩ := hviews v hv
    exact ⟨t, hstate, d.rely_trans _ _ _ _ hrely hbefore, hafter⟩

end Ensures

end Prog

end CohortSwitch
