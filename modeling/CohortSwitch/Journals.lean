import Mathlib.Data.List.Forall2
import Mathlib.Data.Set.Basic
import CohortSwitch.Footprint

/-!
# Journals

A part of a state that writes only append to is a journal: a table nothing
updates or deletes from. What a transaction enters there is a matter of its
program alone, so `Prog.Enters` follows the program, whatever its statements
see, and says at its end what was entered and what was learned on the way: the
facts in the states the statements left behind. A fact is something that no
write makes false.

The judgment has to speak of facts because an entry may say something about rows that
the program has read, and other transactions commit between the read and the entry. A row
as such may be changed by them. What never changes of it, once learned, is still so at
the commit; this is why an invariant on states, which would have to be restored by every
commit, is not needed.

A server's journal is then the entries of the transactions in its log, in the
order they committed (`System.journal_of_run`). What each of them learned is
still a fact when it commits, although others have committed since.
-/

namespace CohortSwitch

variable {σ V W R χ ε q ρ κ φ α β : Type}

/-- Lists related entry by entry: what is in one has something related in the other. -/
theorem exists_of_forall₂ {r : α → β → Prop} {xs : List α} {ys : List β}
    (h : List.Forall₂ r xs ys) {x : α} (hx : x ∈ xs) : ∃ y ∈ ys, r x y := by
  induction h with
  | nil => exact absurd hx List.not_mem_nil
  | cons hr _ ih =>
    rcases List.mem_cons.mp hx with rfl | hx
    · exact ⟨_, List.mem_cons_self, hr⟩
    · obtain ⟨y, hy, hxy⟩ := ih hx
      exact ⟨y, List.mem_cons_of_mem _ hy, hxy⟩

namespace Prog

/-- **What a program enters**: by the time it returns, what it knew and learned, the
entries of its writes and its result are related, whatever its statements see. What is
known they see, too. -/
def Enters (entry : W → Option κ) (learns : V → List W → Set φ) :
    Prog V W R ε α → Set φ → (Set φ → List κ → α → Prop) → Prop
  | ret a, known, P => P known [] a
  | raise _, _, _ => True
  | statement _ writes next, known, P =>
    ∀ v, known ⊆ learns v [] → (next v).Enters entry learns (known ∪ learns v (writes v))
      (fun known' entries a => P known' ((writes v).filterMap entry ++ entries) a)

variable {entry : W → Option κ} {learns : V → List W → Set φ} {known : Set φ}
  {P P' : Set φ → List κ → α → Prop} {m : Prog V W R ε α}

/-- More may be said of what is entered. -/
theorem Enters.mono (hP : ∀ known' entries a, P known' entries a → P' known' entries a)
    (hm : m.Enters entry learns known P) : m.Enters entry learns known P' := by
  induction m generalizing known P P' with
  | ret a => exact hP _ _ _ hm
  | raise e => exact trivial
  | statement locks writes next ih =>
    exact fun v hv => ih v (fun _ _ _ => hP _ _ _) (hm v hv)

/-- A part of a program first, then the rest. -/
theorem Enters.bind {M : Set φ → List κ → α → Prop} {Q : Set φ → List κ → β → Prop}
    {f : α → Prog V W R ε β} (hm : m.Enters entry learns known M)
    (hf : ∀ known' entries a, M known' entries a →
      (f a).Enters entry learns known'
        (fun known'' entries' b => Q known'' (entries ++ entries') b)) :
    (m >>= f).Enters entry learns known Q := by
  induction m generalizing known M Q with
  | ret a => exact hf known [] a hm
  | raise e => exact trivial
  | statement locks writes next ih =>
    refine fun v hv => ih v (hm v hv) (fun known' entries a h => ?_)
    refine (hf _ _ a h).mono (fun known'' entries' b hQ => ?_)
    rwa [← List.append_assoc]

/-- What is known stays known. -/
theorem Enters.keeps (hm : m.Enters entry learns known P) :
    m.Enters entry learns known (fun known' entries a => known ⊆ known' ∧ P known' entries a) := by
  induction m generalizing known P with
  | ret a => exact ⟨subset_rfl, hm⟩
  | raise e => exact trivial
  | statement locks writes next ih =>
    refine fun v hv => (ih v (hm v hv)).mono (fun known' entries a h => ?_)
    exact ⟨Set.subset_union_left.trans h.1, h.2⟩

/-- Who knows more enters the same. -/
theorem Enters.weaken {known' : Set φ} (hsubset : known ⊆ known')
    (hP : ∀ known known' entries a, known ⊆ known' → P known entries a → P known' entries a)
    (hm : m.Enters entry learns known P) : m.Enters entry learns known' P := by
  induction m generalizing known known' P with
  | ret a => exact hP _ _ _ _ hsubset hm
  | raise e => exact trivial
  | statement locks writes next ih =>
    exact fun v hv => ih v (Set.union_subset_union_left _ hsubset)
      (fun _ _ _ _ h => hP _ _ _ _ h) (hm v (hsubset.trans hv))

/-- What only reads enters nothing. -/
theorem Reads.enters (hm : m.Reads) (known : Set φ) :
    m.Enters entry learns known (fun known' entries _ => known ⊆ known' ∧ entries = []) := by
  induction m generalizing known with
  | ret a => exact ⟨subset_rfl, rfl⟩
  | raise e => exact trivial
  | statement locks writes next ih =>
    intro v _
    obtain ⟨-, hwrites, hnext⟩ := hm v
    rw [hwrites]
    refine (ih v hnext _).mono (fun known' entries a h => ?_)
    exact ⟨Set.subset_union_left.trans h.1, h.2⟩

/-- Reading first changes nothing of what is entered. -/
theorem enters_after {Q : Set φ → List κ → β → Prop} {f : α → Prog V W R ε β} (hm : m.Reads)
    (hf : ∀ known' a, known ⊆ known' → (f a).Enters entry learns known' Q) :
    (m >>= f).Enters entry learns known Q := by
  refine (hm.enters known).bind (fun known' entries a h => ?_)
  rw [h.2]
  exact hf known' a h.1

/-- As `enters_after`, where something is learned of what is read. -/
theorem enters_after_learning {M : Set φ → α → Prop} {Q : Set φ → List κ → β → Prop}
    {f : α → Prog V W R ε β}
    (hm : m.Enters entry learns known (fun known' entries a => entries = [] ∧ M known' a))
    (hf : ∀ known' a, known ⊆ known' → M known' a → (f a).Enters entry learns known' Q) :
    (m >>= f).Enters entry learns known Q := by
  refine hm.keeps.bind (fun known' entries a h => ?_)
  obtain ⟨hkeeps, hentries, hM⟩ := h
  rw [hentries]
  exact hf known' a hkeeps hM

/-- What is entered, and what is returned in any case. -/
theorem Enters.and_yields {Q : α → Prop} (hm : m.Enters entry learns known P)
    (hyields : m.Yields Q) :
    m.Enters entry learns known (fun known' entries a => P known' entries a ∧ Q a) := by
  induction m generalizing known P with
  | ret a => exact ⟨hm, hyields⟩
  | raise e => exact trivial
  | statement locks writes next ih => exact fun v hv => ih v (hm v hv) (hyields v)

/-- What is entered is related in both ways. -/
theorem Enters.and (hm : m.Enters entry learns known P) (hm' : m.Enters entry learns known P') :
    m.Enters entry learns known
      (fun known' entries a => P known' entries a ∧ P' known' entries a) := by
  induction m generalizing known P P' with
  | ret a => exact ⟨hm, hm'⟩
  | raise e => exact trivial
  | statement locks writes next ih => exact fun v hv => ih v (hm v hv) (hm' v hv)

/-- Nothing to show. -/
theorem enters_of_forall (m : Prog V W R ε α) (h : ∀ known entries a, P known entries a) :
    m.Enters entry learns known P := by
  induction m generalizing known P with
  | ret a => exact h _ _ _
  | raise e => exact trivial
  | statement locks writes next ih => exact fun v _ => ih v (fun _ _ _ => h _ _ _)

/-- What writes no entries enters nothing. -/
theorem Writes.enters {lock : W → List R} {F : W → Prop} {Q : α → Prop}
    (hm : m.Writes lock F Q) (hsilent : ∀ w, F w → entry w = none) :
    m.Enters entry learns known (fun _ entries a => entries = [] ∧ Q a) := by
  induction m generalizing known with
  | ret a => exact ⟨rfl, hm⟩
  | raise e => exact trivial
  | statement locks writes next ih =>
    intro v _
    obtain ⟨hwrites, -, hnext⟩ := hm v
    have hnone : (writes v).filterMap entry = [] :=
      List.filterMap_eq_nil_iff.mpr (fun w hw => hsilent w (hwrites w hw))
    rw [hnone]
    exact ih v hnext

/-- What is returned without a statement. -/
theorem enters_attempt {x : Except ε α} (h : ∀ a, x = .ok a → P known [] a) :
    (attempt x : Prog V W R ε α).Enters entry learns known P := by
  cases x with
  | ok a => exact h a rfl
  | error e => exact trivial

end Prog

/-! ## Every run -/

/-- **Every request in the log was started**, in the run or before it. -/
theorem System.requests_of_run [DecidableEq R] {sys : System σ W R χ ε q ρ}
    {w w' : World σ W R χ ε q ρ} {actions : List (Action χ q)} {F : q → Prop}
    (hactions : ∀ request, .start request ∈ actions → F request)
    (hlive : ∀ tx ∈ w.live, F tx.request) (hlog : ∀ done ∈ w.log, F done.1)
    (hrun : sys.run w actions = some w') : ∀ done ∈ w'.log, F done.1 :=
  System.run_log (L := fun request _ => F request) (P := fun request _ => F request)
    (fun _ _ _ _ _ h => h) (fun _ _ h => h) hactions hlive hlog hrun

/-- **A journal of a server**: the entries writes append to it, and the facts that no
write makes false. -/
structure System.Journal (sys : System σ W R χ ε q ρ) (κ φ : Type) where
  /-- What is entered. -/
  entries : σ → List κ
  /-- What a write enters, if anything. -/
  entry : W → Option κ
  /-- What is known for good. -/
  facts : σ → Set φ
  /-- A write appends its entry. -/
  append : ∀ s w, entries (sys.apply s w) = entries s ++ (entry w).toList
  /-- It makes no fact false. -/
  stays : ∀ s w, facts s ⊆ facts (sys.apply s w)
  /-- And adds the same facts where more is known. -/
  mono : ∀ s s' w, facts s ⊆ facts s' → facts (sys.apply s w) ⊆ facts (sys.apply s' w)

namespace System.Journal

variable {sys : System σ W R χ ε q ρ} (journal : sys.Journal κ φ)

/-- What a statement learns: what is a fact after its writes. -/
def learns (v : View σ R χ) (writes : List W) : Set φ := journal.facts (sys.view writes v.state)

/-- Some writes append their entries. -/
theorem entries_view (writes : List W) (s : σ) :
    journal.entries (sys.view writes s)
      = journal.entries s ++ writes.filterMap journal.entry := by
  unfold System.view
  induction writes generalizing s with
  | nil => exact (List.append_nil _).symm
  | cons w writes ih =>
    rw [List.foldl_cons, ih, journal.append, List.append_assoc, List.filterMap_cons]
    cases journal.entry w <;> rfl

/-- They make no fact false. -/
theorem stays_view (writes : List W) (s : σ) :
    journal.facts s ⊆ journal.facts (sys.view writes s) := by
  unfold System.view
  induction writes generalizing s with
  | nil => exact subset_rfl
  | cons w writes ih => exact (journal.stays s w).trans (ih _)

/-- And add the same facts where more is known. -/
theorem mono_view (writes : List W) {s s' : σ} (h : journal.facts s ⊆ journal.facts s') :
    journal.facts (sys.view writes s) ⊆ journal.facts (sys.view writes s') := by
  unfold System.view
  induction writes generalizing s s' with
  | nil => exact h
  | cons w writes ih => exact ih (journal.mono s s' w h)

/-- A program enters what its request is said to. -/
def Says (P : q → Set φ → List κ → ρ → Prop) : Prop :=
  ∀ request, (sys.program request).Enters journal.entry journal.learns ∅ (P request)

/-- **A transaction under way**: what it knows is a fact where it stands, and it will
enter what its request is said to. -/
def Enters (P : q → Set φ → List κ → ρ → Prop) (w : World σ W R χ ε q ρ)
    (tx : Running σ W R χ ε q ρ) : Prop :=
  ∃ known, known ⊆ journal.facts (sys.view tx.writes w.committed)
    ∧ tx.prog.Enters journal.entry journal.learns known (fun known' entries a =>
      P tx.request known' (tx.writes.filterMap journal.entry ++ entries) a)

/-- **What happened between two worlds**: some transactions committed, the journal goes on with
their entries, and no fact became false. One stretch of a run and the next can be put together,
so it is enough to know it of a single step. -/
structure Goes (P : q → Set φ → List κ → ρ → Prop) (w w' : World σ W R χ ε q ρ)
    (new : List (q × ρ)) (groups : List (List κ)) : Prop where
  /-- What committed is in the log. -/
  log : w'.log = w.log ++ new
  /-- The journal goes on with the entries of each. -/
  entries : journal.entries w'.committed = journal.entries w.committed ++ groups.flatten
  /-- Every fact stays one. -/
  facts : journal.facts w.committed ⊆ journal.facts w'.committed
  /-- And each has entered what its request is said to. -/
  said : List.Forall₂ (fun done group => P done.1 (journal.facts w'.committed) group done.2)
    new groups

variable {journal} {P : q → Set φ → List κ → ρ → Prop} {w w' w'' : World σ W R χ ε q ρ}
  {new new' : List (q × ρ)} {groups groups' : List (List κ)}

/-- Nothing happened. -/
theorem Goes.same (hlog : w'.log = w.log) (hcommitted : w'.committed = w.committed) :
    journal.Goes P w w' [] [] := by
  refine ⟨?_, ?_, ?_, .nil⟩
  · rw [hlog, List.append_nil]
  · rw [hcommitted]
    exact (List.append_nil _).symm
  · rw [hcommitted]

/-- What holds of known facts holds where more is known. -/
def Persists (P : q → Set φ → List κ → ρ → Prop) : Prop :=
  ∀ request known known' entries a, known ⊆ known' → P request known entries a →
    P request known' entries a

/-- **One stretch of a run after another.** -/
theorem Goes.trans (hpersists : Persists P) (h : journal.Goes P w w' new groups)
    (h' : journal.Goes P w' w'' new' groups') :
    journal.Goes P w w'' (new ++ new') (groups ++ groups') := by
  refine ⟨?_, ?_, h.facts.trans h'.facts, List.rel_append ?_ h'.said⟩
  · rw [h'.log, h.log, List.append_assoc]
  · rw [h'.entries, h.entries, List.flatten_append, List.append_assoc]
  · exact h.said.imp (fun done group hsaid => hpersists _ _ _ _ _ h'.facts hsaid)

/-- **Every new entry is one of a transaction that committed.** -/
theorem Goes.exists_of_mem (h : journal.Goes P w w' new groups) {item : κ}
    (hitem : item ∈ journal.entries w'.committed) (hold : item ∉ journal.entries w.committed) :
    ∃ done ∈ new, ∃ group, item ∈ group ∧ P done.1 (journal.facts w'.committed) group done.2 := by
  rw [h.entries] at hitem
  obtain ⟨group, hgroup, hmem⟩ :=
    List.mem_flatten.mp ((List.mem_append.mp hitem).resolve_left hold)
  obtain ⟨done, hdone, hsaid⟩ := exists_of_forall₂ h.said.flip hgroup
  exact ⟨done, hdone, group, hmem, hsaid⟩

variable [DecidableEq R]

/-- **Each step of a server** enters nothing, or what the transaction it commits
does. -/
theorem goes_of_step (hpersists : Persists P) (hjournal : journal.Says P) {action : Action χ q}
    (hlive : ∀ tx ∈ w.live, journal.Enters P w tx) (hstep : sys.step w action = some w') :
    (∀ tx ∈ w'.live, journal.Enters P w' tx)
      ∧ ∃ new groups, journal.Goes P w w' new groups := by
  cases action with
  | start request =>
    cases hstep
    refine ⟨fun tx htx => ?_, [], [], .same rfl rfl⟩
    rcases List.mem_append.mp htx with htx | htx
    · exact hlive tx htx
    · rw [List.mem_singleton.mp htx]
      exact ⟨∅, Set.empty_subset _, hjournal request⟩
  | abort id =>
    cases hstep
    exact ⟨fun tx htx => hlive tx (World.mem_remove htx).1, [], [], .same rfl rfl⟩
  | advance id choice =>
    obtain ⟨old, locks, writes, next, view, hold, hprog, rfl, -, rfl⟩ :=
      sys.advance_eq_some hstep
    refine ⟨fun tx htx => ?_, [], [], .same rfl rfl⟩
    rcases World.mem_update htx with rfl | ⟨htx, -⟩
    · -- the statement saw the transaction's own writes
      obtain ⟨known, hknown, henters⟩ := hlive old (World.mem_of_running? hold).1
      rw [hprog] at henters
      have hview : ∀ new, sys.view (old.writes ++ new) w.committed
          = sys.view new (sys.view old.writes w.committed) := fun new => List.foldl_append
      have hsees : known ⊆ journal.learns ⟨sys.view old.writes w.committed, w.lockedByOthers id,
        choice⟩ [] := hknown
      refine ⟨_, Set.union_subset ?_ ?_, (henters _ hsees).mono (fun known' entries a h => ?_)⟩
      · show known ⊆ journal.facts (sys.view (old.writes ++ _) w.committed)
        rw [hview]
        exact hknown.trans (journal.stays_view _ _)
      · show _ ⊆ journal.facts (sys.view (old.writes ++ _) w.committed)
        rw [hview]
        exact subset_rfl
      · rwa [List.filterMap_append, List.append_assoc]
    · exact hlive tx htx
  | commit id =>
    obtain ⟨old, result, hold, hprog, -, rfl⟩ := sys.commit_eq_some hstep
    obtain ⟨known, hknown, henters⟩ := hlive old (World.mem_of_running? hold).1
    rw [hprog] at henters
    change P old.request known (old.writes.filterMap journal.entry ++ []) result at henters
    rw [List.append_nil] at henters
    refine ⟨fun tx htx => ?_, [(old.request, result)], [old.writes.filterMap journal.entry], ?_⟩
    · obtain ⟨known', hknown', henters'⟩ := hlive tx (World.mem_remove htx).1
      exact ⟨known', hknown'.trans (journal.mono_view _ (journal.stays_view _ _)), henters'⟩
    · refine ⟨rfl, ?_, journal.stays_view _ _, .cons (hpersists _ _ _ _ _ hknown henters) .nil⟩
      rw [List.flatten_singleton]
      exact journal.entries_view old.writes w.committed

/-- **The journal of a run** goes on with the entries of the transactions that
committed, in the order of the log. -/
theorem goes_of_run (hpersists : Persists P) (hjournal : journal.Says P)
    {actions : List (Action χ q)} (hlive : ∀ tx ∈ w.live, journal.Enters P w tx)
    (hrun : sys.run w actions = some w') :
    (∀ tx ∈ w'.live, journal.Enters P w' tx)
      ∧ ∃ new groups, journal.Goes P w w' new groups := by
  induction actions generalizing w with
  | nil =>
    cases hrun
    exact ⟨hlive, [], [], .same rfl rfl⟩
  | cons action rest ih =>
    obtain ⟨w₁, hstep, hrest⟩ := Option.bind_eq_some_iff.mp hrun
    obtain ⟨hlive₁, new, groups, hgoes⟩ := goes_of_step hpersists hjournal hlive hstep
    obtain ⟨hlive', new', groups', hgoes'⟩ := ih hlive₁ hrest
    exact ⟨hlive', _, _, hgoes.trans hpersists hgoes'⟩

end System.Journal

end CohortSwitch
