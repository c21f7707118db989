import CohortSwitch.CacheAside
import Mathlib.Order.Nat

/-!
# How stale a cache can be

What every run of a cache beside a database keeps: each value that is found or
cached comes from a reading, and what the statements of a reading saw was
committed then, after each of the commits it counts
(`CacheAside.Step.good`). Whoever hits the cache is served from the reading
behind the entry, and whoever misses reads for himself. So a load is served from
readings after a commit as soon as all the entries it can hit are
(`CacheAside.Step.after`), and there are two ways to see that they are: they are
too young to be older (`CacheAside.bounded_staleness`), or the older ones were
deleted and none came back (`CacheAside.fresh_after_deletion`).

## What is known of a reading

`Reading.Ok` places a reading in the history: before which commits its first statement
ran, and that its views are committed states in order, each after the commits before.
It mentions the present only through relations that later steps extend, so it survives
every step (`Reading.Ok.extend`). The database contributes its discipline and nothing
else: between two committed states lies what transactions rely on, with no locks held.

## What a load returns

`ReadBetween` and `ServedBetween` say what a load returns in terms of two states: the
one a commit left, and the one the load ends in. What its values were read from was
committed between them. What that means for the values is a question about the program
that reads, and is answered where it is known (`CohortSwitch.Cache`).

## The two bounds

`Timely` and `Deleted` are invariants of the entries, each kept by the steps that meet
its condition (`Step.timely`, `Step.deleted`). From either follows that all hits of a
label come after a certain commit (`HitsAfter`), from a certain moment on; and from
there `Since` carries the loads that begin later to their ends.
-/

namespace CohortSwitch

namespace CacheAside

variable {σ W R χ ε q ρ Q L K V N : Type}

/-! ## What every run keeps -/

section Invariant

variable {d : Discipline σ W R} {invariant : σ → List (q × ρ) → Prop} {atomic : Prop}
  {cache : CacheAside σ W R χ ε ρ Q L K V N} {w w' : CacheWorld σ W R χ ε q ρ Q L K V N}

/-- **Time has passed** between two worlds. -/
structure Extends (d : Discipline σ W R) (w w' : CacheWorld σ W R χ ε q ρ Q L K V N) : Prop where
  /-- The clock does not go back. -/
  clock : w.clock ≤ w'.clock
  /-- No commit is forgotten, -/
  length : w.commits.length ≤ w'.commits.length
  /-- and each keeps its place, its time and its state; a new one comes after all of them. -/
  commits : ∀ i c', w'.commits[i]? = some c' →
    (∃ c, w.commits[i]? = some c ∧ c'.time = c.time ∧ c'.state = c.state)
      ∨ (w.commits.length ≤ i ∧ w.clock ≤ c'.time)
  /-- What is committed has only been changed by commits. -/
  rely : d.rely [] w.server.committed w'.server.committed
  /-- Where there was no commit it is the same. -/
  still : w'.commits.length = w.commits.length → w'.server.committed = w.server.committed

/-- **What a reading is**: commits it comes before were no earlier than its first statement,
what its statements saw was committed then, and it was so after each of the commits before. So a
reading can be compared with any commit by their places alone. -/
structure Reading.Ok (d : Discipline σ W R) (invariant : σ → List (q × ρ) → Prop)
    (atomic : Prop) (w : CacheWorld σ W R χ ε q ρ Q L K V N) (r : Reading σ R χ) : Prop where
  /-- Commits are counted in order. -/
  commits_le : r.commits ≤ w.commits.length
  /-- It began in the past. -/
  since_le : r.since ≤ w.clock
  /-- A later commit is no earlier than its first statement. -/
  later : ∀ i c, w.commits[i]? = some c → r.commits ≤ i → r.since ≤ c.time
  /-- Its statements saw committed states, from which the present one has evolved. -/
  states : ∀ v ∈ r.views, (∃ log, invariant v.state log) ∧ d.rely [] v.state w.server.committed
  /-- They saw what came of each commit before. -/
  after : ∀ i c, w.commits[i]? = some c → i < r.commits →
    ∀ v ∈ r.views, d.rely [] c.state v.state
  /-- They saw the present state, if nothing was committed since. -/
  still : r.commits = w.commits.length → ∀ v ∈ r.views, v.state = w.server.committed
  /-- An atomic reading saw one state. -/
  same : atomic → ∀ v ∈ r.views, ∀ u ∈ r.views, v.state = u.state

/-- **A reading stays what it is** as time passes. -/
theorem Reading.Ok.extend {r : Reading σ R χ} (h : r.Ok d invariant atomic w)
    (hw : Extends d w w') : r.Ok d invariant atomic w' where
  commits_le := h.commits_le.trans hw.length
  since_le := h.since_le.trans hw.clock
  later := by
    intro i c' hc' hi
    rcases hw.commits i c' hc' with ⟨c, hc, htime, -⟩ | ⟨-, htime⟩
    · rw [htime]
      exact h.later i c hc hi
    · exact h.since_le.trans htime
  states := fun v hv => ⟨(h.states v hv).1, d.rely_trans _ _ _ _ (h.states v hv).2 hw.rely⟩
  after := by
    intro i c' hc' hi
    rcases hw.commits i c' hc' with ⟨c, hc, -, hstate⟩ | ⟨hle, -⟩
    · rw [hstate]
      exact h.after i c hc hi
    · exact absurd (hi.trans_le h.commits_le) (not_lt.mpr hle)
  still := by
    intro heq v hv
    have hlength : w'.commits.length = w.commits.length :=
      le_antisymm (heq ▸ h.commits_le) hw.length
    rw [hw.still hlength]
    exact h.still (heq.trans hlength) v hv
  same := h.same

/-- A value is one some reading found. -/
structure Source.Ok (cache : CacheAside σ W R χ ε ρ Q L K V N) (d : Discipline σ W R)
    (invariant : σ → List (q × ρ) → Prop) (atomic : Prop)
    (w : CacheWorld σ W R χ ε q ρ Q L K V N) (s : Source σ R χ L V) : Prop where
  reading : s.reading.Ok d invariant atomic w
  read : ∃ request misses loaded, (s.label, s.value) ∈ loaded
    ∧ (cache.read request misses).observe s.reading.views = some (.ok loaded)

/-- The labels that were found and those that were missed are the labels of the
request. -/
structure Misses (cache : CacheAside σ W R χ ε ρ Q L K V N) (request : Q)
    (found : List (Source σ R χ L V)) (misses : List L) : Prop where
  labels : (found.map Source.label ++ misses).Perm (cache.labels request)
  nonempty : misses ≠ []

/-- **Everything a request looks up is accounted for**: the cache had all of it,
or the rest is what the program read. -/
def Complete (cache : CacheAside σ W R χ ε ρ Q L K V N) (request : Q)
    (found : List (Source σ R χ L V)) : Prop :=
  (found.map Source.label).Perm (cache.labels request)
    ∨ ∃ (hits : List (Source σ R χ L V)) (misses : List L) (r : Reading σ R χ)
        (loaded : List (L × V)),
      found = hits ++ loaded.map (fun item => ⟨item.1, item.2, r⟩)
        ∧ Misses cache request hits misses
        ∧ (cache.read request misses).observe r.views = some (.ok loaded)

/-- **What is known of a load**, by how far it is. -/
def Phase.Ok (cache : CacheAside σ W R χ ε ρ Q L K V N) (d : Discipline σ W R)
    (invariant : σ → List (q × ρ) → Prop) (atomic : Prop)
    (w : CacheWorld σ W R χ ε q ρ Q L K V N) (request : Q) : Phase σ W R χ ε L V → Prop
  | .asked => True
  | .reading found prog r => (∀ s ∈ found, s.Ok cache d invariant atomic w)
    ∧ r.Ok d invariant atomic w
    ∧ ∃ misses, Misses cache request found misses
      ∧ ∀ more, (cache.read request misses).observe (r.views ++ more) = prog.observe more
  | .storing found todo => (∀ s ∈ found, s.Ok cache d invariant atomic w)
    ∧ (∀ s ∈ todo, s ∈ found) ∧ Complete cache request found
  | .failed e r => r.Ok d invariant atomic w
    ∧ ∃ misses, (cache.read request misses).observe r.views = some (.error e)

/-- So does a value. -/
theorem Source.Ok.extend {s : Source σ R χ L V} (h : s.Ok cache d invariant atomic w)
    (hw : Extends d w w') : s.Ok cache d invariant atomic w' :=
  ⟨h.reading.extend hw, h.read⟩

/-- And a load. -/
theorem Phase.Ok.extend {request : Q} {phase : Phase σ W R χ ε L V}
    (h : phase.Ok cache d invariant atomic w request) (hw : Extends d w w') :
    phase.Ok cache d invariant atomic w' request := by
  cases phase with
  | asked => exact trivial
  | reading found prog r => exact ⟨fun s hs => (h.1 s hs).extend hw, h.2.1.extend hw, h.2.2⟩
  | storing found todo => exact ⟨fun s hs => (h.1 s hs).extend hw, h.2⟩
  | failed e r => exact ⟨h.1.extend hw, h.2⟩

/-- Where a load goes on is in order. -/
theorem Phase.ok_next {request : Q} {found : List (Source σ R χ L V)} {r : Reading σ R χ}
    {prog : Prog (View σ R χ) W R ε (List (L × V))}
    (hfound : ∀ s ∈ found, s.Ok cache d invariant atomic w) (hr : r.Ok d invariant atomic w)
    (hprog : ∃ misses, Misses cache request found misses
      ∧ ∀ more, (cache.read request misses).observe (r.views ++ more) = prog.observe more) :
    (Phase.next found r prog).Ok cache d invariant atomic w request := by
  obtain ⟨misses, hmisses, hmore⟩ := hprog
  have hdone := hmore []
  rw [List.append_nil] at hdone
  cases prog with
  | ret loaded =>
    refine ⟨fun s hs => ?_, fun s hs => List.mem_append_right _ hs,
      .inr ⟨found, misses, r, loaded, rfl, hmisses, hdone⟩⟩
    rcases List.mem_append.mp hs with hs | hs
    · exact hfound s hs
    · obtain ⟨item, hitem, rfl⟩ := List.mem_map.mp hs
      exact ⟨hr, request, misses, loaded, hitem, hdone⟩
  | raise e => exact ⟨hr, misses, hdone⟩
  | statement locks writes next => exact ⟨hfound, hr, misses, hmisses, hmore⟩

/-- **The world is in good order.** The server is, every commit lies before what is committed
now, and every value that is held by an entry or a load was found by a reading. -/
structure CacheWorld.Good (cache : CacheAside σ W R χ ε ρ Q L K V N) (d : Discipline σ W R)
    (invariant : σ → List (q × ρ) → Prop) (post : q → List W → List R → σ → ρ → Prop)
    (Tells : σ → N → Prop) (atomic : Prop) (w : CacheWorld σ W R χ ε q ρ Q L K V N) : Prop where
  /-- The server keeps the invariant of its transactions. -/
  server : w.server.Good d invariant post
  /-- Commits lie in the past, and their states lead to the committed one. -/
  commits : ∀ c ∈ w.commits, c.time ≤ w.clock ∧ d.rely [] c.state w.server.committed
  /-- A note tells what was so when its transaction committed. -/
  notes : ∀ c ∈ w.commits, ∀ note, note ∈ c.todo ∨ note ∈ c.returned → Tells c.state note
  /-- An entry lies under the key of its label, and was found by a reading. -/
  entries : ∀ key e, w.entries key = some e →
    cache.cacheKey e.source.label = key ∧ e.source.Ok cache d invariant atomic w
  /-- So were the values that a load holds. -/
  loads : ∀ load ∈ w.loads, load.phase.Ok cache d invariant atomic w load.request

end Invariant

section Steps

variable [DecidableEq R] [DecidableEq K] {sys : System σ W R χ ε q ρ} {d : Discipline σ W R}
  {invariant : σ → List (q × ρ) → Prop} {post : q → List W → List R → σ → ρ → Prop}
  {Tells : σ → N → Prop} {atomic : Prop} {cache : CacheAside σ W R χ ε ρ Q L K V N}
  {w w' : CacheWorld σ W R χ ε q ρ Q L K V N} {action : CacheAction χ q Q K}

/-- **What the database gives**: it keeps its invariant, and what a transaction notes is true of
the state it leaves. It is all that the cache needs to know of what it caches. -/
structure Sound (cache : CacheAside σ W R χ ε ρ Q L K V N) (sys : System σ W R χ ε q ρ)
    (d : Discipline σ W R) (invariant : σ → List (q × ρ) → Prop)
    (post : q → List W → List R → σ → ρ → Prop) (Tells : σ → N → Prop) : Prop where
  /-- Every transaction keeps the invariant, whoever commits in between. -/
  respects : sys.Respects d invariant post (fun _ _ _ => True)
  /-- What a result has noted is true of the state after its commit. -/
  tells : ∀ request writes locks s s' result log log', post request writes locks s result →
    d.rely locks s s' → invariant s' log → invariant (sys.view writes s') log' →
    ∀ note ∈ cache.notes result, Tells (sys.view writes s') note

/-- The read that is under way. -/
def Phase.reading? : Phase σ W R χ ε L V → Option (Reading σ R χ)
  | .reading _ _ r => some r
  | _ => none

/-- What is put into the cache next. -/
def Phase.todo? : Phase σ W R χ ε L V → Option (Source σ R χ L V)
  | .storing _ (s :: _) => some s
  | _ => none

/-- Nobody commits between the first statement of a read and the last. -/
def ReadsAtomic (w : CacheWorld σ W R χ ε q ρ Q L K V N) : CacheAction χ q Q K → Prop
  | .statement id _ => ∀ load ∈ w.loads[id]?, ∀ r ∈ load.phase.reading?,
    r.views.isEmpty = false → r.commits = w.commits.length
  | _ => True

/-- A step in which nothing fails and no read is torn. -/
def Smooth (w : CacheWorld σ W R χ ε q ρ Q L K V N) (action : CacheAction χ q Q K) : Prop :=
  action.Works ∧ ReadsAtomic w action

/-- Every entry is set within `D` of the first statement of its reading. -/
def StoresWithin (D : ℕ) (w : CacheWorld σ W R χ ε q ρ Q L K V N) : CacheAction χ q Q K → Prop
  | .set id => ∀ load ∈ w.loads[id]?, ∀ s ∈ load.phase.todo?,
    w.clock ≤ s.reading.since + D
  | _ => True

/-- No entry is set after the deletion for a commit its reading came before. -/
def StoresFresh (w : CacheWorld σ W R χ ε q ρ Q L K V N) : CacheAction χ q Q K → Prop
  | .set id => ∀ load ∈ w.loads[id]?, ∀ s ∈ load.phase.todo?,
    ∀ c ∈ w.commits.drop s.reading.commits, s.label ∉ c.dropped
  | _ => True

instance (w : CacheWorld σ W R χ ε q ρ Q L K V N) (action : CacheAction χ q Q K) :
    Decidable (ReadsAtomic w action) :=
  match action with
  | .statement _ _ => inferInstanceAs (Decidable (∀ _ ∈ _, _))
  | .tick | .serve _ | .load _ | .get _ | .getFails _ | .set _ | .setFails _ | .delete _
  | .publish _ | .noteFails _ | .crash _ | .evict _ => instDecidableTrue

instance (w : CacheWorld σ W R χ ε q ρ Q L K V N) (action : CacheAction χ q Q K) :
    Decidable (Smooth w action) :=
  inferInstanceAs (Decidable (_ ∧ _))

instance (D : ℕ) (w : CacheWorld σ W R χ ε q ρ Q L K V N) (action : CacheAction χ q Q K) :
    Decidable (StoresWithin D w action) :=
  match action with
  | .set _ => inferInstanceAs (Decidable (∀ _ ∈ _, _))
  | .tick | .serve _ | .load _ | .get _ | .getFails _ | .statement _ _ | .setFails _
  | .delete _ | .publish _ | .noteFails _ | .crash _ | .evict _ => instDecidableTrue

instance [DecidableEq L] (w : CacheWorld σ W R χ ε q ρ Q L K V N)
    (action : CacheAction χ q Q K) : Decidable (StoresFresh w action) :=
  match action with
  | .set _ => inferInstanceAs (Decidable (∀ _ ∈ _, _))
  | .tick | .serve _ | .load _ | .get _ | .getFails _ | .statement _ _ | .setFails _
  | .delete _ | .publish _ | .noteFails _ | .crash _ | .evict _ => instDecidableTrue

omit [DecidableEq R] [DecidableEq K] in
theorem getElem?_set_of {α : Type} {xs : List α} {i j : ℕ} {x x' y : α} (hx : xs[i]? = some x)
    (hy : (xs.set i x')[j]? = some y) : (j = i ∧ y = x') ∨ xs[j]? = some y := by
  by_cases hij : i = j
  · subst hij
    rw [List.getElem?_set_self (List.getElem?_eq_some_iff.mp hx).1] at hy
    exact .inl ⟨rfl, (Option.some.inj hy).symm⟩
  · rw [List.getElem?_set_ne hij] at hy
    exact .inr hy

omit [DecidableEq K] in
/-- A step of the server commits one transaction or leaves what is committed. -/
theorem committing_of_step {server server' : World σ W R χ ε q ρ} {served : Action χ q}
    (hsound : Sound cache sys d invariant post Tells) (hgood : server.Good d invariant post)
    (hstep : sys.step server served = some server') :
    server'.Good d invariant post ∧ d.rely [] server.committed server'.committed
      ∧ match committing server served with
        | some result => ∀ note ∈ cache.notes result, Tells server'.committed note
        | none => server'.committed = server.committed := by
  obtain ⟨hgood', hrely⟩ := hsound.respects.step hgood (fun _ _ _ _ => trivial) hstep
  refine ⟨hgood', hrely, ?_⟩
  cases served with
  | start request =>
    cases hstep
    rfl
  | abort id =>
    cases hstep
    rfl
  | advance id choice =>
    obtain ⟨tx, locks, writes, next, view, -, -, -, -, rfl⟩ := sys.advance_eq_some hstep
    rfl
  | commit id =>
    obtain ⟨tx, result, htx, hprog, -, rfl⟩ := sys.commit_eq_some hstep
    have hresult : committing server (.commit id : Action χ q) = some result := by
      show (server.running? id).bind _ = some result
      rw [htx, Option.bind_some, hprog]
    rw [hresult]
    obtain ⟨s, hrely, hpost⟩ := hgood.of_running htx hprog
    exact hsound.tells _ _ _ _ _ _ _ _ hpost hrely hgood.invariant hgood'.invariant

/-- **Every step lets time pass.** -/
theorem Step.extends (hsound : Sound cache sys d invariant post Tells)
    (hgood : w.Good cache d invariant post Tells atomic) (h : Step cache sys w action w') :
    Extends d w w' := by
  have hsame : ∀ i c, w.commits[i]? = some c →
      (∃ c₀, w.commits[i]? = some c₀ ∧ c.time = c₀.time ∧ c.state = c₀.state)
        ∨ (w.commits.length ≤ i ∧ w.clock ≤ c.time) := fun i c hc => .inl ⟨c, hc, rfl, rfl⟩
  cases h with
  | tick => exact ⟨Nat.le_succ _, le_refl _, hsame, d.rely_refl _ _, fun _ => rfl⟩
  | load request => exact ⟨le_refl _, le_refl _, hsame, d.rely_refl _ _, fun _ => rfl⟩
  | evict key => exact ⟨le_refl _, le_refl _, hsame, d.rely_refl _ _, fun _ => rfl⟩
  | onLoad _ id load hload phase hphase entries hentries =>
    exact ⟨le_refl _, le_refl _, hsame, d.rely_refl _ _, fun _ => rfl⟩
  | onCommit _ i c c' hc entries published hnote =>
    refine ⟨le_refl _, ?_, ?_, d.rely_refl _ _, fun _ => rfl⟩
    · exact (List.length_set ..).ge
    · intro j c₁ hc₁
      rcases getElem?_set_of hc hc₁ with ⟨rfl, rfl⟩ | hc₁
      · exact .inl ⟨c, hc, hnote.time, hnote.state⟩
      · exact hsame j c₁ hc₁
  | serve served server hserver =>
    obtain ⟨-, hrely, hcommit⟩ := committing_of_step hsound hgood.server hserver
    cases hresult : committing w.server served with
    | none =>
      rw [hresult] at hcommit
      refine ⟨le_refl _, ?_, ?_, hrely, fun _ => hcommit⟩
      · show w.commits.length ≤ (w.commits ++ []).length
        rw [List.append_nil]
      · intro i c hc
        change (w.commits ++ [])[i]? = some c at hc
        rw [List.append_nil] at hc
        exact hsame i c hc
    | some result =>
      refine ⟨le_refl _, ?_, ?_, hrely, fun heq => ?_⟩
      · exact (Nat.le_add_right _ _).trans (List.length_append ..).ge
      · intro i c hc
        by_cases hi : i < w.commits.length
        · rw [List.getElem?_append_left hi] at hc
          exact hsame i c hc
        · rw [List.getElem?_append_right (not_lt.mp hi)] at hc
          have hmem := List.mem_singleton.mp (List.mem_of_getElem? hc)
          rw [hmem]
          exact .inr ⟨not_lt.mp hi, le_refl _⟩
      · rw [List.length_append] at heq
        exact absurd heq (Nat.succ_ne_self _)

omit [DecidableEq R] [DecidableEq K] in
/-- A read that has not begun. -/
theorem Reading.ok_new (w : CacheWorld σ W R χ ε q ρ Q L K V N) :
    (⟨w.commits.length, w.clock, []⟩ : Reading σ R χ).Ok d invariant atomic w where
  commits_le := le_refl _
  since_le := le_refl _
  later := fun _ _ hc hi =>
    absurd (List.getElem?_eq_some_iff.mp hc).1 (not_lt.mpr hi)
  states := fun _ hv => absurd hv List.not_mem_nil
  after := fun _ _ _ _ _ hv => absurd hv List.not_mem_nil
  still := fun _ _ hv => absurd hv List.not_mem_nil
  same := fun _ _ hv => absurd hv List.not_mem_nil

omit [DecidableEq R] [DecidableEq K] in
/-- **The next statement of a read** sees what is committed. -/
theorem Reading.Ok.see (hgood : w.Good cache d invariant post Tells atomic) {r : Reading σ R χ}
    (hr : r.Ok d invariant atomic w)
    (hatomic : atomic → r.views.isEmpty = false → r.commits = w.commits.length) (choice : χ) :
    (r.see w.commits.length w.clock ⟨w.server.committed, [], choice⟩).Ok d invariant atomic w := by
  have hstate : (∃ log, invariant w.server.committed log)
      ∧ d.rely [] w.server.committed w.server.committed :=
    ⟨⟨_, hgood.server.invariant⟩, d.rely_refl _ _⟩
  have hafter : ∀ (i : ℕ) (c : Commit σ ρ L N), w.commits[i]? = some c →
      d.rely [] c.state w.server.committed :=
    fun i c hc => (hgood.commits c (List.mem_of_getElem? hc)).2
  obtain ⟨commits, since, views⟩ := r
  cases views with
  | nil =>
    -- the first statement of a reading makes it one of now
    have hnew : (⟨w.commits.length, w.clock, []⟩ : Reading σ R χ).Ok d invariant atomic w :=
      Reading.ok_new w
    refine ⟨le_refl _, le_refl _, hnew.later, ?_, ?_, ?_, ?_⟩
    · exact List.forall_mem_singleton.mpr hstate
    · exact fun i c hc _ => List.forall_mem_singleton.mpr (hafter i c hc)
    · exact fun _ => List.forall_mem_singleton.mpr rfl
    · exact fun _ => List.forall_mem_singleton.mpr (List.forall_mem_singleton.mpr rfl)
  | cons v₀ views =>
    have hsplit : ∀ {P : View σ R χ → Prop}, (∀ v ∈ v₀ :: views, P v) →
        P ⟨w.server.committed, [], choice⟩ →
        ∀ v ∈ v₀ :: views ++ [⟨w.server.committed, [], choice⟩], P v := by
      intro P hold hnew v hv
      rcases List.mem_append.mp hv with hv | hv
      · exact hold v hv
      · rw [List.mem_singleton.mp hv]
        exact hnew
    refine ⟨hr.commits_le, hr.since_le, hr.later, ?_, ?_, ?_, ?_⟩
    · exact hsplit hr.states hstate
    · exact fun i c hc hi => hsplit (hr.after i c hc hi) (hafter i c hc)
    · exact fun heq => hsplit (hr.still heq) rfl
    · intro ha
      -- an atomic reading goes on only where nothing was committed since it began
      have hnow := hr.still (hatomic ha rfl)
      refine hsplit (fun v hv => hsplit (hr.same ha v hv) (hnow v hv)) ?_
      exact hsplit (fun u hu => (hnow u hu).symm) rfl

omit [DecidableEq R] [DecidableEq K] in
/-- A statement adds its view. -/
theorem Reading.views_see (r : Reading σ R χ) (commits since : ℕ) (v : View σ R χ) :
    (r.see commits since v).views = r.views ++ [v] := by
  obtain ⟨_, _, views⟩ := r
  cases views <;> rfl

omit [DecidableEq R] [DecidableEq K] in
/-- What a hit is. -/
theorem mem_hits {labels : List L} {s : Source σ R χ L V} (h : s ∈ cache.hits w labels) :
    s.label ∈ labels ∧ ∃ e, cache.entry? w (cache.cacheKey s.label) = some e
      ∧ s = { e.source with label := s.label } := by
  obtain ⟨l, hl, hs⟩ := List.mem_filterMap.mp h
  obtain ⟨e, he, rfl⟩ := Option.map_eq_some_iff.mp hs
  exact ⟨hl, e, he, rfl⟩

omit [DecidableEq R] [DecidableEq K] in
/-- An entry that is given is there, and its time is not over. -/
theorem entry?_eq_some {key : K} {e : Entry σ R χ L V} (h : cache.entry? w key = some e) :
    w.entries key = some e ∧ w.clock < e.setAt + cache.ttl := by
  obtain ⟨he, hlive⟩ := Option.filter_eq_some_iff.mp h
  exact ⟨he, of_decide_eq_true hlive⟩

omit [DecidableEq R] [DecidableEq K] in
/-- What the cache has of a label is what some reading found for that label. -/
theorem Source.ok_hit (hgood : w.Good cache d invariant post Tells atomic) {labels : List L}
    {s : Source σ R χ L V} (h : s ∈ cache.hits w labels) : s.Ok cache d invariant atomic w := by
  obtain ⟨-, e, he, heq⟩ := mem_hits h
  obtain ⟨hkey, hok⟩ := hgood.entries _ e (entry?_eq_some he).1
  have hlabel : e.source.label = s.label := cache.cacheKey_injective hkey
  have hsource : s = e.source := by
    rw [heq, ← hlabel]
  rw [hsource]
  exact hok

omit [DecidableEq R] [DecidableEq K] in
/-- Hits and misses are the labels that were asked for. -/
theorem perm_hits (w : CacheWorld σ W R χ ε q ρ Q L K V N) (labels : List L) :
    ((cache.hits w labels).map Source.label ++ cache.misses w labels).Perm labels := by
  have hlabels : (cache.hits w labels).map Source.label
      = labels.filter (fun l => (cache.entry? w (cache.cacheKey l)).isSome) := by
    unfold hits
    induction labels with
    | nil => rfl
    | cons l rest ih =>
      cases he : cache.entry? w (cache.cacheKey l) with
      | none =>
        rw [List.filterMap_cons_none (by rw [he]; rfl), ih,
          List.filter_cons_of_neg (by simp [he])]
      | some e =>
        rw [List.filterMap_cons_some (by rw [he]; rfl), List.map_cons, ih,
          List.filter_cons_of_pos (by simp [he])]
  rw [hlabels]
  unfold misses
  simp only [← Option.not_isSome]
  exact List.filter_append_perm _ _

omit [DecidableEq R] [DecidableEq K] in
/-- **The next phase of a load** is in order. -/
theorem PhaseStep.ok (hgood : w.Good cache d invariant post Tells atomic)
    (hatomic : atomic → ReadsAtomic w action) {id : ℕ} {load : Load σ W R χ ε Q L V}
    (hload : w.loads[id]? = some load) {phase : Phase σ W R χ ε L V}
    (h : PhaseStep cache w id load.request action load.phase phase) :
    phase.Ok cache d invariant atomic w load.request := by
  have hturn : ∀ (found : List (Source σ R χ L V)) (misses : List L),
      (∀ s ∈ found, s.Ok cache d invariant atomic w) →
      (found.map Source.label ++ misses).Perm (cache.labels load.request) →
      (cache.turn w load.request found misses).Ok cache d invariant atomic w load.request := by
    intro found misses hfound hperm
    cases misses with
    | nil =>
      rw [List.append_nil] at hperm
      exact ⟨hfound, fun s hs => absurd hs List.not_mem_nil, .inl hperm⟩
    | cons l rest =>
      exact Phase.ok_next hfound (Reading.ok_new w)
        ⟨l :: rest, ⟨hperm, List.cons_ne_nil _ _⟩, fun _ => rfl⟩
  have hok := hgood.loads load (List.mem_of_getElem? hload)
  obtain ⟨request, current⟩ := load
  cases h with
  | get => exact hturn _ _ (fun s hs => Source.ok_hit hgood hs) (perm_hits w _)
  | getFails => exact hturn _ _ (fun s hs => absurd hs List.not_mem_nil) .rfl
  | set found s todo =>
    exact ⟨hok.1, fun s hs => hok.2.1 s (List.mem_cons_of_mem _ hs), hok.2.2⟩
  | setFails found s todo =>
    exact ⟨hok.1, fun s hs => hok.2.1 s (List.mem_cons_of_mem _ hs), hok.2.2⟩
  | statement choice found r locks writes next =>
    obtain ⟨hfound, hr, misses, hmisses, hmore⟩ := hok
    refine Phase.ok_next hfound
      (hr.see hgood (fun ha => hatomic ha _ hload r rfl) choice) ?_
    refine ⟨misses, hmisses, fun more => ?_⟩
    rw [Reading.views_see, List.append_assoc, hmore]
    rfl

/-- **Every step keeps the world in good order.** -/
theorem Step.good (hsound : Sound cache sys d invariant post Tells)
    (hgood : w.Good cache d invariant post Tells atomic)
    (hatomic : atomic → ReadsAtomic w action) (h : Step cache sys w action w') :
    w'.Good cache d invariant post Tells atomic := by
  have hw := h.extends hsound hgood
  have hcommits : ∀ c ∈ w.commits,
      c.time ≤ w'.clock ∧ d.rely [] c.state w'.server.committed := fun c hc =>
    ⟨(hgood.commits c hc).1.trans hw.clock, d.rely_trans _ _ _ _ (hgood.commits c hc).2 hw.rely⟩
  have hentries : ∀ key e, w.entries key = some e →
      cache.cacheKey e.source.label = key ∧ e.source.Ok cache d invariant atomic w' :=
    fun key e he => ⟨(hgood.entries key e he).1, (hgood.entries key e he).2.extend hw⟩
  have hloads : ∀ load ∈ w.loads, load.phase.Ok cache d invariant atomic w' load.request :=
    fun load hload => (hgood.loads load hload).extend hw
  -- deleting an entry leaves the others
  have hdrop : ∀ {key : K}, ∀ key' e, Function.update w.entries key none key' = some e →
      w.entries key' = some e := by
    intro key key' e he
    by_cases hkey : key' = key
    · rw [hkey, Function.update_self] at he
      cases he
    · rwa [Function.update_of_ne hkey] at he
  cases h with
  | tick => exact ⟨hgood.server, hcommits, hgood.notes, hentries, hloads⟩
  | load request =>
    refine ⟨hgood.server, hcommits, hgood.notes, hentries, fun load hload => ?_⟩
    rcases List.mem_append.mp hload with hload | hload
    · exact hloads load hload
    · rw [List.mem_singleton.mp hload]
      exact trivial
  | evict key =>
    exact ⟨hgood.server, hcommits, hgood.notes, fun key' e he => hentries key' e (hdrop key' e he),
      hloads⟩
  | onLoad _ id load hload phase hphase entries hstores =>
    have hok := hphase.ok hgood hatomic hload
    refine ⟨hgood.server, hcommits, hgood.notes, fun key e he => ?_, fun load' hload' => ?_⟩
    · rcases hstores with rfl | ⟨found, s, todo, -, hstoring, rfl⟩
      · exact hentries key e he
      · -- the entry that is set comes from the reading of this load
        by_cases hkey : key = cache.cacheKey s.label
        · subst hkey
          change Function.update w.entries _ _ _ = some e at he
          rw [Function.update_self] at he
          cases he
          -- whose sources were in order when it had read them
          have hcurrent := hgood.loads load (List.mem_of_getElem? hload)
          rw [hstoring] at hcurrent
          exact ⟨rfl, (hcurrent.1 s (hcurrent.2.1 s List.mem_cons_self)).extend hw⟩
        · change Function.update w.entries _ _ key = some e at he
          rw [Function.update_of_ne hkey] at he
          exact hentries key e he
    · rcases List.mem_or_eq_of_mem_set hload' with hload' | rfl
      · exact hloads load' hload'
      · exact hok.extend hw
  | onCommit _ i c c' hc entries published hnote =>
    have hmem := List.mem_of_getElem? hc
    refine ⟨hgood.server, fun c₁ hc₁ => ?_, fun c₁ hc₁ note hnotes => ?_, fun key e he => ?_,
      hloads⟩
    · rcases List.mem_or_eq_of_mem_set hc₁ with hc₁ | rfl
      · exact hcommits c₁ hc₁
      · rw [hnote.time, hnote.state]
        exact hcommits c hmem
    · rcases List.mem_or_eq_of_mem_set hc₁ with hc₁ | rfl
      · exact hgood.notes c₁ hc₁ note hnotes
      · rw [hnote.state]
        refine hgood.notes c hmem note ?_
        rcases hnotes with hin | hin
        · exact .inl (hnote.todo note hin)
        · exact (hnote.returned note hin).symm
    · rcases hnote.entries with ⟨rfl, -⟩ | ⟨note, rfl, -⟩
      · exact hentries key e he
      · exact hentries key e (hdrop key e he)
  | serve served server hserver =>
    obtain ⟨hserver', hrely, hcommit⟩ := committing_of_step hsound hgood.server hserver
    refine ⟨hserver', fun c hc => ?_, fun c hc note hnote => ?_, hentries, hloads⟩
    · rcases List.mem_append.mp hc with hc | hc
      · exact hcommits c hc
      · obtain ⟨result, -, rfl⟩ := Option.map_eq_some_iff.mp (Option.mem_toList.mp hc)
        exact ⟨le_refl _, d.rely_refl _ _⟩
    · rcases List.mem_append.mp hc with hc | hc
      · exact hgood.notes c hc note hnote
      · obtain ⟨result, hresult, rfl⟩ := Option.map_eq_some_iff.mp (Option.mem_toList.mp hc)
        rw [hresult] at hcommit
        rcases hnote with hnote | hnote
        · exact hcommit note hnote
        · exact absurd hnote List.not_mem_nil

/-! ## How old an answer can be -/

/-- **A load is served from readings after commit `n`**, as far as it is about
the label `l`. -/
def Phase.After (n : ℕ) (l : L) : Phase σ W R χ ε L V → Prop
  | .asked => True
  | .reading found _ r => (∀ s ∈ found, s.label = l → n < s.reading.commits) ∧ n < r.commits
  | .storing found _ => ∀ s ∈ found, s.label = l → n < s.reading.commits
  | .failed _ r => n < r.commits

/-- What the cache has of the label `l` was read after commit `n`. -/
def HitsAfter (cache : CacheAside σ W R χ ε ρ Q L K V N) (n : ℕ) (l : L)
    (w : CacheWorld σ W R χ ε q ρ Q L K V N) : Prop :=
  ∀ e, cache.entry? w (cache.cacheKey l) = some e → n < e.source.reading.commits

/-- The loads from the place `base` on are served from readings after commit
`n`. -/
def LoadsAfter (n : ℕ) (l : L) (base : ℕ) (w : CacheWorld σ W R χ ε q ρ Q L K V N) : Prop :=
  n < w.commits.length
    ∧ ∀ id load, base ≤ id → w.loads[id]? = some load → load.phase.After n l

omit [DecidableEq R] [DecidableEq K] in
/-- A load that goes on after the commit is served after it. -/
theorem Phase.after_next {n : ℕ} {l : L} {found : List (Source σ R χ L V)} {r : Reading σ R χ}
    (hfound : ∀ s ∈ found, s.label = l → n < s.reading.commits) (hr : n < r.commits)
    (prog : Prog (View σ R χ) W R ε (List (L × V))) : (Phase.next found r prog).After n l := by
  cases prog with
  | ret loaded =>
    intro s hs hlabel
    rcases List.mem_append.mp hs with hs | hs
    · exact hfound s hs hlabel
    · obtain ⟨item, -, rfl⟩ := List.mem_map.mp hs
      exact hr
  | raise e => exact hr
  | statement locks writes next => exact ⟨hfound, hr⟩

omit [DecidableEq R] [DecidableEq K] in
/-- So is one that takes a step. -/
theorem PhaseStep.after {n : ℕ} {l : L} {id : ℕ} {request : Q}
    {current phase : Phase σ W R χ ε L V} (hn : n < w.commits.length)
    (hhits : HitsAfter cache n l w) (hafter : current.After n l)
    (h : PhaseStep cache w id request action current phase) : phase.After n l := by
  have hturn : ∀ (found : List (Source σ R χ L V)) (misses : List L),
      (∀ s ∈ found, s.label = l → n < s.reading.commits) →
      (cache.turn w request found misses).After n l := by
    intro found misses hfound
    cases misses with
    | nil => exact hfound
    | cons _ _ => exact Phase.after_next hfound hn _
  cases h with
  | get =>
    refine hturn _ _ (fun s hs hlabel => ?_)
    obtain ⟨-, e, he, heq⟩ := mem_hits hs
    rw [hlabel] at he
    rw [heq]
    exact hhits e he
  | getFails => exact hturn _ _ (fun s hs => absurd hs List.not_mem_nil)
  | set found s todo => exact hafter
  | setFails found s todo => exact hafter
  | statement choice found r locks writes next =>
    refine Phase.after_next hafter.1 ?_ _
    obtain ⟨commits, since, views⟩ := r
    cases views with
    | nil => exact hn
    | cons _ _ => exact hafter.2

/-- **A load that begins after the commit is served from readings after it**, as long as all
hits of the label are. -/
theorem Step.after (hsound : Sound cache sys d invariant post Tells)
    (hgood : w.Good cache d invariant post Tells atomic) {n base : ℕ} {l : L}
    (hhits : HitsAfter cache n l w) (hafter : LoadsAfter n l base w)
    (h : Step cache sys w action w') : LoadsAfter n l base w' := by
  refine ⟨hafter.1.trans_le (h.extends hsound hgood).length, ?_⟩
  intro id load hbase hload
  cases h with
  | load request =>
    by_cases hid : id < w.loads.length
    · rw [List.getElem?_append_left hid] at hload
      exact hafter.2 id load hbase hload
    · rw [List.getElem?_append_right (not_lt.mp hid)] at hload
      rw [List.mem_singleton.mp (List.mem_of_getElem? hload)]
      exact trivial
  | onLoad _ id₀ load₀ hload₀ phase hphase entries hstores =>
    rcases getElem?_set_of hload₀ hload with ⟨rfl, rfl⟩ | hload
    · exact hphase.after hafter.1 hhits (hafter.2 _ _ hbase hload₀)
    · exact hafter.2 id load hbase hload
  | _ => exact hafter.2 id load hbase hload

/-- **What a load returns about a label comes from a read between two states**:
what its statements saw was committed after the one and before the other. -/
def ReadBetween (cache : CacheAside σ W R χ ε ρ Q L K V N) (d : Discipline σ W R)
    (invariant : σ → List (q × ρ) → Prop) (atomic : Prop) (s s' : σ) (request : Q)
    (misses : List L) (loaded : Except ε (List (L × V))) : Prop :=
  ∃ views, (cache.read request misses).observe views = some loaded
    ∧ (∀ v ∈ views, (∃ log, invariant v.state log) ∧ d.rely [] s v.state
      ∧ d.rely [] v.state s')
    ∧ (atomic → ∀ v ∈ views, ∀ u ∈ views, v.state = u.state)

/-- **A load is served from what was committed between two states**, as far as
it is about the label `l`. -/
def ServedBetween (cache : CacheAside σ W R χ ε ρ Q L K V N) (d : Discipline σ W R)
    (invariant : σ → List (q × ρ) → Prop) (atomic : Prop) (s s' : σ) (request : Q) (l : L) :
    Except ε (List (L × V)) → Prop
  | .ok found =>
    (∃ sources : List (Source σ R χ L V), Complete cache request sources
      ∧ found = sources.map (fun s => (s.label, s.value)))
    ∧ ∀ v, (l, v) ∈ found → ∃ request misses loaded, (l, v) ∈ loaded
      ∧ ReadBetween cache d invariant atomic s s' request misses (.ok loaded)
  | .error e => ∃ misses, ReadBetween cache d invariant atomic s s' request misses (.error e)

omit [DecidableEq R] [DecidableEq K] in
/-- The answer of a load that is served from readings after commit `n`. -/
theorem Phase.After.served {n : ℕ} {l : L} {c : Commit σ ρ L N} {request : Q}
    {phase : Phase σ W R χ ε L V} (hc : w.commits[n]? = some c)
    (hok : phase.Ok cache d invariant atomic w request) (hafter : phase.After n l)
    {result : Except ε (List (L × V))} (hresult : phase.result? = some result) :
    ServedBetween cache d invariant atomic c.state w.server.committed request l result := by
  have hbetween : ∀ {r : Reading σ R χ} {request : Q} {misses : List L}
      {loaded : Except ε (List (L × V))}, r.Ok d invariant atomic w → n < r.commits →
      (cache.read request misses).observe r.views = some loaded →
      ReadBetween cache d invariant atomic c.state w.server.committed request misses loaded :=
    fun hr hn hread => ⟨_, hread,
      fun v hv => ⟨(hr.states v hv).1, hr.after n c hc hn v hv, (hr.states v hv).2⟩, hr.same⟩
  cases phase with
  | asked => cases hresult
  | reading found prog r => cases hresult
  | failed e r =>
    cases hresult
    obtain ⟨hr, misses, hread⟩ := hok
    exact ⟨misses, hbetween hr hafter hread⟩
  | storing found todo =>
    cases todo with
    | cons s todo => cases hresult
    | nil =>
      cases hresult
      refine ⟨⟨found, hok.2.2, rfl⟩, fun v hv => ?_⟩
      obtain ⟨s, hs, heq⟩ := List.mem_map.mp hv
      obtain ⟨rfl, rfl⟩ := Prod.mk.inj heq
      obtain ⟨hr, request', misses, loaded, hmem, hread⟩ := hok.1 s hs
      exact ⟨request', misses, loaded, hmem, hbetween hr (hafter s hs rfl) hread⟩

/-! ## Two bounds -/

/-- The entries were set within `D` of the first statement of their readings. -/
def Timely (D : ℕ) (w : CacheWorld σ W R χ ε q ρ Q L K V N) : Prop :=
  ∀ key e, w.entries key = some e → e.setAt ≤ e.source.reading.since + D

/-- No entry is older than a commit for which it was deleted, and writers are
done with a note only after they deleted its entry. -/
structure Deleted (cache : CacheAside σ W R χ ε ρ Q L K V N)
    (w : CacheWorld σ W R χ ε q ρ Q L K V N) : Prop where
  entries : ∀ key e, w.entries key = some e → ∀ i c, w.commits[i]? = some c →
    e.source.label ∈ c.dropped → i < e.source.reading.commits
  commits : ∀ c ∈ w.commits, c.Dropped cache

/-- An entry that is there after a step was there before, or the step set it. -/
theorem Step.entry (h : Step cache sys w action w') {key : K} {e : Entry σ R χ L V}
    (he : w'.entries key = some e) : w.entries key = some e
      ∨ ∃ id load found todo, action = .set id ∧ w.loads[id]? = some load
        ∧ load.phase = .storing found (e.source :: todo) ∧ e.setAt = w.clock
        ∧ w'.commits = w.commits := by
  have hdrop : ∀ {key' : K}, Function.update w.entries key' none key = some e →
      w.entries key = some e := by
    intro key' he
    by_cases hkey : key = key'
    · rw [hkey, Function.update_self] at he
      cases he
    · rwa [Function.update_of_ne hkey] at he
  cases h with
  | evict key' => exact .inl (hdrop he)
  | onLoad _ id load hload phase hphase entries hstores =>
    rcases hstores with rfl | ⟨found, s, todo, rfl, hstoring, rfl⟩
    · exact .inl he
    · change Function.update w.entries _ _ key = some e at he
      by_cases hkey : key = cache.cacheKey s.label
      · rw [hkey, Function.update_self] at he
        cases he
        exact .inr ⟨id, load, found, todo, rfl, hload, hstoring, rfl, rfl⟩
      · rw [Function.update_of_ne hkey] at he
        exact .inl he
  | onCommit _ i c c' hc entries published hnote =>
    rcases hnote.entries with ⟨rfl, -⟩ | ⟨note, rfl, -⟩
    · exact .inl he
    · exact .inl (hdrop he)
  | _ => exact .inl he

/-- A commit stays, and so do its deletions. -/
theorem Step.commit (h : Step cache sys w action w') {n : ℕ} {c : Commit σ ρ L N}
    (hc : w.commits[n]? = some c) : ∃ c', w'.commits[n]? = some c' ∧ c'.time = c.time
      ∧ c'.state = c.state ∧ ∀ l ∈ c.dropped, l ∈ c'.dropped := by
  cases h with
  | serve served server hserver =>
    exact ⟨c, (List.getElem?_append_left (List.getElem?_eq_some_iff.mp hc).1).trans hc, rfl, rfl,
      fun _ hl => hl⟩
  | onCommit _ i c₀ c' hc₀ entries published hnote =>
    by_cases hi : i = n
    · subst hi
      cases hc₀.symm.trans hc
      refine ⟨c', List.getElem?_set_self (List.getElem?_eq_some_iff.mp hc).1, hnote.time,
        hnote.state, fun l hl => ?_⟩
      rcases hnote.entries with ⟨-, hd⟩ | ⟨note, -, hd⟩ <;> rw [hd]
      · exact hl
      · exact List.mem_append_left _ hl
    · exact ⟨c, (List.getElem?_set_ne hi).trans hc, rfl, rfl, fun _ hl => hl⟩
  | _ => exact ⟨c, hc, rfl, rfl, fun _ hl => hl⟩

/-- Steps that set entries in time keep them timely. -/
theorem Step.timely {D : ℕ} (htimely : Timely D w) (hwithin : StoresWithin D w action)
    (h : Step cache sys w action w') : Timely D w' := by
  intro key e he
  rcases h.entry he with he | ⟨id, load, found, todo, rfl, hload, hstoring, hsetAt, -⟩
  · exact htimely key e he
  · rw [hsetAt]
    exact hwithin load hload e.source (by rw [hstoring]; rfl)

/-- A deletion leaves no entry of its label. -/
theorem Step.dropped (h : Step cache sys w action w') {i : ℕ} {c' : Commit σ ρ L N}
    (hc' : w'.commits[i]? = some c') {l : L} (hl : l ∈ c'.dropped) :
    (∃ c, w.commits[i]? = some c ∧ l ∈ c.dropped) ∨ w'.entries (cache.cacheKey l) = none := by
  cases h with
  | serve served server hserver =>
    by_cases hi : i < w.commits.length
    · rw [List.getElem?_append_left hi] at hc'
      exact .inl ⟨c', hc', hl⟩
    · rw [List.getElem?_append_right (not_lt.mp hi)] at hc'
      obtain ⟨result, -, rfl⟩ :=
        Option.map_eq_some_iff.mp (Option.mem_toList.mp (List.mem_of_getElem? hc'))
      exact absurd hl List.not_mem_nil
  | onCommit _ j c c₁ hc entries published hnote =>
    rcases getElem?_set_of hc hc' with ⟨rfl, rfl⟩ | hc'
    · rcases hnote.entries with ⟨-, hd⟩ | ⟨note, rfl, hd⟩
      · exact .inl ⟨c, hc, hd ▸ hl⟩
      · rw [hd] at hl
        rcases List.mem_append.mp hl with hl | hl
        · exact .inl ⟨c, hc, hl⟩
        · rw [List.mem_singleton.mp hl]
          exact .inr (Function.update_self ..)
    · exact .inl ⟨c', hc', hl⟩
  | _ => exact .inl ⟨c', hc', hl⟩

/-- Steps that set no entry late keep deletions final. -/
theorem Step.deleted (hdeleted : Deleted cache w) (hworks : action.Works)
    (hfresh : StoresFresh w action)
    (h : Step cache sys w action w') (hkeys : ∀ key e, w'.entries key = some e →
      cache.cacheKey e.source.label = key) : Deleted cache w' where
  entries := by
    intro key e he i c' hc' hl
    rcases h.entry he with hold | ⟨id, load, found, todo, rfl, hload, hstoring, -, hcommits⟩
    · rcases h.dropped hc' hl with ⟨c, hc, hl⟩ | hnone
      · exact hdeleted.entries key e hold i c hc hl
      · rw [hkeys key e he, he] at hnone
        cases hnone
    · rw [hcommits] at hc'
      by_contra hi
      refine hfresh load hload e.source (by rw [hstoring]; rfl) c' ?_ hl
      refine List.mem_of_getElem? (i := i - e.source.reading.commits) ?_
      rw [List.getElem?_drop, Nat.add_sub_cancel' (not_lt.mp hi)]
      exact hc'
  commits := by
    intro c' hc'
    cases h with
    | serve served server hserver =>
      rcases List.mem_append.mp hc' with hc' | hc'
      · exact hdeleted.commits c' hc'
      · obtain ⟨result, -, rfl⟩ := Option.map_eq_some_iff.mp (Option.mem_toList.mp hc')
        exact ⟨fun _ hn => absurd hn List.not_mem_nil, fun hd => (by cases hd)⟩
    | onCommit _ i c c₁ hc entries published hnote =>
      rcases List.mem_or_eq_of_mem_set hc' with hc' | rfl
      · exact hdeleted.commits c' hc'
      · exact hnote.drops hworks (hdeleted.commits c (List.mem_of_getElem? hc))
    | _ => exact hdeleted.commits c' hc'

/-- **Since commit `n`**, the loads from the place `base` on are served from readings after it.
Earlier loads may still end with what they read before, so they are left out. -/
structure Since (n : ℕ) (c : Commit σ ρ L N) (l : L) (base : ℕ)
    (w : CacheWorld σ W R χ ε q ρ Q L K V N) : Prop where
  commit : ∃ c', w.commits[n]? = some c' ∧ c'.time = c.time ∧ c'.state = c.state
    ∧ ∀ l ∈ c.dropped, l ∈ c'.dropped
  loads : LoadsAfter n l base w

omit [DecidableEq R] [DecidableEq K] in
/-- Nothing has begun yet. -/
theorem since_now {n : ℕ} {c : Commit σ ρ L N} (hc : w.commits[n]? = some c) (l : L) :
    Since n c l w.loads.length w :=
  ⟨⟨c, hc, rfl, rfl, fun _ hl => hl⟩, (List.getElem?_eq_some_iff.mp hc).1, fun _ _ hid hload =>
    absurd (List.getElem?_eq_some_iff.mp hload).1 (not_lt.mpr hid)⟩

/-- One more step since the commit. -/
theorem Step.since (hsound : Sound cache sys d invariant post Tells)
    (hgood : w.Good cache d invariant post Tells atomic) {n base : ℕ} {c : Commit σ ρ L N} {l : L}
    (hhits : HitsAfter cache n l w) (hsince : Since n c l base w)
    (h : Step cache sys w action w') : Since n c l base w' := by
  obtain ⟨c', hc', htime, hstate, hdropped⟩ := hsince.commit
  obtain ⟨c'', hc'', htime', hstate', hdropped'⟩ := h.commit hc'
  exact ⟨⟨c'', hc'', htime'.trans htime, hstate'.trans hstate,
    fun l hl => hdropped' l (hdropped l hl)⟩, h.after hsound hgood hhits hsince.loads⟩

omit [DecidableEq R] [DecidableEq K] in
/-- What a load that began since returns. -/
theorem Since.served (hgood : w.Good cache d invariant post Tells atomic) {n base : ℕ}
    {c : Commit σ ρ L N} {l : L} (hsince : Since n c l base w) {id : ℕ} (hid : base ≤ id)
    {load : Load σ W R χ ε Q L V} (hload : w.loads[id]? = some load)
    {result : Except ε (List (L × V))} (hresult : load.phase.result? = some result) :
    ServedBetween cache d invariant atomic c.state w.server.committed load.request l result := by
  obtain ⟨c', hc', -, hstate, -⟩ := hsince.commit
  rw [← hstate]
  exact (hsince.loads.2 id load hid hload).served hc'
    (hgood.loads load (List.mem_of_getElem? hload)) hresult

/-- **A run keeps what its steps keep.** -/
theorem run_keeps {P : CacheWorld σ W R χ ε q ρ Q L K V N → Prop}
    {condition : CacheWorld σ W R χ ε q ρ Q L K V N → CacheAction χ q Q K → Prop}
    (hstep : ∀ w w' action, P w → condition w action → Step cache sys w action w' → P w')
    {actions : List (CacheAction χ q Q K)} (hp : P w)
    (hmeets : cache.Meets sys condition w actions) (hrun : cache.run sys w actions = some w') :
    P w' := by
  induction actions generalizing w with
  | nil =>
    cases hrun
    exact hp
  | cons action rest ih =>
    obtain ⟨w₁, hw₁, hrest⟩ := Option.bind_eq_some_iff.mp hrun
    exact ih (hstep w w₁ action hp hmeets.1 (step_cases hw₁)) (hmeets.2 w₁ hw₁) hrest

/-- Every run keeps the world in good order. -/
theorem good_of_run (hsound : Sound cache sys d invariant post Tells)
    {actions : List (CacheAction χ q Q K)} (hgood : w.Good cache d invariant post Tells False)
    (hrun : cache.run sys w actions = some w') : w'.Good cache d invariant post Tells False :=
  run_keeps (fun _ _ _ hu _ h => h.good hsound hu (fun ha => ha.elim)) hgood
    (cache.meets_true sys w actions) hrun

omit [DecidableEq R] [DecidableEq K] in
/-- A world is in good order before its first load. -/
theorem CacheWorld.good_start {server : World σ W R χ ε q ρ}
    (hserver : server.Good d invariant post) :
    (CacheWorld.start server : CacheWorld σ W R χ ε q ρ Q L K V N).Good cache d invariant post
      Tells atomic where
  server := hserver
  commits := fun _ hc => absurd hc List.not_mem_nil
  notes := fun _ hc => absurd hc List.not_mem_nil
  entries := fun _ _ he => (by cases he)
  loads := fun _ hload => absurd hload List.not_mem_nil

omit [DecidableEq R] [DecidableEq K] in
/-- An entry that was set within `D` of its reading and is still there was read
after a commit `ttl + D` ago. -/
theorem hitsAfter_of_timely (hgood : w.Good cache d invariant post Tells atomic) {D : ℕ}
    (htimely : Timely D w) {n : ℕ} {c : Commit σ ρ L N} (hc : w.commits[n]? = some c)
    (htime : c.time + cache.ttl + D ≤ w.clock) (l : L) : HitsAfter cache n l w := by
  intro e he
  obtain ⟨he, hlive⟩ := entry?_eq_some he
  have hset := htimely _ e he
  by_contra hn
  have hsince := (hgood.entries _ e he).2.reading.later n c hc (not_lt.mp hn)
  omega

/-- **Bounded staleness.** Deletions may be lost and any step on the cache may
fail. If every entry is set within `D` of the first statement of its reading,
whoever starts to load `ttl + D` after a commit is served from what was
committed since. -/
theorem bounded_staleness (hsound : Sound cache sys d invariant post Tells) {D : ℕ}
    {server : World σ W R χ ε q ρ} (hserver : server.Good d invariant post)
    {actions actions' : List (CacheAction χ q Q K)}
    (hmeets : cache.Meets sys (StoresWithin D) (.start server) actions)
    (hmeets' : cache.Meets sys (StoresWithin D) w actions')
    (hrun : cache.run sys (.start server) actions = some w)
    (hrun' : cache.run sys w actions' = some w') {c : Commit σ ρ L N} (hc : c ∈ w.commits)
    (htime : c.time + cache.ttl + D ≤ w.clock) {id : ℕ} (hlater : w.loads.length ≤ id)
    {load : Load σ W R χ ε Q L V} (hload : w'.loads[id]? = some load)
    {result : Except ε (List (L × V))} (hresult : load.phase.result? = some result) (l : L) :
    ServedBetween cache d invariant False c.state w'.server.committed load.request l result := by
  have hkeeps : ∀ u u' action, (u.Good cache d invariant post Tells False ∧ Timely D u) →
      StoresWithin D u action → Step cache sys u action u' →
      u'.Good cache d invariant post Tells False ∧ Timely D u' := fun u u' action hu hwithin h =>
    ⟨h.good hsound hu.1 (fun ha => ha.elim), h.timely hu.2 hwithin⟩
  obtain ⟨hgood, htimely⟩ := run_keeps hkeeps
    ⟨CacheWorld.good_start hserver, fun _ _ he => (by cases he)⟩ hmeets hrun
  obtain ⟨n, hc⟩ := List.mem_iff_getElem?.mp hc
  -- from `w` on, every hit and so every load is after commit `n`
  have hend := run_keeps
    (P := fun u => (u.Good cache d invariant post Tells False ∧ Timely D u)
      ∧ c.time + cache.ttl + D ≤ u.clock ∧ Since n c l w.loads.length u)
    (fun u u' action hu hwithin h => ?_) ⟨⟨hgood, htimely⟩, htime, since_now hc l⟩ hmeets' hrun'
  · exact hend.2.2.served hend.1.1 hlater hload hresult
  · obtain ⟨hgoods, hclock, hsince⟩ := hu
    obtain ⟨c', hc', htime', -⟩ := hsince.commit
    have hhits := hitsAfter_of_timely hgoods.1 hgoods.2 hc' (htime' ▸ hclock) l
    exact ⟨hkeeps u u' action hgoods hwithin h,
      hclock.trans (h.extends hsound hgoods.1).clock, h.since hsound hgoods.1 hhits hsince⟩

/-- **Fresh after the deletion.** Nothing fails, reads are atomic, and no entry
is set after the deletion for a commit its reading came before. Whoever starts
to load after a writer is done with a note is served from what was committed
since the commit the note is about. -/
theorem fresh_after_deletion (hsound : Sound cache sys d invariant post Tells)
    {server : World σ W R χ ε q ρ} (hserver : server.Good d invariant post)
    {actions actions' : List (CacheAction χ q Q K)}
    (hmeets : cache.Meets sys (fun u a => Smooth u a ∧ StoresFresh u a)
      (.start server) actions)
    (hmeets' : cache.Meets sys (fun u a => Smooth u a ∧ StoresFresh u a)
      w actions')
    (hrun : cache.run sys (.start server) actions = some w)
    (hrun' : cache.run sys w actions' = some w') {c : Commit σ ρ L N} (hc : c ∈ w.commits)
    {note : N} (hnote : note ∈ c.returned) {id : ℕ} (hlater : w.loads.length ≤ id)
    {load : Load σ W R χ ε Q L V} (hload : w'.loads[id]? = some load)
    {result : Except ε (List (L × V))} (hresult : load.phase.result? = some result) :
    Tells c.state note ∧ ServedBetween cache d invariant True c.state w'.server.committed
      load.request (cache.label note) result := by
  have hkeeps : ∀ u u' action, (u.Good cache d invariant post Tells True ∧ Deleted cache u) →
      (Smooth u action ∧ StoresFresh u action) →
      Step cache sys u action u' →
      u'.Good cache d invariant post Tells True ∧ Deleted cache u' := by
    intro u u' action hu hmeets h
    have hgood' := h.good hsound hu.1 (fun _ => hmeets.1.2)
    exact ⟨hgood', h.deleted hu.2 hmeets.1.1 hmeets.2
      (fun key e he => (hgood'.entries key e he).1)⟩
  obtain ⟨hgood, hdeleted⟩ := run_keeps hkeeps ⟨CacheWorld.good_start hserver,
    fun _ _ he => (by cases he), fun _ hc => absurd hc List.not_mem_nil⟩ hmeets hrun
  refine ⟨hgood.notes c hc note (.inr hnote), ?_⟩
  have hdropped := (hdeleted.commits c hc).returned note hnote
  obtain ⟨n, hc⟩ := List.mem_iff_getElem?.mp hc
  have hend := run_keeps
    (P := fun u => (u.Good cache d invariant post Tells True ∧ Deleted cache u)
      ∧ Since n c (cache.label note) w.loads.length u)
    (fun u u' action hu hmeets h => ?_) ⟨⟨hgood, hdeleted⟩, since_now hc _⟩ hmeets' hrun'
  · exact hend.2.served hend.1.1 hlater hload hresult
  · obtain ⟨hgoods, hsince⟩ := hu
    refine ⟨hkeeps u u' action hgoods hmeets h,
      h.since hsound hgoods.1 (fun e he => ?_) hsince⟩
    -- an entry of the label that is left was read after the commit
    obtain ⟨c', hc', -, -, hkept⟩ := hsince.commit
    have he := (entry?_eq_some he).1
    have hlabel := cache.cacheKey_injective (hgoods.1.entries _ e he).1
    exact hgoods.2.entries _ e he n c' hc' (hlabel ▸ hkept _ hdropped)

end Steps

end CacheAside

end CohortSwitch
