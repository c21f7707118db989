import CohortSwitch.Transactions
import Mathlib.Logic.Function.Basic

/-!
# A cache beside a database

Readers ask a cache first. What it does not have they read from the database,
statement by statement, and put into the cache; an entry is dropped a fixed
time after it was set. Writers commit to the database and then delete the
entries their commit made stale. The cache and the database are separate
servers, so each of these steps is one of its own, any step on the cache may
fail, and a writer may stop between its commit and its deletions.

`CacheAside.step` interleaves all of them with the steps of a `System`. Every
value carries the `Reading` it comes from: how many commits came before its
first statement, when that was, and what its statements saw. A load is served
from readings, its own or those of the entries it hit, so how stale it can be
is a matter of the readings behind the entries it can hit:

* if every entry is set within `D` of the first statement of its reading, an
  entry that is still there was read less than `ttl + D` ago
  (`CacheAside.bounded_staleness`);
* if no entry is set after the deletion for a commit its reading came before, no
  entry is older than a commit whose deletion is done
  (`CacheAside.fresh_after_deletion`).

## Ghosts

Readings, times of commits and the lists of what a writer has deleted are not part of
any program: no step depends on them. They are in the state so that a property of a run
can be said of the state it leads to, and an invariant can carry it.

## Two forms of the step

The function `step` is executable and says what happens; `Step` is its inversion, a
relation with one constructor for each kind of actor, and every proof goes by cases on
it (`step_cases`). Within a load, `PhaseStep` does the same for the phases, and for a
writer after its commit `NoteStep` lists what may have changed. A property of runs then
takes six cases, most of which change nothing it looks at.

The clock counts ticks, and any number of steps may happen within one. Times are natural
numbers, and the time to live is a number of ticks.
-/

namespace CohortSwitch

variable {σ W R χ ε q ρ Q L K V N : Type}

/-- **What is cached, and how.** A request looks up labels; those the cache does not have are
read by a program. A commit whose transaction returned a result leads to notes, and each note
names the label it makes stale. Keys, values and notes are of any type. -/
structure CacheAside (σ W R χ ε ρ Q L K V N : Type) where
  /-- How long an entry lasts. -/
  ttl : ℕ
  /-- The key of a label in the cache. -/
  cacheKey : L → K
  cacheKey_injective : Function.Injective cacheKey
  /-- What a request looks up. -/
  labels : Q → List L
  /-- What is read where some labels are missed. -/
  read : Q → List L → Prog (View σ R χ) W R ε (List (L × V))
  /-- What a commit leads to. -/
  notes : ρ → List N
  /-- The label a note makes stale. -/
  label : N → L

namespace CacheAside

/-! ## States -/

/-- **A read of the database**: how many commits came before its first statement, when that was,
and what its statements saw. Others may commit between the statements, so it need not be a read
of one state. -/
structure Reading (σ R χ : Type) where
  /-- How many commits came before its first statement. -/
  commits : ℕ
  /-- When that was. -/
  since : ℕ
  /-- What its statements saw, in order. -/
  views : List (View σ R χ)

/-- A value, and the read that found it. -/
structure Source (σ R χ L V : Type) where
  label : L
  value : V
  reading : Reading σ R χ

/-- What the cache holds under a key. -/
structure Entry (σ R χ L V : Type) where
  source : Source σ R χ L V
  setAt : ℕ

/-- How far a load is: it has been asked for, it reads what the cache did not have, it stores
what it has read, or it has failed. A load with everything found and nothing left to store is
done. -/
inductive Phase (σ W R χ ε L V : Type) where
  | asked
  | reading (found : List (Source σ R χ L V))
    (prog : Prog (View σ R χ) W R ε (List (L × V))) (r : Reading σ R χ)
  /-- Everything is found, and some of it is still to be put into the cache. -/
  | storing (found todo : List (Source σ R χ L V))
  | failed (e : ε) (r : Reading σ R χ)

/-- A load: what was asked, and how far it is. -/
structure Load (σ W R χ ε Q L V : Type) where
  request : Q
  phase : Phase σ W R χ ε L V

/-- **A commit**: when it was, what it left, and how far its writer is with the notes. `dropped`
are the labels whose entries it deleted, `returned` the notes it is done with. Its time and its
state are there for the statements and are never looked at by a step. -/
structure Commit (σ ρ L N : Type) where
  /-- When it was. -/
  time : ℕ
  /-- What it left. -/
  state : σ
  /-- What its transaction returned. -/
  result : ρ
  /-- The notes that are left to do. -/
  todo : List N
  /-- Whether the entry of the first of them is deleted. -/
  deleted : Bool
  /-- The labels whose entries were deleted. -/
  dropped : List L
  /-- The notes it is done with. -/
  returned : List N

/-- **The database, the cache and everyone who uses them.** The entries are what the cache holds
under each key at the moment; whatever was evicted, deleted or overwritten is gone. -/
structure CacheWorld (σ W R χ ε q ρ Q L K V N : Type) where
  server : World σ W R χ ε q ρ
  /-- The time, in ticks. -/
  clock : ℕ
  /-- The commits so far, in order. -/
  commits : List (Commit σ ρ L N)
  entries : K → Option (Entry σ R χ L V)
  loads : List (Load σ W R χ ε Q L V)
  /-- What was published so far. -/
  published : List N

/-- One step of someone. Loads are named by their place among the loads, and
writers by the place of their commit. -/
inductive CacheAction (χ q Q K : Type) where
  /-- Time passes. -/
  | tick
  /-- The database takes a step. -/
  | serve (action : Action χ q)
  | load (request : Q)
  /-- A load asks the cache. -/
  | get (id : ℕ)
  | getFails (id : ℕ)
  /-- The next statement of a read. -/
  | statement (id : ℕ) (choice : χ)
  | set (id : ℕ)
  | setFails (id : ℕ)
  /-- A writer deletes an entry. -/
  | delete (commit : ℕ)
  | publish (commit : ℕ)
  /-- The deletion or the publication fails, and the writer goes on with its
  next note. -/
  | noteFails (commit : ℕ)
  /-- A writer stops, with notes left. -/
  | crash (commit : ℕ)
  /-- The cache drops an entry of its own accord. -/
  | evict (key : K)

/-- The cache and the database before anyone uses them. -/
def CacheWorld.start (server : World σ W R χ ε q ρ) :
    CacheWorld σ W R χ ε q ρ Q L K V N :=
  ⟨server, 0, [], fun _ => none, [], []⟩

/-- A statement of the read sees a state. -/
def Reading.see (r : Reading σ R χ) (commits since : ℕ) (v : View σ R χ) : Reading σ R χ :=
  match r.views with
  | [] => ⟨commits, since, [v]⟩
  | _ :: _ => { r with views := r.views ++ [v] }

/-- Where a load goes on, given the rest of the program that reads. -/
def Phase.next (found : List (Source σ R χ L V)) (r : Reading σ R χ) :
    Prog (View σ R χ) W R ε (List (L × V)) → Phase σ W R χ ε L V
  | .ret loaded =>
    let sources := loaded.map (fun item => ⟨item.1, item.2, r⟩)
    .storing (found ++ sources) sources
  | .raise e => .failed e r
  | .statement locks writes next => .reading found (.statement locks writes next) r

/-- **What a load returned**, once it is done. -/
def Phase.result? : Phase σ W R χ ε L V → Option (Except ε (List (L × V)))
  | .storing found [] => some (.ok (found.map (fun s => (s.label, s.value))))
  | .failed e _ => some (.error e)
  | _ => none

/-! ## Steps -/

section Steps

variable [DecidableEq R] [DecidableEq K] (cache : CacheAside σ W R χ ε ρ Q L K V N)
  (sys : System σ W R χ ε q ρ)

/-- The entry a key has, unless its time is over. -/
def entry? (w : CacheWorld σ W R χ ε q ρ Q L K V N) (key : K) : Option (Entry σ R χ L V) :=
  (w.entries key).filter (fun e => w.clock < e.setAt + cache.ttl)

/-- What the cache has of some labels. -/
def hits (w : CacheWorld σ W R χ ε q ρ Q L K V N) (labels : List L) :
    List (Source σ R χ L V) :=
  labels.filterMap (fun l =>
    (cache.entry? w (cache.cacheKey l)).map (fun e => { e.source with label := l }))

/-- What the cache does not have of some labels. -/
def misses (w : CacheWorld σ W R χ ε q ρ Q L K V N) (labels : List L) : List L :=
  labels.filter (fun l => (cache.entry? w (cache.cacheKey l)).isNone)

/-- A load that found some labels turns to the database for the others. -/
def turn (w : CacheWorld σ W R χ ε q ρ Q L K V N) (request : Q)
    (found : List (Source σ R χ L V)) : List L → Phase σ W R χ ε L V
  | [] => .storing found []
  | l :: rest => .next found ⟨w.commits.length, w.clock, []⟩ (cache.read request (l :: rest))

/-- What the transaction that commits returns. -/
def committing (w : World σ W R χ ε q ρ) : Action χ q → Option ρ
  | .commit id => (w.running? id).bind (fun tx =>
      match tx.prog with
      | .ret result => some result
      | _ => none)
  | _ => none

/-- The world with a load in its new phase. -/
def setPhase (w : CacheWorld σ W R χ ε q ρ Q L K V N) (id : ℕ)
    (load : Load σ W R χ ε Q L V) (phase : Phase σ W R χ ε L V) :
    CacheWorld σ W R χ ε q ρ Q L K V N :=
  { w with loads := w.loads.set id { load with phase } }

/-- **One step of a load.** -/
def loadStep (w : CacheWorld σ W R χ ε q ρ Q L K V N) (id : ℕ)
    (load : Load σ W R χ ε Q L V) :
    CacheAction χ q Q K → Option (CacheWorld σ W R χ ε q ρ Q L K V N)
  | .get _ =>
    match load.phase with
    | .asked =>
      let labels := cache.labels load.request
      some (setPhase w id load (cache.turn w load.request (cache.hits w labels)
        (cache.misses w labels)))
    | _ => none
  | .getFails _ =>
    match load.phase with
    | .asked => some (setPhase w id load (cache.turn w load.request [] (cache.labels load.request)))
    | _ => none
  | .statement _ choice =>
    match load.phase with
    | .reading found (.statement _ _ next) r =>
      let v : View σ R χ := ⟨w.server.committed, [], choice⟩
      some (setPhase w id load (.next found (r.see w.commits.length w.clock v) (next v)))
    | _ => none
  | .set _ =>
    match load.phase with
    | .storing found (s :: todo) =>
      some { setPhase w id load (.storing found todo) with
        entries := Function.update w.entries (cache.cacheKey s.label) (some ⟨s, w.clock⟩) }
    | _ => none
  | .setFails _ =>
    match load.phase with
    | .storing found (_ :: todo) => some (setPhase w id load (.storing found todo))
    | _ => none
  | _ => none

/-- **One step of a writer after its commit.** -/
def noteStep (w : CacheWorld σ W R χ ε q ρ Q L K V N) (i : ℕ) (c : Commit σ ρ L N) :
    CacheAction χ q Q K → Option (CacheWorld σ W R χ ε q ρ Q L K V N)
  | .delete _ =>
    match c.todo, c.deleted with
    | note :: _, false =>
      some { w with
        entries := Function.update w.entries (cache.cacheKey (cache.label note)) none
        commits := w.commits.set i
          { c with deleted := true, dropped := c.dropped ++ [cache.label note] } }
    | _, _ => none
  | .publish _ =>
    match c.todo, c.deleted with
    | note :: rest, true =>
      some { w with
        commits := w.commits.set i
          { c with todo := rest, deleted := false, returned := c.returned ++ [note] }
        published := w.published ++ [note] }
    | _, _ => none
  | .noteFails _ =>
    match c.todo with
    | note :: rest =>
      some { w with
        commits := w.commits.set i
          { c with todo := rest, deleted := false, returned := c.returned ++ [note] } }
    | _ => none
  | .crash _ => some { w with commits := w.commits.set i { c with todo := [] } }
  | _ => none

/-- **One step.** -/
def step (w : CacheWorld σ W R χ ε q ρ Q L K V N) (action : CacheAction χ q Q K) :
    Option (CacheWorld σ W R χ ε q ρ Q L K V N) :=
  match action with
  | .tick => some { w with clock := w.clock + 1 }
  | .serve served =>
    (sys.step w.server served).map (fun server => { w with
      server
      commits := w.commits ++ ((committing w.server served).map (fun result =>
        ⟨w.clock, server.committed, result, cache.notes result, false, [], []⟩)).toList })
  | .load request => some { w with loads := w.loads ++ [⟨request, .asked⟩] }
  | .get id | .getFails id | .statement id _ | .set id | .setFails id =>
    w.loads[id]?.bind (fun load => cache.loadStep w id load action)
  | .delete i | .publish i | .noteFails i | .crash i =>
    w.commits[i]?.bind (fun c => cache.noteStep w i c action)
  | .evict key => some { w with entries := Function.update w.entries key none }

/-- **A run.** -/
def run (w : CacheWorld σ W R χ ε q ρ Q L K V N) :
    List (CacheAction χ q Q K) → Option (CacheWorld σ W R χ ε q ρ Q L K V N)
  | [] => some w
  | action :: rest => (cache.step sys w action).bind (fun w' => run w' rest)

/-- Every step of the run meets a condition on the state before it. -/
def Meets (condition : CacheWorld σ W R χ ε q ρ Q L K V N → CacheAction χ q Q K → Prop)
    (w : CacheWorld σ W R χ ε q ρ Q L K V N) : List (CacheAction χ q Q K) → Prop
  | [] => True
  | action :: rest =>
    condition w action ∧ ∀ w', cache.step sys w action = some w' → Meets condition w' rest

/-- Two conditions are met together. -/
theorem Meets.and {P P' : CacheWorld σ W R χ ε q ρ Q L K V N → CacheAction χ q Q K → Prop}
    {cache : CacheAside σ W R χ ε ρ Q L K V N} {sys : System σ W R χ ε q ρ}
    {w : CacheWorld σ W R χ ε q ρ Q L K V N} {actions : List (CacheAction χ q Q K)}
    (h : cache.Meets sys P w actions) (h' : cache.Meets sys P' w actions) :
    cache.Meets sys (fun u a => P u a ∧ P' u a) w actions := by
  induction actions generalizing w with
  | nil => exact trivial
  | cons action rest ih =>
    exact ⟨⟨h.1, h'.1⟩, fun w' hstep => ih (h.2 w' hstep) (h'.2 w' hstep)⟩

/-- No condition is met by every run. -/
theorem meets_true (w : CacheWorld σ W R χ ε q ρ Q L K V N)
    (actions : List (CacheAction χ q Q K)) :
    cache.Meets sys (fun _ _ => True) w actions := by
  induction actions generalizing w with
  | nil => exact trivial
  | cons action rest ih => exact ⟨trivial, fun w' _ => ih w'⟩

/-- Whether every step of the run meets a condition that can be computed. -/
def checkMeets (condition : CacheWorld σ W R χ ε q ρ Q L K V N → CacheAction χ q Q K → Bool)
    (w : CacheWorld σ W R χ ε q ρ Q L K V N) : List (CacheAction χ q Q K) → Bool
  | [] => true
  | action :: rest =>
    condition w action
      && (cache.step sys w action).all (fun w' => checkMeets condition w' rest)

/-- A condition that was computed along the run is met. -/
theorem meets_of_check
    {condition : CacheWorld σ W R χ ε q ρ Q L K V N → CacheAction χ q Q K → Prop}
    [∀ w action, Decidable (condition w action)] {w : CacheWorld σ W R χ ε q ρ Q L K V N}
    {actions : List (CacheAction χ q Q K)}
    (h : cache.checkMeets sys (fun w action => decide (condition w action)) w actions = true) :
    cache.Meets sys condition w actions := by
  induction actions generalizing w with
  | nil => exact trivial
  | cons action rest ih =>
    obtain ⟨hnow, hrest⟩ := Bool.and_eq_true_iff.mp h
    refine ⟨of_decide_eq_true hnow, fun w' hstep => ?_⟩
    rw [hstep] at hrest
    exact ih hrest

end Steps

/-- What the server does in a step. -/
def CacheAction.served? : CacheAction χ q Q K → Option (Action χ q)
  | .serve action => some action
  | _ => none

/-! ## What a step does -/

section Inversion

variable [DecidableEq R] [DecidableEq K] {cache : CacheAside σ W R χ ε ρ Q L K V N}
  {sys : System σ W R χ ε q ρ} {w w' : CacheWorld σ W R χ ε q ρ Q L K V N}
  {action : CacheAction χ q Q K}

/-- **How the load `id` goes on.** -/
inductive PhaseStep (cache : CacheAside σ W R χ ε ρ Q L K V N)
    (w : CacheWorld σ W R χ ε q ρ Q L K V N) (id : ℕ) (request : Q) :
    CacheAction χ q Q K → Phase σ W R χ ε L V → Phase σ W R χ ε L V → Prop
  | get : PhaseStep cache w id request (.get id) .asked
    (cache.turn w request (cache.hits w (cache.labels request))
      (cache.misses w (cache.labels request)))
  | getFails : PhaseStep cache w id request (.getFails id) .asked
    (cache.turn w request [] (cache.labels request))
  | statement (choice : χ) (found : List (Source σ R χ L V)) (r : Reading σ R χ)
    (locks : View σ R χ → List R) (writes : View σ R χ → List W)
    (next : View σ R χ → Prog (View σ R χ) W R ε (List (L × V))) :
    PhaseStep cache w id request (.statement id choice)
      (.reading found (.statement locks writes next) r)
      (.next found (r.see w.commits.length w.clock ⟨w.server.committed, [], choice⟩)
        (next ⟨w.server.committed, [], choice⟩))
  | set (found : List (Source σ R χ L V)) (s : Source σ R χ L V)
    (todo : List (Source σ R χ L V)) :
    PhaseStep cache w id request (.set id) (.storing found (s :: todo)) (.storing found todo)
  | setFails (found : List (Source σ R χ L V)) (s : Source σ R χ L V)
    (todo : List (Source σ R χ L V)) :
    PhaseStep cache w id request (.setFails id) (.storing found (s :: todo)) (.storing found todo)

/-- What a step of the load `id` does to the cache. -/
def Stores (cache : CacheAside σ W R χ ε ρ Q L K V N) (w : CacheWorld σ W R χ ε q ρ Q L K V N)
    (id : ℕ) (phase : Phase σ W R χ ε L V) (action : CacheAction χ q Q K)
    (entries : K → Option (Entry σ R χ L V)) : Prop :=
  entries = w.entries ∨ ∃ found s todo, action = .set id ∧ phase = .storing found (s :: todo)
    ∧ entries = Function.update w.entries (cache.cacheKey s.label) (some ⟨s, w.clock⟩)

/-- The load that takes a step. -/
def CacheAction.load? : CacheAction χ q Q K → Option ℕ
  | .get id | .getFails id | .statement id _ | .set id | .setFails id => some id
  | _ => none

omit [DecidableEq R] in
/-- **What a step of a load does**, as a relation. -/
theorem loadStep_eq_some {id : ℕ} {load : Load σ W R χ ε Q L V}
    (hid : action.load? = some id) (h : cache.loadStep w id load action = some w') :
    ∃ phase entries, w' = { setPhase w id load phase with entries }
      ∧ PhaseStep cache w id load.request action load.phase phase
      ∧ Stores cache w id load.phase action entries := by
  obtain ⟨request, phase⟩ := load
  cases action with
  | get i =>
    cases hid
    cases phase with
    | asked =>
      cases h
      exact ⟨_, _, rfl, .get, .inl rfl⟩
    | _ => cases h
  | getFails i =>
    cases hid
    cases phase with
    | asked =>
      cases h
      exact ⟨_, _, rfl, .getFails, .inl rfl⟩
    | _ => cases h
  | statement i choice =>
    cases hid
    cases phase with
    | reading found prog r =>
      cases prog with
      | statement locks writes next =>
        cases h
        exact ⟨_, _, rfl, .statement choice found r locks writes next, .inl rfl⟩
      | _ => cases h
    | _ => cases h
  | set i =>
    cases hid
    cases phase with
    | storing found todo =>
      cases todo with
      | nil => cases h
      | cons s todo =>
        cases h
        exact ⟨_, _, rfl, .set found s todo, .inr ⟨found, s, todo, rfl, rfl, rfl⟩⟩
    | _ => cases h
  | setFails i =>
    cases hid
    cases phase with
    | storing found todo =>
      cases todo with
      | nil => cases h
      | cons s todo =>
        cases h
        exact ⟨_, _, rfl, .setFails found s todo, .inl rfl⟩
    | _ => cases h
  | _ => cases h

/-- The step does what was asked of it. -/
def CacheAction.Works : CacheAction χ q Q K → Prop
  | .getFails _ | .setFails _ | .noteFails _ | .crash _ => False
  | _ => True

instance (action : CacheAction χ q Q K) : Decidable action.Works :=
  match action with
  | .getFails _ | .setFails _ | .noteFails _ | .crash _ => instDecidableFalse
  | .tick | .serve _ | .load _ | .get _ | .statement _ _ | .set _ | .delete _ | .publish _
  | .evict _ => instDecidableTrue

/-- The entries of the notes a writer is done with are deleted. -/
structure Commit.Dropped (cache : CacheAside σ W R χ ε ρ Q L K V N) (c : Commit σ ρ L N) :
    Prop where
  returned : ∀ note ∈ c.returned, cache.label note ∈ c.dropped
  first : c.deleted = true → ∀ note ∈ c.todo.head?, cache.label note ∈ c.dropped

/-- **How a writer goes on** after its commit. -/
structure NoteStep (cache : CacheAside σ W R χ ε ρ Q L K V N)
    (w : CacheWorld σ W R χ ε q ρ Q L K V N) (action : CacheAction χ q Q K)
    (entries : K → Option (Entry σ R χ L V)) (c c' : Commit σ ρ L N) : Prop where
  /-- A writer serves no reader. -/
  alone : action.served? = none
  /-- Its commit stays where it was, -/
  time : c'.time = c.time
  state : c'.state = c.state
  result : c'.result = c.result
  /-- Notes are only taken from the list, -/
  todo : ∀ note ∈ c'.todo, note ∈ c.todo
  /-- and are returned only from there. -/
  returned : ∀ note ∈ c'.returned, note ∈ c.returned ∨ note ∈ c.todo
  /-- It either leaves the entries as they are or deletes the one of a note. -/
  entries : entries = w.entries ∧ c'.dropped = c.dropped
    ∨ ∃ note, entries = Function.update w.entries (cache.cacheKey (cache.label note)) none
      ∧ c'.dropped = c.dropped ++ [cache.label note]
  /-- With a store that works, what it is done with is deleted. -/
  drops : action.Works → c.Dropped cache → c'.Dropped cache

omit [DecidableEq R] in
/-- **What a step of a writer does**, as a relation. -/
theorem noteStep_eq_some {i : ℕ} {c : Commit σ ρ L N}
    (h : cache.noteStep w i c action = some w') :
    ∃ c' entries published, w' = { w with entries, published, commits := w.commits.set i c' }
      ∧ NoteStep cache w action entries c c' := by
  obtain ⟨time, state, result, todo, deleted, dropped, returned⟩ := c
  have hrest : ∀ {note : N} {rest : List N}, ∀ n ∈ rest, n ∈ note :: rest :=
    fun n hn => List.mem_cons_of_mem _ hn
  have hdone : ∀ {note : N} {rest : List N}, ∀ n ∈ returned ++ [note],
      n ∈ returned ∨ n ∈ note :: rest := by
    intro note rest n hn
    rcases List.mem_append.mp hn with hn | hn
    · exact .inl hn
    · exact .inr (List.mem_singleton.mp hn ▸ List.mem_cons_self)
  cases action with
  | delete j =>
    cases todo with
    | nil => cases h
    | cons note rest =>
      cases deleted with
      | true => cases h
      | false =>
        cases h
        refine ⟨_, _, _, rfl, rfl, rfl, rfl, rfl, fun _ hn => hn, fun _ hn => .inl hn,
          .inr ⟨note, rfl, rfl⟩, fun _ hc => ⟨fun n hn => ?_, fun _ n hn => ?_⟩⟩
        · exact List.mem_append_left _ (hc.returned n hn)
        · cases hn
          exact List.mem_append_right _ (List.mem_singleton.mpr rfl)
  | publish j =>
    cases todo with
    | nil => cases h
    | cons note rest =>
      cases deleted with
      | false => cases h
      | true =>
        cases h
        refine ⟨_, _, _, rfl, rfl, rfl, rfl, rfl, hrest, hdone, .inl ⟨rfl, rfl⟩,
          fun _ hc => ⟨fun n hn => ?_, fun hd => (by cases hd)⟩⟩
        rcases List.mem_append.mp hn with hn | hn
        · exact hc.returned n hn
        · rw [List.mem_singleton.mp hn]
          exact hc.first rfl note rfl
  | noteFails j =>
    cases todo with
    | nil => cases h
    | cons note rest =>
      cases h
      exact ⟨_, _, _, rfl, rfl, rfl, rfl, rfl, hrest, hdone, .inl ⟨rfl, rfl⟩, fun hw => hw.elim⟩
  | crash j =>
    cases h
    exact ⟨_, _, _, rfl, rfl, rfl, rfl, rfl, fun _ hn => (by cases hn), fun _ hn => .inl hn,
      .inl ⟨rfl, rfl⟩, fun hw => hw.elim⟩
  | _ => cases h

/-- **What a step does**, by who makes it. -/
inductive Step (cache : CacheAside σ W R χ ε ρ Q L K V N) (sys : System σ W R χ ε q ρ)
    (w : CacheWorld σ W R χ ε q ρ Q L K V N) :
    CacheAction χ q Q K → CacheWorld σ W R χ ε q ρ Q L K V N → Prop
  | tick : Step cache sys w .tick { w with clock := w.clock + 1 }
  | serve (served : Action χ q) (server : World σ W R χ ε q ρ)
    (hserver : sys.step w.server served = some server) :
    Step cache sys w (.serve served) { w with
      server
      commits := w.commits ++ ((committing w.server served).map (fun result =>
        ⟨w.clock, server.committed, result, cache.notes result, false, [], []⟩)).toList }
  | load (request : Q) : Step cache sys w (.load request)
    { w with loads := w.loads ++ [⟨request, .asked⟩] }
  | onLoad (action : CacheAction χ q Q K) (id : ℕ) (load : Load σ W R χ ε Q L V)
    (hload : w.loads[id]? = some load) (phase : Phase σ W R χ ε L V)
    (hphase : PhaseStep cache w id load.request action load.phase phase)
    (entries : K → Option (Entry σ R χ L V))
    (hentries : Stores cache w id load.phase action entries) :
    Step cache sys w action { setPhase w id load phase with entries }
  | onCommit (action : CacheAction χ q Q K) (i : ℕ) (c c' : Commit σ ρ L N)
    (hc : w.commits[i]? = some c) (entries : K → Option (Entry σ R χ L V)) (published : List N)
    (hnote : NoteStep cache w action entries c c') :
    Step cache sys w action { w with entries, published, commits := w.commits.set i c' }
  | evict (key : K) : Step cache sys w (.evict key)
    { w with entries := Function.update w.entries key none }

/-- **Every step is one of these.** -/
theorem step_cases (h : cache.step sys w action = some w') : Step cache sys w action w' := by
  have honLoad : ∀ id, action.load? = some id →
      w.loads[id]?.bind (fun load => cache.loadStep w id load action) = some w' →
      Step cache sys w action w' := by
    intro id hid h
    obtain ⟨load, hload, h⟩ := Option.bind_eq_some_iff.mp h
    obtain ⟨phase, entries, rfl, hphase, hentries⟩ := loadStep_eq_some hid h
    exact .onLoad action id load hload phase hphase entries hentries
  have honCommit : ∀ i, w.commits[i]?.bind (fun c => cache.noteStep w i c action) = some w' →
      Step cache sys w action w' := by
    intro i h
    obtain ⟨c, hc, h⟩ := Option.bind_eq_some_iff.mp h
    obtain ⟨c', entries, published, rfl, hnote⟩ := noteStep_eq_some h
    exact .onCommit action i c c' hc entries published hnote
  cases action with
  | tick =>
    cases h
    exact .tick
  | serve served =>
    obtain ⟨server, hserver, rfl⟩ := Option.map_eq_some_iff.mp h
    exact .serve served server hserver
  | load request =>
    cases h
    exact .load request
  | evict key =>
    cases h
    exact .evict key
  | get id => exact honLoad id rfl h
  | getFails id => exact honLoad id rfl h
  | statement id choice => exact honLoad id rfl h
  | set id => exact honLoad id rfl h
  | setFails id => exact honLoad id rfl h
  | delete i => exact honCommit i h
  | publish i => exact honCommit i h
  | noteFails i => exact honCommit i h
  | crash i => exact honCommit i h

/-- A step is one of the server or leaves the server alone. -/
theorem Step.server (h : Step cache sys w action w') :
    sys.run w.server action.served?.toList = some w'.server := by
  have honLoad : ∀ {id : ℕ} {request : Q} {phase phase' : Phase σ W R χ ε L V},
      PhaseStep cache w id request action phase phase' → action.served? = none := by
    intro id request phase phase' hphase
    cases hphase <;> rfl
  cases h with
  | serve served server hserver =>
    show (sys.step w.server served).bind _ = some server
    rw [hserver]
    rfl
  | onLoad _ id load hload phase hphase entries hentries =>
    rw [honLoad hphase]
    rfl
  | onCommit _ i c c' hc entries published hnote =>
    rw [hnote.alone]
    rfl
  | _ => rfl

/-- **The server makes a run of its own** in a run of everything. -/
theorem server_of_run {actions : List (CacheAction χ q Q K)}
    (h : cache.run sys w actions = some w') :
    sys.run w.server (actions.filterMap CacheAction.served?) = some w'.server := by
  induction actions generalizing w with
  | nil =>
    cases h
    rfl
  | cons action rest ih =>
    obtain ⟨w₁, hstep, hrest⟩ := Option.bind_eq_some_iff.mp h
    have happend : (action :: rest).filterMap CacheAction.served?
        = action.served?.toList ++ rest.filterMap CacheAction.served? := by
      rw [List.filterMap_cons]
      cases action.served? <;> rfl
    rw [happend, sys.run_append, (step_cases hstep).server]
    exact ih hrest

end Inversion

end CacheAside

end CohortSwitch
