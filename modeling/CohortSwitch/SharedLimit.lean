import Mathlib.Algebra.BigOperators.Group.Finset.Piecewise
import Mathlib.Algebra.Order.BigOperators.Group.Finset
import Mathlib.Order.Interval.Finset.Nat
import CohortSwitch.Hashing
import CohortSwitch.LocalLimiter

/-!
# The rate limit of several servers

`RateLimitMiddleware` counts a request in Redis, where all the processes share
one counter for each key, and asks its own process's limiter if a call of Redis
fails. A request is one `incr`, an `expire` where it was the first of its key,
and the local limiter after a failure, and the requests of all processes run
between each other's calls. An `incr` that fails may have been counted or not.

What the shared counter lets through is bounded since no two requests get the same
count (`Servers.Sound.distinct`), and what a process lets through on its own by
`Counted`. Together no more than `limit * (n + 1)` requests of one identity are let
through in a window by `n` processes, and no more than `limit` if no call failed.

## What is provided

Redis may drop a counter when its time is over, and it must not do so while requests of
its window are still to be counted: `Servers.Provides` asks that of each step, and that
the clock of a process does not go back. Both are about what is around the middleware and
not about the middleware.

## The invariant

`Servers.Sound` is an invariant of single steps: every request that has a count has one of
its own, a count decides as the limit says, and the limiter of each process has counted
what it let through. The bound is then arithmetic: distinct counts up to the limit are at
most as many (`length_le_of_nodup`), and each process adds what its limiter admits.

That no call failed is a property of the run; it keeps all requests away from the local
limiters (`Servers.Reached.noneFailed`), and only the shared counter is left.
-/

namespace CohortSwitch

/-! ## Requests -/

/-- `Settings`, as far as requests are limited by it. -/
structure Settings where
  managementRateLimit : ℕ
  sdkRateLimit : ℕ

/-- The two buckets of a limit. -/
inductive Bucket
  | evaluation
  | management
  deriving DecidableEq

/-- Its text in a key. -/
def Bucket.value : Bucket → String
  | .evaluation => "evaluation"
  | .management => "management"

/-- The limit of a bucket. -/
def Settings.limit (self : Settings) : Bucket → ℕ
  | .evaluation => self.sdkRateLimit
  | .management => self.managementRateLimit

/-- **A request**, as far as the middleware reads it: its path, the header
`X-CohortSwitch-Key`, the host of the client and the second at which it comes. -/
structure IncomingRequest where
  path : String
  credential : Option String
  clientHost : Option String
  time : ℤ

namespace IncomingRequest

/-- `path.startswith(prefix)`. -/
def under (self : IncomingRequest) (start : String) : Bool :=
  start.toList.isPrefixOf self.path.toList

/-- The request is not limited at all. -/
def exempt (self : IncomingRequest) : Bool := self.under "/health" || self.under "/metrics"

/-- The bucket of a path. -/
def bucket (self : IncomingRequest) : Bucket :=
  if self.under "/api/v1/evaluate" then .evaluation else .management

/-- `credential or (request.client.host if request.client else "unknown")`. -/
def identity (self : IncomingRequest) : String :=
  let host := self.clientHost.getD "unknown"
  match self.credential with
  | none => host
  | some credential => if credential = "" then host else credential

/-- The minute at which it comes. -/
def window (self : IncomingRequest) : ℤ := self.time / 60

end IncomingRequest

/-- The text of a key before its window. -/
def limitStem (bucket : Bucket) (identity : String) : String :=
  let identityHash := String.ofList ((Sha256.hexdigest (encodeUtf8 identity)).toList.take 24)
  "cohortswitch:ratelimit:" ++ bucket.value ++ ":" ++ identityHash

/-- What the request asks a limiter for. -/
def IncomingRequest.call (self : IncomingRequest) : LocalCall :=
  ⟨limitStem self.bucket self.identity, self.window⟩

/-- The limit of a key, which names its bucket. -/
def Settings.limitOfKey (self : Settings) (key : String) : ℕ :=
  if "cohortswitch:ratelimit:evaluation:".toList.isPrefixOf key.toList then self.sdkRateLimit
  else self.managementRateLimit

/-- A key names its bucket. -/
theorem Settings.limitOfKey_windowKey (self : Settings) (bucket : Bucket) (identity : String)
    (window : ℤ) :
    self.limitOfKey (windowKey (limitStem bucket identity) window) = self.limit bucket := by
  have hkey : (windowKey (limitStem bucket identity) window).toList
      = "cohortswitch:ratelimit:".toList ++ (bucket.value.toList ++ (":".toList
        ++ (String.ofList ((Sha256.hexdigest (encodeUtf8 identity)).toList.take 24)).toList
        ++ (":" ++ toString window).toList)) := by
    unfold windowKey limitStem
    simp only [String.toList_append, List.append_assoc]
  unfold Settings.limitOfKey
  rw [hkey]
  cases bucket with
  | evaluation => exact if_pos (by simp [Bucket.value])
  | management => exact if_neg (by simp [Bucket.value])

/-- The limit of a call is that of its bucket. -/
theorem Settings.limitOfKey_call (self : Settings) (request : IncomingRequest) :
    self.limitOfKey request.call.key = self.limit request.bucket :=
  self.limitOfKey_windowKey request.bucket request.identity request.window

/-! ## The servers -/

/-- **How far a request is.** Its count may be the first of its key, which is when
`expire` comes next; a call of Redis may have failed, which is when the local limiter
comes next. -/
inductive Progress
  | exempt
  | arrived
  | counted
  | failed
  | decided (count : ℕ) (allowed : Bool)
  | fellBack (answer : Except PyError Bool)

/-- The middleware lets the request through. -/
def Progress.admits : Progress → Bool
  | .decided _ allowed => allowed
  | .fellBack answer => CohortSwitch.admits answer
  | _ => false

/-- The count that Redis gave the request. -/
def Progress.count? : Progress → Option ℕ
  | .counted => some 1
  | .decided count _ => some count
  | _ => none

/-- **A request at one of `n` processes.** -/
structure Dispatch (n : ℕ) where
  process : Fin n
  request : IncomingRequest
  progress : Progress

/-- **The servers and their Redis**: the counters, the keys whose counter was dropped, the
limiter of each process with what it was asked, and all the requests so far. A request goes
through the calls of the middleware one by one, so requests of one identity overlap as they do
at several processes. -/
structure Servers (n : ℕ) where
  /-- The shared counters. -/
  redis : String → ℕ
  /-- The keys whose counter Redis has dropped. -/
  dropped : List String
  limiters : Fin n → LocalLimiter
  asked : Fin n → List Asked
  /-- All requests so far. -/
  dispatches : List (Dispatch n)

/-- What becomes of a call of `incr`: it is answered, or it fails after or before the
request was counted. -/
inductive Reply
  | answered
  | lost
  | refused
  deriving DecidableEq

/-- A step: a request comes, it makes its next call, or Redis drops a counter. -/
inductive LimitAction (n : ℕ)
  | arrive (process : Fin n) (request : IncomingRequest)
  | incr (i : ℕ) (reply : Reply)
  | expire (i : ℕ) (fails : Bool)
  | fallBack (i : ℕ)
  | drop (key : String)

/-- A call of Redis fails. -/
def LimitAction.Fails {n : ℕ} : LimitAction n → Prop
  | .incr _ reply => reply ≠ .answered
  | .expire _ fails => fails = true
  | _ => False

namespace Servers

variable {n : ℕ}

/-- Nothing has been asked. -/
def start : Servers n := ⟨fun _ => 0, [], fun _ => .fresh, fun _ => [], []⟩

/-- `count == 1` is followed by `expire`; else the count decides. -/
def progressOfCount (settings : Settings) (request : IncomingRequest) (count : ℕ) : Progress :=
  if count = 1 then .counted
  else .decided count (decide (count ≤ settings.limit request.bucket))

/-- **A step of `dispatch`**, or of Redis, which may drop a counter. -/
def step (settings : Settings) (s : Servers n) : LimitAction n → Option (Servers n)
  | .arrive process request =>
    let progress := if request.exempt then .exempt else .arrived
    some { s with dispatches := s.dispatches ++ [⟨process, request, progress⟩] }
  | .incr i reply =>
    match s.dispatches[i]? with
    | some ⟨process, request, .arrived⟩ =>
      let key := request.call.key
      let counted := Function.update s.redis key (s.redis key + 1)
      match reply with
      | .answered =>
        let progress := progressOfCount settings request (s.redis key + 1)
        some { s with
          redis := counted, dispatches := s.dispatches.set i ⟨process, request, progress⟩ }
      | .lost =>
        some { s with
          redis := counted, dispatches := s.dispatches.set i ⟨process, request, .failed⟩ }
      | .refused => some { s with dispatches := s.dispatches.set i ⟨process, request, .failed⟩ }
    | _ => none
  | .expire i fails =>
    match s.dispatches[i]? with
    | some ⟨process, request, .counted⟩ =>
      let progress := if fails then .failed
        else .decided 1 (decide (1 ≤ settings.limit request.bucket))
      some { s with dispatches := s.dispatches.set i ⟨process, request, progress⟩ }
    | _ => none
  | .fallBack i =>
    match s.dispatches[i]? with
    | some ⟨process, request, .failed⟩ =>
      let key := request.call.key
      let asked := (s.limiters process).localAllowed key (settings.limit request.bucket)
        request.window
      some { s with
        limiters := Function.update s.limiters process asked.2
        asked := Function.update s.asked process (s.asked process ++ [(request.call, asked.1)])
        dispatches := s.dispatches.set i ⟨process, request, .fellBack asked.1⟩ }
    | _ => none
  | .drop key =>
    if s.redis key = 0 then none
    else some { s with redis := Function.update s.redis key 0, dropped := key :: s.dropped }

/-- **What is provided of a step**: Redis keeps the counter of a key until its last
request was counted, and the windows that a limiter is asked for do not decrease. -/
def Provides (s : Servers n) : LimitAction n → Prop
  | .incr i _ => ∀ dispatch, s.dispatches[i]? = some dispatch →
    dispatch.request.call.key ∉ s.dropped
  | .fallBack i => ∀ dispatch, s.dispatches[i]? = some dispatch →
    ∀ asked ∈ s.asked dispatch.process, asked.1.window ≤ dispatch.request.window
  | _ => True

/-- **The states that some actions lead to.** -/
inductive Reached (settings : Settings) : List (LimitAction n) → Servers n → Prop
  | start : Reached settings [] start
  | step {actions : List (LimitAction n)} {s s' : Servers n} {action : LimitAction n}
      (before : Reached settings actions s) (provided : s.Provides action)
      (stepped : s.step settings action = some s') : Reached settings (actions ++ [action]) s'

/-- **The requests of an identity that were let through in a window.** -/
def admittedRequests (s : Servers n) (bucket : Bucket) (identity : String) (window : ℤ) : ℕ :=
  s.dispatches.countP (fun dispatch => dispatch.progress.admits
    && decide (dispatch.request.bucket = bucket ∧ dispatch.request.identity = identity
      ∧ dispatch.request.window = window))

/-! ## What holds of every state -/

/-- The counts that Redis gave for a key. -/
def countsOf (dispatches : List (Dispatch n)) (key : String) : List ℕ :=
  dispatches.filterMap (fun dispatch =>
    if dispatch.request.call.key = key then dispatch.progress.count? else none)

/-- Redis lets the request through. -/
def decidedOn (key : String) (dispatch : Dispatch n) : Bool :=
  match dispatch.progress with
  | .decided _ allowed => allowed && decide (dispatch.request.call.key = key)
  | _ => false

/-- The process lets the request through on its own. -/
def fellBackOn (key : String) (dispatch : Dispatch n) : Bool :=
  match dispatch.progress with
  | .fellBack answer => CohortSwitch.admits answer && decide (dispatch.request.call.key = key)
  | _ => false

/-- **What holds of every state.** No two requests have the same count of a key, and a count
decides as the limit says. The limiter of a process has counted the requests that it let
through. From this at most `limit` requests are let through by Redis, and as many by each
process that falls back. -/
structure Sound (settings : Settings) (s : Servers n) : Prop where
  /-- A decision is the comparison of the count with the limit. -/
  decided : ∀ dispatch ∈ s.dispatches, ∀ count allowed,
    dispatch.progress = .decided count allowed →
      allowed = decide (count ≤ settings.limit dispatch.request.bucket)
  /-- Counts of a key differ, -/
  distinct : ∀ key, (countsOf s.dispatches key).Nodup
  /-- and were given out by the counter, which has not gone back unless the key was dropped. -/
  within : ∀ key, ∀ count ∈ countsOf s.dispatches key,
    1 ≤ count ∧ (key ∉ s.dropped → count ≤ s.redis key)
  /-- Each limiter has counted what it was asked. -/
  limiters : ∀ process, Counted settings.limitOfKey (s.asked process) (s.limiters process).counts
  /-- The requests that fell back and passed are those it let through. -/
  fellBack : ∀ process key,
    s.dispatches.countP (fun dispatch => fellBackOn key dispatch
      && decide (dispatch.process = process)) = admitted (s.asked process) key

section Lists

variable {α : Type}

/-- A list at one of its elements, which may be replaced. -/
theorem exists_split {xs : List α} {i : ℕ} {x : α} (h : xs[i]? = some x) :
    ∃ before after, xs = before ++ x :: after
      ∧ ∀ y, xs.set i y = before ++ y :: after := by
  induction xs generalizing i with
  | nil => cases h
  | cons first rest ih =>
    cases i with
    | zero =>
      rw [List.getElem?_cons_zero, Option.some.injEq] at h
      subst h
      exact ⟨[], rest, rfl, fun _ => rfl⟩
    | succ i =>
      obtain ⟨before, after, hrest, hset⟩ := ih (i := i) (by simpa using h)
      refine ⟨first :: before, after, by rw [hrest]; rfl, fun y => ?_⟩
      rw [List.set_cons_succ, hset]
      rfl

/-- What is counted by one of two tests is at most what both count. -/
theorem countP_le_add {p q r : α → Bool} (xs : List α)
    (h : ∀ x ∈ xs, p x = true → q x = true ∨ r x = true) :
    xs.countP p ≤ xs.countP q + xs.countP r := by
  induction xs with
  | nil => exact Nat.zero_le _
  | cons x xs ih =>
    have hrest := ih (fun y hy => h y (List.mem_cons_of_mem _ hy))
    have hx := h x List.mem_cons_self
    rw [List.countP_cons, List.countP_cons, List.countP_cons]
    cases hp : p x with
    | false => simp only [Bool.false_eq_true, if_false]; omega
    | true =>
      rcases hx hp with hq | hr
      · rw [hq]
        simp only [if_true]
        omega
      · rw [hr]
        simp only [if_true]
        omega

/-- Distinct numbers from one to a limit are at most as many. -/
theorem length_le_of_nodup {counts : List ℕ} {limit : ℕ} (h : counts.Nodup)
    (hwithin : ∀ count ∈ counts, 1 ≤ count ∧ count ≤ limit) : counts.length ≤ limit := by
  rw [← List.toFinset_card_of_nodup h]
  have hsubset : counts.toFinset ⊆ Finset.Icc 1 limit := by
    intro count hcount
    rw [Finset.mem_Icc]
    exact hwithin count (List.mem_toFinset.mp hcount)
  calc counts.toFinset.card ≤ (Finset.Icc 1 limit).card := Finset.card_le_card hsubset
    _ = limit := by rw [Nat.card_Icc, Nat.add_sub_cancel]

end Lists

/-- The counts of two lists of requests. -/
theorem countsOf_append (dispatches dispatches' : List (Dispatch n)) (key : String) :
    countsOf (dispatches ++ dispatches') key
      = countsOf dispatches key ++ countsOf dispatches' key :=
  List.filterMap_append

/-- A request without a count adds none. -/
theorem countsOf_cons_none {dispatch : Dispatch n} (h : dispatch.progress.count? = none)
    (dispatches : List (Dispatch n)) (key : String) :
    countsOf (dispatch :: dispatches) key = countsOf dispatches key := by
  unfold countsOf
  rw [List.filterMap_cons_none]
  split
  · exact h
  · rfl

/-- A request with a count adds it. -/
theorem countsOf_cons_some {dispatch : Dispatch n} {count : ℕ}
    (h : dispatch.progress.count? = some count) (dispatches : List (Dispatch n)) (key : String) :
    countsOf (dispatch :: dispatches) key = if dispatch.request.call.key = key
      then count :: countsOf dispatches key else countsOf dispatches key := by
  unfold countsOf
  by_cases hkey : dispatch.request.call.key = key
  · rw [if_pos hkey, List.filterMap_cons_some (by rw [if_pos hkey, h])]
  · rw [if_neg hkey, List.filterMap_cons_none (by rw [if_neg hkey])]

section Sound

variable {settings : Settings} {s : Servers n} {before after : List (Dispatch n)}
  {process : Fin n} {request : IncomingRequest} {progress progress' : Progress}

/-- Nothing is wrong yet. -/
theorem sound_start : Sound settings (start : Servers n) where
  decided _ h := absurd h List.not_mem_nil
  distinct _ := List.nodup_nil
  within _ _ h := absurd h List.not_mem_nil
  limiters _ := counted_fresh _
  fellBack _ _ := rfl

/-- **A request goes on without its process's limiter.** -/
theorem Sound.replace (h : Sound settings s)
    (hdispatches : s.dispatches = before ++ ⟨process, request, progress⟩ :: after)
    {redis : String → ℕ}
    (hdecided : ∀ count allowed, progress' = .decided count allowed →
      allowed = decide (count ≤ settings.limit request.bucket))
    (hcounts : ∀ key, (countsOf (before ++ ⟨process, request, progress'⟩ :: after) key).Nodup
      ∧ ∀ count ∈ countsOf (before ++ ⟨process, request, progress'⟩ :: after) key,
        1 ≤ count ∧ (key ∉ s.dropped → count ≤ redis key))
    (hback : ∀ answer, progress ≠ .fellBack answer)
    (hback' : ∀ answer, progress' ≠ .fellBack answer) :
    Sound settings { s with
      redis := redis, dispatches := before ++ ⟨process, request, progress'⟩ :: after } where
  decided dispatch hdispatch count allowed heq := by
    rcases List.mem_append.mp hdispatch with hmem | hmem
    · exact h.decided dispatch (hdispatches ▸ List.mem_append_left _ hmem) count allowed heq
    · rcases List.mem_cons.mp hmem with rfl | hmem
      · exact hdecided count allowed heq
      · exact h.decided dispatch (hdispatches ▸ List.mem_append_right _
          (List.mem_cons_of_mem _ hmem)) count allowed heq
  distinct key := (hcounts key).1
  within key := (hcounts key).2
  limiters := h.limiters
  fellBack other key := by
    have hnone : ∀ p : Progress, (∀ answer, p ≠ .fellBack answer) →
        fellBackOn key ⟨process, request, p⟩ = false := by
      intro p hp
      cases p with
      | fellBack answer => exact absurd rfl (hp answer)
      | _ => rfl
    rw [← h.fellBack other key, hdispatches]
    show List.countP _ (before ++ _ :: after) = _
    rw [List.countP_append, List.countP_append, List.countP_cons_of_neg (by simp [hnone _ hback']),
      List.countP_cons_of_neg (by simp [hnone _ hback])]

/-- A request that loses its count, or has none before and after, leaves the other
counts. -/
theorem Sound.counts_none (h : Sound settings s)
    (hdispatches : s.dispatches = before ++ ⟨process, request, progress⟩ :: after)
    (hnone : progress'.count? = none) {redis : String → ℕ} (hredis : ∀ key, s.redis key ≤ redis key)
    (key : String) :
    (countsOf (before ++ ⟨process, request, progress'⟩ :: after) key).Nodup
      ∧ ∀ count ∈ countsOf (before ++ ⟨process, request, progress'⟩ :: after) key,
        1 ≤ count ∧ (key ∉ s.dropped → count ≤ redis key) := by
  have hsublist : (countsOf (before ++ ⟨process, request, progress'⟩ :: after) key).Sublist
      (countsOf s.dispatches key) := by
    rw [hdispatches, countsOf_append, countsOf_append, countsOf_cons_none hnone]
    refine List.Sublist.append_left ?_ _
    exact (List.sublist_cons_self _ after).filterMap _
  refine ⟨(h.distinct key).sublist hsublist, fun count hcount => ?_⟩
  obtain ⟨hone, hle⟩ := h.within key count (hsublist.subset hcount)
  exact ⟨hone, fun hkept => (hle hkept).trans (hredis key)⟩

/-- A request that keeps its count leaves all counts. -/
theorem Sound.counts_same (h : Sound settings s)
    (hdispatches : s.dispatches = before ++ ⟨process, request, progress⟩ :: after)
    (hsame : progress'.count? = progress.count?) (key : String) :
    (countsOf (before ++ ⟨process, request, progress'⟩ :: after) key).Nodup
      ∧ ∀ count ∈ countsOf (before ++ ⟨process, request, progress'⟩ :: after) key,
        1 ≤ count ∧ (key ∉ s.dropped → count ≤ s.redis key) := by
  have heq : countsOf (before ++ ⟨process, request, progress'⟩ :: after) key
      = countsOf s.dispatches key := by
    rw [hdispatches]
    unfold countsOf
    rw [List.filterMap_append, List.filterMap_append, List.filterMap_cons, List.filterMap_cons]
    dsimp only
    rw [hsame]
  rw [heq]
  exact ⟨h.distinct key, h.within key⟩

/-- **A new count is different from all others**, as the counter was never so high. -/
theorem Sound.counts_next (h : Sound settings s)
    (hdispatches : s.dispatches = before ++ ⟨process, request, .arrived⟩ :: after)
    (hkept : request.call.key ∉ s.dropped)
    (hnext : progress'.count? = some (s.redis request.call.key + 1)) (key : String) :
    (countsOf (before ++ ⟨process, request, progress'⟩ :: after) key).Nodup
      ∧ ∀ count ∈ countsOf (before ++ ⟨process, request, progress'⟩ :: after) key,
        1 ≤ count ∧ (key ∉ s.dropped →
          count ≤ Function.update s.redis request.call.key (s.redis request.call.key + 1) key) := by
  have hold : countsOf s.dispatches key = countsOf before key ++ countsOf after key := by
    rw [hdispatches, countsOf_append, countsOf_cons_none rfl]
  have hdistinct := h.distinct key
  have hwithin := h.within key
  rw [hold] at hdistinct hwithin
  rw [countsOf_append, countsOf_cons_some hnext]
  by_cases hkey : request.call.key = key
  · subst hkey
    rw [if_pos rfl, Function.update_self, List.nodup_middle, List.nodup_cons]
    refine ⟨⟨fun hmem => ?_, hdistinct⟩, fun count hcount => ?_⟩
    · have hle := (hwithin _ hmem).2 hkept
      omega
    · rcases List.mem_cons.mp (List.perm_middle.subset hcount) with rfl | hmem
      · exact ⟨Nat.le_add_left 1 _, fun _ => le_rfl⟩
      · exact ⟨(hwithin count hmem).1,
          fun hnot => ((hwithin count hmem).2 hnot).trans (Nat.le_succ _)⟩
  · rw [if_neg hkey, Function.update_of_ne (Ne.symm hkey)]
    exact ⟨hdistinct, hwithin⟩

/-- **The local limiter is asked.** -/
theorem Sound.fallBack (h : Sound settings s) (hlimit : ∀ bucket, 1 ≤ settings.limit bucket)
    (hdispatches : s.dispatches = before ++ ⟨process, request, .failed⟩ :: after)
    (hwindows : ∀ asked ∈ s.asked process, asked.1.window ≤ request.window)
    {asked : Except PyError Bool × LocalLimiter}
    (hasked : (s.limiters process).localAllowed request.call.key (settings.limit request.bucket)
      request.window = asked) :
    Sound settings { s with
      limiters := Function.update s.limiters process asked.2
      asked := Function.update s.asked process (s.asked process ++ [(request.call, asked.1)])
      dispatches := before ++ ⟨process, request, .fellBack asked.1⟩ :: after } where
  decided dispatch hdispatch count allowed heq := by
    rcases List.mem_append.mp hdispatch with hmem | hmem
    · exact h.decided dispatch (hdispatches ▸ List.mem_append_left _ hmem) count allowed heq
    · rcases List.mem_cons.mp hmem with rfl | hmem
      · cases heq
      · exact h.decided dispatch (hdispatches ▸ List.mem_append_right _
          (List.mem_cons_of_mem _ hmem)) count allowed heq
  distinct key := (h.counts_none hdispatches rfl (fun _ => le_rfl) key).1
  within key := (h.counts_none hdispatches rfl (fun _ => le_rfl) key).2
  limiters other := by
    by_cases hother : other = process
    · subst hother
      show Counted _ (Function.update s.asked other _ other)
        (Function.update s.limiters other asked.2 other).counts
      rw [Function.update_self, Function.update_self]
      -- the process asks its own limiter, which counts what it was asked
      have hask : (s.limiters other).ask settings.limitOfKey request.call = asked := by
        show (s.limiters other).localAllowed request.call.key
          (settings.limitOfKey request.call.key) request.window = asked
        rw [settings.limitOfKey_call, hasked]
      rw [← hask]
      refine (h.limiters other).ask hwindows ?_
      rw [settings.limitOfKey_call]
      exact hlimit _
    · show Counted _ (Function.update s.asked process _ other)
        (Function.update s.limiters process asked.2 other).counts
      rw [Function.update_of_ne hother, Function.update_of_ne hother]
      exact h.limiters other
  fellBack other key := by
    -- one call more has fallen back, and is admitted if its limiter says so
    have hold := h.fellBack other key
    rw [hdispatches, List.countP_append, List.countP_cons_of_neg (by simp [fellBackOn])] at hold
    show List.countP _ (before ++ _ :: after)
      = admitted (Function.update s.asked process _ other) key
    rw [List.countP_append, List.countP_cons]
    show _ + (_ + if ((CohortSwitch.admits asked.1 && decide (request.call.key = key))
      && decide (process = other)) = true then 1 else 0) = _
    by_cases hother : other = process
    · subst hother
      rw [Function.update_self, admitted_append, admitted_singleton, ← hold]
      by_cases hkey : key = request.call.key
      · subst hkey
        cases hadmits : CohortSwitch.admits asked.1 <;> simp [Nat.add_assoc]
      · simp [hkey, Ne.symm hkey]
    · rw [Function.update_of_ne hother, ← hold]
      simp [Ne.symm hother]

/-- A request arrives, which is exempt or has not been counted. -/
theorem Sound.arrive (h : Sound settings s)
    (hprogress : progress = .exempt ∨ progress = .arrived) :
    Sound settings { s with dispatches := s.dispatches ++ [⟨process, request, progress⟩] } := by
  have hnone : progress.count? = none := by
    rcases hprogress with rfl | rfl <;> rfl
  have hcounts : ∀ key, countsOf (s.dispatches ++ [⟨process, request, progress⟩]) key
      = countsOf s.dispatches key := by
    intro key
    rw [countsOf_append, countsOf_cons_none hnone]
    exact List.append_nil _
  constructor
  · intro dispatch hdispatch count allowed heq
    rcases List.mem_append.mp hdispatch with hmem | hmem
    · exact h.decided dispatch hmem count allowed heq
    · rw [List.mem_singleton.mp hmem] at heq
      rcases hprogress with rfl | rfl <;> cases heq
  · intro key
    rw [hcounts]
    exact h.distinct key
  · intro key
    rw [hcounts]
    exact h.within key
  · exact h.limiters
  · intro other key
    rw [List.countP_append, h.fellBack]
    rcases hprogress with rfl | rfl <;> simp [fellBackOn]

/-- A counter is dropped. -/
theorem Sound.drop (h : Sound settings s) (key : String) :
    Sound settings { s with
      redis := Function.update s.redis key 0
      dropped := key :: s.dropped } where
  decided := h.decided
  distinct := h.distinct
  within other count hcount := by
    refine ⟨(h.within other count hcount).1, fun hkept => ?_⟩
    obtain ⟨hne, hold⟩ := not_or.mp (fun hor => hkept (List.mem_cons.mpr hor))
    show count ≤ Function.update s.redis key 0 other
    rw [Function.update_of_ne hne]
    exact (h.within other count hcount).2 hold
  limiters := h.limiters
  fellBack := h.fellBack

/-- A count decides as the limit says, or is the first. -/
theorem progressOfCount_cases (settings : Settings) (request : IncomingRequest) (count : ℕ) :
    (progressOfCount settings request count).count? = some count
      ∧ (∀ count' allowed, progressOfCount settings request count = .decided count' allowed →
        allowed = decide (count' ≤ settings.limit request.bucket))
      ∧ ∀ answer, progressOfCount settings request count ≠ .fellBack answer := by
  unfold progressOfCount
  by_cases hone : count = 1
  · rw [if_pos hone, hone]
    exact ⟨rfl, fun _ _ => nofun, fun _ => nofun⟩
  · rw [if_neg hone]
    refine ⟨rfl, fun count' allowed heq => ?_, fun _ => nofun⟩
    cases heq
    rfl

/-- **A step keeps what holds of every state.** -/
theorem Sound.step (h : Sound settings s) (hlimit : ∀ bucket, 1 ≤ settings.limit bucket)
    {action : LimitAction n} {s' : Servers n} (provided : s.Provides action)
    (stepped : s.step settings action = some s') : Sound settings s' := by
  -- counting up lowers no count
  have hmore : ∀ (key other : String),
      s.redis other ≤ Function.update s.redis key (s.redis key + 1) other := by
    intro key other
    by_cases hother : other = key
    · subst hother
      rw [Function.update_self]
      exact Nat.le_succ _
    · rw [Function.update_of_ne hother]
  unfold Servers.step at stepped
  cases action with
  | arrive process request =>
    cases stepped
    refine h.arrive ?_
    split
    · exact Or.inl rfl
    · exact Or.inr rfl
  | incr i reply =>
    dsimp only at stepped
    split at stepped
    · rename_i process request hfound
      obtain ⟨before, after, hdispatches, hset⟩ := exists_split hfound
      have hkept := provided _ hfound
      cases reply with
      | answered =>
        obtain ⟨hcount, hdecided, hback⟩ :=
          progressOfCount_cases settings request (s.redis request.call.key + 1)
        cases stepped
        rw [hset]
        exact h.replace hdispatches hdecided (h.counts_next hdispatches hkept hcount)
          (fun _ => nofun) hback
      | lost =>
        cases stepped
        rw [hset]
        exact h.replace hdispatches (fun _ _ => nofun)
          -- Redis has counted, but no process knows the count
          (h.counts_none hdispatches rfl (hmore _)) (fun _ => nofun) (fun _ => nofun)
      | refused =>
        cases stepped
        rw [hset]
        exact h.replace hdispatches (fun _ _ => nofun)
          (h.counts_none hdispatches rfl (fun _ => le_rfl)) (fun _ => nofun) (fun _ => nofun)
    · cases stepped
  | expire i fails =>
    dsimp only at stepped
    split at stepped
    · rename_i process request hfound
      obtain ⟨before, after, hdispatches, hset⟩ := exists_split hfound
      cases stepped
      rw [hset]
      cases fails with
      | true =>
        exact h.replace hdispatches (fun _ _ => nofun)
          (h.counts_none hdispatches rfl (fun _ => le_rfl)) (fun _ => nofun) (fun _ => nofun)
      | false =>
        refine h.replace hdispatches (fun count allowed heq => ?_)
          (h.counts_same hdispatches rfl) (fun _ => nofun) (fun _ => nofun)
        cases heq
        rfl
    · cases stepped
  | fallBack i =>
    dsimp only at stepped
    split at stepped
    · rename_i process request hfound
      obtain ⟨before, after, hdispatches, hset⟩ := exists_split hfound
      cases stepped
      rw [hset]
      exact h.fallBack hlimit hdispatches (provided _ hfound) rfl
    · cases stepped
  | drop key =>
    dsimp only at stepped
    split at stepped
    · cases stepped
    · cases stepped
      exact h.drop key

/-- **It holds of every state that is reached.** -/
theorem Reached.sound {actions : List (LimitAction n)} (h : Reached settings actions s)
    (hlimit : ∀ bucket, 1 ≤ settings.limit bucket) : Sound settings s := by
  induction h with
  | start => exact sound_start
  | step _ provided stepped ih => exact ih.step hlimit provided stepped

/-! ## What is let through -/

/-- What is counted of the requests of all processes is the sum over the processes. -/
theorem countP_eq_sum (p : Dispatch n → Bool) (dispatches : List (Dispatch n)) :
    dispatches.countP p
      = ∑ process, dispatches.countP (fun d => p d && decide (d.process = process)) := by
  induction dispatches with
  | nil => simp
  | cons dispatch rest ih =>
    simp only [List.countP_cons]
    rw [Finset.sum_add_distrib, ← ih]
    congr 1
    cases hp : p dispatch with
    | false => simp
    | true =>
      simp only [Bool.true_and, decide_eq_true_eq]
      rw [Finset.sum_ite_eq, if_pos (Finset.mem_univ _), if_pos trivial]

/-- **Redis lets no more requests of a key through than its limit.** -/
theorem Sound.decided_le (h : Sound settings s) (key : String) :
    s.dispatches.countP (decidedOn key) ≤ settings.limitOfKey key := by
  have hcounts : s.dispatches.countP (decidedOn key)
      ≤ (countsOf s.dispatches key).countP
        (fun count => decide (count ≤ settings.limitOfKey key)) := by
    unfold countsOf
    rw [List.countP_filterMap]
    refine List.countP_mono_left (fun dispatch hdispatch hon => ?_)
    unfold decidedOn at hon
    split at hon
    · rename_i count allowed hprogress
      obtain ⟨hallowed, hkey⟩ := Bool.and_eq_true_iff.mp hon
      have hkey := of_decide_eq_true hkey
      rw [h.decided dispatch hdispatch _ _ hprogress, ← settings.limitOfKey_call, hkey] at hallowed
      rw [if_pos hkey, hprogress]
      exact hallowed
    · cases hon
  refine hcounts.trans ?_
  rw [List.countP_eq_length_filter]
  refine length_le_of_nodup ((h.distinct _).filter _) (fun count hcount => ?_)
  obtain ⟨hmem, hle⟩ := List.mem_filter.mp hcount
  exact ⟨(h.within _ count hmem).1, of_decide_eq_true hle⟩

/-- **The processes let no more requests of a key through on their own than the limit
for each.** -/
theorem Sound.fellBack_le (h : Sound settings s) (key : String) :
    s.dispatches.countP (fellBackOn key) ≤ settings.limitOfKey key * n := by
  have hle : ∀ process ∈ (Finset.univ : Finset (Fin n)),
      s.dispatches.countP (fun d => fellBackOn key d && decide (d.process = process))
        ≤ settings.limitOfKey key := by
    intro process _
    rw [h.fellBack]
    exact (h.limiters process).le _
  calc s.dispatches.countP (fellBackOn key)
      = ∑ process, s.dispatches.countP (fun d =>
          fellBackOn key d && decide (d.process = process)) :=
        countP_eq_sum _ _
    _ ≤ (Finset.univ : Finset (Fin n)).card • settings.limitOfKey key :=
        Finset.sum_le_card_nsmul _ _ _ hle
    _ = settings.limitOfKey key * n := by
        rw [Finset.card_univ, Fintype.card_fin, nsmul_eq_mul, Nat.cast_id, Nat.mul_comm]

/-- **A request that is let through is let through by Redis or by its process.** -/
theorem admittedRequests_le (s : Servers n) (bucket : Bucket) (identity : String) (window : ℤ) :
    s.admittedRequests bucket identity window
      ≤ s.dispatches.countP (decidedOn (windowKey (limitStem bucket identity) window))
        + s.dispatches.countP (fellBackOn (windowKey (limitStem bucket identity) window)) := by
  refine countP_le_add _ (fun dispatch _ hadmits => ?_)
  obtain ⟨process, request, progress⟩ := dispatch
  obtain ⟨hthrough, hof⟩ := Bool.and_eq_true_iff.mp hadmits
  obtain ⟨rfl, rfl, rfl⟩ := of_decide_eq_true hof
  have hkey : decide (request.call.key
      = windowKey (limitStem request.bucket request.identity) request.window) = true :=
    decide_eq_true rfl
  cases progress with
  | decided count allowed => exact Or.inl (Bool.and_eq_true_iff.mpr ⟨hthrough, hkey⟩)
  | fellBack answer => exact Or.inr (Bool.and_eq_true_iff.mpr ⟨hthrough, hkey⟩)
  | _ => cases hthrough

/-- No request failed, or was let through by its process. -/
def NoneFailed (s : Servers n) : Prop :=
  ∀ dispatch ∈ s.dispatches, dispatch.progress ≠ .failed
    ∧ ∀ answer, dispatch.progress ≠ .fellBack answer

/-- A step that does not fail keeps it so. -/
theorem NoneFailed.step (h : NoneFailed s) {action : LimitAction n} (hfails : ¬ action.Fails)
    {s' : Servers n} (stepped : s.step settings action = some s') : NoneFailed s' := by
  -- one call goes on, and the others are where they were
  have hreplace : ∀ {before after : List (Dispatch n)} {dispatch dispatch' : Dispatch n},
      s.dispatches = before ++ dispatch :: after → dispatch'.progress ≠ .failed →
      (∀ answer, dispatch'.progress ≠ .fellBack answer) →
      ∀ other ∈ before ++ dispatch' :: after, other.progress ≠ .failed
        ∧ ∀ answer, other.progress ≠ .fellBack answer := by
    intro before after dispatch dispatch' hdispatches hfailed hback other hmem
    rcases List.mem_append.mp hmem with hmem | hmem
    · exact h other (hdispatches ▸ List.mem_append_left _ hmem)
    · rcases List.mem_cons.mp hmem with rfl | hmem
      · exact ⟨hfailed, hback⟩
      · exact h other (hdispatches ▸ List.mem_append_right _ (List.mem_cons_of_mem _ hmem))
  unfold Servers.step at stepped
  cases action with
  | arrive process request =>
    cases stepped
    intro dispatch hdispatch
    rcases List.mem_append.mp hdispatch with hmem | hmem
    · exact h dispatch hmem
    · rw [List.mem_singleton.mp hmem]
      dsimp only
      split <;> exact ⟨nofun, fun _ => nofun⟩
  | incr i reply =>
    have hreply : reply = .answered := not_not.mp hfails
    subst hreply
    dsimp only at stepped
    split at stepped
    · rename_i process request hfound
      obtain ⟨before, after, hdispatches, hset⟩ := exists_split hfound
      obtain ⟨hcount, -, hback⟩ :=
        progressOfCount_cases settings request (s.redis request.call.key + 1)
      cases stepped
      show ∀ other ∈ s.dispatches.set i _, _
      rw [hset]
      refine hreplace hdispatches (fun hfailed => ?_) hback
      rw [show progressOfCount settings request _ = .failed from hfailed] at hcount
      cases hcount
    · cases stepped
  | expire i fails =>
    have hanswered : fails = false := Bool.eq_false_iff.mpr hfails
    subst hanswered
    dsimp only at stepped
    split at stepped
    · rename_i process request hfound
      obtain ⟨before, after, hdispatches, hset⟩ := exists_split hfound
      cases stepped
      show ∀ other ∈ s.dispatches.set i _, _
      rw [hset]
      exact hreplace hdispatches nofun (fun _ => nofun)
    · cases stepped
  | fallBack i =>
    dsimp only at stepped
    split at stepped
    · rename_i process request hfound
      -- only a call that has failed falls back
      exact absurd rfl (h _ (List.mem_of_getElem? hfound)).1
    · cases stepped
  | drop key =>
    dsimp only at stepped
    split at stepped
    · cases stepped
    · cases stepped
      exact h

/-- **Where no call of Redis fails, no process decides on its own.** -/
theorem Reached.noneFailed {actions : List (LimitAction n)} (h : Reached settings actions s)
    (hfails : ∀ action ∈ actions, ¬ action.Fails) : NoneFailed s := by
  induction h with
  | start => exact fun _ h => absurd h List.not_mem_nil
  | step _ _ stepped ih =>
    exact (ih (fun action h => hfails action (List.mem_append_left _ h))).step
      (hfails _ (List.mem_append_right _ (List.mem_singleton_self _))) stepped

/-- No process has decided on its own. -/
theorem NoneFailed.fellBack (h : NoneFailed s) (key : String) :
    s.dispatches.countP (fellBackOn key) = 0 := by
  rw [List.countP_eq_zero]
  intro dispatch hdispatch hon
  unfold fellBackOn at hon
  split at hon
  · rename_i answer hprogress
    exact (h dispatch hdispatch).2 answer hprogress
  · cases hon

end Sound

end Servers

/-- **No more requests of an identity are let through in a window than the limit for
each process and once more, and no more than the limit if no call of Redis fails.** -/
theorem shared_limit (settings : Settings) (hlimit : ∀ bucket, 1 ≤ settings.limit bucket) {n : ℕ}
    {actions : List (LimitAction n)} {s : Servers n} (reached : Servers.Reached settings actions s)
    (bucket : Bucket) (identity : String) (window : ℤ) :
    s.admittedRequests bucket identity window ≤ settings.limit bucket * (n + 1)
      ∧ ((∀ action ∈ actions, ¬ action.Fails) →
        s.admittedRequests bucket identity window ≤ settings.limit bucket) := by
  have hsound := reached.sound hlimit
  have hle := s.admittedRequests_le bucket identity window
  have hdecided := hsound.decided_le (windowKey (limitStem bucket identity) window)
  have hback := hsound.fellBack_le (windowKey (limitStem bucket identity) window)
  rw [settings.limitOfKey_windowKey] at hdecided hback
  constructor
  · calc s.admittedRequests bucket identity window
        ≤ settings.limit bucket + settings.limit bucket * n :=
          hle.trans (Nat.add_le_add hdecided hback)
      _ = settings.limit bucket * (n + 1) := by rw [Nat.mul_succ, Nat.add_comm]
  · intro hfails
    rw [(reached.noneFailed hfails).fellBack, Nat.add_zero] at hle
    exact hle.trans hdecided

/-- The limits of the sample. -/
def sampleSettings : Settings := ⟨60, 1000⟩

/-- A request for an evaluation. -/
def sampleRequest : IncomingRequest := ⟨"/api/v1/evaluate", some "key", some "127.0.0.1", 90⟩

/-- Two processes; the `incr` of the first request fails, and that of the second is
answered. -/
def sampleActions : List (LimitAction 2) :=
  [.arrive 0 sampleRequest, .incr 0 .refused, .fallBack 0, .arrive 1 sampleRequest,
    .incr 1 .answered, .expire 1 false]

/-- One step more, at the action that makes it. -/
theorem Servers.Reached.next {n : ℕ} {settings : Settings} {actions : List (LimitAction n)}
    {s s' : Servers n} (before : Servers.Reached settings actions s) (action : LimitAction n)
    (provided : s.Provides action) (stepped : s.step settings action = some s') :
    Servers.Reached settings (actions ++ [action]) s' :=
  before.step provided stepped

theorem shared_limit_sample : ∃ s : Servers 2, Servers.Reached sampleSettings sampleActions s
    ∧ s.admittedRequests .evaluation "key" 1 ≤ 1000 * (2 + 1)
    ∧ ((∀ action ∈ sampleActions, ¬ action.Fails) →
      s.admittedRequests .evaluation "key" 1 ≤ 1000) := by
  have hlimit : ∀ bucket, 1 ≤ sampleSettings.limit bucket := by
    intro bucket
    cases bucket <;> decide
  have hstart : @Servers.Reached 2 sampleSettings [] .start := .start
  have hfirst := hstart.next (.arrive 0 sampleRequest) trivial rfl
  have hrefused := hfirst.next (.incr 0 .refused) (fun _ _ => List.not_mem_nil) rfl
  have hback := hrefused.next (.fallBack 0) (fun _ _ _ h => (by cases h)) rfl
  have hsecond := hback.next (.arrive 1 sampleRequest) trivial rfl
  have hcounted := hsecond.next (.incr 1 .answered) (fun _ _ => List.not_mem_nil) rfl
  have hexpire := hcounted.next (.expire 1 false) trivial rfl
  exact ⟨_, hexpire, shared_limit sampleSettings hlimit hexpire .evaluation "key" 1⟩

end CohortSwitch
