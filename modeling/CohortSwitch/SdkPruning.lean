import CohortSwitch.SdkClient

/-!
# The pruning of the SDK's cache

After it stores an answer the client drops the entries whose time is over, if there are
many. A client that keeps everything is the plain one. Both hold the same live entries as
long as the clock does not go back (`Keeps`), so every call is answered from the cache of
the one exactly if it is from that of the other (`pruning_invisible`); and what the client
that prunes holds past the limit was live when the last answer came.

`Keeps` is a simulation. The two clients do not hold the same entries: one of them has
dropped what expired. They hold the same entries as far as a lookup can tell from now
on (`HoldsLive`), and that is kept because an entry that has expired never becomes live
again (`HoldsLive.mono`). An answer replaces the entry of its key in both.

The bound is no number of entries: a client asked for more than ten thousand subjects within
the time to live holds an entry for each, as all of them are live.
-/

namespace CohortSwitch

variable {ρ : Type}

/-! ## A client that keeps everything -/

/-- The end of `evaluate` without `_prune_cache`. -/
def SdkClient.keep (self : SdkClient ρ) (call : EvaluateCall) (result : ρ) (now : ℚ) :
    SdkClient ρ :=
  if self.cacheTtl = 0 then self
  else { self with cache := self.cache.insert call.cacheKey ⟨now + self.cacheTtl, result⟩ }

/-- A step of a client that keeps everything. -/
def SdkUse.stepKeeping (s : SdkUse ρ) : SdkEvent ρ → Option (SdkUse ρ)
  | .answer i result now later =>
    match s.waiting[i]? with
    | some call => (s.step (.answer i result now later)).map (fun s' =>
        { s' with client := s.client.keep call result now })
    | none => none
  | event => s.step event

/-- **One client holds the live entries of the other**, which keeps everything. -/
structure HoldsLive (clock : ℚ) (client full : SdkClient ρ) : Prop where
  /-- Their time to live is the same. -/
  cacheTtl : full.cacheTtl = client.cacheTtl
  /-- The other holds whatever the one holds. -/
  held : ∀ key entry, client.cache.get? key = some entry → full.cache.get? key = some entry
  /-- And the one holds what is live. -/
  live : ∀ key entry, full.cache.get? key = some entry → clock < entry.expiresAt →
    client.cache.get? key = some entry

section Clients

variable {client full : SdkClient ρ} {clock now later : ℚ}

/-- **Both clients answer alike** from now on. -/
theorem HoldsLive.cached_eq (h : HoldsLive clock client full) (call : EvaluateCall)
    (hnow : clock ≤ now) : client.cached call now = full.cached call now := by
  unfold SdkClient.cached
  cases hheld : client.cache.get? call.cacheKey with
  | some entry => rw [h.held _ _ hheld]
  | none =>
    cases hkept : full.cache.get? call.cacheKey with
    | none => rfl
    | some entry =>
      -- an entry that only the one holds has expired
      have hexpired : ¬ now < entry.expiresAt := by
        intro hlive
        rw [h.live _ _ hkept (hnow.trans_lt hlive)] at hheld
        cases hheld
      dsimp only
      rw [if_neg hexpired]

/-- What is live later was live before. -/
theorem HoldsLive.mono (h : HoldsLive clock client full) (hlater : clock ≤ later) :
    HoldsLive later client full where
  cacheTtl := h.cacheTtl
  held := h.held
  live key entry hkept hlive := h.live key entry hkept (hlater.trans_lt hlive)

/-- An answer is kept by both. -/
theorem HoldsLive.keep (h : HoldsLive clock client full) (call : EvaluateCall) (result : ρ)
    (now : ℚ) : HoldsLive clock (client.keep call result now) (full.keep call result now) := by
  unfold SdkClient.keep
  rw [h.cacheTtl]
  split
  · exact h
  · refine ⟨rfl, fun key entry hget => ?_, fun key entry hget hlive => ?_⟩
    · rw [Dict.get?_insert] at hget ⊢
      split
      · rename_i hkey
        rwa [if_pos hkey] at hget
      · rename_i hkey
        rw [if_neg hkey] at hget
        exact h.held key entry hget
    · rw [Dict.get?_insert] at hget ⊢
      split
      · rename_i hkey
        rwa [if_pos hkey] at hget
      · rename_i hkey
        rw [if_neg hkey] at hget
        exact h.live key entry hget hlive

/-- **Pruning drops what has expired.** -/
theorem HoldsLive.pruneCache (h : HoldsLive clock client full) :
    HoldsLive clock (client.pruneCache clock) full := by
  unfold SdkClient.pruneCache
  split
  · exact h
  · refine ⟨h.cacheTtl, fun key entry hget => ?_, fun key entry hget hlive => ?_⟩
    · rw [Dict.get?_filterValues, Option.filter_eq_some_iff] at hget
      exact h.held key entry hget.1
    · rw [Dict.get?_filterValues, Option.filter_eq_some_iff]
      exact ⟨h.live key entry hget hlive, decide_eq_true hlive⟩

/-- An answer is stored by the one and kept by the other. -/
theorem HoldsLive.store (h : HoldsLive clock client full) (call : EvaluateCall) (result : ρ)
    (hlater : clock ≤ later) :
    HoldsLive later (client.store call result now later) (full.keep call result now) := by
  have hkeep := (h.keep call result now).mono hlater
  have hstore : client.store call result now later = client.keep call result now
      ∨ client.store call result now later = (client.keep call result now).pruneCache later := by
    unfold SdkClient.store SdkClient.keep
    split
    · exact Or.inl rfl
    · exact Or.inr rfl
  rcases hstore with hkept | hpruned
  · rw [hkept]
    exact hkeep
  · rw [hpruned]
    exact hkeep.pruneCache

end Clients

/-! ## Clients in use -/

/-- **Two clients in the same use**, of which the one prunes and the other keeps everything. -/
structure Keeps (s full : SdkUse ρ) : Prop where
  /-- The one holds the live entries of the other. -/
  client : HoldsLive s.clock s.client full.client
  /-- The same calls wait, -/
  waiting : full.waiting = s.waiting
  /-- at the same time, -/
  clock : full.clock = s.clock
  /-- and the same was answered, -/
  given : full.given = s.given
  /-- before and after the cache was cleared, -/
  recent : full.recent = s.recent
  /-- and returned. -/
  returned : full.returned = s.returned

/-- **What a client that prunes holds**: nothing, if nothing is to be stored, and otherwise no
more than the limit, or entries that were live when the last answer came. -/
structure SdkUse.Bounded (s : SdkUse ρ) : Prop where
  /-- A client whose time to live is zero holds nothing. -/
  unused : s.client.cacheTtl = 0 → s.client.cache.items = []
  /-- It holds few entries, or entries that were live. -/
  bounded : s.client.cache.items.length ≤ 10000
    ∨ ∀ last ∈ s.given.getLast?, ∀ item ∈ s.client.cache.items, last.time < item.2.expiresAt

section Steps

variable {s full s' : SdkUse ρ}

/-- A new client is in the same use as a new one that keeps everything. -/
theorem keeps_start (cacheTtlSeconds now : ℚ) :
    Keeps (SdkUse.start cacheTtlSeconds now : SdkUse ρ) (.start cacheTtlSeconds now) :=
  ⟨⟨rfl, fun _ _ h => h, fun _ _ h _ => h⟩, rfl, rfl, rfl, rfl, rfl⟩

/-- **A step of the client that prunes** is one of the client that keeps everything. -/
theorem Keeps.step (h : Keeps s full) {event : SdkEvent ρ} (hstep : s.step event = some s') :
    ∃ full', full.stepKeeping event = some full' ∧ Keeps s' full' := by
  obtain ⟨hclient, hwaiting, hclock, hgiven, hrecent, hreturned⟩ := h
  cases event with
  | evaluate call now =>
    unfold SdkUse.step at hstep
    dsimp only at hstep
    split at hstep
    · cases hstep
    · rename_i hnow
      have hlater := not_lt.mp hnow
      -- both look up the same live entry, or none
      have hcached := hclient.cached_eq call hlater
      show ∃ full', full.step (.evaluate call now) = some full' ∧ _
      unfold SdkUse.step
      dsimp only
      rw [hclock, if_neg hnow, ← hcached]
      split at hstep
      · rename_i result hresult
        cases hstep
        refine ⟨_, rfl, hclient.mono hlater, hwaiting, rfl, hgiven, hrecent, ?_⟩
        exact congrArg (fun returned => returned ++ [⟨call, result, now⟩]) hreturned
      · cases hstep
        refine ⟨_, rfl, hclient.mono hlater, ?_, rfl, hgiven, hrecent, hreturned⟩
        exact congrArg (fun waiting => waiting ++ [call]) hwaiting
  | answer i result now later =>
    unfold SdkUse.step at hstep
    dsimp only at hstep
    split at hstep
    · rename_i call hcall
      split at hstep
      · cases hstep
      · rename_i hnow
        obtain ⟨hnow', hlater⟩ := not_or.mp hnow
        cases hstep
        unfold SdkUse.stepKeeping SdkUse.step
        dsimp only
        rw [hwaiting, hcall, hclock]
        dsimp only
        rw [if_neg hnow, hgiven, hrecent, hreturned]
        exact ⟨_, rfl, hclient.store call result ((not_lt.mp hnow').trans (not_lt.mp hlater)),
          rfl, rfl, rfl, rfl, rfl⟩
    · cases hstep
  | fail i =>
    cases hstep
    exact ⟨_, rfl, hclient, congrArg (fun waiting => waiting.eraseIdx i) hwaiting, hclock, hgiven,
      hrecent, hreturned⟩
  | clearCache =>
    cases hstep
    exact ⟨_, rfl, ⟨hclient.cacheTtl, fun _ _ h => h, fun _ _ h _ => h⟩, hwaiting, hclock, hgiven,
      rfl, hreturned⟩

/-- An answer is stored within the bound. -/
theorem SdkUse.Bounded.answer (h : s.Bounded) (call : EvaluateCall) (result : ρ) {now later : ℚ}
    (hlater : now ≤ later) (waiting : List EvaluateCall) (recent returned : List (Answered ρ)) :
    (⟨s.client.store call result now later, waiting, later, s.given ++ [⟨call, result, now⟩],
      recent, returned⟩ : SdkUse ρ).Bounded := by
  unfold SdkClient.store
  split
  · rename_i hzero
    refine ⟨fun _ => h.unused hzero, Or.inl ?_⟩
    show s.client.cache.items.length ≤ 10000
    rw [h.unused hzero]
    exact Nat.zero_le _
  · rename_i hne
    unfold SdkClient.pruneCache
    dsimp only
    split
    · rename_i hfew
      exact ⟨fun hzero => absurd hzero hne, Or.inl hfew⟩
    · refine ⟨fun hzero => absurd hzero hne, Or.inr (fun last hlast item hitem => ?_)⟩
      rw [List.getLast?_concat] at hlast
      cases hlast
      exact hlater.trans_lt (of_decide_eq_true (List.mem_filter.mp hitem).2)

/-- **A step keeps the bound.** -/
theorem SdkUse.Bounded.step (h : s.Bounded) {event : SdkEvent ρ}
    (hstep : s.step event = some s') : s'.Bounded := by
  cases event with
  | evaluate call now =>
    unfold SdkUse.step at hstep
    dsimp only at hstep
    split at hstep
    · cases hstep
    · split at hstep
      · cases hstep
        exact ⟨h.unused, h.bounded⟩
      · cases hstep
        exact ⟨h.unused, h.bounded⟩
  | answer i result now later =>
    unfold SdkUse.step at hstep
    dsimp only at hstep
    split at hstep
    · rename_i call _
      split at hstep
      · cases hstep
      · rename_i hnow
        cases hstep
        exact h.answer call result (not_lt.mp (not_or.mp hnow).2) _ _ _
    · cases hstep
  | fail i =>
    cases hstep
    exact ⟨h.unused, h.bounded⟩
  | clearCache =>
    cases hstep
    exact ⟨fun _ => rfl, Or.inl (Nat.zero_le _)⟩

end Steps

/-- **Pruning is invisible.** Every run of the client is one of a client that keeps everything:
it returns the same results, the same calls wait for the server, and from then on every call
is answered alike from both caches. Past the limit the client holds only what was live when
the last answer came. -/
theorem pruning_invisible {cacheTtlSeconds : ℚ} {events : List (SdkEvent ρ)} {s : SdkUse ρ}
    (reached : SdkUse.Reached cacheTtlSeconds (fun _ _ => True) events s) :
    ∃ now full, events.foldlM SdkUse.stepKeeping (.start cacheTtlSeconds now) = some full
      ∧ full.returned = s.returned ∧ full.waiting = s.waiting
      ∧ (∀ call later, s.clock ≤ later →
        s.client.cached call later = full.client.cached call later)
      ∧ (s.client.cache.items.length ≤ 10000
        ∨ ∀ last ∈ s.given.getLast?, ∀ item ∈ s.client.cache.items,
          last.time < item.2.expiresAt) := by
  suffices hrun : ∃ now full,
      events.foldlM SdkUse.stepKeeping (.start cacheTtlSeconds now) = some full
        ∧ Keeps s full ∧ s.Bounded by
    obtain ⟨now, full, hrun, hkeeps, hbounded⟩ := hrun
    exact ⟨now, full, hrun, hkeeps.returned, hkeeps.waiting,
      fun call later hlater => hkeeps.client.cached_eq call hlater, hbounded.bounded⟩
  induction reached with
  | start now =>
    exact ⟨now, _, rfl, keeps_start cacheTtlSeconds now, fun _ => rfl, Or.inl (Nat.zero_le _)⟩
  | @step events s s' event before _ stepped ih =>
    obtain ⟨now, full, hrun, hkeeps, hbounded⟩ := ih
    obtain ⟨full', hstep, hkeeps'⟩ := hkeeps.step stepped
    refine ⟨now, full', ?_, hkeeps', hbounded.step stepped⟩
    rw [List.foldlM_append, hrun]
    show (full.stepKeeping event >>= fun s => [].foldlM SdkUse.stepKeeping s) = some full'
    rw [hstep]
    rfl

/-! ## A client that prunes -/

/-- Some calls, one after the other at the second zero. -/
def callAll (calls : List EvaluateCall) : List (SdkEvent String) :=
  calls.map (fun call => .evaluate call 0)

/-- So many answers at the second zero, each to the call that waits first. -/
def answerAll (n : ℕ) : List (SdkEvent String) := List.replicate n (.answer 0 "on" 0 0)

/-- A client that stored the answers to some calls. -/
def filled (calls : List EvaluateCall) : SdkClient String :=
  calls.foldl (fun client call => client.store call "on" 0 0) (.create 30)

/-- What came of some calls. -/
def answeredOn (calls : List EvaluateCall) : List (Answered String) :=
  calls.map (fun call => ⟨call, "on", 0⟩)

section Filled

variable {calls : List EvaluateCall}

/-- The last of some answers. -/
theorem filled_concat (calls : List EvaluateCall) (call : EvaluateCall) :
    filled (calls ++ [call]) = (filled calls).store call "on" 0 0 :=
  List.foldl_append ..

open SdkUse in
/-- All of them wait, since nothing is stored yet. -/
theorem reached_callAll (calls : List EvaluateCall) :
    Reached 30 (fun _ _ => True) (callAll calls) ⟨.create 30, calls, 0, [], [], []⟩ := by
  induction calls using List.reverseRecOn with
  | nil => exact .start 0
  | append_singleton calls call ih =>
    have hcall : Reached 30 (fun _ _ => True) (callAll calls ++ [.evaluate call 0]) _ :=
      ih.step trivial rfl
    unfold callAll at hcall ⊢
    rwa [List.map_append]

open SdkUse in
/-- The first of them are answered. -/
theorem reached_answerAll (calls later : List EvaluateCall) :
    Reached 30 (fun _ _ => True) (callAll (calls ++ later) ++ answerAll calls.length)
      ⟨filled calls, later, 0, answeredOn calls, answeredOn calls, answeredOn calls⟩ := by
  induction calls using List.reverseRecOn generalizing later with
  | nil =>
    show Reached 30 _ (callAll later ++ []) _
    rw [List.append_nil]
    exact reached_callAll later
  | append_singleton calls call ih =>
    have hanswer : Reached 30 (fun _ _ => True)
        (callAll (calls ++ call :: later) ++ answerAll calls.length ++ [.answer 0 "on" 0 0]) _ :=
      (ih (call :: later)).step trivial rfl
    rw [List.append_assoc calls, List.singleton_append, List.length_append, List.length_singleton]
    unfold answerAll at hanswer ⊢
    rw [List.replicate_succ', ← List.append_assoc, filled_concat]
    unfold answeredOn at hanswer ⊢
    rwa [List.map_append]

/-- **Up to the limit an entry of each key is stored.** -/
theorem filled_entries (hnodup : (calls.map EvaluateCall.cacheKey).Nodup)
    (hfew : calls.length ≤ 10000) : (filled calls).cacheTtl = 30
      ∧ (filled calls).cache.keys = calls.map EvaluateCall.cacheKey
      ∧ ∀ item ∈ (filled calls).cache.items, item.2.expiresAt = 30 := by
  induction calls using List.reverseRecOn with
  | nil => exact ⟨max_eq_right (by decide), rfl, fun _ h => absurd h List.not_mem_nil⟩
  | append_singleton calls call ih =>
    rw [List.map_append, List.nodup_append] at hnodup
    rw [List.length_append, List.length_singleton] at hfew
    obtain ⟨httl, hkeys, hitems⟩ := ih hnodup.1 (by omega)
    have hnew : call.cacheKey ∉ (filled calls).cache.keys := by
      rw [hkeys]
      exact fun hmem => hnodup.2.2 _ hmem _ (List.mem_singleton_self _) rfl
    have hlength : (filled calls).cache.items.length = calls.length := by
      rw [← Dict.length_keys, hkeys, List.length_map]
    rw [filled_concat]
    unfold SdkClient.store SdkClient.pruneCache
    rw [if_neg (by rw [httl]; decide), if_pos (by rw [Dict.length_insert_of_notMem hnew]; omega)]
    refine ⟨httl, ?_, fun item hitem => ?_⟩
    · show ((filled calls).cache.insert _ _).keys = _
      rw [Dict.keys_insert, if_neg hnew, hkeys, List.map_append]
      rfl
    · have hitem : item ∈ ((filled calls).cache.insert call.cacheKey
          ⟨0 + (filled calls).cacheTtl, "on"⟩).items := hitem
      rw [Dict.items_insert_of_notMem hnew] at hitem
      rcases List.mem_append.mp hitem with hold | hlast
      · exact hitems item hold
      · rw [List.mem_singleton.mp hlast]
        show 0 + (filled calls).cacheTtl = 30
        rw [httl, zero_add]

/-- **One answer more, when all of them have expired, leaves only its own entry.** -/
theorem length_store_filled {call : EvaluateCall}
    (hnodup : ((calls ++ [call]).map EvaluateCall.cacheKey).Nodup) (hfull : calls.length = 10000) :
    ((filled calls).store call "on" 40 40).cache.items.length = 1 := by
  rw [List.map_append, List.nodup_append] at hnodup
  obtain ⟨httl, hkeys, hitems⟩ := filled_entries hnodup.1 hfull.le
  have hnew : call.cacheKey ∉ (filled calls).cache.keys := by
    rw [hkeys]
    exact fun hmem => hnodup.2.2 _ hmem _ (List.mem_singleton_self _) rfl
  have hlength : (filled calls).cache.items.length = 10000 := by
    rw [← Dict.length_keys, hkeys, List.length_map, hfull]
  unfold SdkClient.store SdkClient.pruneCache
  rw [if_neg (by rw [httl]; decide),
    if_neg (by rw [Dict.length_insert_of_notMem hnew, hlength]; decide)]
  show (((filled calls).cache.insert _ _).items.filter _).length = 1
  have hexpired : (filled calls).cache.items.filter
      (fun item => decide ((40 : ℚ) < item.2.expiresAt)) = [] := by
    refine List.filter_eq_nil_iff.mpr (fun item hitem hlive => ?_)
    rw [hitems item hitem] at hlive
    exact absurd (of_decide_eq_true hlive) (by decide)
  have hlive : (40 : ℚ) < 40 + 30 := by norm_num
  rw [Dict.items_insert_of_notMem hnew, List.filter_append, hexpired, List.nil_append, httl]
  simp [hlive]

open SdkUse in
/-- **The client prunes** at the last of ten thousand and one answers. -/
theorem reached_pruning {call : EvaluateCall} (hfull : calls.length = 10000) : ∃ s,
    Reached 30 (fun _ _ => True) (callAll (calls ++ [call]) ++ answerAll calls.length
      ++ [.answer 0 "on" 40 40]) s
    ∧ s.returned.length = 10001
    ∧ (((calls ++ [call]).map EvaluateCall.cacheKey).Nodup →
      s.client.cache.items.length = 1) := by
  have hreached : Reached 30 (fun _ _ => True)
      (callAll (calls ++ [call]) ++ answerAll calls.length ++ [.answer 0 "on" 40 40]) _ :=
    (reached_answerAll calls [call]).step trivial rfl
  refine ⟨_, hreached, ?_, fun hnodup => length_store_filled hnodup hfull⟩
  rw [List.length_append, List.length_singleton]
  unfold answeredOn
  rw [List.length_map, hfull]

end Filled

/-- A call for one of many subjects. -/
def subjectCall (i : ℕ) : EvaluateCall := bareCall "banner" (toString (Int.ofNat i))

/-- Their texts differ. -/
theorem cacheText_subjectCall_injective :
    Function.Injective (fun i => (subjectCall i).cacheText) := by
  intro i j h
  have hkeys : ("banner" ++ "\x00" ++ toString (Int.ofNat i)).toList
      = ("banner" ++ "\x00" ++ toString (Int.ofNat j)).toList :=
    congrArg String.toList (SdkUse.cacheText_eq_iff.mp h).1
  rw [String.toList_append, String.toList_append (s := "banner" ++ "\x00")] at hkeys
  have hsubject := String.toList_inj.mp (List.append_cancel_left hkeys)
  exact Int.ofNat.inj (toString_int_injective hsubject)

/-- Ten thousand subjects. -/
def crowdedCalls : List EvaluateCall := (List.range 10000).map subjectCall

theorem length_crowdedCalls : crowdedCalls.length = 10000 := by
  unfold crowdedCalls
  rw [List.length_map, List.length_range]

/-- They and one more are asked for; the last answer comes when the others have expired. -/
def crowdedUse : List (SdkEvent String) :=
  callAll (crowdedCalls ++ [subjectCall 10000]) ++ answerAll crowdedCalls.length
    ++ [.answer 0 "on" 40 40]

theorem askedCalls_crowdedUse :
    SdkUse.askedCalls crowdedUse = crowdedCalls ++ [subjectCall 10000] := by
  unfold SdkUse.askedCalls crowdedUse callAll answerAll
  rw [List.filterMap_append, List.filterMap_append, List.filterMap_replicate_of_none rfl,
    List.filterMap_map]
  exact (List.append_nil _).trans ((List.append_nil _).trans List.filterMap_some)

theorem nodup_crowdedCalls (hsha : SdkUse.CollisionFree (crowdedCalls ++ [subjectCall 10000])) :
    ((crowdedCalls ++ [subjectCall 10000]).map EvaluateCall.cacheKey).Nodup := by
  have hcalls : crowdedCalls ++ [subjectCall 10000] = (List.range (10000 + 1)).map subjectCall := by
    unfold crowdedCalls
    rw [@List.range_succ 10000, List.map_append, List.map_singleton]
  rw [hcalls] at hsha ⊢
  have hinjective : Function.Injective subjectCall := fun i j h =>
    cacheText_subjectCall_injective (congrArg EvaluateCall.cacheText h)
  refine (List.nodup_range.map hinjective).map_on (fun call hcall other hother hkey => ?_)
  have htext := hsha call hcall other hother hkey
  obtain ⟨i, -, rfl⟩ := List.mem_map.mp hcall
  obtain ⟨j, -, rfl⟩ := List.mem_map.mp hother
  rw [cacheText_subjectCall_injective htext]

open SdkUse in
/-- Where SHA-256 tells the subjects apart, the client drops all entries but the last. -/
theorem pruning_invisible_sample : ∃ s now full,
    Reached 30 (fun _ _ => True) crowdedUse s
    ∧ crowdedUse.foldlM stepKeeping (start 30 now) = some full
    ∧ s.returned.length = 10001 ∧ full.returned = s.returned
    ∧ (CollisionFree (askedCalls crowdedUse) → s.client.cache.items.length = 1) := by
  obtain ⟨s, hreached, hreturned, hpruned⟩ :=
    @reached_pruning crowdedCalls (subjectCall 10000) length_crowdedCalls
  obtain ⟨now, full, hrun, hsame, -⟩ := pruning_invisible hreached
  refine ⟨s, now, full, hreached, hrun, hreturned, hsame, fun hsha => hpruned ?_⟩
  rw [askedCalls_crowdedUse] at hsha
  exact nodup_crowdedCalls hsha

end CohortSwitch
