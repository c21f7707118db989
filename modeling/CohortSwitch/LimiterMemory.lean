import CohortSwitch.LocalLimiter

/-!
# The memory of the local limiter

The counts of the local limiter are to stay near twenty thousand. They are
pruned at the end of a call that finds the entry of its key and counts up. A
call that opens a window returns before that, so the entries of keys that are
seen once are never dropped: there are as many as such keys
(`keys_newcomers`).

`limiter_memory_iff` says which calls keep the bound. Once entries were dropped
the table no longer grows at all, as it is then a plain dictionary.

The condition is one on the call and on the entries before it (`KeepsBound`), so the
statement about sequences is the one about a single call
(`LocalLimiter.entries_serve_le_iff`), repeated while it has held so far. It
follows the exits of a call: a key that has an entry adds none, a plain dictionary
raises on a new key, and a new key adds one. In the last case there is one way to
the pruning, by the window zero, which the default entry of a new key belongs to; the
pruning then has to drop something, and it drops entries of older windows only
(`entries_counted_le_iff`).
-/

namespace CohortSwitch

/-- **A call of `_local_allowed`**: its arguments. -/
structure LimiterCall where
  /-- Which counter is asked for. -/
  key : String
  /-- How many calls a window lets through. -/
  limit : ℕ
  /-- The number of the window. -/
  window : ℤ

namespace LocalLimiter

/-- `len(self._local)`. -/
def entries (self : LocalLimiter) : ℕ := self.counts.items.length

/-- The limiter after a call. -/
def serve (self : LocalLimiter) (call : LimiterCall) : LocalLimiter :=
  (self.localAllowed call.key call.limit call.window).2

/-- The limiter of a new process after some calls. -/
def served (calls : List LimiterCall) : LocalLimiter := calls.foldl serve fresh

/-- The last of some calls. -/
theorem served_concat (calls : List LimiterCall) (call : LimiterCall) :
    served (calls ++ [call]) = (served calls).serve call :=
  List.foldl_append ..

/-- **A call keeps the bound** when its key has an entry, when there is room for
another, or when entries were dropped before and none is added. A new key of the
window zero does not open a window, as that is the default one, and may drop
an entry of an older window. -/
def KeepsBound (self : LocalLimiter) (call : LimiterCall) : Prop :=
  call.key ∈ self.counts.keys ∨ self.entries ≤ 20000 ∨ self.defaulting = false
    ∨ call.window = 0 ∧ 0 < call.limit ∧ ∃ item ∈ self.counts.items, item.2.1 < -1

end LocalLimiter

/-- **The memory is bounded**: after no call are there more than 20,001 entries. -/
def MemoryBounded : List LimiterCall → Prop :=
  AtEach (fun before call => (LocalLimiter.served (before ++ [call])).entries ≤ 20001)

/-! ## One call -/

section Call

variable {self : LocalLimiter} {call : LimiterCall}

/-- The entries at the end of a call that counts up, after the pruning. -/
theorem entries_counted_le {counted : Dict (ℤ × ℕ)} {window : ℤ} {defaulting : Bool} :
    (if 20000 < counted.items.length then
        ((.ok true : Except PyError Bool),
          (⟨counted.filterValues (fun value => window - 1 ≤ value.1), false⟩ : LocalLimiter))
      else (.ok true, ⟨counted, defaulting⟩)).2.entries ≤ counted.items.length := by
  split
  · exact Dict.length_filterValues_le _ _
  · exact le_rfl

/-- With one entry too many the pruning has to drop one. -/
theorem entries_counted_le_iff {counted : Dict (ℤ × ℕ)} {window : ℤ} {defaulting : Bool}
    (h : counted.items.length ≤ 20002) :
    (if 20000 < counted.items.length then
        ((.ok true : Except PyError Bool),
          (⟨counted.filterValues (fun value => window - 1 ≤ value.1), false⟩ : LocalLimiter))
      else (.ok true, ⟨counted, defaulting⟩)).2.entries ≤ 20001
      ↔ counted.items.length ≤ 20001 ∨ ∃ item ∈ counted.items, item.2.1 < window - 1 := by
  have hle := @entries_counted_le counted window defaulting
  by_cases hroom : counted.items.length ≤ 20001
  · exact iff_of_true (hle.trans hroom) (Or.inl hroom)
  · rw [or_iff_right hroom, if_pos (by omega)]
    show (counted.filterValues (fun value => window - 1 ≤ value.1)).items.length ≤ 20001 ↔ _
    have hdropped := List.length_filter_lt_length_iff_exists
      (p := fun item : String × (ℤ × ℕ) => decide (window - 1 ≤ item.2.1)) (l := counted.items)
    simp only [decide_eq_true_eq, not_le] at hdropped
    rw [← hdropped, show counted.items.length = 20001 + 1 by omega, Nat.lt_succ_iff]
    rfl

/-- A key that has an entry adds none. -/
theorem LocalLimiter.entries_serve_of_mem (hmem : call.key ∈ self.counts.keys) :
    (self.serve call).entries ≤ self.entries := by
  obtain ⟨entry, hget⟩ := Dict.mem_keys_iff.mp hmem
  have hlength : ∀ value, (self.counts.insert call.key value).items.length = self.entries :=
    fun value => Dict.length_insert_of_mem hmem
  have hagain : ∀ value value', ((self.counts.insert call.key value).insert call.key
      value').items.length = self.entries := fun value value' => by rw [Dict.insert_insert, hlength]
  unfold serve localAllowed
  rw [hget]
  dsimp only [Option.getD_some]
  by_cases hwindow : entry.1 ≠ call.window
  · rw [if_pos hwindow]
    exact (hagain _ _).le
  · rw [if_neg hwindow]
    by_cases hfull : call.limit ≤ entry.2
    · rw [if_pos hfull]
      exact (hlength _).le
    · rw [if_neg hfull]
      exact entries_counted_le.trans (hagain _ _).le

/-- A plain dictionary raises on a new key. -/
theorem LocalLimiter.serve_of_plain (hnew : call.key ∉ self.counts.keys)
    (hplain : self.defaulting = false) : self.serve call = self := by
  unfold serve localAllowed
  rw [Dict.get?_eq_none_iff.mpr hnew, hplain]

/-- **A new key adds an entry**, and only one of the window zero gets as far as the
pruning. -/
theorem LocalLimiter.entries_serve_of_new (hnew : call.key ∉ self.counts.keys)
    (hdefault : self.defaulting = true) (h : self.entries ≤ 20001) :
    (self.serve call).entries ≤ 20001 ↔ self.entries ≤ 20000
      ∨ call.window = 0 ∧ 0 < call.limit ∧ ∃ item ∈ self.counts.items, item.2.1 < -1 := by
  have hitems : ∀ value, (self.counts.insert call.key value).items
      = self.counts.items ++ [(call.key, value)] := fun value => Dict.items_insert_of_notMem hnew
  have hlength : ∀ value, (self.counts.insert call.key value).items.length = self.entries + 1 :=
    fun value => Dict.length_insert_of_notMem hnew
  unfold serve localAllowed
  rw [Dict.get?_eq_none_iff.mpr hnew, hdefault]
  dsimp only [Option.getD_none]
  by_cases hwindow : (0 : ℤ) = call.window
  · rw [if_neg (not_not_intro hwindow), ← hwindow]
    by_cases hfull : call.limit ≤ 0
    · rw [if_pos hfull]
      show (self.counts.insert call.key (0, 0)).items.length ≤ 20001 ↔ _
      rw [hlength, or_iff_left (fun hand => absurd hand.2.1 (by omega))]
      omega
    · have hagain : ((self.counts.insert call.key (0, 0)).insert call.key (0, 0 + 1)).items
          = self.counts.items ++ [(call.key, (0, 0 + 1))] := by rw [Dict.insert_insert, hitems]
      have hcount : ((self.counts.insert call.key (0, 0)).insert call.key (0, 0 + 1)).items.length
          = self.entries + 1 := by rw [Dict.insert_insert, hlength]
      have hroom : ((self.counts.insert call.key (0, 0)).insert call.key (0, 0 + 1)).items.length
          ≤ 20002 := hcount.trans_le (Nat.add_le_add_right h 1)
      rw [if_neg hfull, entries_counted_le_iff hroom, hcount, hagain]
      refine or_congr Nat.succ_le_succ_iff ?_
      rw [and_iff_right rfl, and_iff_right (by omega)]
      simp only [List.mem_append, List.mem_singleton, or_and_right, exists_or]
      refine or_iff_left ?_
      rintro ⟨item, rfl, hlt⟩
      exact absurd hlt (by show ¬ (0 : ℤ) < 0 - 1; decide)
  · rw [if_pos hwindow]
    show ((self.counts.insert call.key (0, 0)).insert call.key
      (call.window, 1)).items.length ≤ 20001 ↔ _
    rw [Dict.insert_insert, hlength, or_iff_left (fun hand => hwindow hand.1.symm)]
    omega

/-- **One call keeps the bound, exactly under its condition.** -/
theorem LocalLimiter.entries_serve_le_iff (h : self.entries ≤ 20001) :
    (self.serve call).entries ≤ 20001 ↔ self.KeepsBound call := by
  unfold KeepsBound
  by_cases hmem : call.key ∈ self.counts.keys
  · exact iff_of_true ((entries_serve_of_mem hmem).trans h) (Or.inl hmem)
  · rw [or_iff_right hmem]
    cases hdefault : self.defaulting with
    | false =>
      rw [serve_of_plain hmem hdefault]
      exact iff_of_true h (Or.inr (Or.inl rfl))
    | true =>
      rw [entries_serve_of_new hmem hdefault h]
      simp

end Call

/-! ## Sequences of calls -/

/-- Two statements that agree while the first has held so far. -/
theorem atEach_congr {α : Type} {P Q : List α → α → Prop}
    (h : ∀ before x, AtEach P before → (P before x ↔ Q before x)) (xs : List α) :
    AtEach P xs ↔ AtEach Q xs := by
  induction xs using List.reverseRecOn with
  | nil => exact iff_of_true atEach_nil atEach_nil
  | append_singleton xs x ih =>
    rw [atEach_concat, atEach_concat, ← ih]
    exact and_congr_right (fun hxs => h xs x hxs)

/-- The bound holds at the end. -/
theorem MemoryBounded.entries_le {calls : List LimiterCall} (h : MemoryBounded calls) :
    (LocalLimiter.served calls).entries ≤ 20001 := by
  induction calls using List.reverseRecOn with
  | nil => exact Nat.zero_le _
  | append_singleton calls call _ => exact (atEach_concat.mp h).2

/-- **The memory of the local limiter is bounded, exactly while each call keeps the
bound**: no new key is asked for at 20,001 entries before entries were dropped. -/
theorem limiter_memory_iff (calls : List LimiterCall) : MemoryBounded calls
    ↔ AtEach (fun before call => (LocalLimiter.served before).KeepsBound call) calls := by
  refine atEach_congr (fun before call hbefore => ?_) calls
  rw [LocalLimiter.served_concat]
  exact LocalLimiter.entries_serve_le_iff (MemoryBounded.entries_le hbefore)

/-! ## Keys that are seen once -/

/-- **Every key that is seen once stays**, in whatever window but zero, however many
there are. -/
theorem keys_newcomers {calls : List LimiterCall} (hnodup : (calls.map LimiterCall.key).Nodup)
    (hwindows : ∀ call ∈ calls, call.window ≠ 0) :
    (LocalLimiter.served calls).counts.keys = calls.map LimiterCall.key
      ∧ (LocalLimiter.served calls).defaulting = true := by
  induction calls using List.reverseRecOn with
  | nil => exact ⟨rfl, rfl⟩
  | append_singleton calls call ih =>
    rw [List.map_append, List.nodup_append] at hnodup
    obtain ⟨hkeys, hdefault⟩ := ih hnodup.1 (fun earlier hearlier =>
      hwindows earlier (List.mem_append_left _ hearlier))
    have hnew : call.key ∉ (LocalLimiter.served calls).counts.keys := by
      rw [hkeys]
      exact fun hmem => hnodup.2.2 _ hmem _ (List.mem_singleton_self _) rfl
    have hwindow : (0 : ℤ) ≠ call.window :=
      (hwindows call (List.mem_append_right _ (List.mem_singleton_self _))).symm
    rw [LocalLimiter.served_concat, List.map_append, ← hkeys]
    unfold LocalLimiter.serve LocalLimiter.localAllowed
    rw [Dict.get?_eq_none_iff.mpr hnew, hdefault]
    dsimp only [Option.getD_none]
    rw [if_pos hwindow]
    refine ⟨?_, rfl⟩
    show (((LocalLimiter.served calls).counts.insert call.key (0, 0)).insert call.key
      (call.window, 1)).keys = _
    rw [Dict.insert_insert, Dict.keys_insert, if_neg hnew]
    rfl

/-- A first request of each of many keys. -/
def newcomer (i : ℕ) : LimiterCall := ⟨(nthCall i).key, 60, 1⟩

/-- **Twenty thousand and two clients that ask once** are all remembered. -/
theorem limiter_memory_exceeded : ¬ ∀ (limit : ℕ) (calls : List LimiterCall),
    (∀ call ∈ calls, call.limit = limit) →
    (calls.map LimiterCall.window).Pairwise (· ≤ ·) → MemoryBounded calls := by
  intro h
  have hkeys : ((List.range 20002).map newcomer).map LimiterCall.key
      = ((List.range 20002).map nthCall).map LocalCall.key := by
    rw [List.map_map, List.map_map]
    rfl
  have hwindow : ∀ call ∈ (List.range 20002).map newcomer, call.limit = 60 ∧ call.window = 1 := by
    intro call hcall
    obtain ⟨i, -, rfl⟩ := List.mem_map.mp hcall
    exact ⟨rfl, rfl⟩
  have hbounded := h 60 _ (fun call hcall => (hwindow call hcall).1) (by
    rw [List.pairwise_map]
    refine List.pairwise_of_forall_mem_list (fun call hcall other hother => ?_)
    rw [(hwindow call hcall).2, (hwindow other hother).2])
  have hnodup : (((List.range 20002).map newcomer).map LimiterCall.key).Nodup := by
    rw [hkeys]
    exact nodup_nthCalls 20002
  have hstays := (keys_newcomers hnodup (fun call hcall => by
    rw [(hwindow call hcall).2]
    decide)).1
  have hle := hbounded.entries_le
  unfold LocalLimiter.entries at hle
  rw [← Dict.length_keys, hstays, List.length_map, List.length_map, List.length_range] at hle
  omega

end CohortSwitch
