import Mathlib.Data.List.Dedup
import CohortSwitch.Dictionaries
import CohortSwitch.Texts

/-!
# The local rate limiter

While Redis is not reachable every process counts requests on its own. The
counts are a `defaultdict`, one entry for each key, and a key ends in the window
it counts. Once there are more than twenty thousand entries the ones of old
windows are dropped; what is left is a plain dictionary, which has no default
for a key it has not seen.

`Counted` is what holds of the counts after any calls whose windows do not
decrease: no key is ever admitted more often than its limit, whatever was
dropped. `localLimiter_exact_iff` says when the limiter counts exactly: as long
as no new key is asked for after the entries were dropped.

## Why dropping forgets nothing

A key determines its window, so an entry of an old window is one of a key that is not
asked for again while windows do not decrease. `Counted` therefore speaks of keys without
an entry in two ways: either none of their calls was let through, or their window is over.
Dropping entries moves keys from the one side to the other.

## When entries are dropped

Whether a call drops entries depends on the table it finds, and that is a matter of the
calls before it: until the first time, the table has an entry for each key that was asked
for (`CountedExactly.keys`). So `Pruned` can be said of the calls alone, and so can the
condition of the theorem. A call that opens a window returns before the pruning, which is
why a table may grow past its bound as long as every key is asked for once.

A call of the window zero is an exception to that: zero is the window of the default, so
it finds its key when it is new.
-/

namespace CohortSwitch

/-! ## The limiter -/

/-- The key of a window: whatever is counted, then the window. -/
def windowKey (stem : String) (window : ℤ) : String := stem ++ ":" ++ toString window

/-- **The state of the limiter**: the window and the count of each key, and whether
the dictionary still has a default. -/
structure LocalLimiter where
  /-- The window and the count of each key. -/
  counts : Dict (ℤ × ℕ)
  /-- Whether a new key gets an entry. -/
  defaulting : Bool

namespace LocalLimiter

/-- The limiter of a new process. -/
def fresh : LocalLimiter := ⟨.empty, true⟩

/-- `_local_allowed`, which holds a lock throughout. -/
def localAllowed (self : LocalLimiter) (key : String) (limit : ℕ) (window : ℤ) :
    Except PyError Bool × LocalLimiter :=
  match self.counts.get? key, self.defaulting with
  | none, false => (.error (.keyError key), self)
  | found, _ =>
    let entry := found.getD (0, 0)
    -- a `defaultdict` stores the default it returns
    let looked := self.counts.insert key entry
    if entry.1 ≠ window then (.ok true, ⟨looked.insert key (window, 1), self.defaulting⟩)
    else if limit ≤ entry.2 then (.ok false, ⟨looked, self.defaulting⟩)
    else
      let counted := looked.insert key (window, entry.2 + 1)
      if 20000 < counted.items.length then
        (.ok true, ⟨counted.filterValues (fun value => window - 1 ≤ value.1), false⟩)
      else (.ok true, ⟨counted, self.defaulting⟩)

end LocalLimiter

/-- **A call of the limiter**, by the key it counts and the window at its end. -/
structure LocalCall where
  stem : String
  window : ℤ

/-- The key a call counts. -/
def LocalCall.key (call : LocalCall) : String := windowKey call.stem call.window

/-- The limiter is asked. -/
def LocalLimiter.ask (limit : String → ℕ) (self : LocalLimiter) (call : LocalCall) :
    Except PyError Bool × LocalLimiter :=
  self.localAllowed call.key (limit call.key) call.window

/-! ## The window of a key -/

/-- **A key determines its window**: it stands after the last colon. -/
theorem windowKey_inj {stem stem' : String} {window window' : ℤ}
    (h : windowKey stem window = windowKey stem' window') : stem = stem' ∧ window = window' := by
  have hcolon : ∀ i : ℤ, ':' ∉ (toString i).toList := fun i hm => by
    rcases mem_toString_int hm with heq | hdigit
    · revert heq
      decide
    · revert hdigit
      decide
  have hlist := congrArg String.toList h
  unfold windowKey at hlist
  simp only [String.toList_append, List.append_assoc] at hlist
  obtain ⟨hstem, hwindow⟩ := eq_of_append_cons (a := ':') hlist (hcolon _) (hcolon _)
  exact ⟨String.toList_inj.mp hstem, toString_int_injective (String.toList_inj.mp hwindow)⟩

/-! ## What is counted -/

/-- What was asked, and what the limiter answered. -/
abbrev Asked := LocalCall × Except PyError Bool

/-- The request of a call is let through. -/
def admits : Except PyError Bool → Bool
  | .ok allowed => allowed
  | .error _ => false

/-- How often a key was let through. -/
def admitted (history : List Asked) (key : String) : ℕ :=
  history.countP (fun asked => asked.1.key = key ∧ admits asked.2 = true)

/-- What is let through of two histories. -/
theorem admitted_append (history history' : List Asked) (key : String) :
    admitted (history ++ history') key = admitted history key + admitted history' key :=
  List.countP_append

/-- A call counts for its own key only. -/
theorem admitted_singleton (call : LocalCall) (answer : Except PyError Bool) (key : String) :
    admitted [(call, answer)] key = if key = call.key ∧ admits answer = true then 1 else 0 := by
  unfold admitted
  rw [List.countP_singleton]
  simp only [decide_eq_true_eq, eq_comm (a := key)]

/-- **The counts are those of the calls that were let through.** An entry counts the
calls of its key, which are within the limit. Of a key without an entry no call
was let through, or its window is over. -/
structure Counted (limit : String → ℕ) (history : List Asked) (counts : Dict (ℤ × ℕ)) :
    Prop where
  entry : ∀ key window count, counts.get? key = some (window, count) →
    (∃ stem, key = windowKey stem window) ∧ admitted history key = count ∧ 1 ≤ count
      ∧ count ≤ limit key
  absent : ∀ key, counts.get? key = none → admitted history key = 0
    ∨ admitted history key ≤ limit key ∧ ∃ stem window, key = windowKey stem window
      ∧ ∃ asked ∈ history, window + 1 < asked.1.window

/-- Nothing has been counted yet. -/
theorem counted_fresh (limit : String → ℕ) : Counted limit [] Dict.empty :=
  ⟨fun _ _ _ h => (by cases h), fun _ _ => Or.inl rfl⟩

section Counted

variable {limit : String → ℕ} {history : List Asked} {counts counts' : Dict (ℤ × ℕ)}
  {call : LocalCall} {answer : Except PyError Bool}

/-- **No key is let through more often than its limit.** -/
theorem Counted.le (h : Counted limit history counts) (key : String) :
    admitted history key ≤ limit key := by
  cases hget : counts.get? key with
  | none => exact (h.absent key hget).elim (fun hzero => by omega) And.left
  | some entry =>
    obtain ⟨-, hcount, -, hle⟩ := h.entry key entry.1 entry.2 hget
    exact hcount.trans_le hle

/-- Of a key whose window is not over, no call was let through unless there is an
entry. -/
theorem Counted.zero (h : Counted limit history counts) (hget : counts.get? call.key = none)
    (hwindows : ∀ asked ∈ history, asked.1.window ≤ call.window) :
    admitted history call.key = 0 := by
  refine (h.absent _ hget).resolve_right ?_
  rintro ⟨-, stem, window, hkey, asked, hasked, hlt⟩
  have hwindow := (windowKey_inj hkey).2
  have hle := hwindows asked hasked
  omega

/-- The entry of a call is of its window. -/
theorem Counted.window (h : Counted limit history counts) {window : ℤ} {count : ℕ}
    (hget : counts.get? call.key = some (window, count)) : window = call.window := by
  obtain ⟨⟨stem, hkey⟩, -⟩ := h.entry _ _ _ hget
  exact ((windowKey_inj hkey).2).symm

/-- A call that is not let through changes no count. -/
theorem Counted.refuse (h : Counted limit history counts) (hanswer : admits answer = false)
    (hcounts : ∀ key, counts'.get? key = counts.get? key) :
    Counted limit (history ++ [(call, answer)]) counts' := by
  have hsame : ∀ key, admitted (history ++ [(call, answer)]) key = admitted history key := by
    intro key
    rw [admitted_append, admitted_singleton, hanswer, if_neg (fun hand => (by cases hand.2)),
      Nat.add_zero]
  constructor
  · intro key window count hget
    rw [hsame]
    exact h.entry key window count (hcounts key ▸ hget)
  · intro key hget
    rw [hsame]
    refine (h.absent key (hcounts key ▸ hget)).imp id (And.imp_right ?_)
    rintro ⟨stem, window, hkey, asked, hasked, hlt⟩
    exact ⟨stem, window, hkey, asked, List.mem_append_left _ hasked, hlt⟩

/-- **A call that is let through counts one more.** -/
theorem Counted.admit (h : Counted limit history counts)
    (hlt : admitted history call.key < limit call.key)
    (hcounts : ∀ key, counts'.get? key = if key = call.key
      then some (call.window, admitted history call.key + 1) else counts.get? key) :
    Counted limit (history ++ [(call, .ok true)]) counts' := by
  have hself : admitted (history ++ [(call, .ok true)]) call.key
      = admitted history call.key + 1 := by
    rw [admitted_append, admitted_singleton, if_pos ⟨rfl, rfl⟩]
  have hother : ∀ key, key ≠ call.key →
      admitted (history ++ [(call, .ok true)]) key = admitted history key := by
    intro key hne
    rw [admitted_append, admitted_singleton, if_neg (fun hand => hne hand.1), Nat.add_zero]
  constructor
  · intro key window count hget
    rw [hcounts] at hget
    by_cases hkey : key = call.key
    · rw [if_pos hkey] at hget
      cases hget
      subst hkey
      exact ⟨⟨call.stem, rfl⟩, hself, Nat.le_add_left 1 _, hlt⟩
    · rw [if_neg hkey] at hget
      rw [hother key hkey]
      exact h.entry key window count hget
  · intro key hget
    rw [hcounts] at hget
    by_cases hkey : key = call.key
    · rw [if_pos hkey] at hget
      cases hget
    · rw [if_neg hkey] at hget
      rw [hother key hkey]
      refine (h.absent key hget).imp id (And.imp_right ?_)
      rintro ⟨stem, window, hstem, asked, hasked, hover⟩
      exact ⟨stem, window, hstem, asked, List.mem_append_left _ hasked, hover⟩

/-- **Dropping the entries of old windows** forgets only windows that are over. -/
theorem Counted.prune (h : Counted limit history counts) {asked : Asked}
    (hasked : asked ∈ history) :
    Counted limit history (counts.filterValues (fun value => asked.1.window - 1 ≤ value.1)) := by
  constructor
  · intro key window count hget
    rw [Dict.get?_filterValues, Option.filter_eq_some_iff] at hget
    exact h.entry key window count hget.1
  · intro key hget
    rw [Dict.get?_filterValues] at hget
    cases hfound : counts.get? key with
    | none => exact h.absent key hfound
    | some entry =>
      obtain ⟨window, count⟩ := entry
      obtain ⟨⟨stem, hkey⟩, -⟩ := h.entry key window count hfound
      rw [hfound, Option.filter_eq_none_iff] at hget
      have hold := hget (window, count) rfl
      have hover : ¬ asked.1.window - 1 ≤ window := by simpa using hold
      exact Or.inr ⟨h.le key, stem, window, hkey, asked, hasked, by omega⟩

end Counted

/-! ## One call -/

section Call

variable {limit : String → ℕ} {history : List Asked} {self : LocalLimiter} {call : LocalCall}

/-- What an assignment to a key that was just looked up leaves to be found. -/
theorem get?_insert_insert (counts : Dict (ℤ × ℕ)) (key other : String) (entry value : ℤ × ℕ) :
    ((counts.insert key entry).insert key value).get? other
      = if other = key then some value else counts.get? other := by
  rw [Dict.get?_insert, Dict.get?_insert]
  by_cases hother : other = key
  · rw [if_pos hother, if_pos hother]
  · rw [if_neg hother, if_neg hother, if_neg hother]

/-- The end of a call that is let through: too many entries are pruned. -/
theorem counted_cases {counted : Dict (ℤ × ℕ)} {window : ℤ} {defaulting : Bool}
    {reached : Prop} [Decidable reached] {look : String → Option (ℤ × ℕ)}
    (hcounts : ∀ key, counted.get? key = look key) (hreached : reached) :
    (if 20000 < counted.items.length then
        ((.ok true : Except PyError Bool),
          (⟨counted.filterValues (fun value => window - 1 ≤ value.1), false⟩ : LocalLimiter))
      else (.ok true, ⟨counted, defaulting⟩)).1 = .ok true
    ∧ ∃ counted' : Dict (ℤ × ℕ), (∀ key, counted'.get? key = look key)
      ∧ (if 20000 < counted.items.length then
        ((.ok true : Except PyError Bool),
          (⟨counted.filterValues (fun value => window - 1 ≤ value.1), false⟩ : LocalLimiter))
      else (.ok true, ⟨counted, defaulting⟩)).2
        = if reached ∧ 20000 < counted'.items.length then
            ⟨counted'.filterValues (fun value => window - 1 ≤ value.1), false⟩
          else ⟨counted', defaulting⟩ := by
  by_cases hlong : 20000 < counted.items.length
  · rw [if_pos hlong]
    exact ⟨rfl, counted, hcounts, (if_pos ⟨hreached, hlong⟩).symm⟩
  · rw [if_neg hlong]
    exact ⟨rfl, counted, hcounts, (if_neg (fun hand => hlong hand.2)).symm⟩

/-- **What a call of the limiter does.** A plain dictionary without the key raises;
else the call is let through while fewer than the limit were. -/
theorem LocalLimiter.ask_cases (h : Counted limit history self.counts)
    (hwindows : ∀ asked ∈ history, asked.1.window ≤ call.window) (hlimit : 1 ≤ limit call.key) :
    (self.counts.get? call.key = none ∧ self.defaulting = false
        ∧ self.ask limit call = (.error (.keyError call.key), self))
      ∨ (self.counts.get? call.key ≠ none ∨ self.defaulting = true)
        ∧ (limit call.key ≤ admitted history call.key ∧ (self.ask limit call).1 = .ok false
            ∧ (self.ask limit call).2.defaulting = self.defaulting
            ∧ (∀ key, (self.ask limit call).2.counts.get? key = self.counts.get? key)
          ∨ admitted history call.key < limit call.key ∧ (self.ask limit call).1 = .ok true
            ∧ ∃ counted : Dict (ℤ × ℕ),
              (∀ key, counted.get? key = if key = call.key
                then some (call.window, admitted history call.key + 1)
                else self.counts.get? key)
              ∧ (self.ask limit call).2 = if (call.window = 0 ∨ self.counts.get? call.key ≠ none)
                  ∧ 20000 < counted.items.length then
                ⟨counted.filterValues (fun value => call.window - 1 ≤ value.1), false⟩
              else ⟨counted, self.defaulting⟩) := by
  unfold LocalLimiter.ask LocalLimiter.localAllowed
  cases hget : self.counts.get? call.key with
  | none =>
    -- no entry: nothing was admitted in this window
    have hzero := h.zero hget hwindows
    cases hdefault : self.defaulting with
    | false => exact Or.inl ⟨rfl, rfl, rfl⟩
    | true =>
      refine Or.inr ⟨Or.inr rfl, Or.inr ⟨hzero ▸ hlimit, ?_⟩⟩
      rw [hzero]
      dsimp only [Option.getD_none]
      -- the default entry is of the window zero, so only there the call goes on to count
      by_cases hwindow : (0 : ℤ) = call.window
      · rw [if_neg (not_not_intro hwindow), if_neg (Nat.not_le_of_lt hlimit)]
        exact counted_cases (fun key => get?_insert_insert _ _ _ _ _) (Or.inl hwindow.symm)
      · rw [if_pos hwindow]
        refine ⟨rfl, _, fun key => get?_insert_insert self.counts call.key key (0, 0) _, ?_⟩
        refine (if_neg (fun hand => ?_)).symm
        exact hand.1.elim (fun hzero => hwindow hzero.symm) (fun hnone => hnone rfl)
  | some entry =>
    obtain ⟨window, count⟩ := entry
    obtain rfl := h.window hget
    obtain ⟨-, hcount, -, -⟩ := h.entry _ _ _ hget
    refine Or.inr ⟨Or.inl (Option.some_ne_none _), ?_⟩
    rw [hcount]
    dsimp only [Option.getD_some]
    rw [if_neg (not_not_intro rfl)]
    by_cases hfull : limit call.key ≤ count
    · rw [if_pos hfull]
      refine Or.inl ⟨hfull, rfl, rfl, fun key => ?_⟩
      rw [Dict.get?_insert]
      by_cases hkey : key = call.key
      · rw [if_pos hkey, hkey, hget]
      · rw [if_neg hkey]
    · rw [if_neg hfull]
      exact Or.inr ⟨not_le.mp hfull, counted_cases (fun key => get?_insert_insert _ _ _ _ _)
        (Or.inr (Option.some_ne_none _))⟩

/-- **The counts stay those of the calls that were let through.** -/
theorem Counted.ask (h : Counted limit history self.counts)
    (hwindows : ∀ asked ∈ history, asked.1.window ≤ call.window) (hlimit : 1 ≤ limit call.key) :
    Counted limit (history ++ [(call, (self.ask limit call).1)])
      (self.ask limit call).2.counts := by
  rcases LocalLimiter.ask_cases h hwindows hlimit with ⟨-, -, hraises⟩
    | ⟨-, ⟨-, hfalse, -, hcounts⟩ | ⟨hlt, htrue, counted, hcounts, hafter⟩⟩
  · rw [hraises]
    exact h.refuse rfl (fun _ => rfl)
  · rw [hfalse]
    exact h.refuse rfl hcounts
  · rw [htrue, hafter]
    have hadmitted := h.admit hlt hcounts
    split
    · exact hadmitted.prune (List.mem_append_right _ (List.mem_singleton_self _))
    · exact hadmitted

end Call

/-! ## Sequences of calls -/

/-- **At each element of a list, a statement about what comes before it.** -/
def AtEach {α : Type} (P : List α → α → Prop) (xs : List α) : Prop :=
  ∀ before x after, xs = before ++ x :: after → P before x

section AtEach

variable {α : Type} {P : List α → α → Prop}

/-- Nothing is claimed of no calls. -/
theorem atEach_nil : AtEach P [] := fun before x after h => by
  cases before <;> cases h

/-- One call more. -/
theorem atEach_concat {xs : List α} {x : α} : AtEach P (xs ++ [x]) ↔ AtEach P xs ∧ P xs x := by
  constructor
  · intro h
    refine ⟨fun before y after heq => h before y (after ++ [x]) ?_, h xs x [] rfl⟩
    rw [heq, List.append_assoc, List.cons_append]
  · rintro ⟨hxs, hx⟩ before y after heq
    cases List.eq_nil_or_concat after with
    | inl hnil =>
      rw [hnil] at heq
      obtain ⟨hbefore, hlast⟩ := List.append_inj' heq rfl
      cases hlast
      exact hbefore ▸ hx
    | inr hconcat =>
      obtain ⟨rest, last, hafter⟩ := hconcat
      rw [hafter, List.concat_eq_append, ← List.cons_append, ← List.append_assoc] at heq
      exact hxs before y rest (List.append_inj' heq rfl).1

end AtEach

/-- What a limiter answers to some calls, one after the other. -/
def LocalLimiter.asked (limit : String → ℕ) (self : LocalLimiter) : List LocalCall → List Asked
  | [] => []
  | call :: rest => (call, (self.ask limit call).1) :: (self.ask limit call).2.asked limit rest

/-- The limiter after some calls. -/
def LocalLimiter.afterwards (limit : String → ℕ) (self : LocalLimiter) (calls : List LocalCall) :
    LocalLimiter :=
  calls.foldl (fun self call => (self.ask limit call).2) self

/-- What is answered to one call more. -/
theorem LocalLimiter.asked_concat (limit : String → ℕ) (self : LocalLimiter)
    (calls : List LocalCall) (call : LocalCall) :
    self.asked limit (calls ++ [call])
      = self.asked limit calls ++ [(call, ((self.afterwards limit calls).ask limit call).1)] := by
  induction calls generalizing self with
  | nil => rfl
  | cons first rest ih =>
    rw [List.cons_append, LocalLimiter.asked, LocalLimiter.asked, ih, List.cons_append]
    rfl

/-- The limiter after it. -/
theorem LocalLimiter.afterwards_concat (limit : String → ℕ) (self : LocalLimiter)
    (calls : List LocalCall) (call : LocalCall) :
    self.afterwards limit (calls ++ [call])
      = ((self.afterwards limit calls).ask limit call).2 :=
  List.foldl_append ..

/-- Each call is answered once. -/
theorem LocalLimiter.map_asked (limit : String → ℕ) (self : LocalLimiter)
    (calls : List LocalCall) : (self.asked limit calls).map Prod.fst = calls := by
  induction calls generalizing self with
  | nil => rfl
  | cons call rest ih =>
    rw [LocalLimiter.asked, List.map_cons, ih]

/-- How many of some calls are of a key. -/
def callsOf (calls : List LocalCall) (key : String) : ℕ :=
  calls.countP (fun call => call.key = key)

/-- **The limiter counts exactly**: it answers every call, and lets through the first
`limit` calls of each key. -/
def CountsExactly (limit : String → ℕ) : List LocalCall → Prop :=
  AtEach (fun before call => ((LocalLimiter.fresh.afterwards limit before).ask limit call).1
    = .ok (decide (callsOf before call.key < limit call.key)))

/-- A call at which entries are dropped: one that is let through, and finds its key
in a table of more than twenty thousand. A key of the window zero is found when
it is new, as that is the default window. -/
def Prunes (limit : String → ℕ) (before : List LocalCall) (call : LocalCall) : Prop :=
  (call.window = 0 ∨ call.key ∈ before.map LocalCall.key)
    ∧ callsOf before call.key < limit call.key
    ∧ 20000 < ((before ++ [call]).map LocalCall.key).dedup.length

/-- **Entries were dropped** at some call. -/
def Pruned (limit : String → ℕ) (calls : List LocalCall) : Prop :=
  ¬ AtEach (fun earlier pruning => ¬ Prunes limit earlier pruning) calls

/-- **No new key after entries were dropped.** -/
def NoKeyAfterPruning (limit : String → ℕ) : List LocalCall → Prop :=
  AtEach (fun before call => Pruned limit before → call.key ∈ before.map LocalCall.key)

/-- The calls of a key among one more. -/
theorem callsOf_concat (calls : List LocalCall) (call : LocalCall) (key : String) :
    callsOf (calls ++ [call]) key
      = if key = call.key then callsOf calls key + 1 else callsOf calls key := by
  unfold callsOf
  rw [List.countP_append, List.countP_singleton]
  by_cases h : key = call.key
  · rw [if_pos h, if_pos (by simpa using h.symm)]
  · rw [if_neg h, if_neg (by simpa using fun heq => h heq.symm), Nat.add_zero]

/-- A key that was not asked for. -/
theorem callsOf_eq_zero_iff {calls : List LocalCall} {key : String} :
    callsOf calls key = 0 ↔ key ∉ calls.map LocalCall.key := by
  unfold callsOf
  rw [List.countP_eq_zero, List.mem_map, not_exists]
  simp only [decide_eq_true_eq, not_and]

/-- **The limiter after calls it counted exactly.** Until entries are dropped it has an entry
for each key that was asked for, so the number of its entries is the number of keys; afterwards
it is a plain dictionary, which raises on a new key. -/
structure CountedExactly (limit : String → ℕ) (calls : List LocalCall) : Prop where
  /-- The counts are those of the calls that were let through. -/
  counted : Counted limit (LocalLimiter.fresh.asked limit calls)
    (LocalLimiter.fresh.afterwards limit calls).counts
  /-- As many as the limit allows. -/
  admitted : ∀ key, admitted (LocalLimiter.fresh.asked limit calls) key
    = min (callsOf calls key) (limit key)
  /-- The dictionary has a default until it is pruned. -/
  defaulting : (LocalLimiter.fresh.afterwards limit calls).defaulting = true ↔ ¬ Pruned limit calls
  /-- And until then an entry for each key. -/
  keys : (LocalLimiter.fresh.afterwards limit calls).defaulting = true → ∀ key,
    key ∈ (LocalLimiter.fresh.afterwards limit calls).counts.keys ↔ key ∈ calls.map LocalCall.key

/-- The limiter of a new process. -/
theorem countedExactly_nil (limit : String → ℕ) : CountedExactly limit [] where
  counted := counted_fresh limit
  admitted := fun key => (Nat.zero_min (limit key)).symm
  defaulting := iff_of_true rfl (not_not_intro atEach_nil)
  keys := fun _ _ => Iff.rfl

section Exactly

variable {limit : String → ℕ} {calls : List LocalCall} {call : LocalCall}

/-- A key that was not asked for has no entry. -/
theorem CountedExactly.get?_eq_none (h : CountedExactly limit calls) {key : String}
    (hkey : key ∉ calls.map LocalCall.key) :
    (LocalLimiter.fresh.afterwards limit calls).counts.get? key = none := by
  cases hget : (LocalLimiter.fresh.afterwards limit calls).counts.get? key with
  | none => rfl
  | some entry =>
    obtain ⟨-, hcount, hone, -⟩ := h.counted.entry key entry.1 entry.2 hget
    rw [h.admitted, callsOf_eq_zero_iff.mpr hkey, Nat.zero_min] at hcount
    omega

/-- The windows that were asked for are no later. -/
theorem windows_le (hwindows : ∀ earlier ∈ calls, earlier.window ≤ call.window) :
    ∀ asked ∈ LocalLimiter.fresh.asked limit calls, asked.1.window ≤ call.window := by
  intro asked hasked
  refine hwindows asked.1 ?_
  rw [← LocalLimiter.map_asked limit .fresh calls]
  exact List.mem_map_of_mem hasked

/-- As many entries as keys that were asked for. -/
theorem length_items_of_keys {counted : Dict (ℤ × ℕ)} {keys : List String}
    (h : ∀ key, key ∈ counted.keys ↔ key ∈ keys) : counted.items.length = keys.dedup.length := by
  rw [← Dict.length_keys]
  refine List.Perm.length_eq ((List.perm_ext_iff_of_nodup counted.nodup_keys
    (List.nodup_dedup keys)).mpr (fun key => ?_))
  rw [h, List.mem_dedup]

/-- Entries were dropped before, or are now. -/
theorem pruned_concat : Pruned limit (calls ++ [call])
    ↔ Pruned limit calls ∨ Prunes limit calls call := by
  unfold Pruned
  rw [atEach_concat, not_and_or, not_not]

/-- What was let through after a call that was answered exactly. -/
theorem CountedExactly.admitted_concat (h : CountedExactly limit calls)
    (hanswer : ((LocalLimiter.fresh.afterwards limit calls).ask limit call).1
      = .ok (decide (callsOf calls call.key < limit call.key))) (key : String) :
    CohortSwitch.admitted (LocalLimiter.fresh.asked limit (calls ++ [call])) key
      = min (callsOf (calls ++ [call]) key) (limit key) := by
  rw [LocalLimiter.asked_concat, admitted_append, h.admitted, callsOf_concat, hanswer,
    admitted_singleton]
  by_cases hkey : key = call.key
  · subst hkey
    by_cases hlt : callsOf calls call.key < limit call.key
    · rw [if_pos ⟨rfl, decide_eq_true hlt⟩, if_pos rfl]
      omega
    · rw [if_neg (fun hand => hlt (of_decide_eq_true hand.2)), if_pos rfl]
      omega
  · rw [if_neg (fun hand => hkey hand.1), if_neg hkey, Nat.add_zero]

theorem CountedExactly.pruned_of_plain (h : CountedExactly limit calls)
    (hplain : (LocalLimiter.fresh.afterwards limit calls).defaulting = false) :
    Pruned limit calls := by
  by_contra hnot
  rw [h.defaulting.mpr hnot] at hplain
  cases hplain

/-- The keys of the entries with the one of the call. -/
theorem CountedExactly.keys_counted (h : CountedExactly limit calls)
    (hdefault : (LocalLimiter.fresh.afterwards limit calls).defaulting = true)
    {counted : Dict (ℤ × ℕ)} {entry : ℤ × ℕ}
    (hcounts : ∀ key, counted.get? key = if key = call.key then some entry
      else (LocalLimiter.fresh.afterwards limit calls).counts.get? key) (key : String) :
    key ∈ counted.keys ↔ key ∈ (calls ++ [call]).map LocalCall.key := by
  rw [Dict.mem_keys_iff, hcounts, List.map_append, List.mem_append, List.map_singleton,
    List.mem_singleton]
  by_cases hself : key = call.key
  · rw [if_pos hself]
    exact iff_of_true ⟨_, rfl⟩ (Or.inr hself)
  · rw [if_neg hself, ← Dict.mem_keys_iff, h.keys hdefault, or_iff_left hself]

/-- Whether entries are dropped can be told from the calls. -/
theorem CountedExactly.prunes_iff (h : CountedExactly limit calls)
    (hdefault : (LocalLimiter.fresh.afterwards limit calls).defaulting = true)
    (hless : callsOf calls call.key < limit call.key) {counted : Dict (ℤ × ℕ)}
    (hkeys : ∀ key, key ∈ counted.keys ↔ key ∈ (calls ++ [call]).map LocalCall.key) :
    ((call.window = 0
        ∨ (LocalLimiter.fresh.afterwards limit calls).counts.get? call.key ≠ none)
      ∧ 20000 < counted.items.length) ↔ Prunes limit calls call := by
  have hfound : (LocalLimiter.fresh.afterwards limit calls).counts.get? call.key ≠ none
      ↔ call.key ∈ calls.map LocalCall.key := by
    rw [Ne, Dict.get?_eq_none_iff, not_not, h.keys hdefault]
  unfold Prunes
  rw [hfound, length_items_of_keys hkeys, and_congr_right_iff]
  exact fun _ => ⟨fun hlong => ⟨hless, hlong⟩, And.right⟩

/-- **A call that is refused** leaves the entries as they are. -/
theorem CountedExactly.refused (h : CountedExactly limit calls)
    (hfull : limit call.key ≤ callsOf calls call.key)
    (hold : call.key ∈ calls.map LocalCall.key)
    (hdefaulting : ((LocalLimiter.fresh.afterwards limit calls).ask limit call).2.defaulting
      = (LocalLimiter.fresh.afterwards limit calls).defaulting)
    (hcounts : ∀ key, ((LocalLimiter.fresh.afterwards limit calls).ask limit call).2.counts.get? key
      = (LocalLimiter.fresh.afterwards limit calls).counts.get? key) :
    ((LocalLimiter.fresh.afterwards limit (calls ++ [call])).defaulting = true
        ↔ ¬ Pruned limit (calls ++ [call]))
      ∧ ((LocalLimiter.fresh.afterwards limit (calls ++ [call])).defaulting = true → ∀ key,
        key ∈ (LocalLimiter.fresh.afterwards limit (calls ++ [call])).counts.keys
          ↔ key ∈ (calls ++ [call]).map LocalCall.key) := by
  rw [LocalLimiter.afterwards_concat, hdefaulting]
  constructor
  · rw [h.defaulting, pruned_concat,
      or_iff_left (fun hprunes => absurd hprunes.2.1 (by omega))]
  · intro htrue key
    rw [Dict.mem_keys_iff, hcounts, ← Dict.mem_keys_iff, h.keys htrue, List.map_append,
      List.mem_append, or_iff_left_of_imp]
    intro hmem
    rw [List.mem_singleton.mp hmem]
    exact hold

/-- **A call that is let through** has an entry, and may drop others. -/
theorem CountedExactly.let_through (h : CountedExactly limit calls)
    (hless : callsOf calls call.key < limit call.key) {counted : Dict (ℤ × ℕ)} {entry : ℤ × ℕ}
    (hcounts : ∀ key, counted.get? key = if key = call.key then some entry
      else (LocalLimiter.fresh.afterwards limit calls).counts.get? key)
    (hafter : ((LocalLimiter.fresh.afterwards limit calls).ask limit call).2
      = if (call.window = 0
            ∨ (LocalLimiter.fresh.afterwards limit calls).counts.get? call.key ≠ none)
          ∧ 20000 < counted.items.length then
        ⟨counted.filterValues (fun value => call.window - 1 ≤ value.1), false⟩
      else ⟨counted, (LocalLimiter.fresh.afterwards limit calls).defaulting⟩) :
    ((LocalLimiter.fresh.afterwards limit (calls ++ [call])).defaulting = true
        ↔ ¬ Pruned limit (calls ++ [call]))
      ∧ ((LocalLimiter.fresh.afterwards limit (calls ++ [call])).defaulting = true → ∀ key,
        key ∈ (LocalLimiter.fresh.afterwards limit (calls ++ [call])).counts.keys
          ↔ key ∈ (calls ++ [call]).map LocalCall.key) := by
  rw [LocalLimiter.afterwards_concat, hafter, pruned_concat]
  cases hdefault : (LocalLimiter.fresh.afterwards limit calls).defaulting with
  | false =>
    have hpruned := h.pruned_of_plain hdefault
    split
    · exact ⟨iff_of_false Bool.false_ne_true (not_not_intro (Or.inl hpruned)),
        fun htrue => absurd htrue Bool.false_ne_true⟩
    · exact ⟨iff_of_false Bool.false_ne_true (not_not_intro (Or.inl hpruned)),
        fun htrue => absurd htrue Bool.false_ne_true⟩
  | true =>
    have hkeys := h.keys_counted hdefault hcounts
    rw [or_iff_right (h.defaulting.mp hdefault), ← h.prunes_iff hdefault hless hkeys]
    split
    · rename_i hdrop
      exact ⟨iff_of_false Bool.false_ne_true (not_not_intro hdrop),
        fun htrue => absurd htrue Bool.false_ne_true⟩
    · rename_i hkeep
      exact ⟨iff_of_true rfl hkeep, fun _ => hkeys⟩

/-- **One call more.** -/
theorem CountedExactly.concat (h : CountedExactly limit calls)
    (hwindows : ∀ earlier ∈ calls, earlier.window ≤ call.window) (hlimit : 1 ≤ limit call.key)
    (hkey : Pruned limit calls → call.key ∈ calls.map LocalCall.key) :
    ((LocalLimiter.fresh.afterwards limit calls).ask limit call).1
        = .ok (decide (callsOf calls call.key < limit call.key))
      ∧ CountedExactly limit (calls ++ [call]) := by
  have hlater := @windows_le limit calls call hwindows
  have hcounted := h.counted.ask hlater hlimit
  have hcount := h.admitted call.key
  rw [← LocalLimiter.asked_concat, ← LocalLimiter.afterwards_concat] at hcounted
  rcases LocalLimiter.ask_cases h.counted hlater hlimit with ⟨hnone, hplain, -⟩
    | ⟨-, ⟨hfull, hanswer, hdefaulting, hcounts⟩ | ⟨hlt, hanswer, counted, hcounts, hafter⟩⟩
  · -- a key without an entry is new, and nothing was dropped yet
    have hcalls : callsOf calls call.key ≠ 0 := fun hzero =>
      callsOf_eq_zero_iff.mp hzero (hkey (h.pruned_of_plain hplain))
    have hzero := h.counted.zero hnone hlater
    omega
  · have hexact : ((LocalLimiter.fresh.afterwards limit calls).ask limit call).1
        = .ok (decide (callsOf calls call.key < limit call.key)) := by
      rw [hanswer, decide_eq_false (by omega)]
    have hold : call.key ∈ calls.map LocalCall.key := by
      by_contra hnew
      rw [callsOf_eq_zero_iff.mpr hnew] at hcount
      omega
    have hrest := h.refused (by omega) hold hdefaulting hcounts
    exact ⟨hexact, hcounted, h.admitted_concat hexact, hrest.1, hrest.2⟩
  · have hless : callsOf calls call.key < limit call.key := by omega
    have hexact : ((LocalLimiter.fresh.afterwards limit calls).ask limit call).1
        = .ok (decide (callsOf calls call.key < limit call.key)) := by
      rw [hanswer, decide_eq_true hless]
    have hrest := h.let_through hless hcounts hafter
    exact ⟨hexact, hcounted, h.admitted_concat hexact, hrest.1, hrest.2⟩

/-- **The limiter counts exactly while no new key comes after entries were dropped**,
and then its counts are exact. -/
theorem countsExactly_iff (hlimit : ∀ key, 1 ≤ limit key)
    (hwindows : (calls.map LocalCall.window).Pairwise (· ≤ ·)) :
    (CountsExactly limit calls ↔ NoKeyAfterPruning limit calls)
      ∧ (NoKeyAfterPruning limit calls → CountedExactly limit calls) := by
  induction calls using List.reverseRecOn with
  | nil => exact ⟨iff_of_true atEach_nil atEach_nil, fun _ => countedExactly_nil limit⟩
  | append_singleton calls call ih =>
    rw [List.map_append, List.pairwise_append] at hwindows
    have hlater : ∀ earlier ∈ calls, earlier.window ≤ call.window := fun earlier hearlier =>
      hwindows.2.2 _ (List.mem_map_of_mem hearlier) _ (List.mem_singleton_self _)
    obtain ⟨hiff, hstate⟩ := ih hwindows.1
    unfold NoKeyAfterPruning at hiff hstate ⊢
    unfold CountsExactly at hiff ⊢
    rw [atEach_concat, atEach_concat, hiff]
    refine ⟨and_congr_right (fun hkeys => ?_), fun hkeys =>
      ((hstate hkeys.1).concat hlater (hlimit _) hkeys.2).2⟩
    refine ⟨fun hexact hpruned => ?_, fun hkey =>
      ((hstate hkeys).concat hlater (hlimit _) hkey).1⟩
    -- a new key has no entry, and a plain dictionary raises on it
    by_contra hnew
    have hnone := (hstate hkeys).get?_eq_none hnew
    have hplain : (LocalLimiter.fresh.afterwards limit calls).defaulting = false := by
      rw [← Bool.not_eq_true, (hstate hkeys).defaulting, not_not]
      exact hpruned
    have hraises : ((LocalLimiter.fresh.afterwards limit calls).ask limit call).1
        = .error (.keyError call.key) := by
      unfold LocalLimiter.ask LocalLimiter.localAllowed
      rw [hnone, hplain]
    rw [hraises] at hexact
    cases hexact

end Exactly

/-- **The local limiter counts exactly, exactly while no new key comes after entries
were dropped.** -/
theorem localLimiter_exact_iff (limit : String → ℕ) (hlimit : ∀ key, 1 ≤ limit key)
    (calls : List LocalCall) (hwindows : (calls.map LocalCall.window).Pairwise (· ≤ ·)) :
    CountsExactly limit calls ↔ NoKeyAfterPruning limit calls :=
  (countsExactly_iff hlimit hwindows).1

/-! ## Many keys -/

/-- A call of a key of its own. -/
def nthCall (i : ℕ) : LocalCall := ⟨toString (Int.ofNat i), 1⟩

/-- Different calls have different keys. -/
theorem nthCall_key_injective : Function.Injective (fun i => (nthCall i).key) := fun _ _ h =>
  Int.ofNat.inj (toString_int_injective (windowKey_inj h).1)

theorem map_key_nthCalls (n : ℕ) : ((List.range n).map nthCall).map LocalCall.key
    = (List.range n).map (fun i => (nthCall i).key) := by
  rw [List.map_map]
  rfl

theorem nodup_nthCalls (n : ℕ) : (((List.range n).map nthCall).map LocalCall.key).Nodup := by
  rw [map_key_nthCalls]
  exact List.nodup_range.map nthCall_key_injective

/-- Which calls these are. -/
theorem mem_nthCalls_iff {n i : ℕ} :
    (nthCall i).key ∈ ((List.range n).map nthCall).map LocalCall.key ↔ i < n := by
  rw [map_key_nthCalls, List.mem_map_of_injective nthCall_key_injective, List.mem_range]

/-- The calls of a key are counted. -/
theorem callsOf_eq_count (calls : List LocalCall) (key : String) :
    callsOf calls key = (calls.map LocalCall.key).count key := by
  unfold callsOf
  rw [List.count, List.countP_map]
  exact List.countP_congr (fun call _ => by simp)

/-- Keys that are asked for once drop no entries, in whatever window but zero. -/
theorem not_pruned_of_nodup {limit : String → ℕ} {calls : List LocalCall}
    (hnodup : (calls.map LocalCall.key).Nodup) (hwindows : ∀ call ∈ calls, call.window ≠ 0) :
    ¬ Pruned limit calls := by
  induction calls using List.reverseRecOn with
  | nil => exact not_not_intro atEach_nil
  | append_singleton calls call ih =>
    rw [List.map_append, List.nodup_append] at hnodup
    rw [List.forall_mem_append, List.forall_mem_singleton] at hwindows
    rw [pruned_concat, not_or]
    refine ⟨ih hnodup.1 hwindows.1, fun hprunes => hprunes.1.elim hwindows.2 (fun hmem => ?_)⟩
    exact hnodup.2.2 _ hmem _ (List.mem_singleton_self _) rfl

theorem noKeyAfterPruning_of_nodup {limit : String → ℕ} {calls : List LocalCall}
    (hnodup : (calls.map LocalCall.key).Nodup) (hwindows : ∀ call ∈ calls, call.window ≠ 0) :
    NoKeyAfterPruning limit calls := by
  rintro before call after rfl hpruned
  rw [List.map_append] at hnodup
  refine absurd hpruned (not_pruned_of_nodup hnodup.of_append_left (fun earlier hearlier => ?_))
  exact hwindows earlier (List.mem_append_left _ hearlier)

/-- Twenty thousand and one keys, and the first of them once more. -/
def gathering : List LocalCall := (List.range 20001).map nthCall ++ [nthCall 0]

theorem window_nthCalls {n : ℕ} : ∀ call ∈ (List.range n).map nthCall, call.window = 1 := by
  intro call hcall
  obtain ⟨i, -, rfl⟩ := List.mem_map.mp hcall
  rfl

/-- Calls of one window come in order. -/
theorem pairwise_of_window {calls : List LocalCall} (h : ∀ call ∈ calls, call.window = 1) :
    (calls.map LocalCall.window).Pairwise (· ≤ ·) := by
  rw [List.pairwise_map]
  refine List.pairwise_of_forall_mem_list (fun call hcall other hother => ?_)
  rw [h call hcall, h other hother]

theorem window_gathering (i : ℕ) : ∀ call ∈ gathering ++ [nthCall i], call.window = 1 := by
  unfold gathering
  rw [List.forall_mem_append, List.forall_mem_append, List.forall_mem_singleton,
    List.forall_mem_singleton]
  exact ⟨⟨window_nthCalls, rfl⟩, rfl⟩

/-- **Entries are dropped** when the first key is asked for again. -/
theorem pruned_gathering : Pruned (fun _ => 1000) gathering := by
  refine pruned_concat.mpr (Or.inr ⟨Or.inr (mem_nthCalls_iff.mpr (by decide)), ?_, ?_⟩)
  · rw [callsOf_eq_count]
    exact lt_of_le_of_lt (List.nodup_iff_count_le_one.mp (nodup_nthCalls 20001) _) (by decide)
  · have hsubset : ((List.range 20001).map nthCall).map LocalCall.key
        ⊆ (((List.range 20001).map nthCall ++ [nthCall 0]).map LocalCall.key).dedup := by
      intro key hkey
      rw [List.mem_dedup, List.map_append]
      exact List.mem_append_left _ hkey
    have hlength := (List.subperm_of_subset (nodup_nthCalls 20001) hsubset).length_le
    rw [List.length_map, List.length_map, List.length_range] at hlength
    exact hlength

theorem mem_gathering_iff {i : ℕ} :
    (nthCall i).key ∈ gathering.map LocalCall.key ↔ i < 20001 := by
  unfold gathering
  rw [List.map_append, List.mem_append, mem_nthCalls_iff, or_iff_left_of_imp]
  intro hmem
  rw [nthCall_key_injective (List.mem_singleton.mp hmem)]
  decide

/-- A key that was asked for before is still counted after entries were dropped. -/
theorem localLimiter_exact_iff_sample : Pruned (fun _ => 1000) gathering
    ∧ CountsExactly (fun _ => 1000) (gathering ++ [nthCall 1]) := by
  refine ⟨pruned_gathering, (localLimiter_exact_iff (fun _ => 1000) (fun _ => by decide) _
    (pairwise_of_window (window_gathering 1))).mpr ?_⟩
  unfold NoKeyAfterPruning gathering
  rw [atEach_concat, atEach_concat]
  have hwindows : ∀ call ∈ (List.range 20001).map nthCall, call.window ≠ 0 := by
    intro call hcall
    rw [window_nthCalls call hcall]
    decide
  exact ⟨⟨noKeyAfterPruning_of_nodup (nodup_nthCalls 20001) hwindows,
    fun _ => mem_nthCalls_iff.mpr (by decide)⟩, fun _ => mem_gathering_iff.mpr (by decide)⟩

/-- **A new key raises after entries were dropped.** -/
theorem localLimiter_raises : ¬ ∀ limit : String → ℕ, (∀ key, 1 ≤ limit key) →
    ∀ calls : List LocalCall, (calls.map LocalCall.window).Pairwise (· ≤ ·) →
      CountsExactly limit calls := by
  intro h
  have hlimit : ∀ key : String, 1 ≤ (fun _ => 1000 : String → ℕ) key := by
    intro key
    show 1 ≤ 1000
    decide
  have hwindows := pairwise_of_window (window_gathering 20001)
  have hexact := h (fun _ => 1000) hlimit (gathering ++ [nthCall 20001]) hwindows
  have hkeys := (countsExactly_iff hlimit hwindows).1.mp hexact
  have hnew := (atEach_concat.mp hkeys).2 pruned_gathering
  exact absurd (mem_gathering_iff.mp hnew) (lt_irrefl _)

end CohortSwitch
