import Mathlib.Data.List.Basic
import Mathlib.Data.List.Nodup
import Mathlib.Logic.Function.Basic

/-!
# Versioned stores

A store keeps every value that was put under a key. The version of a key is how many there
are, and each put names the version it follows: where the key has another version by then,
it fails. So two writers that have read the same version cannot both succeed.

`puts_eq_some_iff` says what a sequence of puts comes to: under each key the values that
were put there follow the ones from before, and the puts have named the versions from the
first one on, each once.

A store is a function from the keys to the lists of their values, and nothing is ever
removed, so a version is a position in such a list and the value at it never changes
(`getElem?_of_puts`). Puts of different keys do not meet: a sequence is decided key by
key, and `putsOf` is what of it is about one of them. In particular some puts of distinct
keys succeed together exactly if each does by itself (`puts_of_nodup`).
-/

namespace CohortSwitch

/-- The values that were put under each key, the first one first. -/
abbrev VersionedStore (K V : Type) := K → List V

/-- A value for a key, after a version of it. -/
structure Put (K V : Type) where
  /-- Where it is put. -/
  key : K
  /-- The version it follows. -/
  expected : ℕ
  /-- What is put. -/
  value : V

namespace VersionedStore

variable {K V : Type} [DecidableEq K]

/-- The store in which nothing was put. -/
def empty : VersionedStore K V := fun _ => []

/-- One more value of a key. -/
def append (s : VersionedStore K V) (key : K) (value : V) : VersionedStore K V :=
  Function.update s key (s key ++ [value])

/-- **Compare the version and append the value.** -/
def put (s : VersionedStore K V) (p : Put K V) : Option (VersionedStore K V) :=
  if (s p.key).length = p.expected then some (s.append p.key p.value) else none

/-- Some puts, one after the other: all of them or none. -/
def puts (s : VersionedStore K V) : List (Put K V) → Option (VersionedStore K V)
  | [] => some s
  | p :: ps => (s.put p).bind (fun s' => s'.puts ps)

/-- The puts of a key. -/
def putsOf (key : K) (ps : List (Put K V)) : List (Put K V) :=
  ps.filter (fun p => p.key = key)

variable {s s' : VersionedStore K V}

/-- The key has one value more, -/
@[simp] theorem append_self (s : VersionedStore K V) (key : K) (value : V) :
    s.append key value key = s key ++ [value] :=
  Function.update_self ..

/-- and any other key has those it had. -/
theorem append_of_ne {key other : K} (h : other ≠ key) (value : V) :
    s.append key value other = s other :=
  Function.update_of_ne h ..

/-- A put succeeds at the version it follows. -/
theorem put_eq_some_iff {p : Put K V} :
    s.put p = some s' ↔ (s p.key).length = p.expected ∧ s' = s.append p.key p.value := by
  unfold put
  split
  · rename_i h
    rw [Option.some.injEq, eq_comm]
    exact (and_iff_right h).symm
  · rename_i h
    constructor
    · intro hnone
      cases hnone
    · exact fun hp => absurd hp.1 h

/-- The puts of a key are those that name it. -/
theorem mem_putsOf {key : K} {p : Put K V} {ps : List (Put K V)} :
    p ∈ putsOf key ps ↔ p ∈ ps ∧ p.key = key := by
  unfold putsOf
  rw [List.mem_filter, decide_eq_true_eq]

/-- Those of two sequences come one after the other. -/
theorem putsOf_append (key : K) (ps qs : List (Put K V)) :
    putsOf key (ps ++ qs) = putsOf key ps ++ putsOf key qs :=
  List.filter_append ..

theorem putsOf_cons_self (p : Put K V) (ps : List (Put K V)) :
    putsOf p.key (p :: ps) = p :: putsOf p.key ps :=
  List.filter_cons_of_pos (decide_eq_true rfl)

theorem putsOf_cons_of_ne {key : K} {p : Put K V} (h : key ≠ p.key) (ps : List (Put K V)) :
    putsOf key (p :: ps) = putsOf key ps :=
  List.filter_cons_of_neg (fun hkey => h (of_decide_eq_true hkey).symm)

/-- There are none of a key nobody puts. -/
theorem putsOf_eq_nil {key : K} {ps : List (Put K V)} (h : key ∉ ps.map Put.key) :
    putsOf key ps = [] :=
  List.filter_eq_nil_iff.mpr (fun p hp hkey => h (List.mem_map.mpr
    ⟨p, hp, of_decide_eq_true hkey⟩))

/-- Of distinct keys there is one put each. -/
theorem putsOf_eq_singleton {ps : List (Put K V)} (hkeys : (ps.map Put.key).Nodup) {p : Put K V}
    (hp : p ∈ ps) : putsOf p.key ps = [p] := by
  obtain ⟨before, after, rfl⟩ := List.append_of_mem hp
  rw [List.map_append, List.map_cons, List.nodup_middle, List.nodup_cons, List.mem_append,
    not_or] at hkeys
  rw [putsOf_append, putsOf_cons_self, putsOf_eq_nil hkeys.1.1, putsOf_eq_nil hkeys.1.2,
    List.nil_append]

/-- **One sequence after the other.** -/
theorem puts_append (s : VersionedStore K V) (ps qs : List (Put K V)) :
    s.puts (ps ++ qs) = (s.puts ps).bind (fun s' => s'.puts qs) := by
  induction ps generalizing s with
  | nil => rfl
  | cons p ps ih =>
    show (s.put p).bind _ = ((s.put p).bind _).bind _
    rw [Option.bind_assoc]
    exact Option.bind_congr (fun s' _ => ih s')

/-- **What a sequence of puts comes to**, key by key. -/
theorem puts_eq_some_iff {ps : List (Put K V)} : s.puts ps = some s' ↔ ∀ key,
    (putsOf key ps).map Put.expected = List.range' (s key).length (putsOf key ps).length
      ∧ s' key = s key ++ (putsOf key ps).map Put.value := by
  induction ps generalizing s with
  | nil =>
    show some s = some s' ↔ ∀ key, [] = [] ∧ s' key = s key ++ []
    simp only [Option.some.injEq, List.append_nil, true_and]
    exact ⟨fun h key => congrFun h.symm key, fun h => funext (fun key => (h key).symm)⟩
  | cons p ps ih =>
    -- the first put names the version of its key, and the rest follow it
    have hbind : s.puts (p :: ps) = some s' ↔ (s p.key).length = p.expected
        ∧ (s.append p.key p.value).puts ps = some s' := by
      show (s.put p).bind _ = some s' ↔ _
      rw [Option.bind_eq_some_iff]
      constructor
      · rintro ⟨s₁, hp, hrest⟩
        obtain ⟨hlength, rfl⟩ := put_eq_some_iff.mp hp
        exact ⟨hlength, hrest⟩
      · rintro ⟨hlength, hrest⟩
        exact ⟨_, put_eq_some_iff.mpr ⟨hlength, rfl⟩, hrest⟩
    rw [hbind, ih]
    constructor
    · rintro ⟨hlength, hrest⟩ key
      have hkey := hrest key
      by_cases h : key = p.key
      · subst h
        rw [append_self, List.length_append, List.length_singleton] at hkey
        rw [putsOf_cons_self, List.map_cons, List.map_cons, List.length_cons, List.range'_succ,
          hkey.1, hkey.2, hlength, List.append_assoc]
        exact ⟨rfl, rfl⟩
      · rw [append_of_ne h] at hkey
        rw [putsOf_cons_of_ne h]
        exact hkey
    · intro h
      have hfirst := h p.key
      rw [putsOf_cons_self, List.map_cons, List.length_cons, List.range'_succ,
        List.cons.injEq] at hfirst
      refine ⟨hfirst.1.1.symm, fun key => ?_⟩
      by_cases hkey : key = p.key
      · subst hkey
        rw [append_self, List.length_append, List.length_singleton, List.append_assoc]
        exact ⟨hfirst.1.2, hfirst.2⟩
      · rw [append_of_ne hkey, ← putsOf_cons_of_ne hkey]
        exact h key

/-- Puts of distinct keys, each after the version its key has. -/
theorem puts_of_nodup {ps : List (Put K V)} (hkeys : (ps.map Put.key).Nodup)
    (hown : ∀ p ∈ ps, (s p.key).length = p.expected ∧ s' p.key = s p.key ++ [p.value])
    (hother : ∀ key, key ∉ ps.map Put.key → s' key = s key) : s.puts ps = some s' := by
  refine puts_eq_some_iff.mpr (fun key => ?_)
  by_cases h : key ∈ ps.map Put.key
  · obtain ⟨p, hp, rfl⟩ := List.mem_map.mp h
    rw [putsOf_eq_singleton hkeys hp]
    exact ⟨congrArg (fun n => [n]) (hown p hp).1.symm, (hown p hp).2⟩
  · rw [putsOf_eq_nil h, hother key h]
    exact ⟨rfl, (List.append_nil _).symm⟩

/-- **A value that was put stays at its version.** -/
theorem getElem?_of_puts {ps : List (Put K V)} (h : s.puts ps = some s') {p : Put K V}
    (hp : p ∈ ps) : (s' p.key)[p.expected]? = some p.value := by
  obtain ⟨hversions, hvalues⟩ := puts_eq_some_iff.mp h p.key
  obtain ⟨i, hi⟩ := List.mem_iff_getElem?.mp (mem_putsOf.mpr ⟨hp, rfl⟩)
  obtain ⟨hlt, -⟩ := List.getElem?_eq_some_iff.mp hi
  have hexpected : p.expected = (s p.key).length + i := by
    have hat := congrArg (fun l => l[i]?) hversions
    beta_reduce at hat
    rw [List.getElem?_map, hi, Option.map_some, List.getElem?_range' hlt, Option.some.injEq,
      Nat.one_mul] at hat
    exact hat
  rw [hvalues, hexpected, List.getElem?_append_right (Nat.le_add_right _ _),
    Nat.add_sub_cancel_left, List.getElem?_map, hi, Option.map_some]

/-- **Every version above the one a key had was put.** -/
theorem exists_put {ps : List (Put K V)} (h : s.puts ps = some s') {key : K} {n : ℕ}
    (hle : (s key).length ≤ n) (hlt : n < (s' key).length) :
    ∃ p ∈ ps, p.key = key ∧ p.expected = n := by
  obtain ⟨hversions, hvalues⟩ := puts_eq_some_iff.mp h key
  rw [hvalues, List.length_append, List.length_map] at hlt
  have hmem : n ∈ (putsOf key ps).map Put.expected :=
    hversions ▸ List.mem_range'_1.mpr ⟨hle, hlt⟩
  obtain ⟨p, hp, hexpected⟩ := List.mem_map.mp hmem
  exact ⟨p, (mem_putsOf.mp hp).1, (mem_putsOf.mp hp).2, hexpected⟩

end VersionedStore

end CohortSwitch
