import CohortSwitch.Python

/-!
# Dictionaries that change

Assignment to a key of a dictionary, and the comprehension that keeps the items
whose value passes a test. `get?_insert` and `get?_filterValues` say what a lookup
finds afterwards, which is all that is used of the order of the items.

The sizes are counted, too, since the code prunes a dictionary once it is large: an
assignment of a new key adds one entry, of one that is there none, and a filter adds
none. That no key stands in a dictionary twice is part of its type, so there is nothing
to prove when one is built from another.
-/

namespace CohortSwitch

namespace Dict

variable {β : Type} {key : String} {value : β}

/-- `{}`. -/
def empty : Dict β := ⟨[], List.nodup_nil⟩

/-- `d[key] = value`. -/
def insert (d : Dict β) (key : String) (value : β) : Dict β :=
  ⟨assign key value d.items, nodup_assign key value d.nodup⟩

/-- `d.update(e)`. -/
def update (d e : Dict β) : Dict β :=
  e.items.foldl (fun d item => d.insert item.1 item.2) d

/-- `{key: value for key, value in d.items() if keep(value)}`. -/
def filterValues (d : Dict β) (keep : β → Bool) : Dict β :=
  ⟨d.items.filter (fun item => keep item.2), d.nodup.sublist (List.filter_sublist.map _)⟩

/-- Nothing is found in the empty one. -/
@[simp] theorem get?_empty (key : String) : (empty : Dict β).get? key = none := rfl

theorem lookup_assign (other : String) (items : List (String × β)) :
    (assign key value items).lookup other
      = if other = key then some value else items.lookup other := by
  induction items with
  | nil =>
    rw [assign, List.lookup_cons]
    by_cases h : other = key
    · simp [h]
    · simp [h, beq_false_of_ne h]
  | cons item rest ih =>
    obtain ⟨k, v⟩ := item
    rw [assign]
    by_cases hk : k = key
    · subst hk
      rw [if_pos rfl, List.lookup_cons, List.lookup_cons]
      by_cases h : other = k
      · simp [h]
      · simp [h, beq_false_of_ne h]
    · rw [if_neg hk, List.lookup_cons, List.lookup_cons, ih]
      by_cases h : other = k
      · simp [h, hk]
      · simp [beq_false_of_ne h]

/-- **What an assignment leaves to be found.** -/
theorem get?_insert (d : Dict β) (other : String) :
    (d.insert key value).get? other = if other = key then some value else d.get? other :=
  lookup_assign other d.items

/-- What was assigned is found. -/
@[simp] theorem get?_insert_self (d : Dict β) : (d.insert key value).get? key = some value := by
  rw [get?_insert, if_pos rfl]

/-- **What an update leaves to be found.** -/
theorem get?_update (d e : Dict β) (other : String) :
    (d.update e).get? other = (e.get? other).or (d.get? other) := by
  suffices hgen : ∀ (items : List (String × β)) (d : Dict β), (items.map Prod.fst).Nodup →
      (items.foldl (fun d item => d.insert item.1 item.2) d).get? other
        = (items.lookup other).or (d.get? other) from
    hgen e.items d e.nodup
  intro items
  induction items with
  | nil => exact fun d _ => rfl
  | cons item rest ih =>
    intro d hnodup
    obtain ⟨k, v⟩ := item
    rw [List.map_cons, List.nodup_cons] at hnodup
    rw [List.foldl_cons, ih _ hnodup.2, get?_insert, List.lookup_cons]
    by_cases h : other = k
    · subst h
      have hnone : rest.lookup other = none := by
        cases hrest : rest.lookup other with
        | none => rfl
        | some w => exact absurd (List.mem_map_of_mem (mem_of_lookup_eq_some hrest)) hnodup.1
      rw [hnone, if_pos rfl, beq_self_eq_true]
      rfl
    · rw [if_neg h, beq_false_of_ne h]

/-- The keys after an assignment. -/
theorem keys_insert (d : Dict β) :
    (d.insert key value).keys = if key ∈ d.keys then d.keys else d.keys ++ [key] :=
  map_fst_assign key value d.items

/-- A key is one that something is found under. -/
theorem mem_keys_iff {d : Dict β} : key ∈ d.keys ↔ ∃ value, d.get? key = some value :=
  ⟨exists_get?_of_mem_keys, fun ⟨_, h⟩ => mem_keys_of_get? h⟩

/-- And where nothing is found there is no key. -/
theorem get?_eq_none_iff {d : Dict β} : d.get? key = none ↔ key ∉ d.keys := by
  rw [mem_keys_iff, not_exists]
  cases d.get? key <;> simp

/-- The keys of a dictionary are distinct. -/
theorem nodup_keys (d : Dict β) : d.keys.Nodup := d.nodup

/-- As many keys as items. -/
@[simp] theorem length_keys (d : Dict β) : d.keys.length = d.items.length :=
  List.length_map _

/-- On the items, the later of two assignments to a key stays. -/
theorem assign_assign (key : String) (value value' : β) (items : List (String × β)) :
    assign key value' (assign key value items) = assign key value' items := by
  induction items with
  | nil => simp [assign]
  | cons item rest ih =>
    obtain ⟨k, v⟩ := item
    by_cases hk : k = key
    · simp [assign, hk]
    · simp [assign, hk, ih]

/-- The later of two assignments to a key stays. -/
@[simp] theorem insert_insert (d : Dict β) (key : String) (value value' : β) :
    (d.insert key value).insert key value' = d.insert key value' := by
  unfold insert
  simp only [assign_assign]

/-- A new key comes last. -/
theorem items_insert_of_notMem {d : Dict β} (h : key ∉ d.keys) :
    (d.insert key value).items = d.items ++ [(key, value)] :=
  assign_of_not_mem value h

/-- An assignment of a new key adds one entry. -/
theorem length_insert_of_notMem {d : Dict β} (h : key ∉ d.keys) :
    (d.insert key value).items.length = d.items.length + 1 := by
  rw [items_insert_of_notMem h, List.length_append]
  rfl

/-- An assignment to a key that is there adds no entry. -/
theorem length_insert_of_mem {d : Dict β} (h : key ∈ d.keys) :
    (d.insert key value).items.length = d.items.length := by
  rw [← length_keys, keys_insert, if_pos h, length_keys]

/-- A filter adds no entry. -/
theorem length_filterValues_le (d : Dict β) (keep : β → Bool) :
    (d.filterValues keep).items.length ≤ d.items.length :=
  List.length_filter_le ..

theorem lookup_filter (keep : β → Bool) {items : List (String × β)}
    (h : (items.map Prod.fst).Nodup) (key : String) :
    (items.filter (fun item => keep item.2)).lookup key = (items.lookup key).filter keep := by
  induction items with
  | nil => rfl
  | cons item rest ih =>
    obtain ⟨k, v⟩ := item
    rw [List.map_cons, List.nodup_cons] at h
    by_cases hk : key = k
    · subst hk
      have hnone : rest.lookup key = none := by
        cases hrest : rest.lookup key with
        | none => rfl
        | some w => exact absurd (List.mem_map_of_mem (mem_of_lookup_eq_some hrest)) h.1
      by_cases hv : keep v
      · rw [List.filter_cons_of_pos (by simpa using hv), List.lookup_cons, List.lookup_cons,
          beq_self_eq_true]
        exact (if_pos hv).symm
      · rw [List.filter_cons_of_neg (by simpa using hv), ih h.2, hnone, List.lookup_cons,
          beq_self_eq_true]
        exact (if_neg hv).symm
    · rw [List.lookup_cons, beq_false_of_ne hk]
      dsimp only
      rw [← ih h.2]
      by_cases hv : keep v
      · rw [List.filter_cons_of_pos (by simpa using hv), List.lookup_cons, beq_false_of_ne hk]
      · rw [List.filter_cons_of_neg (by simpa using hv)]

/-- **What a filter leaves to be found.** -/
theorem get?_filterValues (d : Dict β) (keep : β → Bool) (key : String) :
    (d.filterValues keep).get? key = (d.get? key).filter keep :=
  lookup_filter keep d.nodup key

end Dict

end CohortSwitch
