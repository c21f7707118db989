import Mathlib.Data.List.Infix
import Mathlib.Data.List.MinMax
import Mathlib.Data.List.Sort
import Mathlib.Data.Nat.Digits.Defs
import Mathlib.Data.Rat.Defs

/-!
# The Python values the service computes on

Attributes, condition values and variation values are JSON values as Python
holds them: `bool` and `int` are different types that compare as numbers, an
object is an insertion-ordered dictionary, and equality of dictionaries does
not look at the order. `Json.eqv` is that equality.

## The order of keys

A JSON column gives a value back with the keys of its objects in another
order, and so does a document that went through the cache. `Json.Reordered`
is that relation: keys trade places at any depth, and nothing else changes.
It is the weakest sense in which a stored value is the value that was
stored, so whatever is to hold of stored configurations has to be shown
blind to it.

`Json.eqv_congr_right` and `Json.eqv_congr_left` say that Python's equality
is, on either side, and `Json.isIn_congr_left` and `Json.isIn_congr_right`
say the same of membership. A function that looks at the outermost
constructor alone needs no induction of its own: `Reordered.eq_of_shallow`
is the one induction, and the type tests of the operators are instances.

## Exceptions

An exception is a value of `PyError`, and a function that may raise returns
`Except PyError`. The subclasses of `ValueError` are the ones
`PyError.isValueError` names, because one handler of the service catches
exactly these. Nothing here unfolds a monadic block: `bind_eq_ok`,
`raiseIf_bind_eq_ok`, `forM_eq_ok` and `mapM_eq_ok` say when a sequence, a
guard, a loop and a comprehension return, and later proofs take a function
apart with them.

## Dictionaries, ids and instants

A `Dict` carries the proof that no key stands in it twice, so a lookup and
the items of a dictionary are two views of one thing (`mem_items_iff`). A
`UUID` is its integer, and its text determines it (`UUID.str_injective`),
which is what every key of the cache and every channel relies on. An instant
counts microseconds from `datetime.min`; a datetime of a request has a wall
clock and an offset, and becomes an instant only where the shift stays in
range.
-/

namespace CohortSwitch

/-- **A JSON value as Python holds it.** The fields of an object stand in insertion order. A
`float` is finite, so its value is a rational number. Integers and floats are kept apart, as
Python keeps them, and compare equal where their values are. -/
inductive Json where
  | null
  | bool (b : Bool)
  | int (i : ℤ)
  | float (q : ℚ)
  | str (s : String)
  | arr (xs : List Json)
  | obj (fs : List (String × Json))
deriving Inhabited, Repr

/-- **The exceptions the modelled functions raise.** Where the service looks at an exception it
looks at its class and its text, so a class is a constructor and the text its argument. The
service's own errors carry what becomes of them: a status, a code, a message and details. -/
inductive PyError where
  /-- The service's own error, which a handler turns into a response. -/
  | apiError (status : ℕ) (code : String) (message : String)
      (details : List (String × Json))
  /-- A model validator of pydantic refused a value. -/
  | validationError (message : String)
  | valueError (message : String)
  | invalidVersion (message : String)
  | typeError (message : String)
  | keyError (key : String)
  | overflowError (message : String)
  /-- A constraint of the database refused a statement. -/
  | integrityError
  /-- An attribute of a loaded row would have to be loaded again, outside of a
  call that is awaited. -/
  | missingGreenlet
deriving Repr

/-- `isinstance(exc, ValueError)`: pydantic's `ValidationError` and
packaging's `InvalidVersion` are subclasses, `OverflowError` is not. -/
def PyError.isValueError : PyError → Bool
  | .validationError _ | .valueError _ | .invalidVersion _ => true
  | _ => false

/-- The text of an exception, `str(exc)`. -/
def PyError.text : PyError → String
  | .apiError _ _ m _ | .validationError m | .valueError m | .invalidVersion m
  | .typeError m | .keyError m | .overflowError m => m
  | .integrityError => "IntegrityError"
  | .missingGreenlet => "MissingGreenlet"

/-! ## Computations that may raise -/

section Raising

variable {ε α β : Type}

/-- **A sequence returns when each part does.** This is how every block of statements below is
taken apart, one `←` at a time. -/
theorem bind_eq_ok {x : Except ε α} {f : α → Except ε β} {b : β} :
    (x >>= f) = .ok b ↔ ∃ a, x = .ok a ∧ f a = .ok b := by
  cases x with
  | error e =>
    constructor
    · intro h
      cases h
    · rintro ⟨_, h, _⟩
      cases h
  | ok a =>
    constructor
    · exact fun h => ⟨a, rfl, h⟩
    · rintro ⟨_, h, hb⟩
      cases h
      exact hb

@[simp] theorem pure_eq_ok {a b : α} : (pure a : Except ε α) = .ok b ↔ a = b := by
  constructor
  · intro h
    cases h
    rfl
  · rintro rfl
    rfl

/-- A value that `toOption` gives was returned. -/
theorem eq_ok_of_toOption {ε α : Type} {x : Except ε α} {a : α} (h : x.toOption = some a) :
    x = .ok a := by
  cases x with
  | error e => cases h
  | ok b => exact congrArg _ (Option.some.inj h)

/-- `if condition: raise error`, the shape of nearly every check of the service. -/
def raiseIf (condition : Prop) [Decidable condition] (error : ε) : Except ε Unit :=
  if condition then .error error else .ok ()

/-- A block after `raiseIf` returns when the condition is false and it
does. -/
theorem raiseIf_bind_eq_ok {c : Prop} [Decidable c] {e : ε} {f : Unit → Except ε β} {b : β} :
    (raiseIf c e >>= f) = .ok b ↔ ¬ c ∧ f () = .ok b := by
  unfold raiseIf
  by_cases hc : c
  · rw [if_pos hc]
    exact ⟨fun h => (by cases h), fun h => absurd hc h.1⟩
  · rw [if_neg hc]
    exact ⟨fun h => ⟨hc, h⟩, fun h => h.2⟩

/-- A check of every item passes when it does at each. -/
theorem forM_eq_ok {f : α → Except ε Unit} {xs : List α} :
    xs.forM f = .ok () ↔ ∀ x ∈ xs, f x = .ok () := by
  induction xs with
  | nil => exact ⟨fun _ x hx => absurd hx List.not_mem_nil, fun _ => rfl⟩
  | cons x xs ih =>
    show (f x >>= fun _ => xs.forM f) = _ ↔ _
    rw [bind_eq_ok, List.forall_mem_cons, ← ih]
    exact ⟨fun ⟨_, hx, h⟩ => ⟨hx, h⟩, fun ⟨hx, h⟩ => ⟨_, hx, h⟩⟩

/-- **A comprehension returns when it does at every item**, and then its items are the values
returned, in order. -/
theorem mapM_eq_ok {f : α → Except ε β} {xs : List α} {ys : List β} :
    xs.mapM f = .ok ys ↔ List.Forall₂ (fun x y => f x = .ok y) xs ys := by
  induction xs generalizing ys with
  | nil =>
    rw [List.mapM_nil, pure_eq_ok, List.forall₂_nil_left_iff]
    exact eq_comm
  | cons x xs ih =>
    rw [List.mapM_cons, bind_eq_ok, List.forall₂_cons_left_iff]
    constructor
    · rintro ⟨y, hy, h⟩
      obtain ⟨ys', hys, h⟩ := bind_eq_ok.mp h
      exact ⟨y, ys', hy, ih.mp hys, (pure_eq_ok.mp h).symm⟩
    · rintro ⟨y, ys', hy, hys, rfl⟩
      exact ⟨y, hy, bind_eq_ok.mpr ⟨ys', ih.mpr hys, rfl⟩⟩

end Raising

/-! ## Equality and membership -/

namespace Json

/-- The number a value compares as: Python's `bool` is a subclass of `int`, and numbers of
different types compare by value. So `True == 1` and `1 == 1.0`, while `"1" == 1` is false. -/
def num? : Json → Option ℚ
  | .bool b => some (if b then 1 else 0)
  | .int i => some i
  | .float q => some q
  | _ => none

mutual

/-- Python's `==`. Two dictionaries are equal when they have as many keys and
every item of the one has an equal item in the other. -/
def eqv : Json → Json → Bool
  | .null, .null => true
  | .str s, .str t => s == t
  | .arr xs, .arr ys => eqvList xs ys
  | .obj fs, .obj gs => fs.length == gs.length && eqvFields fs gs
  | .bool b, j => j.num? == some (if b then 1 else 0)
  | .int i, j => j.num? == some (i : ℚ)
  | .float q, j => j.num? == some q
  | _, _ => false

/-- `==` of two lists, item by item. -/
def eqvList : List Json → List Json → Bool
  | [], [] => true
  | x :: xs, y :: ys => eqv x y && eqvList xs ys
  | _, _ => false

/-- Every item of the first dictionary has an equal item in the second. -/
def eqvFields : List (String × Json) → List (String × Json) → Bool
  | [], _ => true
  | (k, v) :: fs, gs =>
    (match gs.lookup k with
      | some w => eqv v w
      | none => false) && eqvFields fs gs

end

/-- The text of a value that `isinstance(value, str)`. -/
def str? : Json → Option String
  | .str s => some s
  | _ => none

/-- The number of a value that is an integer. -/
def int? : Json → Option ℤ
  | .int i => some i
  | _ => none

/-- `isinstance(value, bool)`. -/
def isBool : Json → Bool
  | .bool _ => true
  | _ => false

/-- `isinstance(value, Container)`. -/
def isContainer : Json → Bool
  | .str _ | .arr _ | .obj _ => true
  | _ => false

/-- `hash(value)` succeeds: lists and dictionaries are not hashable. -/
def hashable : Json → Bool
  | .arr _ | .obj _ => false
  | _ => true

/-- `element in container`. Membership in a string asks for a string, and
membership in a dictionary looks the key up, which hashes it. Membership in a
list compares item by item, and equality of JSON values is symmetric. -/
def isIn (element : Json) : Json → Except PyError Bool
  | .str t => match element.str? with
    | some s => .ok (decide (s.toList <:+: t.toList))
    | none => .error (.typeError "'in <string>' requires string as left operand")
  | .arr ys => .ok (ys.any (fun y => element.eqv y))
  | .obj gs => match element.str? with
    | some s => .ok ((gs.lookup s).isSome)
    | none => if element.hashable then .ok false
      else .error (.typeError "unhashable type")
  | _ => .error (.typeError "argument is not iterable")

/-! ## Values up to the order of object keys -/

/-- **Two values that differ only in the order of object keys**, at any
depth. A dictionary holds a key once, so the items that trade places have
distinct keys. -/
inductive Reordered : Json → Json → Prop where
  | refl (a : Json) : Reordered a a
  | trans {a b c : Json} : Reordered a b → Reordered b c → Reordered a c
  /-- The items of an object trade places. -/
  | keys {fs gs : List (String × Json)} : (fs.map Prod.fst).Nodup → fs.Perm gs →
      Reordered (.obj fs) (.obj gs)
  /-- An item of a list changes its order within. -/
  | item {a b : Json} (xs ys : List Json) : Reordered a b →
      Reordered (.arr (xs ++ a :: ys)) (.arr (xs ++ b :: ys))
  /-- A value of an object does. -/
  | field {a b : Json} (k : String) (xs ys : List (String × Json)) : Reordered a b →
      Reordered (.obj (xs ++ (k, a) :: ys)) (.obj (xs ++ (k, b) :: ys))

end Json

/-- A lookup in a dictionary does not depend on the order of its items. -/
theorem lookup_perm {β : Type} {fs gs : List (String × β)} (h : fs.Perm gs)
    (hk : (fs.map Prod.fst).Nodup) (k : String) : fs.lookup k = gs.lookup k := by
  induction h with
  | nil => rfl
  | cons x _ ih =>
    obtain ⟨kx, vx⟩ := x
    rw [List.map_cons, List.nodup_cons] at hk
    rw [List.lookup_cons, List.lookup_cons, ih hk.2]
  | swap x y l =>
    obtain ⟨kx, vx⟩ := x
    obtain ⟨ky, vy⟩ := y
    simp only [List.map_cons, List.nodup_cons, List.mem_cons, not_or] at hk
    have hne : ky ≠ kx := hk.1.1
    simp only [List.lookup_cons]
    by_cases hx : k = kx
    · subst hx
      simp [beq_false_of_ne hne.symm]
    · simp [beq_false_of_ne hx]
  | trans h₁ _ ih₁ ih₂ =>
    exact (ih₁ hk).trans (ih₂ ((h₁.map Prod.fst).nodup_iff.mp hk))

/-- An item of a dictionary is what its key looks up. -/
theorem lookup_eq_some_of_mem {β : Type} {fs : List (String × β)} {k : String} {v : β}
    (hk : (fs.map Prod.fst).Nodup) (hm : (k, v) ∈ fs) : fs.lookup k = some v := by
  induction fs with
  | nil => cases hm
  | cons f fs ih =>
    obtain ⟨k', v'⟩ := f
    rw [List.map_cons, List.nodup_cons] at hk
    rcases List.mem_cons.mp hm with heq | hm
    · cases heq
      rw [List.lookup_cons, beq_self_eq_true]
    · have hne : k ≠ k' := fun he =>
        hk.1 (he ▸ List.mem_map.mpr ⟨(k, v), hm, rfl⟩)
      rw [List.lookup_cons, beq_false_of_ne hne]
      exact ih hk.2 hm

/-- What a key looks up is an item of the dictionary. -/
theorem mem_of_lookup_eq_some {β : Type} {fs : List (String × β)} {k : String} {v : β}
    (h : fs.lookup k = some v) : (k, v) ∈ fs := by
  induction fs with
  | nil => cases h
  | cons f fs ih =>
    obtain ⟨k', v'⟩ := f
    rw [List.lookup_cons] at h
    by_cases hk : k = k'
    · subst hk
      rw [beq_self_eq_true] at h
      cases h
      exact List.mem_cons_self
    · rw [beq_false_of_ne hk] at h
      exact List.mem_cons_of_mem _ (ih h)

/-- A key of a dictionary looks something up. -/
theorem exists_lookup_of_mem {β : Type} {fs : List (String × β)} {k : String}
    (h : k ∈ fs.map Prod.fst) : ∃ v, fs.lookup k = some v := by
  induction fs with
  | nil => cases h
  | cons f fs ih =>
    obtain ⟨k', v'⟩ := f
    rw [List.lookup_cons]
    by_cases hk : k = k'
    · exact ⟨v', by simp [hk]⟩
    · rw [beq_false_of_ne hk]
      exact ih ((List.mem_cons.mp h).resolve_left hk)

namespace Json

variable {a b : Json}

/-- A value stands in its own order. -/
theorem reordered_of_eq (a b : Json) (h : a = b) : Reordered a b :=
  h ▸ .refl a

/-- **What a function reads off the outermost constructor** it reads alike
off a value with its keys in another order. -/
theorem Reordered.eq_of_shallow {β : Type} (f : Json → β)
    (harr : ∀ xs ys, f (.arr xs) = f (.arr ys)) (hobj : ∀ fs gs, f (.obj fs) = f (.obj gs))
    (h : Reordered a b) : f a = f b := by
  induction h with
  | refl => rfl
  | trans _ _ ih₁ ih₂ => exact ih₁.trans ih₂
  | keys => exact hobj _ _
  | item => exact harr _ _
  | field => exact hobj _ _

/-- Whether a value can be hashed does not depend on the order of its keys. -/
theorem Reordered.hashable_eq (h : Reordered a b) : a.hashable = b.hashable :=
  h.eq_of_shallow hashable (fun _ _ => rfl) (fun _ _ => rfl)

theorem Reordered.isContainer_eq (h : Reordered a b) : a.isContainer = b.isContainer :=
  h.eq_of_shallow isContainer (fun _ _ => rfl) (fun _ _ => rfl)

theorem Reordered.str?_eq (h : Reordered a b) : a.str? = b.str? :=
  h.eq_of_shallow str? (fun _ _ => rfl) (fun _ _ => rfl)

theorem Reordered.isBool_eq (h : Reordered a b) : a.isBool = b.isBool :=
  h.eq_of_shallow isBool (fun _ _ => rfl) (fun _ _ => rfl)

/-- The comparison of items as one test of all of them, which is the form in which a permutation
of the items can be carried through it. -/
theorem eqvFields_eq_all (fs gs : List (String × Json)) :
    eqvFields fs gs = fs.all (fun f =>
      match gs.lookup f.1 with
      | some w => eqv f.2 w
      | none => false) := by
  induction fs with
  | nil => rfl
  | cons f fs ih =>
    obtain ⟨k, v⟩ := f
    rw [eqvFields, ih, List.all_cons]

/-- Replacing an item of a list on the right of `==` by one that compares the
same changes nothing. -/
theorem eqvList_congr_right {x y : Json} (h : ∀ z, eqv z x = eqv z y)
    (zs xs ys : List Json) :
    eqvList zs (xs ++ x :: ys) = eqvList zs (xs ++ y :: ys) := by
  induction xs generalizing zs with
  | nil =>
    cases zs with
    | nil => rfl
    | cons z zs => simp only [List.nil_append, eqvList, h z]
  | cons w xs ih =>
    cases zs with
    | nil => rfl
    | cons z zs => simp only [List.cons_append, eqvList, ih zs]

/-- The same on the left of `==`. -/
theorem eqvList_congr_left {x y : Json} (h : ∀ z, eqv x z = eqv y z)
    (zs xs ys : List Json) :
    eqvList (xs ++ x :: ys) zs = eqvList (xs ++ y :: ys) zs := by
  induction xs generalizing zs with
  | nil =>
    cases zs with
    | nil => rfl
    | cons z zs => simp only [List.nil_append, eqvList, h z]
  | cons w xs ih =>
    cases zs with
    | nil => rfl
    | cons z zs => simp only [List.cons_append, eqvList, ih zs]

/-- Looking a key up after replacing the value of one item: either the same
value comes out, or the replaced one. -/
theorem lookup_replace (k key : String) (x y : Json) (xs ys : List (String × Json)) :
    (xs ++ (k, x) :: ys).lookup key = (xs ++ (k, y) :: ys).lookup key ∨
      ((xs ++ (k, x) :: ys).lookup key = some x ∧
        (xs ++ (k, y) :: ys).lookup key = some y) := by
  induction xs with
  | nil =>
    simp only [List.nil_append, List.lookup_cons]
    by_cases hk : key = k
    · simp [hk]
    · simp [beq_false_of_ne hk]
  | cons f xs ih =>
    obtain ⟨k', v'⟩ := f
    simp only [List.cons_append, List.lookup_cons]
    by_cases hk : key = k'
    · simp [hk]
    · simpa [beq_false_of_ne hk] using ih

/-- **Python's equality does not see the order of keys on the right.** The induction is on how
the order came about; at a permutation of keys the lookups agree, and one level further in the
hypothesis is used at the value that was replaced. -/
theorem eqv_congr_right (h : Reordered a b) (x : Json) : eqv x a = eqv x b := by
  induction h generalizing x with
  | refl => rfl
  | trans _ _ ih₁ ih₂ => exact (ih₁ x).trans (ih₂ x)
  | keys hk hp =>
    cases x with
    | obj hs =>
      simp only [eqv, hp.length_eq, eqvFields_eq_all, lookup_perm hp hk]
    | _ => rfl
  | item xs ys _ ih =>
    cases x with
    | arr zs => exact eqvList_congr_right ih zs xs ys
    | _ => rfl
  | field k xs ys _ ih =>
    cases x with
    | obj hs =>
      rename_i c d _
      -- The number of items and the keys are the same, so only a lookup of `k`
      -- can tell the two apart, and the hypothesis covers what it gives.
      simp only [eqv, eqvFields_eq_all, List.length_append, List.length_cons]
      congr 2
      funext f
      rcases lookup_replace k f.1 c d xs ys with heq | ⟨hc, hd⟩
      · rw [heq]
      · rw [hc, hd]
        exact ih f.2
    | _ => rfl

/-- **Python's equality does not see the order of keys on the left.** -/
theorem eqv_congr_left (h : Reordered a b) (x : Json) : eqv a x = eqv b x := by
  induction h generalizing x with
  | refl => rfl
  | trans _ _ ih₁ ih₂ => exact (ih₁ x).trans (ih₂ x)
  | keys _ hp =>
    cases x with
    | obj hs => simp only [eqv, hp.length_eq, eqvFields_eq_all, hp.all_eq]
    | _ => rfl
  | item xs ys _ ih =>
    cases x with
    | arr zs => exact eqvList_congr_left ih zs xs ys
    | _ => rfl
  | field k xs ys _ ih =>
    cases x with
    | obj hs =>
      simp only [eqv, eqvFields_eq_all, List.length_append, List.length_cons,
        List.all_append, List.all_cons]
      congr 2
      cases hs.lookup k with
      | none => rfl
      | some w => simp only [ih w]
    | _ => rfl

/-- Membership does not see the order of keys of the element. -/
theorem isIn_congr_left (h : Reordered a b) (x : Json) : a.isIn x = b.isIn x := by
  cases x <;> simp only [isIn, h.str?_eq, h.hashable_eq, eqv_congr_left h]

/-- Membership does not see the order of keys of the container, nor of the
values it holds. -/
theorem isIn_congr_right (h : Reordered a b) (x : Json) : x.isIn a = x.isIn b := by
  induction h with
  | refl => rfl
  | trans _ _ ih₁ ih₂ => exact ih₁.trans ih₂
  | keys hk hp => simp only [isIn, lookup_perm hp hk]
  | item xs ys hr _ =>
    simp only [isIn, List.any_append, List.any_cons, eqv_congr_right hr]
  | field k xs ys _ _ =>
    rename_i c d _ _
    simp only [isIn]
    cases x.str? with
    | none => rfl
    | some s =>
      rcases lookup_replace k s c d xs ys with heq | ⟨hc, hd⟩
      · simp only [heq]
      · simp only [hc, hd]
        rfl

end Json

/-! ## Dictionaries -/

/-- **A dictionary with text keys**: its items in insertion order, each key once. A document
that repeats a key is not a `Dict` before it is parsed, and parsing keeps the last value
(`ofPairs`). -/
structure Dict (β : Type) where
  /-- The items, in the order in which their keys were first assigned. -/
  items : List (String × β)
  /-- No key stands in it twice. -/
  nodup : (items.map Prod.fst).Nodup

namespace Dict

variable {β : Type}

@[ext] theorem ext {d e : Dict β} (h : d.items = e.items) : d = e := by
  cases d
  cases e
  cases h
  rfl

/-- `d.get(key)`. -/
def get? (d : Dict β) (key : String) : Option β := d.items.lookup key

/-- `d.keys()`. -/
def keys (d : Dict β) : List String := d.items.map Prod.fst

/-- An assignment `d[key] = value` on the items: a key that is there keeps its
place, a new one is appended. -/
def assign (key : String) (value : β) : List (String × β) → List (String × β)
  | [] => [(key, value)]
  | (k, v) :: rest => if k = key then (k, value) :: rest else (k, v) :: assign key value rest

/-- The keys after an assignment: no key moves, and a new one comes last. -/
theorem map_fst_assign (key : String) (value : β) (items : List (String × β)) :
    (assign key value items).map Prod.fst
      = if key ∈ items.map Prod.fst then items.map Prod.fst
        else items.map Prod.fst ++ [key] := by
  induction items with
  | nil => rfl
  | cons f rest ih =>
    obtain ⟨k, v⟩ := f
    rw [assign]
    by_cases hk : k = key
    · rw [if_pos hk]
      simp [hk]
    · rw [if_neg hk, List.map_cons, ih]
      have hk' : ¬ key = k := fun h => hk h.symm
      by_cases hm : key ∈ rest.map Prod.fst
      · simp [hm]
      · rw [if_neg hm, if_neg (by simp [hk', hm])]
        rfl

/-- An assignment repeats no key. -/
theorem nodup_assign (key : String) (value : β) {items : List (String × β)}
    (h : (items.map Prod.fst).Nodup) : ((assign key value items).map Prod.fst).Nodup := by
  rw [map_fst_assign]
  split
  · exact h
  · rename_i hm
    exact List.nodup_append.mpr ⟨h, List.nodup_singleton key, by
      rintro a ha b hb rfl
      exact hm (List.mem_singleton.mp hb ▸ ha)⟩

/-- The items of `{key: value for key, value in pairs}`: a later pair
overwrites the value of an earlier one. -/
def collect (pairs : List (String × β)) : List (String × β) :=
  pairs.foldl (fun items f => assign f.1 f.2 items) []

/-- Nor does a run of them. -/
theorem nodup_foldl_assign (pairs : List (String × β)) {items : List (String × β)}
    (h : (items.map Prod.fst).Nodup) :
    ((pairs.foldl (fun items f => assign f.1 f.2 items) items).map Prod.fst).Nodup := by
  induction pairs generalizing items with
  | nil => exact h
  | cons f rest ih => exact ih (nodup_assign f.1 f.2 h)

/-- `{key: value for key, value in pairs}`. -/
def ofPairs (pairs : List (String × β)) : Dict β :=
  ⟨collect pairs, nodup_foldl_assign pairs List.nodup_nil⟩

/-- An assignment of a new key appends its item. -/
theorem assign_of_not_mem {key : String} (value : β) {items : List (String × β)}
    (h : key ∉ items.map Prod.fst) : assign key value items = items ++ [(key, value)] := by
  induction items with
  | nil => rfl
  | cons f rest ih =>
    obtain ⟨k, v⟩ := f
    rw [List.map_cons, List.mem_cons, not_or] at h
    rw [assign, if_neg (fun hk => h.1 hk.symm), ih h.2]
    rfl

/-- Pairs with distinct keys are the items of their dictionary. -/
@[simp] theorem items_ofPairs {pairs : List (String × β)}
    (h : (pairs.map Prod.fst).Nodup) : (ofPairs pairs).items = pairs := by
  -- What has been assigned so far is a list whose keys the rest does not repeat.
  suffices hgen : ∀ (acc rest : List (String × β)), ((acc ++ rest).map Prod.fst).Nodup →
      rest.foldl (fun items f => assign f.1 f.2 items) acc = acc ++ rest from
    hgen [] pairs h
  intro acc rest
  induction rest generalizing acc with
  | nil => intro _; exact (List.append_nil acc).symm
  | cons f rest ih =>
    intro hnd
    have hf : f.1 ∉ acc.map Prod.fst := by
      rw [List.map_append, List.nodup_append] at hnd
      exact fun hm => hnd.2.2 _ hm _ List.mem_cons_self rfl
    rw [List.foldl_cons, assign_of_not_mem f.2 hf, ih, List.append_assoc]
    · rfl
    · rw [List.append_assoc]
      exact hnd

/-- `{key: f(value) for key, value in d.items()}`. -/
def mapValues {γ : Type} (f : β → γ) (d : Dict β) : Dict γ :=
  ⟨d.items.map (fun item => (item.1, f item.2)), by
    rw [List.map_map]
    exact d.nodup⟩

/-- Mapping the values of a dictionary through a function that keeps each of
them keeps the dictionary. -/
theorem mapValues_eq_self {d : Dict β} {f : β → β}
    (h : ∀ item ∈ d.items, f item.2 = item.2) : d.mapValues f = d := by
  refine Dict.ext ?_
  show d.items.map (fun item => (item.1, f item.2)) = d.items
  rw [List.map_congr_left (fun item hm => by rw [h item hm]), List.map_id']

@[simp] theorem keys_mapValues {γ : Type} (f : β → γ) (d : Dict β) :
    (d.mapValues f).keys = d.keys := by
  unfold keys mapValues
  rw [List.map_map]
  rfl

/-- **An item is a lookup that succeeds.** -/
theorem mem_items_iff {d : Dict β} {key : String} {value : β} :
    (key, value) ∈ d.items ↔ d.get? key = some value :=
  ⟨lookup_eq_some_of_mem d.nodup, mem_of_lookup_eq_some⟩

theorem exists_get?_of_mem_keys {d : Dict β} {key : String} (h : key ∈ d.keys) :
    ∃ value, d.get? key = some value :=
  exists_lookup_of_mem h

theorem mem_keys_of_get? {d : Dict β} {key : String} {value : β}
    (h : d.get? key = some value) : key ∈ d.keys :=
  List.mem_map.mpr ⟨(key, value), mem_of_lookup_eq_some h, rfl⟩

end Dict

/-! ## UUIDs -/

/-- **A UUID**, by its integer. The width of 128 bits plays no role in what follows, so any
natural number is one: the service compares ids, prints them and parses none that it did not
print. -/
structure UUID where
  int : ℕ
deriving DecidableEq, Repr

/-- The hexadecimal digits of `'%032x' % int`. -/
def UUID.hex (id : UUID) : List Char :=
  let digits := Nat.digits 16 id.int
  ((digits ++ List.replicate (32 - digits.length) 0).map Nat.digitChar).reverse

/-- `str(id)`: the digits in groups of 8, 4, 4, 4 and 12. -/
def UUID.str (id : UUID) : String :=
  let hex := id.hex
  String.ofList (hex.take 8 ++ '-' :: (hex.drop 8).take 4 ++ '-' :: (hex.drop 12).take 4
    ++ '-' :: (hex.drop 16).take 4 ++ '-' :: hex.drop 20)

/-- The digit of a hexadecimal character. -/
def hexDigit (c : Char) : ℕ := (List.range 16).findIdx (fun d => Nat.digitChar d == c)

/-- The digits of an id, the leading zeros among them, are hexadecimal. -/
theorem UUID.digit_lt (id : UUID) : ∀ d ∈ Nat.digits 16 id.int
    ++ List.replicate (32 - (Nat.digits 16 id.int).length) 0, d < 16 := by
  intro d hd
  rcases List.mem_append.mp hd with hd | hd
  · exact Nat.digits_lt_base (by decide) hd
  · rw [List.eq_of_mem_replicate hd]
    decide

/-- The integer is read back from its digits. -/
theorem UUID.ofDigits_hex (id : UUID) :
    Nat.ofDigits 16 (id.hex.reverse.map hexDigit) = id.int := by
  have hback : ∀ d < 16, hexDigit (Nat.digitChar d) = d := by decide
  have hmap : ∀ ds : List ℕ, (∀ d ∈ ds, d < 16) → (ds.map Nat.digitChar).map hexDigit = ds := by
    intro ds hds
    rw [List.map_map]
    exact (List.map_congr_left (fun d hd => hback d (hds d hd))).trans (List.map_id ds)
  unfold hex
  rw [List.reverse_reverse, hmap _ id.digit_lt, Nat.ofDigits_append_replicate_zero,
    Nat.ofDigits_digits]

/-- No digit is a dash or a colon, so that neither the dashes of the text nor the colons of a
cache key can be mistaken for one. -/
theorem UUID.mem_hex (id : UUID) {c : Char} (h : c ∈ id.hex) : c ≠ '-' ∧ c ≠ ':' := by
  have hall : ∀ d < 16, Nat.digitChar d ≠ '-' ∧ Nat.digitChar d ≠ ':' := by decide
  obtain ⟨d, hd, rfl⟩ := List.mem_map.mp (List.mem_reverse.mp h)
  exact hall d (id.digit_lt d hd)

/-- The digits are the text without its dashes. -/
theorem UUID.filter_str (id : UUID) : id.str.toList.filter (fun c => c ≠ '-') = id.hex := by
  have hself : ∀ cs : List Char, (∀ c ∈ cs, c ∈ id.hex) → cs.filter (fun c => c ≠ '-') = cs :=
    fun cs hcs => List.filter_eq_self.mpr (fun c hc => decide_eq_true (id.mem_hex (hcs c hc)).1)
  have hgroups : id.hex.take 8 ++ ((id.hex.drop 8).take 4 ++ ((id.hex.drop 12).take 4
      ++ ((id.hex.drop 16).take 4 ++ id.hex.drop 20))) = id.hex := by
    have h₂₀ : id.hex.drop 20 = (id.hex.drop 16).drop 4 := by rw [List.drop_drop]
    have h₁₆ : id.hex.drop 16 = (id.hex.drop 12).drop 4 := by rw [List.drop_drop]
    have h₁₂ : id.hex.drop 12 = (id.hex.drop 8).drop 4 := by rw [List.drop_drop]
    rw [h₂₀, List.take_append_drop, h₁₆, List.take_append_drop, h₁₂, List.take_append_drop,
      List.take_append_drop]
  unfold UUID.str
  simp only [String.toList_ofList, List.filter_append, List.filter_cons, ne_eq, not_true_eq_false,
    decide_false, Bool.false_eq_true, if_false, List.append_assoc]
  simp only [← ne_eq]
  rw [hself _ (fun c hc => List.mem_of_mem_take hc),
    hself _ (fun c hc => List.mem_of_mem_drop (List.mem_of_mem_take hc)),
    hself _ (fun c hc => List.mem_of_mem_drop (List.mem_of_mem_take hc)),
    hself _ (fun c hc => List.mem_of_mem_drop (List.mem_of_mem_take hc)),
    hself _ (fun c hc => List.mem_of_mem_drop hc)]
  exact hgroups

/-- **Different ids have different texts.** The dashes are filtered out and the digits read
back. -/
theorem UUID.str_injective : Function.Injective UUID.str := by
  intro a b h
  have hhex : a.hex = b.hex := by rw [← a.filter_str, ← b.filter_str, h]
  have hint : a.int = b.int := by rw [← a.ofDigits_hex, ← b.ofDigits_hex, hhex]
  cases a
  cases b
  exact congrArg UUID.mk hint

/-! ## Instants -/

/-- The number of microseconds between `datetime.min` and `datetime.max`. -/
def datetimeSpan : ℕ := 315537897600000000

instance : NeZero datetimeSpan := ⟨by decide⟩

/-- **A UTC datetime**, in microseconds since `datetime.min`. It is bounded on both sides, as
Python's is: a sum that leaves the range raises. -/
abbrev Instant := Fin datetimeSpan

/-- **A datetime as a request carries it**: the wall clock and the offset
from UTC in microseconds, with no offset for a naive one. -/
structure Datetime where
  /-- What its clock shows. -/
  wall : Fin datetimeSpan
  /-- How far its clock is ahead of UTC, if that is known. -/
  utcoffset : Option ℤ
deriving DecidableEq, Repr

/-- `value.astimezone(UTC)` of an aware datetime. Near the ends of the range
the shifted wall clock is no datetime. -/
def Datetime.astimezoneUTC (value : Datetime) : Except PyError Instant :=
  let shifted : ℤ := (value.wall : ℕ) - value.utcoffset.getD 0
  if h : 0 ≤ shifted ∧ shifted.toNat < datetimeSpan then
    .ok ⟨shifted.toNat, h.2⟩
  else
    .error (.overflowError "date value out of range")

/-- A UTC instant as an aware datetime. -/
def Datetime.ofInstant (t : Instant) : Datetime := ⟨t, some 0⟩

/-- An instant is its own conversion. -/
@[simp] theorem Datetime.astimezoneUTC_ofInstant (t : Instant) :
    (Datetime.ofInstant t).astimezoneUTC = .ok t := by
  have hlt : (t : ℕ) < datetimeSpan := t.isLt
  simp [astimezoneUTC, ofInstant, hlt]

/-! ## Sorting by a key -/

/-- `sorted(xs, key=key)`: the stable sort. Items of one key keep the order they came in. -/
def sortedBy {α β : Type} [LinearOrder β] (key : α → β) (xs : List α) : List α :=
  xs.insertionSort (fun a b => key a ≤ key b)

section SortedBy

variable {α β : Type} [LinearOrder β] (key : α → β)

/-- Sorting loses nothing and adds nothing. -/
theorem sortedBy_perm (xs : List α) : (sortedBy key xs).Perm xs :=
  List.perm_insertionSort _ xs

@[simp] theorem mem_sortedBy {xs : List α} {a : α} : a ∈ sortedBy key xs ↔ a ∈ xs :=
  (sortedBy_perm key xs).mem_iff

/-- The result is in key order. -/
theorem sortedBy_pairwise (xs : List α) :
    (sortedBy key xs).Pairwise (fun a b => key a ≤ key b) :=
  haveI : Std.Total (fun a b : α => key a ≤ key b) := ⟨fun _ _ => le_total _ _⟩
  haveI : IsTrans α (fun a b => key a ≤ key b) := ⟨fun _ _ _ => le_trans⟩
  List.pairwise_insertionSort _ xs

/-- A list in key order is its own sort. -/
theorem sortedBy_eq_self {xs : List α}
    (h : xs.Pairwise (fun a b => key a ≤ key b)) : sortedBy key xs = xs :=
  List.Pairwise.insertionSort_eq h

/-- **With distinct keys the sort forgets the order it started from.** -/
theorem sortedBy_eq_of_perm {xs ys : List α} (h : xs.Perm ys)
    (hkey : (xs.map key).Nodup) : sortedBy key xs = sortedBy key ys := by
  have hinj : ∀ a b : α, a ∈ sortedBy key xs → b ∈ sortedBy key ys →
      key a ≤ key b → key b ≤ key a → a = b := by
    intro a b ha hb hab hba
    have ha' : a ∈ xs := (mem_sortedBy key).mp ha
    have hb' : b ∈ xs := h.mem_iff.mpr ((mem_sortedBy key).mp hb)
    exact List.inj_on_of_nodup_map hkey ha' hb' (le_antisymm hab hba)
  exact List.Perm.eq_of_pairwise hinj (sortedBy_pairwise key xs) (sortedBy_pairwise key ys)
    (((sortedBy_perm key xs).trans h).trans (sortedBy_perm key ys).symm)

end SortedBy

end CohortSwitch
