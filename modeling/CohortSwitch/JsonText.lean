import CohortSwitch.Operators
import CohortSwitch.Texts

/-!
# The canonical text of a JSON value

`json.dumps(value, sort_keys=True, separators=(",", ":"))`: the keys of an object are
sorted, nothing stands between the parts but the separators, and in a text every
character outside ASCII is escaped as its UTF-16 units.

`dump_append_inj` says that a text determines its value, whatever comes after it, and
`eqv_of_canonicalText` that two values with the same canonical text are equal in
Python, where dictionaries are compared without their order.

## Reading from left to right

That a text determines its value is proved by what a parser would rely on. The first
character says which kind of value it is (`head?_dump`); a text in quotes ends at the
first quote that is not escaped; a number goes on as long as its characters do, and what
may come after a value does not go on with one (`Ends`). The statements are therefore
about a text with anything after it, and the induction is on the value, with one lemma for
lists and one for objects.

## Numbers

`float.__repr__` writes the shortest text that reads back as the number. No property of
the search for it is needed but that its result reads back, which makes different numbers
have different texts (`floatText_injective`); that a float has a point or an exponent tells
it from every integer.

## Sorted keys

Sorting the keys of a value rearranges it (`reordered_sortKeys`), and Python's equality
does not see that. So equal texts mean equal sorted values, and these mean equal values.
-/

namespace CohortSwitch

/-! ## Texts in quotes -/

/-- `'{0:04x}'.format(n)`. -/
def hex4 (n : ℕ) : List Char :=
  [Nat.digitChar (n / 4096 % 16), Nat.digitChar (n / 256 % 16), Nat.digitChar (n / 16 % 16),
    Nat.digitChar (n % 16)]

/-- The escape of a UTF-16 unit. -/
def escapeUnit (n : ℕ) : List Char := '\\' :: 'u' :: hex4 n

/-- The characters that have an escape of their own, with its letter. -/
def ESCAPE_DCT : List (Char × Char) :=
  [('\\', '\\'), ('"', '"'), ('\x08', 'b'), ('\x0c', 'f'), ('\n', 'n'), ('\r', 'r'), ('\t', 't')]

/-- A character of a text; what is not printable ASCII is escaped. -/
def escapeChar (c : Char) : List Char :=
  match ESCAPE_DCT.lookup c with
  | some letter => ['\\', letter]
  | none =>
    if 0x20 ≤ c.toNat ∧ c.toNat ≤ 0x7e then [c]
    else if c.toNat < 0x10000 then escapeUnit c.toNat
    else
      let above := c.toNat - 0x10000
      escapeUnit (0xd800 + above / 0x400) ++ escapeUnit (0xdc00 + above % 0x400)

/-- A text in quotes. -/
def quoted (s : String) : List Char := '"' :: s.toList.flatMap escapeChar ++ ['"']

/-! ### Reading an escaped text -/

/-- What a hexadecimal digit stands for. -/
def hexDigitValue (c : Char) : ℕ := if c.toNat < 0x40 then c.toNat - 0x30 else c.toNat - 0x57

/-- What four of them stand for. -/
def hexValue (a b c d : Char) : ℕ :=
  4096 * hexDigitValue a + 256 * hexDigitValue b + 16 * hexDigitValue c + hexDigitValue d

/-- The first character that an escaped text stands for. -/
def unescape : List Char → Option (Char × List Char)
  | '\\' :: 'u' :: a :: b :: c :: d :: rest =>
    if 0xd800 ≤ hexValue a b c d ∧ hexValue a b c d < 0xdc00 then
      match rest with
      | '\\' :: 'u' :: a' :: b' :: c' :: d' :: rest =>
        some (Char.ofNat (0x10000 + (hexValue a b c d - 0xd800) * 0x400
          + (hexValue a' b' c' d' - 0xdc00)), rest)
      | _ => none
    else some (Char.ofNat (hexValue a b c d), rest)
  | '\\' :: letter :: rest =>
    (ESCAPE_DCT.find? (fun entry => entry.2 == letter)).map (fun entry => (entry.1, rest))
  | c :: rest => some (c, rest)
  | [] => none

/-- Four digits are read back. -/
theorem hexValue_hex4 {n : ℕ} (h : n < 0x10000) :
    hexValue (Nat.digitChar (n / 4096 % 16)) (Nat.digitChar (n / 256 % 16))
      (Nat.digitChar (n / 16 % 16)) (Nat.digitChar (n % 16)) = n := by
  have hall : ∀ m < 16, hexDigitValue (Nat.digitChar m) = m := by decide
  have hdigit : ∀ m, hexDigitValue (Nat.digitChar (m % 16)) = m % 16 := fun m =>
    hall _ (Nat.mod_lt m (by decide))
  unfold hexValue
  rw [hdigit, hdigit, hdigit, hdigit]
  omega

/-- A unit that is no high surrogate stands for itself. -/
theorem unescape_escapeUnit {n : ℕ} (h : n < 0x10000) (hsurrogate : n < 0xd800 ∨ 0xdc00 ≤ n)
    (rest : List Char) : unescape (escapeUnit n ++ rest) = some (Char.ofNat n, rest) := by
  show (if 0xd800 ≤ hexValue _ _ _ _ ∧ hexValue _ _ _ _ < 0xdc00 then _ else _) = _
  rw [hexValue_hex4 h, if_neg (by omega)]
  rfl

/-- A high surrogate stands for a character with the unit after it. -/
theorem unescape_surrogates {above : ℕ} (h : above < 0x100000) (rest : List Char) :
    unescape (escapeUnit (0xd800 + above / 0x400) ++ escapeUnit (0xdc00 + above % 0x400) ++ rest)
      = some (Char.ofNat (0x10000 + above), rest) := by
  rw [List.append_assoc]
  show (if 0xd800 ≤ hexValue _ _ _ _ ∧ hexValue _ _ _ _ < 0xdc00 then
    some (Char.ofNat (0x10000 + (hexValue _ _ _ _ - 0xd800) * 0x400
      + (hexValue _ _ _ _ - 0xdc00)), rest) else _) = _
  rw [hexValue_hex4 (by omega), hexValue_hex4 (by omega), if_pos (by omega)]
  have hboth : 0x10000 + (0xd800 + above / 0x400 - 0xd800) * 0x400
      + (0xdc00 + above % 0x400 - 0xdc00) = 0x10000 + above := by omega
  rw [hboth]

/-- A character without an escape of its own is no backslash and stands for itself. -/
theorem unescape_cons {c : Char} (h : c ≠ '\\') (rest : List Char) :
    unescape (c :: rest) = some (c, rest) := by
  unfold unescape
  split
  · rename_i heq
    exact absurd (List.cons.inj heq).1 h
  · rename_i heq
    exact absurd (List.cons.inj heq).1 h
  · rename_i heq
    rw [(List.cons.inj heq).1, (List.cons.inj heq).2]
  · rename_i heq
    cases heq

/-- **An escaped character is read back**, whatever comes after it. -/
theorem unescape_escapeChar (c : Char) (rest : List Char) :
    unescape (escapeChar c ++ rest) = some (c, rest) := by
  unfold escapeChar
  cases hlookup : ESCAPE_DCT.lookup c with
  | some letter =>
    have hentries : ∀ entry ∈ ESCAPE_DCT,
        unescape ('\\' :: entry.2 :: rest) = some (entry.1, rest) := by
      unfold ESCAPE_DCT
      simp only [List.forall_mem_cons]
      refine ⟨?_, ?_, ?_, ?_, ?_, ?_, ?_, fun _ h => absurd h List.not_mem_nil⟩ <;>
        (unfold unescape; rfl)
    have hmem : (c, letter) ∈ ESCAPE_DCT := by
      obtain ⟨before, after, heq, -⟩ := List.lookup_eq_some_iff.mp hlookup
      rw [heq]
      exact List.mem_append_right _ List.mem_cons_self
    exact hentries _ hmem
  | none =>
    have hbackslash : c ≠ '\\' := by
      rintro rfl
      cases hlookup
    have hvalid : c.toNat < 0xd800 ∨ 0xdfff < c.toNat ∧ c.toNat < 0x110000 := c.valid
    dsimp only
    split
    · exact unescape_cons hbackslash rest
    · split
      · rename_i hsmall
        rw [unescape_escapeUnit hsmall (hvalid.imp id (fun h => by omega)), Char.ofNat_toNat]
      · rename_i hlarge
        rw [unescape_surrogates (by omega), Nat.add_sub_of_le (by omega), Char.ofNat_toNat]

/-- An escaped character determines the character. -/
theorem escapeChar_append_inj {c c' : Char} {rest rest' : List Char}
    (h : escapeChar c ++ rest = escapeChar c' ++ rest') : c = c' ∧ rest = rest' := by
  have hread := congrArg unescape h
  rw [unescape_escapeChar, unescape_escapeChar, Option.some.injEq, Prod.mk.injEq] at hread
  exact hread

/-- No character is escaped to a text that starts with a quote. -/
theorem escapeChar_append_ne (c : Char) (rest rest' : List Char) :
    escapeChar c ++ rest ≠ '"' :: rest' := by
  intro h
  have hread := congrArg unescape h
  rw [unescape_escapeChar, unescape_cons (by decide), Option.some.injEq, Prod.mk.injEq] at hread
  rw [hread.1] at h
  cases h

/-- **A text in quotes determines the text**, whatever comes after it. -/
theorem quoted_append_inj {s s' : String} {rest rest' : List Char}
    (h : quoted s ++ rest = quoted s' ++ rest') : s = s' ∧ rest = rest' := by
  unfold quoted at h
  rw [List.cons_append, List.cons_append, List.append_assoc, List.append_assoc] at h
  obtain ⟨hs, hrest⟩ := eq_of_flatMap_append_cons (fun _ _ _ _ => escapeChar_append_inj)
    escapeChar_append_ne (List.cons.inj h).2
  exact ⟨String.toList_inj.mp hs, hrest⟩

/-- The texts are printable ASCII. -/
def IsPrintable (c : Char) : Prop := 0x20 ≤ c.toNat

instance (c : Char) : Decidable (IsPrintable c) := inferInstanceAs (Decidable (0x20 ≤ c.toNat))

theorem isPrintable_hex4 {n : ℕ} {c : Char} (h : c ∈ hex4 n) : IsPrintable c := by
  have hall : ∀ m < 16, IsPrintable (Nat.digitChar m) := by
    decide
  unfold hex4 at h
  simp only [List.mem_cons, List.not_mem_nil, or_false] at h
  rcases h with rfl | rfl | rfl | rfl <;> exact hall _ (Nat.mod_lt _ (by decide))

theorem isPrintable_escapeUnit {n : ℕ} {c : Char} (h : c ∈ escapeUnit n) : IsPrintable c := by
  unfold escapeUnit at h
  rcases List.mem_cons.mp h with rfl | h
  · decide
  · rcases List.mem_cons.mp h with rfl | h
    · decide
    · exact isPrintable_hex4 h

theorem isPrintable_escapeChar {c d : Char} (h : d ∈ escapeChar c) : IsPrintable d := by
  unfold escapeChar at h
  split at h
  · rename_i letter hlookup
    have hletters : ∀ entry ∈ ESCAPE_DCT, IsPrintable entry.2 := by
      decide
    obtain ⟨before, after, heq, -⟩ := List.lookup_eq_some_iff.mp hlookup
    have hletter := hletters (c, letter) (heq ▸ List.mem_append_right _ List.mem_cons_self)
    simp only [List.mem_cons, List.not_mem_nil, or_false] at h
    rcases h with rfl | rfl
    · decide
    · exact hletter
  · split at h
    · rename_i hprintable
      rw [List.mem_singleton.mp h]
      exact hprintable.1
    · split at h
      · exact isPrintable_escapeUnit h
      · exact (List.mem_append.mp h).elim isPrintable_escapeUnit isPrintable_escapeUnit

/-- A text in quotes is printable. -/
theorem isPrintable_quoted {s : String} {c : Char} (h : c ∈ quoted s) : IsPrintable c := by
  have hquote : IsPrintable '"' := by
    decide
  unfold quoted at h
  rcases List.mem_cons.mp h with rfl | h
  · exact hquote
  · rcases List.mem_append.mp h with h | h
    · obtain ⟨d, -, hd⟩ := List.mem_flatMap.mp h
      exact isPrintable_escapeChar hd
    · rw [List.mem_singleton.mp h]
      exact hquote

/-! ## Numbers -/

/-- A decimal number `0.ddd * 10 ^ point` as `float.__repr__` writes it: with an exponent
where it is less than `1e-4` or at least `1e16`. -/
def decimalText (digits : List Char) (point : ℤ) : List Char :=
  if -4 < point ∧ point ≤ 16 then
    if point ≤ 0 then '0' :: '.' :: List.replicate (-point).toNat '0' ++ digits
    else if (digits.length : ℤ) ≤ point then
      digits ++ List.replicate (point - digits.length).toNat '0' ++ ['.', '0']
    else digits.take point.toNat ++ '.' :: digits.drop point.toNat
  else
    let exponent := Nat.toDigits 10 (point - 1).natAbs
    digits.take 1 ++ (if digits.length ≤ 1 then [] else '.' :: digits.drop 1)
      ++ 'e' :: (if point - 1 < 0 then '-' else '+')
      :: List.replicate (2 - exponent.length) '0' ++ exponent

/-- The two decimal numbers of `n` digits around a positive number, the nearer first. -/
def decimalsAround (q : ℚ) (n : ℕ) : List (List Char) :=
  let exponent := Int.log 10 q - n + 1
  let scaled := q / 10 ^ exponent
  let nearest := roundHalfEven scaled
  let other := if nearest = ⌊scaled⌋ then nearest + 1 else nearest - 1
  [nearest, other].map (fun d =>
    let digits := Nat.toDigits 10 d.toNat
    let significant := (digits.reverse.dropWhile (fun c => c == '0')).reverse
    decimalText significant (digits.length + exponent))

/-- `float(text)` is the number. -/
def readsAs (q : ℚ) (text : List Char) : Bool :=
  match floatOfText (String.ofList text) with
  | .ok (.finite p) => p == q
  | _ => false

/-- **`float.__repr__`**, the shortest text that reads back as the number. Every double has
one of at most seventeen digits, so a fraction is only written for a number that is none. -/
def floatText (q : ℚ) : List Char :=
  let minus := if q < 0 then ['-'] else []
  let texts := if q = 0 then [['0', '.', '0']]
    else (List.range 17).flatMap (fun n => (decimalsAround |q| (n + 1)).map (minus ++ ·))
  match texts.find? (readsAs q) with
  | some text => text
  | none => (toString q.num).toList ++ '/' :: Nat.toDigits 10 q.den

/-- The characters of decimal numbers. -/
def IsDecimal (c : Char) : Prop := c.isDigit = true ∨ c ∈ ['+', '-', '.', 'e']

instance (c : Char) : Decidable (IsDecimal c) := inferInstanceAs (Decidable (_ ∨ _))

/-- The characters that an integer has not. -/
def IsPoint (c : Char) : Prop := c ∈ ['.', 'e', '/']

/-- The characters of a decimal text. -/
theorem isDecimal_decimalText {digits : List Char} (hdigits : ∀ c ∈ digits, c.isDigit = true)
    {point : ℤ} : ∀ c ∈ decimalText digits point, IsDecimal c := by
  have hdigit : ∀ c ∈ digits, IsDecimal c := fun c hc => Or.inl (hdigits c hc)
  have hzeros : ∀ n, ∀ c ∈ List.replicate n '0', IsDecimal c := by
    intro n c hc
    rw [List.eq_of_mem_replicate hc]
    decide
  have hexponent : ∀ n, ∀ c ∈ Nat.toDigits 10 n, IsDecimal c :=
    fun n c hc => Or.inl (isDigit_of_mem hc)
  have hmark : ∀ c ∈ ['0', '+', '-', '.', 'e'], IsDecimal c := by
    simp [IsDecimal]
  simp only [List.forall_mem_cons] at hmark
  obtain ⟨hzero, hplus, hminus, hpoint, he, -⟩ := hmark
  unfold decimalText
  split
  · split
    · rw [List.forall_mem_append, List.forall_mem_cons, List.forall_mem_cons]
      exact ⟨⟨hzero, hpoint, hzeros _⟩, hdigit⟩
    · split
      · rw [List.forall_mem_append, List.forall_mem_append, List.forall_mem_cons,
          List.forall_mem_singleton]
        exact ⟨⟨hdigit, hzeros _⟩, hpoint, hzero⟩
      · rw [List.forall_mem_append, List.forall_mem_cons]
        exact ⟨fun c hc => hdigit c (List.mem_of_mem_take hc), hpoint,
          fun c hc => hdigit c (List.mem_of_mem_drop hc)⟩
  · dsimp only
    rw [List.forall_mem_append, List.forall_mem_append, List.forall_mem_append,
      List.forall_mem_cons, List.forall_mem_cons]
    refine ⟨⟨⟨fun c hc => hdigit c (List.mem_of_mem_take hc), ?_⟩, he, ?_, hzeros _⟩, hexponent _⟩
    · split
      · exact fun c hc => absurd hc List.not_mem_nil
      · rw [List.forall_mem_cons]
        exact ⟨hpoint, fun c hc => hdigit c (List.mem_of_mem_drop hc)⟩
    · split
      · exact hminus
      · exact hplus

/-- A decimal text has a point or an exponent. -/
theorem exists_isPoint_decimalText (digits : List Char) (point : ℤ) :
    ∃ c ∈ decimalText digits point, IsPoint c := by
  have hpoint : IsPoint '.' := List.mem_cons_self
  have he : IsPoint 'e' := List.mem_cons_of_mem _ List.mem_cons_self
  unfold decimalText
  split
  · split
    · exact ⟨'.', by simp, hpoint⟩
    · split
      · exact ⟨'.', by simp, hpoint⟩
      · exact ⟨'.', by simp, hpoint⟩
  · exact ⟨'e', by simp, he⟩

/-- **What the text of a number is.** -/
theorem floatText_cases (q : ℚ) :
    (readsAs q (floatText q) = true ∧ (∀ c ∈ floatText q, IsDecimal c)
        ∧ ∃ c ∈ floatText q, IsPoint c)
      ∨ floatText q = (toString q.num).toList ++ '/' :: Nat.toDigits 10 q.den := by
  unfold floatText
  dsimp only
  split
  · rename_i text hfind
    refine Or.inl ⟨List.find?_some hfind, ?_⟩
    have hmem := List.mem_of_find?_eq_some hfind
    split at hmem
    · rw [List.mem_singleton.mp hmem]
      exact ⟨by simp [IsDecimal], '.', by simp, List.mem_cons_self⟩
    · obtain ⟨n, -, hn⟩ := List.mem_flatMap.mp hmem
      obtain ⟨decimal, hdecimal, rfl⟩ := List.mem_map.mp hn
      obtain ⟨d, -, rfl⟩ := List.mem_map.mp hdecimal
      constructor
      · rw [List.forall_mem_append]
        constructor
        · split
          · simp [IsDecimal]
          · exact fun c hc => absurd hc List.not_mem_nil
        · refine isDecimal_decimalText (fun c hc => ?_)
          have hsuffix := List.dropWhile_suffix (l := (Nat.toDigits 10 d.toNat).reverse)
            (fun c => c == '0')
          exact isDigit_of_mem (List.mem_reverse.mp (hsuffix.subset (List.mem_reverse.mp hc)))
      · obtain ⟨c, hc, hpoint⟩ := exists_isPoint_decimalText _ _
        exact ⟨c, List.mem_append_right _ hc, hpoint⟩
  · exact Or.inr rfl

/-- **Different numbers have different texts.** -/
theorem floatText_injective : Function.Injective floatText := by
  intro q q' h
  have hslash : ∀ {p : ℚ}, (∀ c ∈ floatText p, IsDecimal c) →
      ∀ xs ys, floatText p ≠ xs ++ '/' :: ys := by
    intro p hp xs ys heq
    have hdecimal := hp '/' (heq ▸ List.mem_append_right _ List.mem_cons_self)
    revert hdecimal
    decide
  rcases floatText_cases q with ⟨hreads, hdecimal, -⟩ | hfraction
  · rcases floatText_cases q' with ⟨hreads', -, -⟩ | hfraction'
    · rw [← h] at hreads'
      unfold readsAs at hreads hreads'
      split at hreads
      · rename_i p hp
        rw [hp] at hreads'
        exact (eq_of_beq hreads).symm.trans (eq_of_beq hreads')
      · cases hreads
    · exact absurd (h.trans hfraction') (hslash hdecimal _ _)
  · rcases floatText_cases q' with ⟨-, hdecimal', -⟩ | hfraction'
    · exact absurd (h.symm.trans hfraction) (hslash hdecimal' _ _)
    · rw [hfraction, hfraction'] at h
      have hno : ∀ n, '/' ∉ Nat.toDigits 10 n := fun n hmem => by
        have hdigit := isDigit_of_mem hmem
        revert hdigit
        decide
      obtain ⟨hnum, hden⟩ := eq_of_append_cons h (hno _) (hno _)
      exact Rat.ext (toString_int_injective (String.toList_inj.mp hnum)) (toDigits_injective hden)

/-- The characters of numbers. -/
def IsNumeral (c : Char) : Prop := c.isDigit = true ∨ c ∈ ['+', '-', '.', 'e', '/']

instance (c : Char) : Decidable (IsNumeral c) := inferInstanceAs (Decidable (_ ∨ _))

/-- The characters of an integer. -/
theorem isNumeral_int {i : ℤ} : ∀ c ∈ (toString i).toList, IsNumeral c := fun c hc => by
  rcases mem_toString_int hc with rfl | hdigit
  · decide
  · exact Or.inl hdigit

/-- And of a float. -/
theorem isNumeral_floatText {q : ℚ} : ∀ c ∈ floatText q, IsNumeral c := by
  rcases floatText_cases q with ⟨-, hdecimal, -⟩ | hfraction
  · intro c hc
    exact (hdecimal c hc).imp id (fun hmem => List.mem_append_left ['/'] hmem)
  · rw [hfraction, List.forall_mem_append, List.forall_mem_cons]
    exact ⟨isNumeral_int, by decide, fun c hc => Or.inl (isDigit_of_mem hc)⟩

theorem isPrintable_of_isNumeral {c : Char} (h : IsNumeral c) : IsPrintable c := by
  rcases h with hdigit | hmark
  · exact le_trans (by decide) (Char.isDigit_iff_toNat.mp hdigit).1
  · have hmarks : ∀ c ∈ ['+', '-', '.', 'e', '/'], IsPrintable c := by
      simp [IsPrintable]
    exact hmarks c hmark

/-- An integer has a text. -/
theorem toString_int_ne_nil (i : ℤ) : (toString i).toList ≠ [] := by
  rw [toList_toString_int]
  split
  · exact Nat.toDigits_ne_nil
  · exact List.cons_ne_nil _ _

/-- And so has a float. -/
theorem floatText_ne_nil (q : ℚ) : floatText q ≠ [] := by
  rcases floatText_cases q with ⟨-, -, c, hc, -⟩ | hfraction
  · exact List.ne_nil_of_mem hc
  · rw [hfraction]
    exact List.append_ne_nil_of_right_ne_nil _ (List.cons_ne_nil _ _)

/-- No integer and no float have the same text. -/
theorem toString_int_ne_floatText (i : ℤ) (q : ℚ) : (toString i).toList ≠ floatText q := by
  have hpoint : ∃ c ∈ floatText q, IsPoint c := by
    rcases floatText_cases q with ⟨-, -, hpoint⟩ | hfraction
    · exact hpoint
    · rw [hfraction]
      exact ⟨'/', List.mem_append_right _ List.mem_cons_self, by unfold IsPoint; decide⟩
  intro h
  obtain ⟨c, hc, hpoint⟩ := hpoint
  unfold IsPoint at hpoint
  simp only [List.mem_cons, List.not_mem_nil, or_false] at hpoint
  rcases mem_toString_int (h ▸ hc) with rfl | hdigit
  · revert hpoint
    decide
  · rcases hpoint with rfl | rfl | rfl <;> (revert hdigit; decide)

/-! ## Values -/

namespace Json

mutual

/-- The text of a value, its keys in the order they have. -/
def dump : Json → List Char
  | .null => "null".toList
  | .bool b => (if b then "true" else "false").toList
  | .int i => (toString i).toList
  | .float q => floatText q
  | .str s => quoted s
  | .arr xs => '[' :: dumpItems xs ++ [']']
  | .obj fs => '{' :: dumpFields fs ++ ['}']

/-- The items of a list. -/
def dumpItems : List Json → List Char
  | [] => []
  | x :: xs => dump x ++ dumpMoreItems xs

/-- The items after the first one, each behind its separator. -/
def dumpMoreItems : List Json → List Char
  | [] => []
  | x :: xs => ',' :: dump x ++ dumpMoreItems xs

/-- The items of an object. -/
def dumpFields : List (String × Json) → List Char
  | [] => []
  | (k, v) :: fs => quoted k ++ ':' :: dump v ++ dumpMoreFields fs

/-- Those after the first one. -/
def dumpMoreFields : List (String × Json) → List Char
  | [] => []
  | (k, v) :: fs => ',' :: quoted k ++ ':' :: dump v ++ dumpMoreFields fs

end

/-- What can come after a value: nothing that goes on with a number. -/
def Ends (rest : List Char) : Prop := ∀ c ∈ rest.head?, ¬ IsNumeral c

/-- What comes after a value starts with no part of a number. -/
theorem ends_cons {c : Char} (h : ¬ IsNumeral c) (rest : List Char) : Ends (c :: rest) :=
  fun _ hd => (Option.some.inj hd) ▸ h

theorem ends_nil : Ends [] := fun _ h => (by cases h)

/-- The first character of a value that is not a number. -/
def opening : Json → Option Char
  | .null => some 'n'
  | .bool b => some (if b then 't' else 'f')
  | .int _ | .float _ => none
  | .str _ => some '"'
  | .arr _ => some '['
  | .obj _ => some '{'

/-- **The first character says which kind of value it is.** -/
theorem head?_dump (a : Json) (rest : List Char) :
    ∃ c, (dump a ++ rest).head? = some c
      ∧ (a.opening = some c ∧ ¬ IsNumeral c ∨ a.opening = none ∧ IsNumeral c) := by
  have hnumber : ∀ cs : List Char, cs ≠ [] → (∀ c ∈ cs, IsNumeral c) → a.opening = none →
      ∃ c, (cs ++ rest).head? = some c
        ∧ (a.opening = some c ∧ ¬ IsNumeral c ∨ a.opening = none ∧ IsNumeral c) := by
    intro cs hne hall hopening
    obtain ⟨c, tail, rfl⟩ := List.exists_cons_of_ne_nil hne
    exact ⟨c, rfl, Or.inr ⟨hopening, hall c List.mem_cons_self⟩⟩
  cases a with
  | null => exact ⟨'n', rfl, Or.inl ⟨rfl, by decide⟩⟩
  | bool b =>
    cases b with
    | true => exact ⟨'t', rfl, Or.inl ⟨rfl, by decide⟩⟩
    | false => exact ⟨'f', rfl, Or.inl ⟨rfl, by decide⟩⟩
  | int i => exact hnumber _ (toString_int_ne_nil i) isNumeral_int rfl
  | float q => exact hnumber _ (floatText_ne_nil q) isNumeral_floatText rfl
  | str s => exact ⟨'"', rfl, Or.inl ⟨rfl, by decide⟩⟩
  | arr xs => exact ⟨'[', rfl, Or.inl ⟨rfl, by decide⟩⟩
  | obj fs => exact ⟨'{', rfl, Or.inl ⟨rfl, by decide⟩⟩

/-- Values whose texts start alike are of one kind. -/
theorem opening_eq {a b : Json} {rest rest' : List Char}
    (h : dump a ++ rest = dump b ++ rest') : a.opening = b.opening := by
  obtain ⟨c, hc, ha⟩ := head?_dump a rest
  obtain ⟨d, hd, hb⟩ := head?_dump b rest'
  rw [h, hd, Option.some.injEq] at hc
  subst hc
  rcases ha with ⟨ha, hno⟩ | ⟨ha, hnumeral⟩
  · rcases hb with ⟨hb, -⟩ | ⟨-, hnumeral⟩
    · rw [ha, hb]
    · exact absurd hnumeral hno
  · rcases hb with ⟨-, hno⟩ | ⟨hb, -⟩
    · exact absurd hnumeral hno
    · rw [ha, hb]

/-- No value starts with the end of a list. -/
theorem dump_append_ne (a : Json) (rest rest' : List Char) : dump a ++ rest ≠ ']' :: rest' := by
  intro h
  obtain ⟨c, hc, hkind⟩ := head?_dump a rest
  rw [h] at hc
  cases hc
  rcases hkind with ⟨hopening, -⟩ | ⟨-, hnumeral⟩
  · unfold opening at hopening
    split at hopening <;> try cases hopening
    split at hopening <;> cases hopening
  · revert hnumeral
    decide

theorem ends_moreItems (xs : List Json) (rest : List Char) :
    Ends (dumpMoreItems xs ++ ']' :: rest) := by
  cases xs with
  | nil => exact ends_cons (by decide) _
  | cons x xs => exact ends_cons (c := ',') (by decide) _

theorem ends_moreFields (fs : List (String × Json)) (rest : List Char) :
    Ends (dumpMoreFields fs ++ '}' :: rest) := by
  cases fs with
  | nil => exact ends_cons (by decide) _
  | cons f fs => exact ends_cons (c := ',') (by decide) _

mutual

/-- **A text determines its value**, whatever comes after it. -/
theorem dump_append_inj (a b : Json) {rest rest' : List Char} (hends : Ends rest)
    (hends' : Ends rest') (h : dump a ++ rest = dump b ++ rest') : a = b ∧ rest = rest' := by
  -- values that begin alike are of one kind, but for numbers
  have hopening := opening_eq h
  cases a with
  | null =>
    cases b with
    | null => exact ⟨rfl, List.append_cancel_left h⟩
    | bool b => cases b <;> cases hopening
    | _ => cases hopening
  | bool a =>
    cases b with
    | bool b =>
      have hsame : a = b := by
        cases a <;> cases b <;> first | rfl | cases hopening
      subst hsame
      exact ⟨rfl, List.append_cancel_left h⟩
    | _ => cases a <;> cases hopening
  | int i =>
    cases b with
    | int j =>
      obtain ⟨htext, hrest⟩ := eq_of_append_of_forall h isNumeral_int isNumeral_int hends hends'
      exact ⟨congrArg _ (toString_int_injective (String.toList_inj.mp htext)), hrest⟩
    | float q =>
      obtain ⟨htext, -⟩ := eq_of_append_of_forall h isNumeral_int isNumeral_floatText hends hends'
      -- an integer has neither a point nor an exponent
      exact absurd htext (toString_int_ne_floatText i q)
    | _ => cases hopening
  | float q =>
    cases b with
    | int j =>
      obtain ⟨htext, -⟩ := eq_of_append_of_forall h isNumeral_floatText isNumeral_int hends hends'
      exact absurd htext.symm (toString_int_ne_floatText j q)
    | float p =>
      obtain ⟨htext, hrest⟩ :=
        eq_of_append_of_forall h isNumeral_floatText isNumeral_floatText hends hends'
      exact ⟨congrArg _ (floatText_injective htext), hrest⟩
    | _ => cases hopening
  | str s =>
    cases b with
    | str t =>
      obtain ⟨htext, hrest⟩ := quoted_append_inj h
      exact ⟨congrArg _ htext, hrest⟩
    | bool b => cases b <;> cases hopening
    | _ => cases hopening
  | arr xs =>
    cases b with
    | arr ys =>
      simp only [dump, List.cons_append, List.append_assoc, List.cons.injEq, true_and] at h
      obtain ⟨hitems, hrest⟩ := dumpItems_append_inj xs ys h
      exact ⟨congrArg _ hitems, hrest⟩
    | bool b => cases b <;> cases hopening
    | _ => cases hopening
  | obj fs =>
    cases b with
    | obj gs =>
      simp only [dump, List.cons_append, List.append_assoc, List.cons.injEq, true_and] at h
      obtain ⟨hfields, hrest⟩ := dumpFields_append_inj fs gs h
      exact ⟨congrArg _ hfields, hrest⟩
    | bool b => cases b <;> cases hopening
    | _ => cases hopening

theorem dumpItems_append_inj (xs ys : List Json) {rest rest' : List Char}
    (h : dumpItems xs ++ ([']'] ++ rest) = dumpItems ys ++ ([']'] ++ rest')) :
    xs = ys ∧ rest = rest' := by
  cases xs with
  | nil =>
    cases ys with
    | nil => exact ⟨rfl, (List.cons.inj h).2⟩
    | cons y ys =>
      rw [dumpItems, dumpItems, List.append_assoc] at h
      exact absurd h.symm (dump_append_ne y _ _)
  | cons x xs =>
    cases ys with
    | nil =>
      rw [dumpItems, dumpItems, List.append_assoc] at h
      exact absurd h (dump_append_ne x _ _)
    | cons y ys =>
      rw [dumpItems, dumpItems, List.append_assoc, List.append_assoc] at h
      obtain ⟨hitem, hmore⟩ :=
        dump_append_inj x y (ends_moreItems xs rest) (ends_moreItems ys rest') h
      obtain ⟨hitems, hrest⟩ := dumpMoreItems_append_inj xs ys hmore
      exact ⟨by rw [hitem, hitems], hrest⟩

theorem dumpMoreItems_append_inj (xs ys : List Json) {rest rest' : List Char}
    (h : dumpMoreItems xs ++ ([']'] ++ rest) = dumpMoreItems ys ++ ([']'] ++ rest')) :
    xs = ys ∧ rest = rest' := by
  cases xs with
  | nil =>
    cases ys with
    | nil => exact ⟨rfl, (List.cons.inj h).2⟩
    | cons y ys => cases h
  | cons x xs =>
    cases ys with
    | nil => cases h
    | cons y ys =>
      simp only [dumpMoreItems, List.cons_append, List.append_assoc, List.cons.injEq,
        true_and] at h
      obtain ⟨hitem, hmore⟩ :=
        dump_append_inj x y (ends_moreItems xs rest) (ends_moreItems ys rest') h
      obtain ⟨hitems, hrest⟩ := dumpMoreItems_append_inj xs ys hmore
      exact ⟨by rw [hitem, hitems], hrest⟩

theorem dumpFields_append_inj (fs gs : List (String × Json)) {rest rest' : List Char}
    (h : dumpFields fs ++ (['}'] ++ rest) = dumpFields gs ++ (['}'] ++ rest')) :
    fs = gs ∧ rest = rest' := by
  match fs, gs with
  | [], [] => exact ⟨rfl, (List.cons.inj h).2⟩
  | [], (k, v) :: gs => cases h
  | (k, v) :: fs, [] => cases h
  | (k, v) :: fs, (l, w) :: gs =>
    rw [dumpFields, dumpFields] at h
    simp only [List.append_assoc, List.cons_append] at h
    obtain ⟨hkey, hvalue⟩ := quoted_append_inj h
    obtain ⟨hvalue, hmore⟩ := dump_append_inj v w (ends_moreFields fs rest)
      (ends_moreFields gs rest') (List.cons.inj hvalue).2
    obtain ⟨hfields, hrest⟩ := dumpMoreFields_append_inj fs gs hmore
    exact ⟨by rw [hkey, hvalue, hfields], hrest⟩

theorem dumpMoreFields_append_inj (fs gs : List (String × Json)) {rest rest' : List Char}
    (h : dumpMoreFields fs ++ (['}'] ++ rest) = dumpMoreFields gs ++ (['}'] ++ rest')) :
    fs = gs ∧ rest = rest' := by
  match fs, gs with
  | [], [] => exact ⟨rfl, (List.cons.inj h).2⟩
  | [], (k, v) :: gs => cases h
  | (k, v) :: fs, [] => cases h
  | (k, v) :: fs, (l, w) :: gs =>
    simp only [dumpMoreFields, List.append_assoc, List.cons_append, List.cons.injEq,
      true_and] at h
    obtain ⟨hkey, hvalue⟩ := quoted_append_inj h
    obtain ⟨hvalue, hmore⟩ := dump_append_inj v w (ends_moreFields fs rest)
      (ends_moreFields gs rest') (List.cons.inj hvalue).2
    obtain ⟨hfields, hrest⟩ := dumpMoreFields_append_inj fs gs hmore
    exact ⟨by rw [hkey, hvalue, hfields], hrest⟩

end

/-- **Different values have different texts.** -/
theorem dump_injective : Function.Injective dump := fun a b h =>
  (dump_append_inj a b ends_nil ends_nil (congrArg (· ++ []) h)).1

mutual

theorem isPrintable_dump (a : Json) : ∀ c ∈ dump a, IsPrintable c := by
  have hmarks : ∀ c ∈ ['[', ']', '{', '}'], IsPrintable c := by
    simp [IsPrintable]
  simp only [List.forall_mem_cons] at hmarks
  obtain ⟨hopen, hclose, hopen', hclose', -⟩ := hmarks
  cases a with
  | null => simp [dump, IsPrintable]
  | bool b => cases b <;> simp [dump, IsPrintable]
  | int i => exact fun c hc => isPrintable_of_isNumeral (isNumeral_int c hc)
  | float q => exact fun c hc => isPrintable_of_isNumeral (isNumeral_floatText c hc)
  | str s => exact fun c hc => isPrintable_quoted hc
  | arr xs =>
    rw [dump, List.forall_mem_append, List.forall_mem_cons, List.forall_mem_singleton]
    exact ⟨⟨hopen, isPrintable_dumpItems xs⟩, hclose⟩
  | obj fs =>
    rw [dump, List.forall_mem_append, List.forall_mem_cons, List.forall_mem_singleton]
    exact ⟨⟨hopen', isPrintable_dumpFields fs⟩, hclose'⟩

theorem isPrintable_dumpItems (xs : List Json) : ∀ c ∈ dumpItems xs, IsPrintable c := by
  cases xs with
  | nil => exact fun c hc => absurd hc List.not_mem_nil
  | cons x xs =>
    rw [dumpItems, List.forall_mem_append]
    exact ⟨isPrintable_dump x, isPrintable_dumpMoreItems xs⟩

theorem isPrintable_dumpMoreItems (xs : List Json) : ∀ c ∈ dumpMoreItems xs, IsPrintable c := by
  cases xs with
  | nil => exact fun c hc => absurd hc List.not_mem_nil
  | cons x xs =>
    rw [dumpMoreItems, List.forall_mem_append, List.forall_mem_cons]
    exact ⟨⟨by decide, isPrintable_dump x⟩, isPrintable_dumpMoreItems xs⟩

theorem isPrintable_dumpFields (fs : List (String × Json)) :
    ∀ c ∈ dumpFields fs, IsPrintable c := by
  match fs with
  | [] => exact fun c hc => absurd hc List.not_mem_nil
  | (k, v) :: fs =>
    rw [dumpFields, List.forall_mem_append, List.forall_mem_append, List.forall_mem_cons]
    exact ⟨⟨fun _ => isPrintable_quoted, by decide, isPrintable_dump v⟩,
      isPrintable_dumpMoreFields fs⟩

theorem isPrintable_dumpMoreFields (fs : List (String × Json)) :
    ∀ c ∈ dumpMoreFields fs, IsPrintable c := by
  match fs with
  | [] => exact fun c hc => absurd hc List.not_mem_nil
  | (k, v) :: fs =>
    rw [dumpMoreFields, List.forall_mem_append, List.forall_mem_append, List.forall_mem_cons,
      List.forall_mem_cons]
    exact ⟨⟨⟨by decide, fun _ => isPrintable_quoted⟩,
      by decide, isPrintable_dump v⟩, isPrintable_dumpMoreFields fs⟩

end

/-! ## Sorted keys -/

/-- The items of a dictionary in the order of their keys. -/
def sortItems (fs : List (String × Json)) : List (String × Json) :=
  fs.mergeSort (fun f g => decide (f.1 ≤ g.1))

mutual

/-- A value with the keys of its objects sorted. -/
def sortKeys : Json → Json
  | .arr xs => .arr (sortKeysList xs)
  | .obj fs => .obj (sortItems (sortKeysFields fs))
  | a => a

/-- Of the items of a list. -/
def sortKeysList : List Json → List Json
  | [] => []
  | x :: xs => sortKeys x :: sortKeysList xs

/-- Of the values of an object. -/
def sortKeysFields : List (String × Json) → List (String × Json)
  | [] => []
  | (k, v) :: fs => (k, sortKeys v) :: sortKeysFields fs

/-- **The keys of every object are distinct**, as those of a dictionary are. -/
def WellKeyed : Json → Prop
  | .arr xs => WellKeyedList xs
  | .obj fs => (fs.map Prod.fst).Nodup ∧ WellKeyedFields fs
  | _ => True

def WellKeyedList : List Json → Prop
  | [] => True
  | x :: xs => WellKeyed x ∧ WellKeyedList xs

def WellKeyedFields : List (String × Json) → Prop
  | [] => True
  | (_, v) :: fs => WellKeyed v ∧ WellKeyedFields fs

end

/-- `json.dumps(value, sort_keys=True, separators=(",", ":"))`. -/
def canonicalText (a : Json) : String := String.ofList (dump (sortKeys a))

/-- Sorting within the values keeps the keys. -/
theorem map_fst_sortKeysFields (fs : List (String × Json)) :
    (sortKeysFields fs).map Prod.fst = fs.map Prod.fst := by
  induction fs with
  | nil => rfl
  | cons f fs ih =>
    obtain ⟨k, v⟩ := f
    rw [sortKeysFields, List.map_cons, List.map_cons, ih]

mutual

/-- **Sorting the keys changes only their order.** -/
theorem reordered_sortKeys (a : Json) (h : WellKeyed a) : Reordered a (sortKeys a) := by
  cases a with
  | arr xs => exact reordered_sortKeysList [] xs h
  | obj fs =>
    refine (reordered_sortKeysFields [] fs h.2).trans (.keys ?_ (List.mergeSort_perm _ _).symm)
    rw [List.nil_append, map_fst_sortKeysFields]
    exact h.1
  | _ => exact .refl _

theorem reordered_sortKeysList (before xs : List Json) (h : WellKeyedList xs) :
    Reordered (.arr (before ++ xs)) (.arr (before ++ sortKeysList xs)) := by
  cases xs with
  | nil => exact .refl _
  | cons x xs =>
    have hmore := reordered_sortKeysList (before ++ [sortKeys x]) xs h.2
    rw [List.append_assoc, List.append_assoc] at hmore
    exact (Reordered.item before xs (reordered_sortKeys x h.1)).trans hmore

theorem reordered_sortKeysFields (before fs : List (String × Json)) (h : WellKeyedFields fs) :
    Reordered (.obj (before ++ fs)) (.obj (before ++ sortKeysFields fs)) := by
  match fs with
  | [] => exact .refl _
  | (k, v) :: fs =>
    have hmore := reordered_sortKeysFields (before ++ [(k, sortKeys v)]) fs h.2
    rw [List.append_assoc, List.append_assoc] at hmore
    exact (Reordered.field k before fs (reordered_sortKeys v h.1)).trans hmore

end

mutual

/-- A value whose keys are distinct is equal to itself. -/
theorem eqv_self (a : Json) (h : WellKeyed a) : eqv a a = true := by
  cases a with
  | arr xs => exact eqvList_self xs h
  | obj fs =>
    rw [eqv, beq_self_eq_true, Bool.true_and, eqvFields_eq_all, List.all_eq_true]
    intro f hf
    rw [lookup_eq_some_of_mem h.1 hf]
    exact eqv_self_of_mem fs h.2 f hf
  | _ => simp [eqv, num?]

theorem eqvList_self (xs : List Json) (h : WellKeyedList xs) : eqvList xs xs = true := by
  cases xs with
  | nil => rfl
  | cons x xs => rw [eqvList, eqv_self x h.1, eqvList_self xs h.2, Bool.true_and]

theorem eqv_self_of_mem (fs : List (String × Json)) (h : WellKeyedFields fs) :
    ∀ f ∈ fs, eqv f.2 f.2 = true := by
  match fs with
  | [] => exact fun f hf => absurd hf List.not_mem_nil
  | (k, v) :: fs =>
    intro f hf
    rcases List.mem_cons.mp hf with rfl | hf
    · exact eqv_self v h.1
    · exact eqv_self_of_mem fs h.2 f hf

end

/-- **Values with the same canonical text are equal.** -/
theorem eqv_of_canonicalText {a b : Json} (ha : WellKeyed a) (hb : WellKeyed b)
    (h : canonicalText a = canonicalText b) : eqv a b = true := by
  have hsorted : sortKeys a = sortKeys b := dump_injective (String.ofList_injective h)
  calc eqv a b = eqv a (sortKeys b) := eqv_congr_right (reordered_sortKeys b hb) a
    _ = eqv a a := by
        rw [← hsorted]
        exact (eqv_congr_right (reordered_sortKeys a ha) a).symm
    _ = true := eqv_self a ha

/-- The canonical text is printable. -/
theorem isPrintable_canonicalText {a : Json} {c : Char} (h : c ∈ (canonicalText a).toList) :
    IsPrintable c := by
  unfold canonicalText at h
  rw [String.toList_ofList] at h
  exact isPrintable_dump _ c h

end Json

end CohortSwitch
