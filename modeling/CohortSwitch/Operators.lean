import Mathlib.Data.Int.Log
import Mathlib.Data.Rat.Floor
import CohortSwitch.Python

/-!
# Condition operators

A condition compares one attribute of the evaluation context with the value
the rule stores. `conditionMatches` looks the operator up in the table
`operators` and runs it. An attribute that the context does not have is the
sentinel `MISSING` in the source; it is `none` here, and the JSON `null` is not.
An absent attribute satisfies `not_exists` and no other operator, which is why
`not_equals` and `not_in` are not the negations of `equals` and `in`.

## Numbers

The numeric operators compare Python floats. `toFloat` is the conversion
`float(value)`: an integer and a decimal text are rounded to the nearest
double, ties to even, an integer too large for a double raises, and so do the
types `float` refuses. Two integers that are different can therefore be equal
here and nowhere else. `float` of a text takes the decimal digits of every
script and underscores between digits; both are part of what a stored rule
may say, so both are modelled.

## Versions

The version operators rest on the class `Packaging`, the interface of the
third-party package that parses versions. What it parses and how it compares
is left open: a theorem about them holds of every parser.

## What raises

Most operators return `False` where a comparison makes no sense. Those that do
not are the ones whose exceptions reach the caller: membership raises a
`TypeError` where Python's `in` does, a numeric comparison lets an
`OverflowError` through, and a version comparison lets through whatever the
parser raises besides its own `InvalidVersion`.

Values are finite trees here, of any depth. In Python a value that is nested deeper
than the interpreter's recursion limit raises `RecursionError` where it is compared:
such values are outside the model.

`conditionMatches_congr` says that the order of object keys in the stored
value is not seen by any operator. A rule that went through the database, which
gives objects back with other key orders, acts as the rule that was sent.
-/

namespace CohortSwitch

/-! ## Python floats -/

/-- **A Python float.** A finite one is its exact value; the sign of zero is not kept, since no
comparison sees it. A number that is not a number compares false with everything, itself among
them. -/
inductive PyFloat where
  | nan
  | inf (negative : Bool)
  | finite (q : ℚ)
deriving DecidableEq, Repr

namespace PyFloat

/-- `left < right`, false as soon as one side is not a number. -/
def lt : PyFloat → PyFloat → Bool
  | .nan, _ | _, .nan => false
  | .finite p, .finite q => decide (p < q)
  | .inf true, .inf true => false
  | .inf true, _ => true
  | .inf false, _ => false
  | .finite _, .inf negative => !negative

/-- `left <= right`. -/
def le : PyFloat → PyFloat → Bool
  | .nan, _ | _, .nan => false
  | .finite p, .finite q => decide (p ≤ q)
  | .inf true, _ => true
  | .inf false, .inf negative => !negative
  | .inf false, .finite _ => false
  | .finite _, .inf negative => !negative

end PyFloat

/-- The nearest integer, ties to the even one, as `round` has it. -/
def roundHalfEven (q : ℚ) : ℤ :=
  let below := ⌊q⌋
  if q - below < 1 / 2 then below
  else if 1 / 2 < q - below then below + 1
  else below + below % 2

/-- **The double nearest to a rational number**, ties to even: 53 significant
bits, gradual underflow below `2 ^ -1022`, infinity from the overflow
threshold on. -/
def roundDouble (q : ℚ) : PyFloat :=
  if q = 0 then .finite 0
  else
    let ulp : ℚ := 2 ^ (max (Int.log 2 |q|) (-1022) - 52)
    let rounded : ℚ := roundHalfEven (q / ulp) * ulp
    if |rounded| < 2 ^ 1024 then .finite rounded else .inf (decide (q < 0))

/-! ### `float` of a text -/

/-- The code points of the Unicode decimal digits zero. The nine code points after each are the
other digits of its script. -/
def decimalZeros : List ℕ :=
  [0x30, 0x660, 0x6f0, 0x7c0, 0x966, 0x9e6, 0xa66, 0xae6, 0xb66, 0xbe6, 0xc66, 0xce6,
    0xd66, 0xde6, 0xe50, 0xed0, 0xf20, 0x1040, 0x1090, 0x17e0, 0x1810, 0x1946, 0x19d0,
    0x1a80, 0x1a90, 0x1b50, 0x1bb0, 0x1c40, 0x1c50, 0xa620, 0xa8d0, 0xa900, 0xa9d0,
    0xa9f0, 0xaa50, 0xabf0, 0xff10, 0x104a0, 0x10d30, 0x11066, 0x110f0, 0x11136, 0x111d0,
    0x112f0, 0x11450, 0x114d0, 0x11650, 0x116c0, 0x11730, 0x118e0, 0x11950, 0x11c50,
    0x11d50, 0x11da0, 0x11f50, 0x16a60, 0x16ac0, 0x16b50, 0x1d7ce, 0x1d7d8, 0x1d7e2,
    0x1d7ec, 0x1d7f6, 0x1e140, 0x1e2f0, 0x1e4f0, 0x1e950, 0x1fbf0]

/-- The code points past ASCII that are white space. -/
def wideSpaces : List ℕ :=
  [0x85, 0xa0, 0x1680, 0x2000, 0x2001, 0x2002, 0x2003, 0x2004, 0x2005, 0x2006, 0x2007,
    0x2008, 0x2009, 0x200a, 0x2028, 0x2029, 0x202f, 0x205f, 0x3000]

/-- The decimal digits and the white space of Unicode become ASCII; any other
character past ASCII becomes one that no number contains. -/
def toAsciiNumeral (c : Char) : Char :=
  if c.toNat < 127 then c
  else if c.toNat ∈ wideSpaces then ' '
  else match decimalZeros.find? (fun z => z ≤ c.toNat ∧ c.toNat < z + 10) with
    | some z => Char.ofNat (0x30 + (c.toNat - z))
    | none => '?'

/-- White space at either end of a number. -/
def isNumeralSpace (c : Char) : Bool := c.toNat == 0x20 || (9 ≤ c.toNat && c.toNat ≤ 13)

/-- A digit, once the numeral is ASCII. -/
def isDecimalDigit (c : Char) : Bool := 0x30 ≤ c.toNat && c.toNat ≤ 0x39

/-- Underscores are dropped; each has to stand between two digits. -/
def dropUnderscores (previous : Char) : List Char → Option (List Char)
  | [] => if previous == '_' then none else some []
  | c :: cs =>
    if c == '_' then
      if isDecimalDigit previous then dropUnderscores c cs else none
    else if previous == '_' && !isDecimalDigit c then none
    else (dropUnderscores c cs).map (c :: ·)

/-- The number that decimal digits write. -/
def decimalValue (digits : List Char) : ℕ :=
  digits.foldl (fun n c => 10 * n + (c.toNat - 0x30)) 0

/-- The exponent of a decimal text, which ends the text. -/
def parseExponent : List Char → Option ℤ
  | [] => some 0
  | e :: rest =>
    if e == 'e' || e == 'E' then
      let (negative, digits) := match rest with
        | '-' :: ds => (true, ds)
        | '+' :: ds => (false, ds)
        | ds => (false, ds)
      if !digits.isEmpty && digits.all isDecimalDigit then
        some (if negative then -(decimalValue digits : ℤ) else decimalValue digits)
      else none
    else none

/-- An unsigned number: a decimal text, an infinity or not a number. The value of a decimal text
is exact until it is rounded once, at the end. -/
def parseMagnitude (cs : List Char) : Option PyFloat :=
  let lower := cs.map Char.toLower
  if lower == "inf".toList || lower == "infinity".toList then some (.inf false)
  else if lower == "nan".toList then some .nan
  else
    let whole := cs.takeWhile isDecimalDigit
    let afterWhole := cs.dropWhile isDecimalDigit
    let (fraction, rest) := match afterWhole with
      | '.' :: ds => (ds.takeWhile isDecimalDigit, ds.dropWhile isDecimalDigit)
      | ds => ([], ds)
    if whole.isEmpty && fraction.isEmpty then none
    else (parseExponent rest).map (fun e =>
      roundDouble (decimalValue (whole ++ fraction) * 10 ^ (e - (fraction.length : ℤ))))

/-- A minus sign in front. -/
def PyFloat.neg : PyFloat → PyFloat
  | .nan => .nan
  | .inf negative => .inf !negative
  | .finite q => .finite (-q)

/-- `float(text)`: white space around the number is dropped, then the underscores, then a sign
is read. -/
def floatOfText (text : String) : Except PyError PyFloat :=
  let ascii := text.toList.map toAsciiNumeral
  let trimmed := ((ascii.dropWhile isNumeralSpace).reverse.dropWhile isNumeralSpace).reverse
  let parsed := (dropUnderscores ' ' trimmed).bind (fun cs => match cs with
    | '-' :: ds => (parseMagnitude ds).map PyFloat.neg
    | '+' :: ds => parseMagnitude ds
    | ds => parseMagnitude ds)
  match parsed with
  | some f => .ok f
  | none => .error (.valueError "could not convert string to float")

/-- `float(value)` of a JSON value. An integer too large for a double raises where a decimal
text of the same size is infinite. -/
def toFloat : Json → Except PyError PyFloat
  | .bool b => .ok (.finite (if b then 1 else 0))
  | .int i => match roundDouble i with
    | .finite q => .ok (.finite q)
    | _ => .error (.overflowError "int too large to convert to float")
  | .float q => .ok (.finite q)
  | .str s => floatOfText s
  | _ => .error (.typeError "float() argument must be a string or a real number")

/-! ## Versions -/

/-- **The third-party version parser**: its versions, its constructor, which
raises on texts it refuses, and its comparisons. -/
class Packaging where
  /-- The versions it knows. -/
  Version : Type
  /-- `Version(text)`. -/
  parse : String → Except PyError Version
  /-- `left == right`. -/
  eq : Version → Version → Bool
  /-- `left > right`. -/
  gt : Version → Version → Bool
  /-- `left < right`. -/
  lt : Version → Version → Bool

/-- A parser that refuses every text. Evaluations without version conditions
do not see which parser they run with. -/
abbrev Packaging.refusing : Packaging where
  Version := Empty
  parse := fun text => .error (.invalidVersion ("Invalid version: " ++ text))
  eq := fun _ _ => false
  gt := fun _ _ => false
  lt := fun _ _ => false

/-! ## The operators -/

section Operators

/-- `equals`: Python's `==`. -/
def equals (actual : Option Json) (expected : Json) : Except PyError Bool :=
  match actual with
  | none => .ok false
  | some a => .ok (a.eqv expected)

/-- `not_equals`, which is false of an attribute that is absent. -/
def notEquals (actual : Option Json) (expected : Json) : Except PyError Bool :=
  match actual with
  | none => .ok false
  | some a => .ok (!a.eqv expected)

/-- `in`: the stored value has to be a container, or the condition is false. -/
def isMember (actual : Option Json) (expected : Json) : Except PyError Bool :=
  match actual with
  | none => .ok false
  | some a => if expected.isContainer then a.isIn expected else .ok false

/-- `not_in`, false of an absent attribute and of a stored value that is no container. -/
def isNotMember (actual : Option Json) (expected : Json) : Except PyError Bool :=
  match actual with
  | none => .ok false
  | some a =>
    if expected.isContainer then (a.isIn expected).map (fun b => !b) else .ok false

/-- `contains`: the attribute is the container. -/
def contains (actual : Option Json) (expected : Json) : Except PyError Bool :=
  match actual with
  | none => .ok false
  | some a => if a.isContainer then expected.isIn a else .ok false

/-- `starts_with`, of two texts. -/
def startsWith (actual : Option Json) (expected : Json) : Except PyError Bool :=
  match actual.bind Json.str?, expected.str? with
  | some a, some e => .ok (e.toList.isPrefixOf a.toList)
  | _, _ => .ok false

/-- `ends_with`, of two texts. -/
def endsWith (actual : Option Json) (expected : Json) : Except PyError Bool :=
  match actual.bind Json.str?, expected.str? with
  | some a, some e => .ok (e.toList.isSuffixOf a.toList)
  | _, _ => .ok false

/-- `exists`. An attribute that is `null` exists. -/
def pyExists (actual : Option Json) (_expected : Json) : Except PyError Bool :=
  .ok actual.isSome

/-- `not_exists`. -/
def notExists (actual : Option Json) (_expected : Json) : Except PyError Bool :=
  .ok actual.isNone

/-- Numeric comparison. Booleans are refused, and a value `float` refuses
with a `TypeError` or a `ValueError` compares false; an `OverflowError` is not
caught. -/
def numericCompare (operation : PyFloat → PyFloat → Bool)
    (actual : Option Json) (expected : Json) : Except PyError Bool :=
  match actual with
  | none => .ok false
  | some a =>
    if a.isBool || expected.isBool then .ok false
    else
      let compared := do
        let left ← toFloat a
        let right ← toFloat expected
        pure (operation left right)
      match compared with
      | .error (.typeError _) => .ok false
      | .error exc => if exc.isValueError then .ok false else .error exc
      | .ok b => .ok b

variable [Packaging]

/-- Comparison of versions. A text that is no version compares false; any
other exception of the parser is not caught. -/
def semverCompare (operation : Packaging.Version → Packaging.Version → Bool)
    (actual : Option Json) (expected : Json) : Except PyError Bool :=
  match actual.bind Json.str?, expected.str? with
  | some a, some e =>
    let compared := do
      let left ← Packaging.parse a
      let right ← Packaging.parse e
      pure (operation left right)
    match compared with
    | .error (.invalidVersion _) => .ok false
    | r => r
  | _, _ => .ok false

/-- **The table of operators**, in the order of the source. -/
def operators : List (String × (Option Json → Json → Except PyError Bool)) :=
  [("equals", equals),
    ("not_equals", notEquals),
    ("in", isMember),
    ("not_in", isNotMember),
    ("contains", contains),
    ("starts_with", startsWith),
    ("ends_with", endsWith),
    ("exists", pyExists),
    ("not_exists", notExists),
    ("greater_than", numericCompare (fun left right => right.lt left)),
    ("greater_or_equal", numericCompare (fun left right => right.le left)),
    ("less_than", numericCompare PyFloat.lt),
    ("less_or_equal", numericCompare PyFloat.le),
    ("semver_equal", semverCompare Packaging.eq),
    ("semver_greater", semverCompare Packaging.gt),
    ("semver_less", semverCompare Packaging.lt)]

/-- **Does a condition hold?** The operator is looked up by name. -/
def conditionMatches (operator : String) (actual : Option Json) (expected : Json) :
    Except PyError Bool :=
  match operators.lookup operator with
  | some operation => operation actual expected
  | none => .error (.valueError ("Unsupported operator: " ++ operator))

end Operators

/-! ## The order of keys in the stored value -/

section Congruence

variable {a b : Json}

/-- A number does not depend on the order of keys: objects are refused alike. -/
theorem toFloat_congr (h : Json.Reordered a b) : toFloat a = toFloat b :=
  h.eq_of_shallow toFloat (fun _ _ => rfl) (fun _ _ => rfl)

/-- **No operator sees the order of object keys in the stored value.** Each entry of the table
is looked at once; the lookup then gives one of them. -/
theorem conditionMatches_congr [Packaging] (h : Json.Reordered a b) (operator : String)
    (actual : Option Json) :
    conditionMatches operator actual a = conditionMatches operator actual b := by
  have hnum : ∀ operation,
      numericCompare operation actual a = numericCompare operation actual b := by
    intro operation
    simp only [numericCompare, h.isBool_eq, toFloat_congr h]
  have hver : ∀ operation,
      semverCompare operation actual a = semverCompare operation actual b := by
    intro operation
    simp only [semverCompare, h.str?_eq]
  have hall : ∀ entry ∈ operators, entry.2 actual a = entry.2 actual b := by
    simp only [operators, List.forall_mem_cons, hnum, hver, equals, notEquals, isMember,
      isNotMember, contains, startsWith, endsWith, pyExists, notExists, h.str?_eq,
      h.isContainer_eq, Json.eqv_congr_right h, Json.isIn_congr_right h,
      Json.isIn_congr_left h, List.not_mem_nil, false_imp_iff, implies_true, and_self]
  unfold conditionMatches
  cases ho : operators.lookup operator with
  | none => rfl
  | some operation => exact hall _ (mem_of_lookup_eq_some ho)

end Congruence

end CohortSwitch
