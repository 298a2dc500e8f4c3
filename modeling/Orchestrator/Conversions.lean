import Orchestrator.Python

/-!
# Subscripts and `float()`

The Python operations that the enrichment applies to decoded JSON: `v[key]`, `v[0]` and
`float(v)`. A numeral is read as CPython reads it: spaces and decimal digits of every
script are normalised, underscores may stand between digits only.
-/

namespace Orchestrator

open Library
set_option autoImplicit false

section Numerals

/-- The code points of the digit zero in Unicode; the nine digits follow each. -/
def decimalZeros : List Nat :=
  [0x30, 0x660, 0x6f0, 0x7c0, 0x966, 0x9e6, 0xa66, 0xae6, 0xb66, 0xbe6, 0xc66, 0xce6, 0xd66, 0xde6,
    0xe50, 0xed0, 0xf20, 0x1040, 0x1090, 0x17e0, 0x1810, 0x1946, 0x19d0, 0x1a80, 0x1a90, 0x1b50,
    0x1bb0, 0x1c40, 0x1c50, 0xa620, 0xa8d0, 0xa900, 0xa9d0, 0xa9f0, 0xaa50, 0xabf0, 0xff10, 0x104a0,
    0x10d30, 0x11066, 0x110f0, 0x11136, 0x111d0, 0x112f0, 0x11450, 0x114d0, 0x11650, 0x116c0,
    0x11730, 0x118e0, 0x11950, 0x11c50, 0x11d50, 0x11da0, 0x11f50, 0x16a60, 0x16ac0, 0x16b50,
    0x1d7ce, 0x1d7d8, 0x1d7e2, 0x1d7ec, 0x1d7f6, 0x1e140, 0x1e2f0, 0x1e4f0, 0x1e950, 0x1fbf0]

/-- A digit of any script as an ASCII digit, and an ASCII letter in lower case. -/
def asciiNumeral (c : Char) : Char :=
  match decimalZeros.find? fun z => z ≤ c.toNat && c.toNat < z + 10 with
  | some z => Char.ofNat (0x30 + (c.toNat - z))
  | none => c.toLower

/-- The spaces that `float` ignores around a numeral: not the four separators of ASCII. -/
def isNumeralSpace (c : Char) : Bool := isSpace c && !(0x1c ≤ c.toNat && c.toNat ≤ 0x1f)

def numeral (s : String) : List Char :=
  (((s.toList.dropWhile isNumeralSpace).reverse.dropWhile isNumeralSpace).reverse).map asciiNumeral

/-- Underscores are taken out if each stands between two digits; `prev` is the character
before. -/
def dropUnderscores (prev : Char) : List Char → Option (List Char)
  | [] => if prev = '_' then none else some []
  | c :: cs =>
    if c = '_' then if prev.isDigit then dropUnderscores c cs else none
    else if prev = '_' ∧ c.isDigit = false then none
    else (dropUnderscores c cs).map (c :: ·)

def readDigits (cs : List Char) : Nat := cs.foldl (fun n c => 10 * n + (c.toNat - 0x30)) 0

def readExponent : List Char → Option Int
  | [] => some 0
  | 'e' :: '-' :: ds => if ds ≠ [] ∧ ds.all Char.isDigit then some (-readDigits ds) else none
  | 'e' :: '+' :: ds => if ds ≠ [] ∧ ds.all Char.isDigit then some (readDigits ds) else none
  | 'e' :: ds => if ds ≠ [] ∧ ds.all Char.isDigit then some (readDigits ds) else none
  | _ => none

def readFraction : List Char → List Char × List Char
  | '.' :: cs => (cs.takeWhile Char.isDigit, cs.dropWhile Char.isDigit)
  | cs => ([], cs)

def readDecimal (cs : List Char) : Option Float64 :=
  let whole := cs.takeWhile Char.isDigit
  let (fraction, rest) := readFraction (cs.dropWhile Char.isDigit)
  if whole ++ fraction = [] then none
  else (readExponent rest).map fun exponent : Int =>
    Float64.ofRat (readDigits (whole ++ fraction) * 10 ^ (exponent - fraction.length))

def readMagnitude (cs : List Char) : Option Float64 :=
  if cs = "inf".toList ∨ cs = "infinity".toList then some (.inf false)
  else if cs = "nan".toList then some .nan
  else readDecimal cs

def readSigned : List Char → Option Float64
  | '-' :: cs => (readMagnitude cs).map Float64.neg
  | '+' :: cs => readMagnitude cs
  | cs => readMagnitude cs

/-- `float(s)` of a string. -/
def floatOfString (s : String) : Except PyExc Float64 :=
  match (dropUnderscores ' ' (numeral s)).bind readSigned with
  | some x => .ok x
  | none => .error (.valueError s!"could not convert string to float: '{s}'")

end Numerals

namespace Json

/-- `type(v).__name__`. -/
def typeName : Json → String
  | null => "NoneType"
  | bool _ => "bool"
  | int _ => "int"
  | float _ => "float"
  | str _ => "str"
  | arr _ => "list"
  | obj _ => "dict"

def notSubscriptable (v : Json) : PyExc :=
  .typeError s!"'{v.typeName}' object is not subscriptable"

/-- `v[key]` for a string `key`. -/
def getItem (v : Json) (key : String) : Except PyExc Json :=
  match v with
  | obj entries =>
    match entries.lookup (key : PyStr) with
    | some value => .ok value
    | none => .error (.keyError s!"'{key}'")
  | arr _ => .error (.typeError "list indices must be integers or slices, not str")
  | str _ => .error (.typeError "string indices must be integers, not 'str'")
  | v => .error v.notSubscriptable

/-- `v[0]`; every key of a decoded object is a string. -/
def getFirst (v : Json) : Except PyExc Json :=
  match v with
  | arr (item :: _) => .ok item
  | arr [] => .error (.indexError "list index out of range")
  | obj _ => .error (.keyError "0")
  | str s =>
    match s.first with
    | some c => .ok (str c)
    | none => .error (.indexError "string index out of range")
  | v => .error v.notSubscriptable

/-- `v.get(key, default)`. -/
def get (v : Json) (key : String) (default : Json) : Except PyExc Json :=
  match v with
  | obj entries => .ok ((entries.lookup (key : PyStr)).getD default)
  | v => .error (.other s!"'{v.typeName}' object has no attribute 'get'")

/-- `float(v)`. -/
def toFloat (v : Json) : Except PyExc Float64 :=
  match v with
  | bool b => .ok (.fin (if b then 1 else 0))
  | int n => (Float64.ofInt n).mapError PyExc.ofFloat
  | float x => .ok x
  | str (.text s) => floatOfString s
  | str s => .error (.valueError s!"could not convert string to float: {s.repr}")
  | v => .error (.typeError
      s!"float() argument must be a string or a real number, not '{v.typeName}'")

/-- `json.loads(v)`. -/
def loads [JsonCodec] : Json → Except PyExc Json
  | str s => JsonCodec.loads s
  | v => .error (.typeError s!"the JSON object must be str, bytes or bytearray, not {v.typeName}")

mutual

/-- JSON has a text for the value: no lone surrogate, and no number beyond the finite ones. -/
def encodable : Json → Bool
  | str (.lone _ _) | float .nan | float (.inf _) => false
  | arr items => encodableItems items
  | obj entries => encodableEntries entries
  | _ => true

def encodableItems : List Json → Bool
  | [] => true
  | v :: items => v.encodable && encodableItems items

def encodableEntries : List (PyStr × Json) → Bool
  | [] => true
  | entry :: entries => encodableEntry entry && encodableEntries entries

def encodableEntry : PyStr × Json → Bool
  | (.text _, v) => v.encodable
  | (.lone _ _, _) => false

end

end Json

/-- A codec for examples, which reads texts as it is told and writes `null`. -/
@[reducible] def readingCodec (loads : PyStr → Except PyExc Json) : JsonCodec where
  dumps _ := "null"
  loads := loads
  inBounds ge le x := Float64.le ge x && Float64.le x le
  acceptsStr
    | .text _ => true
    | .lone _ _ => false
  validationText _ := "validation error"
  render v := if v.encodable then .ok "null" else .error (.valueError "not JSON compliant")

end Orchestrator
