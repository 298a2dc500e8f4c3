import Orchestrator.Library.Float

/-!
# The Python values the orchestrator passes around

Exception classes, JSON values and the string functions the code calls. An
exception carries the text that `str(exc)` gives.
-/

namespace Orchestrator

open Library
set_option autoImplicit false

/-- The exception classes that some `except` clause of the program tells apart;
`other` stands for every further subclass of `Exception`. -/
inductive PyExc where
  | keyError (text : String)
  | indexError (text : String)
  | valueError (text : String)
  | validationError (fields : List String) (text : String)
  | jsonDecodeError (text : String)
  | typeError (text : String)
  | overflowError (text : String)
  | runtimeError (text : String)
  | integrityError (constraint : String)
  | httpError (text : String)
  | adapterError (text : String)
  | retryableAdapterError (text : String) (retryAfterSeconds : Option Int)
  | enrichmentError (text : String)
  | other (text : String)
deriving DecidableEq

namespace PyExc

/-- `isinstance(exc, ValueError)`: pydantic's and the JSON decoder's errors are subclasses. -/
def isValueError : PyExc → Bool
  | valueError _ | validationError .. | jsonDecodeError _ => true
  | _ => false

def isKeyError : PyExc → Bool
  | keyError _ => true
  | _ => false

def isIntegrityError : PyExc → Bool
  | integrityError _ => true
  | _ => false

/-- `str(exc)`. -/
def str : PyExc → String
  | keyError t | indexError t | valueError t | jsonDecodeError t | typeError t | overflowError t
  | runtimeError t | integrityError t | httpError t | adapterError t | retryableAdapterError t _
  | enrichmentError t | validationError _ t | other t => t

def ofFloat : FloatError → PyExc
  | .overflow => overflowError "int too large to convert to float"
  | .nan => valueError "cannot convert float NaN to integer"

end PyExc

theorem bind_eq_ok {ε α β : Type} {x : Except ε α} {f : α → Except ε β} {b : β} :
    (x >>= f) = .ok b ↔ ∃ a, x = .ok a ∧ f a = .ok b := by
  cases x with
  | ok a =>
    constructor
    · exact fun h => ⟨a, rfl, h⟩
    · intro h
      obtain ⟨a', ha, h⟩ := h
      cases ha
      exact h
  | error x =>
    constructor
    · intro h
      cases h
    · intro h
      obtain ⟨a, ha, -⟩ := h
      cases ha

theorem bind_eq_error {ε α β : Type} {x : Except ε α} {f : α → Except ε β} {e : ε} :
    (x >>= f) = .error e ↔ x = .error e ∨ ∃ a, x = .ok a ∧ f a = .error e := by
  cases x with
  | ok a =>
    constructor
    · exact fun h => .inr ⟨a, rfl, h⟩
    · intro h
      rcases h with h | ⟨a', ha, h⟩
      · cases h
      · cases ha
        exact h
  | error x =>
    constructor
    · intro h
      cases h
      exact .inl rfl
    · intro h
      rcases h with h | ⟨a, ha, -⟩
      · cases h
        rfl
      · cases ha

/-- The code points that stand for no character by themselves. -/
def isSurrogate (code : ℕ) : Bool := 0xd800 ≤ code && code < 0xe000

/-- A `str` of Python: a text, or the code points of one with a lone surrogate. -/
inductive PyStr where
  | text (s : String)
  | lone (codes : List ℕ) (h : codes.any isSurrogate = true)
deriving DecidableEq

instance : Coe String PyStr := ⟨PyStr.text⟩

namespace PyStr

def length : PyStr → ℕ
  | text s => s.length
  | lone codes _ => codes.length

/-- `s[0]`, if there is one. -/
def first : PyStr → Option PyStr
  | text s => s.toList.head?.map fun c => text (String.singleton c)
  | lone codes _ => codes.head?.map fun code =>
    if h : [code].any isSurrogate = true then lone [code] h
    else text (String.singleton (Char.ofNat code))

theorem first_eq_none {s : PyStr} : s.first = none ↔ s = text "" := by
  cases s with
  | text s => simp [first, String.toList_eq_nil_iff]
  | lone codes h =>
    cases codes with
    | nil => cases h
    | cons code codes => simp [first]

/-- `repr(s)`, of a text without characters to escape. -/
def repr : PyStr → String
  | text s => s!"'{s}'"
  | lone codes _ => "'" ++ String.join (codes.map fun code =>
      if isSurrogate code then "\\u" ++ String.ofList (Nat.toDigits 16 code)
      else String.singleton (Char.ofNat code)) ++ "'"

end PyStr

/-- A value that `json.loads` can return. -/
inductive Json where
  | null
  | bool (b : Bool)
  | int (n : Int)
  | float (x : Float64)
  | str (s : PyStr)
  | arr (items : List Json)
  | obj (entries : List (PyStr × Json))

/-- How values are written, read and checked: the `json` module with `dumps` of the payload
dictionaries and `loads`; pydantic with the bounds of a `Field`, the strings that it takes and
the text of its errors; and the body of a JSON response. -/
class JsonCodec where
  dumps : List (PyStr × Json) → String
  loads : PyStr → Except PyExc Json
  inBounds : (ge le x : Float64) → Bool
  acceptsStr : PyStr → Bool
  validationText : List String → String
  render : Json → Except PyExc String

/-- The `ValidationError` about these fields. -/
def PyExc.invalid [JsonCodec] (fields : List String) : PyExc :=
  validationError fields (JsonCodec.validationText fields)

/-- `str.isspace` of one character. -/
def isSpace (c : Char) : Bool :=
  c.toNat ∈ [0x9, 0xa, 0xb, 0xc, 0xd, 0x1c, 0x1d, 0x1e, 0x1f, 0x20, 0x85, 0xa0, 0x1680, 0x2000,
    0x2001, 0x2002, 0x2003, 0x2004, 0x2005, 0x2006, 0x2007, 0x2008, 0x2009, 0x200a, 0x2028,
    0x2029, 0x202f, 0x205f, 0x3000]

def strip (s : String) : String :=
  String.ofList ((s.toList.dropWhile isSpace).reverse.dropWhile isSpace).reverse

/-- `str.lower` on ASCII letters; no other letter lowers to one of the names compared here. -/
def lower (s : String) : String := String.ofList (s.toList.map Char.toLower)

end Orchestrator
