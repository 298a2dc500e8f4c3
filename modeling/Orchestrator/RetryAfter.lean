import Orchestrator.Clock
import Orchestrator.Conversions
import Orchestrator.Library.Calendar

/-!
# The Retry-After header

What `_parse_retry_after` makes of a header, up to its reading of the clock: `str.isdigit`,
`int` of a string, and `email.utils.parsedate_to_datetime` with the tolerant date syntax of
the standard library.
-/

namespace Orchestrator

open Calendar
set_option autoImplicit false

section Numerals

/-- The characters that are digits to `str.isdigit` and have no decimal value. -/
def otherDigits : List (Nat × Nat) :=
  [(0xb2, 0xb3), (0xb9, 0xb9), (0x1369, 0x1371), (0x19da, 0x19da), (0x2070, 0x2070),
    (0x2074, 0x2079), (0x2080, 0x2089), (0x2460, 0x2468), (0x2474, 0x247c), (0x2488, 0x2490),
    (0x24ea, 0x24ea), (0x24f5, 0x24fd), (0x24ff, 0x24ff), (0x2776, 0x277e), (0x2780, 0x2788),
    (0x278a, 0x2792), (0x10a40, 0x10a43), (0x10e60, 0x10e68), (0x11052, 0x1105a),
    (0x1f100, 0x1f10a)]

def isDecimal (c : Char) : Bool := decimalZeros.any fun z => z ≤ c.toNat && c.toNat < z + 10

def isDigit (c : Char) : Bool :=
  isDecimal c || otherDigits.any fun (first, last) => first ≤ c.toNat && c.toNat ≤ last

/-- `str.isdigit`. -/
def strIsDigit (s : String) : Bool := s ≠ "" && s.toList.all isDigit

/-- The digits that `int` reads: one at least, and no more than the interpreter's limit. -/
def readNatural (ds : List Char) : Option Int :=
  if ds ≠ [] ∧ ds.all Char.isDigit ∧ ds.length ≤ 4300 then some (readDigits ds) else none

def readInteger : List Char → Option Int
  | '-' :: ds => (readNatural ds).map fun n => -n
  | '+' :: ds => readNatural ds
  | ds => readNatural ds

/-- `int(s)` of a string; `none` stands for its `ValueError`. -/
def intOfString (s : String) : Option Int :=
  (dropUnderscores ' ' (numeral s)).bind readInteger

end Numerals

section Text

/-- The pieces between the characters that `p` selects, as `str.split(c)` gives them. -/
def splitBy (p : Char → Bool) : List Char → List (List Char)
  | [] => [[]]
  | c :: cs =>
    if p c then [] :: splitBy p cs
    else
      match splitBy p cs with
      | piece :: pieces => (c :: piece) :: pieces
      | [] => [[c]]

/-- `str.split()`. -/
def words (s : String) : List (List Char) := (splitBy isSpace s.toList).filter (· ≠ [])

def lowerChars (cs : List Char) : List Char := cs.map Char.toLower

/-- `str.upper`, as far as it can give one of the zone names: two ligatures become `ST`. -/
def upperChars (cs : List Char) : List Char :=
  cs.flatMap fun c =>
    if c.toNat = 0x17f then ['S']
    else if c.toNat = 0xfb05 ∨ c.toNat = 0xfb06 then ['S', 'T']
    else [c.toUpper]

def stripComma (cs : List Char) : List Char :=
  if cs.getLast? = some ',' then cs.dropLast else cs

/-- `s[s.rfind(",") + 1:]`. -/
def afterComma (cs : List Char) : List Char := (cs.reverse.takeWhile (· ≠ ',')).reverse

end Text

section Dates

def dayNames : List (List Char) := ["mon", "tue", "wed", "thu", "fri", "sat", "sun"].map (·.toList)

def monthNames : List (List Char) :=
  ["jan", "feb", "mar", "apr", "may", "jun", "jul", "aug", "sep", "oct", "nov", "dec", "january",
    "february", "march", "april", "may", "june", "july", "august", "september", "october",
    "november", "december"].map (·.toList)

def timezones : List (List Char × Int) :=
  [("UT", 0), ("UTC", 0), ("GMT", 0), ("Z", 0), ("AST", -400), ("ADT", -300), ("EST", -500),
    ("EDT", -400), ("CST", -600), ("CDT", -500), ("MST", -700), ("MDT", -600), ("PST", -800),
    ("PDT", -700)].map fun (name, offset) => (name.toList, offset)

def monthNumber (name : List Char) : Option Nat :=
  (monthNames.idxOf? name).map fun i => if i + 1 > 12 then i + 1 - 12 else i + 1

/-- The fields of a date as written, with the offset of its zone in seconds. -/
structure DateTuple where
  year : Int
  month : Nat
  day : Int
  hour : Int
  minute : Int
  second : Int
  tzoffset : Option Int

/-- The words of a date: the name of the day left out, and the words that dashes or the sign
of a zone hold together taken apart. -/
def dateWords (data : String) : List (List Char) :=
  let data :=
    match words data with
    | [] => []
    | first :: rest =>
      if first.getLast? = some ',' ∨ lowerChars first ∈ dayNames then rest
      else afterComma first :: rest
  let data :=
    match data with
    | [stuff, tm, tz] =>
      match splitBy (· = '-') stuff with
      | [dd, mm, yy] => [dd, mm, yy, tm, tz]
      | _ => [stuff, tm, tz]
    | data => data
  match data with
  | [dd, mm, yy, s] =>
    match (s.findIdx? (· = '+')).or (s.findIdx? (· = '-')) with
    | some (i + 1) => [dd, mm, yy, s.take (i + 1), s.drop (i + 1)]
    | _ => [dd, mm, yy, s, []]
  | data => data

/-- Hours, minutes and seconds of `h:m`, `h:m:s`, `h.m` or `h.m.s`. -/
def timeWords (tm : List Char) : Option (List Char × List Char × List Char) :=
  match splitBy (· = ':') tm with
  | [thh, tmm] => some (thh, tmm, ['0'])
  | [thh, tmm, tss] => some (thh, tmm, tss)
  | [_] =>
    match splitBy (· = '.') tm with
    | [thh, tmm] => some (thh, tmm, ['0'])
    | [thh, tmm, tss] => some (thh, tmm, tss)
    | _ => none
  | _ => none

def intOfChars (cs : List Char) : Option Int := intOfString (String.ofList cs)

/-- The offset that a zone names; `-0000` and unknown names give none. -/
def zoneOffset (tz : List Char) : Option Int :=
  let tz := upperChars tz
  let tzoffset :=
    match timezones.lookup tz with
    | some offset => some offset
    | none => (intOfChars tz).filter fun n => !(n = 0 && tz.head? = some '-')
  tzoffset.map fun n =>
    (if n < 0 then -1 else 1) * ((n.natAbs / 100 * 3600 + n.natAbs % 100 * 60 : Nat) : Int)

/-- A year of two digits stands for one between 1969 and 2068. -/
def fullYear (yy : Int) : Int := if yy < 100 then if yy > 68 then yy + 1900 else yy + 2000 else yy

/-- `_parsedate_tz`. -/
def parsedateTz (data : String) : Option DateTuple := do
  match dateWords data with
  | dd :: mm :: yy :: tm :: tz :: _ =>
    if dd = [] ∨ mm = [] ∨ yy = [] then none
    else
      let (dd, month) ←
        match monthNumber (lowerChars mm) with
        | some month => some (dd, month)
        | none => (monthNumber (lowerChars dd)).map fun month => (lowerChars mm, month)
      let dd := stripComma dd
      let (yy, tm) := if yy.idxOf ':' ≠ 0 ∧ ':' ∈ yy then (tm, yy) else (yy, tm)
      let yy := stripComma yy
      if yy = [] then none
      else
        let (yy, tz) := if (yy.head?.map isDigit).getD false then (yy, tz) else (tz, yy)
        let (thh, tmm, tss) ← timeWords (stripComma tm)
        let year ← intOfChars yy
        return {
          year := fullYear year
          month := month
          day := ← intOfChars dd
          hour := ← intOfChars thh
          minute := ← intOfChars tmm
          second := ← intOfChars tss
          tzoffset := zoneOffset tz }
  | _ => none

def fitsInt (n : Int) : Bool := -2 ^ 31 ≤ n && n < 2 ^ 31

/-- `datetime(...)` of the fields, in microseconds from the start of year 1. -/
def DateTuple.toDatetime (t : DateTuple) : Except PyExc Int :=
  if [t.year, t.day, t.hour, t.minute, t.second].any fun n => !fitsInt n then
    .error (.overflowError "Python int too large to convert to C int")
  else if 1 ≤ t.year ∧ t.year ≤ 9999 ∧ 1 ≤ t.day ∧
      t.day ≤ daysIn (leap t.year.toNat) t.month ∧ 0 ≤ t.hour ∧ t.hour < 24 ∧ 0 ≤ t.minute ∧
      t.minute < 60 ∧ 0 ≤ t.second ∧ t.second < 60 then
    .ok (((dayNumber t.year.toNat t.month t.day.toNat * 24 + t.hour) * 60 + t.minute) * 60000000 +
      t.second * 1000000)
  else .error (.valueError "a field of the date is out of range")

/-- `timezone(timedelta(seconds=tz))`. -/
def checkOffset (tz : Int) : Except PyExc Unit :=
  if 999999999 < (tz / 86400).natAbs then
    .error (.overflowError "days out of range; must have magnitude <= 999999999")
  else if tz.natAbs < 86400 then .ok ()
  else .error (.valueError "offset must be strictly between -24 and 24 hours")

/-- `parsedate_to_datetime`: the instant in UTC, or `none` for a time without a zone. -/
def parsedateToDatetime (data : String) : Except PyExc (Option Int) :=
  match parsedateTz data with
  | none => .error (.valueError s!"Invalid date value or format '{data}'")
  | some t =>
    match t.tzoffset with
    | none => t.toDatetime.map fun _ => none
    | some tz => do
      checkOffset tz
      let local' ← t.toDatetime
      return some (local' - tz * 1000000)

end Dates

/-- What a header asks for: nothing, a number of seconds, or to wait for an instant, given in
microseconds from the start of year 1. -/
inductive RetryAfter where
  | absent
  | delay (seconds : Int)
  | date (retryAt : Int)
deriving DecidableEq

/-- The classes that `_parse_retry_after` answers with None. -/
def PyExc.isDateError : PyExc → Bool
  | typeError _ | valueError _ | jsonDecodeError _ | validationError .. | overflowError _ => true
  | _ => false

/-- `_parse_retry_after` up to its reading of the clock. -/
def readRetryAfter (value : Option String) : Except PyExc RetryAfter :=
  match value.filter (· ≠ "") with
  | none => .ok .absent
  | some value =>
    if strIsDigit (strip value) then
      match intOfString (strip value) with
      | some seconds => .ok (.delay (max 0 seconds))
      | none => .error (.valueError s!"invalid literal for int() with base 10: '{strip value}'")
    else
      match parsedateToDatetime (strip value) with
      | .ok (some retryAt) => .ok (.date retryAt)
      | .ok none => .ok .absent
      | .error exc => if exc.isDateError then .ok .absent else .error exc

/-- `max(0, int((retry_at - now).total_seconds()))`, in exact time: `int_totalSeconds` says how far
the float that `total_seconds` returns agrees. -/
def secondsUntil (retryAt : Int) (now : Instant) : Int :=
  max 0 ((retryAt - now.us).tdiv 1000000)

section Digits

theorem isSpace_of_isDigit {c : Char} (h : isDigit c = true) : isSpace c = false := by
  have hspaces : ∀ n ∈ [0x9, 0xa, 0xb, 0xc, 0xd, 0x1c, 0x1d, 0x1e, 0x1f, 0x20, 0x85, 0xa0, 0x1680,
      0x2000, 0x2001, 0x2002, 0x2003, 0x2004, 0x2005, 0x2006, 0x2007, 0x2008, 0x2009, 0x200a,
      0x2028, 0x2029, 0x202f, 0x205f, 0x3000],
      (decimalZeros.any (fun z => z ≤ n && n < z + 10) ||
        otherDigits.any fun (first, last) => first ≤ n && n ≤ last) = false := by decide
  by_contra hspace
  rw [Bool.not_eq_false] at hspace
  unfold isSpace at hspace
  have hnot := hspaces c.toNat (by simpa using hspace)
  unfold isDigit isDecimal at h
  rw [hnot] at h
  cases h

theorem asciiNumeral_of_isDecimal {c : Char} (h : isDecimal c = true) :
    (asciiNumeral c).isDigit = true := by
  have hascii : ∀ k < 10, (Char.ofNat (0x30 + k)).isDigit = true := by decide
  unfold isDecimal at h
  unfold asciiNumeral
  cases hfind : decimalZeros.find? fun z => z ≤ c.toNat && c.toNat < z + 10 with
  | none =>
    rw [List.find?_eq_none] at hfind
    obtain ⟨z, hz, hc⟩ := List.any_eq_true.mp h
    exact absurd hc (hfind z hz)
  | some z =>
    have hz := List.find?_some hfind
    simp only [Bool.and_eq_true, decide_eq_true_eq] at hz
    exact hascii _ (by omega)

/-- A digit without a decimal value stays as it is, and it is no ASCII character. -/
theorem asciiNumeral_of_not_isDecimal {c : Char} (h : isDigit c = true)
    (hdec : isDecimal c = false) : asciiNumeral c = c ∧ 128 ≤ c.toNat := by
  have hranges : ∀ r ∈ otherDigits, 128 ≤ r.1 := by decide
  have hlarge : 128 ≤ c.toNat := by
    unfold isDigit at h
    rw [hdec, Bool.false_or] at h
    obtain ⟨r, hr, hc⟩ := List.any_eq_true.mp h
    simp only [Bool.and_eq_true, decide_eq_true_eq] at hc
    exact le_trans (hranges r hr) hc.1
  refine ⟨?_, hlarge⟩
  have hfind : (decimalZeros.find? fun z => z ≤ c.toNat && c.toNat < z + 10) = none := by
    rw [List.find?_eq_none]
    intro z hz hc
    have hany : isDecimal c = true := List.any_eq_true.mpr ⟨z, hz, hc⟩
    rw [hdec] at hany
    cases hany
  unfold asciiNumeral
  rw [hfind]
  have hupper : ¬ (c.val ≥ 65 ∧ c.val ≤ 90) := by
    intro hc
    have hle := UInt32.le_iff_toNat_le.mp hc.2
    change c.toNat ≤ 90 at hle
    omega
  exact dif_neg hupper

theorem dropUnderscores_of_not_mem {prev : Char} {cs : List Char} (hprev : prev ≠ '_')
    (h : '_' ∉ cs) : dropUnderscores prev cs = some cs := by
  induction cs generalizing prev with
  | nil => simp [dropUnderscores, hprev]
  | cons c cs ih =>
    have hc : c ≠ '_' := by
      rintro rfl
      exact h List.mem_cons_self
    have hcs : '_' ∉ cs := fun hmem => h (List.mem_cons_of_mem c hmem)
    simp [dropUnderscores, hc, hprev, ih hc hcs]

theorem numeral_of_isDigit {s : String} (h : ∀ c ∈ s.toList, isDigit c = true) :
    numeral s = s.toList.map asciiNumeral := by
  have hspace : ∀ c ∈ s.toList, isNumeralSpace c = false := by
    intro c hc
    simp [isNumeralSpace, isSpace_of_isDigit (h c hc)]
  have hdrop : ∀ {cs : List Char}, (∀ c ∈ cs, isNumeralSpace c = false) →
      cs.dropWhile isNumeralSpace = cs := by
    intro cs hcs
    cases cs with
    | nil => rfl
    | cons c cs => simp [hcs c List.mem_cons_self]
  unfold numeral
  rw [hdrop hspace, hdrop fun c hc => hspace c (List.mem_reverse.mp hc), List.reverse_reverse]

/-- What `int` makes of a digit: a digit of its own if it is decimal, and never a sign. -/
structure PlainDigit (c : Char) : Prop where
  underscore : asciiNumeral c ≠ '_'
  minus : asciiNumeral c ≠ '-'
  plus : asciiNumeral c ≠ '+'
  isDigit_iff : (asciiNumeral c).isDigit = true ↔ isDecimal c = true

theorem plainDigit_of_isDecimal {c : Char} (hdec : isDecimal c = true) : PlainDigit c := by
  have hascii := asciiNumeral_of_isDecimal hdec
  have hne : ∀ d : Char, d.isDigit = false → asciiNumeral c ≠ d := by
    rintro _ hd rfl
    cases hascii.symm.trans hd
  exact ⟨hne _ rfl, hne _ rfl, hne _ rfl, by simp [hascii, hdec]⟩

theorem plainDigit_of_not_isDecimal {c : Char} (hdigit : isDigit c = true)
    (hdec : isDecimal c = false) : PlainDigit c := by
  obtain ⟨heq, hlarge⟩ := asciiNumeral_of_not_isDecimal hdigit hdec
  have hne : ∀ d : Char, d.toNat < 128 → c ≠ d := by
    rintro _ hd rfl
    omega
  have hascii : c.isDigit = false := by
    rw [Bool.eq_false_iff]
    intro hascii
    simp only [Char.isDigit, Bool.and_eq_true, decide_eq_true_eq] at hascii
    have hle := UInt32.le_iff_toNat_le.mp hascii.2
    change c.toNat ≤ 57 at hle
    omega
  refine ⟨?_, ?_, ?_, ?_⟩ <;> rw [heq]
  · exact hne '_' (by decide)
  · exact hne '-' (by decide)
  · exact hne '+' (by decide)
  · simp [hascii, hdec]

theorem plainDigit {c : Char} (hdigit : isDigit c = true) : PlainDigit c := by
  cases hdec : isDecimal c with
  | true => exact plainDigit_of_isDecimal hdec
  | false => exact plainDigit_of_not_isDecimal hdigit hdec

theorem readInteger_of_plain {cs : List Char} (hplain : ∀ c ∈ cs, PlainDigit c) :
    readInteger (cs.map asciiNumeral) = readNatural (cs.map asciiNumeral) := by
  unfold readInteger
  split
  · next heq =>
    obtain ⟨c, hc, hminus⟩ := List.mem_map.mp (heq ▸ List.mem_cons_self)
    exact absurd hminus (hplain c hc).minus
  · next heq =>
    obtain ⟨c, hc, hplus⟩ := List.mem_map.mp (heq ▸ List.mem_cons_self)
    exact absurd hplus (hplain c hc).plus
  · rfl

theorem all_isDigit_of_plain {cs : List Char} (hplain : ∀ c ∈ cs, PlainDigit c) :
    (cs.map asciiNumeral).all Char.isDigit = true ↔ ∀ c ∈ cs, isDecimal c = true := by
  simp only [List.all_map, List.all_eq_true, Function.comp_apply]
  constructor
  · exact fun hascii c hc => (hplain c hc).isDigit_iff.mp (hascii c hc)
  · exact fun hdec c hc => (hplain c hc).isDigit_iff.mpr (hdec c hc)

/-- Of the texts that `str.isdigit` accepts, `int` rejects those with a digit that is not
decimal and those with too many digits. -/
theorem intOfString_of_isDigit {s : String} (h : strIsDigit s = true) :
    intOfString s = none ↔ 4300 < s.length ∨ ∃ c ∈ s.toList, isDecimal c = false := by
  simp only [strIsDigit, Bool.and_eq_true, List.all_eq_true, decide_eq_true_eq] at h
  obtain ⟨hne, hdigit⟩ := h
  have hplain : ∀ c ∈ s.toList, PlainDigit c := fun c hc => plainDigit (hdigit c hc)
  have hunder : '_' ∉ s.toList.map asciiNumeral := by
    intro hmem
    obtain ⟨c, hc, heq⟩ := List.mem_map.mp hmem
    exact (hplain c hc).underscore heq
  have hnil : s.toList.map asciiNumeral ≠ [] := by simpa using hne
  rw [intOfString, numeral_of_isDigit hdigit, dropUnderscores_of_not_mem (by decide) hunder,
    Option.bind_some, readInteger_of_plain hplain, readNatural]
  simp only [hnil, ne_eq, not_false_eq_true, true_and, all_isDigit_of_plain hplain,
    List.length_map, String.length_toList, ite_eq_right_iff, reduceCtorEq, imp_false, not_and,
    not_le]
  constructor
  · intro hfail
    by_cases hdec : ∀ c ∈ s.toList, isDecimal c = true
    · exact .inl (hfail hdec)
    · simp only [not_forall, Bool.not_eq_true] at hdec
      obtain ⟨c, hc, hcdec⟩ := hdec
      exact .inr ⟨c, hc, hcdec⟩
  · intro hfail hdec
    rcases hfail with hlong | ⟨c, hc, hcdec⟩
    · exact hlong
    · rw [hdec c hc] at hcdec
      cases hcdec

end Digits

section Outcomes

/-- A header of digits only, once stripped, that `int` cannot read. -/
def UnreadableDigits (value : Option String) : Prop :=
  ∃ header, value = some header ∧ strIsDigit (strip header) = true ∧
    (4300 < (strip header).length ∨ ∃ c ∈ (strip header).toList, isDecimal c = false)

theorem parsedateToDatetime_error {data : String} {exc : PyExc}
    (h : parsedateToDatetime data = .error exc) : exc.isDateError = true := by
  have hdatetime : ∀ {t : DateTuple} {exc : PyExc}, t.toDatetime = .error exc →
      exc.isDateError = true := by
    intro t exc h
    unfold DateTuple.toDatetime at h
    split_ifs at h <;> cases h <;> rfl
  unfold parsedateToDatetime at h
  split at h
  · cases h
    rfl
  · next t _ =>
    split at h
    · cases ht : t.toDatetime with
      | ok n => simp [ht, Except.map] at h
      | error x =>
        simp only [ht, Except.map, Except.error.injEq] at h
        rw [← h]
        exact hdatetime ht
    · next tz _ =>
      rcases bind_eq_error.mp h with h | ⟨⟨⟩, -, h⟩
      · unfold checkOffset at h
        split_ifs at h <;> cases h <;> rfl
      · rcases bind_eq_error.mp h with h | ⟨n, -, h⟩
        · exact hdatetime h
        · cases h

/-- Only a text of digits makes the parser raise, and what it raises is a `ValueError`. -/
theorem readRetryAfter_error {value : Option String} {exc : PyExc}
    (h : readRetryAfter value = .error exc) :
    UnreadableDigits value ∧ ∃ text, exc = .valueError text := by
  unfold readRetryAfter at h
  split at h
  · cases h
  · next header hvalue =>
    have hheader : value = some header := (Option.filter_eq_some_iff.mp hvalue).1
    split at h
    · next hdigit =>
      split at h
      · cases h
      · next hint =>
        cases h
        exact ⟨⟨header, hheader, hdigit, (intOfString_of_isDigit hdigit).mp hint⟩, _, rfl⟩
    · split at h
      · cases h
      · cases h
      · next herror =>
        rw [if_pos (parsedateToDatetime_error herror)] at h
        cases h

theorem readRetryAfter_unreadable {value : Option String} (h : UnreadableDigits value) :
    ∃ text, readRetryAfter value = .error (.valueError text) := by
  obtain ⟨header, rfl, hdigit, hbad⟩ := h
  have hne : header ≠ "" := by
    rintro rfl
    cases hdigit
  have hint := (intOfString_of_isDigit hdigit).mpr hbad
  refine ⟨s!"invalid literal for int() with base 10: '{strip header}'", ?_⟩
  have hfilter : (some header).filter (fun value => decide (value ≠ "")) = some header := by
    simp [hne]
  simp only [readRetryAfter, hfilter, hdigit, if_true, hint]

theorem readRetryAfter_delay_nonneg {value : Option String} {seconds : Int}
    (h : readRetryAfter value = .ok (.delay seconds)) : 0 ≤ seconds := by
  unfold readRetryAfter at h
  split at h
  · cases h
  · split at h
    · split at h
      · simp only [Except.ok.injEq, RetryAfter.delay.injEq] at h
        omega
      · cases h
    · split at h
      · cases h
      · cases h
      · split at h <;> cases h

end Outcomes

end Orchestrator
