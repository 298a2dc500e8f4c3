import Orchestrator.Classification
import Orchestrator.Views

/-!
# Dates in the header

HTTP writes a date in one of three forms. Two of them name a zone and are read back as the
instant that was written, as far as the calendar has it; the third names none, and a hint in
that form is lost.
-/

namespace Orchestrator

open Calendar TextOrder
set_option autoImplicit false

def weekdayNames : List String :=
  ["Monday", "Tuesday", "Wednesday", "Thursday", "Friday", "Saturday", "Sunday"]

def monthTitles : List String :=
  ["Jan", "Feb", "Mar", "Apr", "May", "Jun", "Jul", "Aug", "Sep", "Oct", "Nov", "Dec"]

inductive DateForm where
  | imfFixdate
  | rfc850
  | asctime

/-- The fields of a date as a server writes them; `month` counts from zero. -/
structure HttpDate where
  weekday : Fin 7
  year : ℕ
  month : Fin 12
  day : ℕ
  hour : ℕ
  minute : ℕ
  second : ℕ
  year_lt : year < 10000
  day_lt : day < 100
  hour_lt : hour < 100
  minute_lt : minute < 100
  second_lt : second < 100

namespace HttpDate

variable (d : HttpDate)

def weekdayName : List Char := (weekdayNames.get d.weekday).toList

def monthTitle : List Char := (monthTitles.get d.month).toList

def time : List Char :=
  [':'].intercalate [digits 2 d.hour, digits 2 d.minute, digits 2 d.second]

def dashed : List Char :=
  ['-'].intercalate [digits 2 d.day, d.monthTitle, digits 2 (d.year % 100)]

/-- As in `Sun, 06 Nov 1994 08:49:37 GMT`. -/
def imfFixdate : String :=
  String.ofList ([' '].intercalate [d.weekdayName.take 3 ++ [','], digits 2 d.day, d.monthTitle,
    digits 4 d.year, d.time, "GMT".toList])

/-- As in `Sunday, 06-Nov-94 08:49:37 GMT`. -/
def rfc850 : String :=
  String.ofList ([' '].intercalate [d.weekdayName ++ [','], d.dashed, d.time, "GMT".toList])

/-- As in `Sun Nov  6 08:49:37 1994`; a day below ten is padded with a blank. -/
def asctime : String :=
  String.ofList ([' '].intercalate ([d.weekdayName.take 3, d.monthTitle] ++
    (if d.day < 10 then [[], digits 1 d.day] else [digits 2 d.day]) ++ [d.time, digits 4 d.year]))

def text : DateForm → String
  | .imfFixdate => d.imfFixdate
  | .rfc850 => d.rfc850
  | .asctime => d.asctime

/-- The year that the number of a date stands for. -/
def century (year : ℕ) : ℕ := (fullYear year).toNat

/-- The year that a form leaves to be read; the last one gives no instant. -/
def yearIn : DateForm → Option ℕ
  | .imfFixdate => some (century d.year)
  | .rfc850 => some (century (d.year % 100))
  | .asctime => none

/-- The calendar and the clock have what the fields say, in a given year. -/
structure Exists (year : ℕ) : Prop where
  date : ValidDate year (d.month.val + 1) d.day
  hour : d.hour < 24
  minute : d.minute < 60
  second : d.second < 60

instance (year : ℕ) : Decidable (d.Exists year) :=
  decidable_of_iff ((1 ≤ year ∧ (1 ≤ d.month.val + 1 ∧ d.month.val + 1 ≤ 12) ∧
      (1 ≤ d.day ∧ d.day ≤ daysIn (leap year) (d.month.val + 1))) ∧
    d.hour < 24 ∧ d.minute < 60 ∧ d.second < 60)
    ⟨fun h => ⟨⟨h.1.1, h.1.2.1, h.1.2.2⟩, h.2.1, h.2.2.1, h.2.2.2⟩,
      fun h => ⟨⟨h.date.positive, h.date.inYear, h.date.inMonth⟩, h.hour, h.minute, h.second⟩⟩

/-- The instant that the fields name, in microseconds from the start of year 1. -/
def us (year : ℕ) : ℕ :=
  ((dayNumber year (d.month.val + 1) d.day * 24 + d.hour) * 60 + d.minute) * 60000000 +
    d.second * 1000000

end HttpDate

def november : HttpDate :=
  ⟨6, 1994, 10, 6, 8, 49, 37, by decide, by decide, by decide, by decide, by decide⟩

example : november.imfFixdate = "Sun, 06 Nov 1994 08:49:37 GMT" ∧
    november.rfc850 = "Sunday, 06-Nov-94 08:49:37 GMT" ∧
    november.asctime = "Sun Nov  6 08:49:37 1994" := by decide

section Splitting
variable {p : Char → Bool} {c : Char}

theorem splitBy_of_plain {w : List Char} (hw : ∀ x ∈ w, p x = false) : splitBy p w = [w] := by
  induction w with
  | nil => rfl
  | cons x w ih =>
    have hx := hw x List.mem_cons_self
    rw [splitBy, hx, ih fun y hy => hw y (List.mem_cons_of_mem x hy)]
    rfl

theorem splitBy_append {w : List Char} (hw : ∀ x ∈ w, p x = false) (hc : p c = true)
    (l : List Char) : splitBy p (w ++ c :: l) = w :: splitBy p l := by
  induction w with
  | nil => simp [splitBy, hc]
  | cons x w ih =>
    have hx := hw x List.mem_cons_self
    rw [List.cons_append, splitBy, hx, ih fun y hy => hw y (List.mem_cons_of_mem x hy)]
    rfl

theorem splitBy_intercalate {ws : List (List Char)} (hc : p c = true) (hne : ws ≠ [])
    (hws : ∀ w ∈ ws, ∀ x ∈ w, p x = false) : splitBy p ([c].intercalate ws) = ws := by
  induction ws with
  | nil => exact absurd rfl hne
  | cons w ws ih =>
    have hw := hws w List.mem_cons_self
    have hrest : ∀ w ∈ ws, ∀ x ∈ w, p x = false := fun w' hw' => hws w' (List.mem_cons_of_mem w hw')
    cases ws with
    | nil => rw [List.intercalate_singleton, splitBy_of_plain hw]
    | cons w' ws =>
      rw [List.intercalate_cons_cons, List.append_assoc, List.singleton_append,
        splitBy_append hw hc, ih (List.cons_ne_nil _ _) hrest]

/-- Words that blanks hold together come apart again; two blanks in a row are as good as
one. -/
theorem words_intercalate {ws : List (List Char)} (hne : ws ≠ [])
    (hws : ∀ w ∈ ws, ∀ x ∈ w, isSpace x = false) :
    words (String.ofList ([' '].intercalate ws)) = ws.filter (· ≠ []) := by
  rw [words, String.toList_ofList, splitBy_intercalate (by decide) hne hws]

theorem strip_of_ends {l : List Char} {first last : Char} (hfirst : l.head? = some first)
    (hlast : l.getLast? = some last) (hf : isSpace first = false) (hl : isSpace last = false) :
    strip (String.ofList l) = String.ofList l := by
  have hdrop : ∀ {l : List Char} {c : Char}, l.head? = some c → isSpace c = false →
      l.dropWhile isSpace = l := by
    intro l c hhead hc
    cases l with
    | nil => cases hhead
    | cons x l =>
      cases hhead
      simp [hc]
  have hreverse : l.reverse.head? = some last := by rw [List.head?_reverse, hlast]
  rw [strip, String.toList_ofList, hdrop hfirst hf, hdrop hreverse hl, List.reverse_reverse]

end Splitting

section Digits
variable {width n : ℕ}

theorem not_mem_digits {c : Char} (hc : ∀ k < 10, Nat.digitChar k ≠ c) : c ∉ digits width n :=
  fun hmem => forall_digits (P := (· ≠ c)) hc c hmem rfl

theorem digits_ne_nil (hwidth : 0 < width) : digits width n ≠ [] := by
  rw [← List.length_pos_iff, length_digits]
  exact hwidth

theorem not_isSpace_digits : ∀ c ∈ digits width n, isSpace c = false :=
  forall_digits (by decide)

theorem head?_digits (hwidth : 0 < width) :
    ∃ c, (digits width n).head? = some c ∧ isDigit c = true := by
  have hdigit : ∀ c ∈ digits width n, isDigit c = true := forall_digits (by decide)
  cases hds : digits width n with
  | nil => exact absurd hds (digits_ne_nil hwidth)
  | cons c cs =>
    rw [hds] at hdigit
    exact ⟨c, rfl, hdigit c List.mem_cons_self⟩

theorem stripComma_of_not_mem {cs : List Char} (h : ',' ∉ cs) : stripComma cs = cs := by
  unfold stripComma
  split
  · next hlast => exact absurd (List.mem_of_getLast? hlast) h
  · rfl

theorem intOfChars_digits (hwidth : 0 < width) (hlimit : width ≤ 4300) (hn : n < 10 ^ width) :
    intOfChars (digits width n) = some (n : Int) := by
  have hascii : ∀ c ∈ digits width n, asciiNumeral c = c := forall_digits (by decide)
  have hplain : ∀ c ∈ digits width n, c ≠ '_' ∧ c ≠ '-' ∧ c ≠ '+' := forall_digits (by decide)
  have hnumeral : numeral (String.ofList (digits width n)) = digits width n := by
    rw [numeral_of_isDigit]
    · rw [String.toList_ofList, List.map_congr_left hascii, List.map_id']
    · rw [String.toList_ofList]
      exact forall_digits (by decide)
  have hsign : readInteger (digits width n) = readNatural (digits width n) := by
    unfold readInteger
    split
    · next heq => exact absurd rfl (hplain '-' (heq ▸ List.mem_cons_self)).2.1
    · next heq => exact absurd rfl (hplain '+' (heq ▸ List.mem_cons_self)).2.2
    · rfl
  rw [intOfChars, intOfString, hnumeral,
    dropUnderscores_of_not_mem (by decide) fun hmem => (hplain _ hmem).1 rfl, Option.bind_some,
    hsign, readNatural,
    if_pos ⟨digits_ne_nil hwidth, Instant.isDigit_digits width n, by simpa using hlimit⟩,
    Instant.readDigits_digits hn]

end Digits

namespace HttpDate

variable (d : HttpDate)

theorem weekday_mem : weekdayNames.get d.weekday ∈ weekdayNames := List.get_mem _ _

theorem month_mem : monthTitles.get d.month ∈ monthTitles := List.get_mem _ _

theorem monthTitle_plain : ∀ c ∈ d.monthTitle, isSpace c = false ∧ c ≠ '-' := by
  have h : ∀ title ∈ monthTitles, title.toList.all fun c => !isSpace c && c != '-' := by decide
  intro c hc
  simpa using List.all_eq_true.mp (h _ d.month_mem) c hc

theorem monthTitle_ne_nil : d.monthTitle ≠ [] := by
  have h : ∀ title ∈ monthTitles, title.toList ≠ [] := by decide
  exact h _ d.month_mem

theorem monthNumber_monthTitle :
    monthNumber (lowerChars d.monthTitle) = some (d.month.val + 1) := by
  have h : ∀ k < 12, monthNumber (lowerChars (monthTitles.getD k "").toList) = some (k + 1) := by
    decide
  have hget : monthTitles.getD d.month.val "" = monthTitles.get d.month := by
    rw [List.getD_eq_getElem?_getD,
      List.getElem?_eq_getElem (show d.month.val < monthTitles.length from d.month.isLt)]
    rfl
  have hnumber := h d.month.val d.month.isLt
  rwa [hget] at hnumber

theorem time_plain : ∀ c ∈ d.time, isSpace c = false ∧ c ≠ ',' := by
  refine forall_intercalate (by decide) ?_
  simp only [List.mem_cons, List.not_mem_nil, or_false, forall_eq_or_imp, forall_eq]
  refine ⟨?_, ?_, ?_⟩ <;> exact forall_digits (by decide)

theorem timeWords_time :
    timeWords d.time = some (digits 2 d.hour, digits 2 d.minute, digits 2 d.second) := by
  have hsplit : splitBy (· = ':') d.time =
      [digits 2 d.hour, digits 2 d.minute, digits 2 d.second] := by
    refine splitBy_intercalate (by decide) (List.cons_ne_nil _ _) ?_
    simp only [List.mem_cons, List.not_mem_nil, or_false, forall_eq_or_imp, forall_eq]
    refine ⟨?_, ?_, ?_⟩ <;> exact forall_digits (by decide)
  rw [timeWords, hsplit]

/-- The tuple that the fields make with a zone, the year as a number of a date stands for it. -/
def tuple (year : ℕ) (tzoffset : Option Int) : DateTuple :=
  ⟨fullYear year, d.month.val + 1, d.day, d.hour, d.minute, d.second, tzoffset⟩

theorem intOfChars_fields :
    intOfChars (digits 2 d.day) = some (d.day : Int) ∧
      intOfChars (digits 2 d.hour) = some (d.hour : Int) ∧
      intOfChars (digits 2 d.minute) = some (d.minute : Int) ∧
      intOfChars (digits 2 d.second) = some (d.second : Int) :=
  ⟨intOfChars_digits (by decide) (by decide) d.day_lt,
    intOfChars_digits (by decide) (by decide) d.hour_lt,
    intOfChars_digits (by decide) (by decide) d.minute_lt,
    intOfChars_digits (by decide) (by decide) d.second_lt⟩

theorem parsedateTz_of_zone {data : String} {width year : ℕ} (hwidth : 0 < width)
    (hlimit : width ≤ 4300) (hyear : year < 10 ^ width)
    (hwords : dateWords data =
      [digits 2 d.day, d.monthTitle, digits width year, d.time, "GMT".toList]) :
    parsedateTz data = some (d.tuple year (some 0)) := by
  have hcolon : ':' ∉ digits width year := not_mem_digits (by decide)
  have hcomma : ∀ {width n : ℕ}, ',' ∉ digits width n := not_mem_digits (by decide)
  obtain ⟨c, hhead, hdigit⟩ := head?_digits (n := year) hwidth
  obtain ⟨hday, hhour, hminute, hsecond⟩ := d.intOfChars_fields
  have hdd : digits 2 d.day ≠ [] := digits_ne_nil (by decide)
  rw [parsedateTz, hwords]
  simp only [hdd, d.monthTitle_ne_nil, digits_ne_nil hwidth, or_false, if_false,
    d.monthNumber_monthTitle, hcolon, and_false, stripComma_of_not_mem hcomma, hhead,
    Option.map_some, Option.getD_some, hdigit, if_true,
    stripComma_of_not_mem fun hmem => (d.time_plain _ hmem).2 rfl, d.timeWords_time,
    intOfChars_digits hwidth hlimit hyear, Option.bind_eq_bind, Option.bind_some, hday, hhour,
    hminute, hsecond]
  rfl

theorem colon_mem_time : d.time.idxOf ':' ≠ 0 ∧ ':' ∈ d.time := by
  have hhour : ':' ∉ digits 2 d.hour := not_mem_digits (by decide)
  have htime : d.time = digits 2 d.hour ++ ':' :: [':'].intercalate
      [digits 2 d.minute, digits 2 d.second] := by
    rw [time, List.intercalate_cons_cons, List.append_assoc, List.singleton_append]
  rw [htime]
  refine ⟨?_, by simp⟩
  rw [List.idxOf_append_of_notMem hhour, length_digits]
  omega

theorem monthNumber_digits {width n : ℕ} : monthNumber (digits width n) = none := by
  have hnames : ∀ name ∈ monthNames, name.any fun c => !c.isDigit := by decide
  have hdigit : ∀ c ∈ digits width n, c.isDigit = true := forall_digits (by decide)
  rw [monthNumber, Option.map_eq_none_iff, List.idxOf?_eq_none_iff]
  intro hmem
  obtain ⟨c, hc, hletter⟩ := List.any_eq_true.mp (hnames _ hmem)
  rw [hdigit c hc] at hletter
  cases hletter

theorem lowerChars_digits {width n : ℕ} : lowerChars (digits width n) = digits width n := by
  have hlower : ∀ c ∈ digits width n, c.toLower = c := forall_digits (by decide)
  rw [lowerChars, List.map_congr_left hlower, List.map_id']

/-- The day stands where the month is expected, and the time where the year is. -/
theorem parsedateTz_of_asctime {data : String} {width : ℕ} (hwidth : 0 < width)
    (hlimit : width ≤ 4300) (hday : d.day < 10 ^ width)
    (hwords : dateWords data = [d.monthTitle, digits width d.day, d.time, digits 4 d.year, []]) :
    parsedateTz data = some (d.tuple d.year none) := by
  have hcomma : ∀ {width n : ℕ}, ',' ∉ digits width n := not_mem_digits (by decide)
  obtain ⟨c, hhead, hdigit⟩ := head?_digits (n := d.year) (by decide : 0 < 4)
  obtain ⟨-, hhour, hminute, hsecond⟩ := d.intOfChars_fields
  have htime : d.time ≠ [] := List.ne_nil_of_mem d.colon_mem_time.2
  have hyyyy : digits 4 d.year ≠ [] := digits_ne_nil (by decide)
  rw [parsedateTz, hwords]
  simp only [digits_ne_nil hwidth, d.monthTitle_ne_nil, htime, or_false, if_false,
    d.monthNumber_monthTitle, monthNumber_digits, lowerChars_digits, Option.map_some,
    if_pos d.colon_mem_time, stripComma_of_not_mem hcomma, hyyyy, hhead, Option.getD_some, hdigit,
    if_true, stripComma_of_not_mem fun hmem => (d.time_plain _ hmem).2 rfl, d.timeWords_time,
    intOfChars_digits hwidth hlimit hday,
    intOfChars_digits (by decide : 0 < 4) (by decide) d.year_lt,
    Option.bind_eq_bind, Option.bind_some, hhour, hminute, hsecond]
  rfl

theorem plain_of_all {cs : List Char} (h : cs.all fun c => !isSpace c) :
    ∀ c ∈ cs, isSpace c = false := by
  intro c hc
  simpa using List.all_eq_true.mp h c hc

theorem zone_plain : ∀ c ∈ "GMT".toList, isSpace c = false := plain_of_all (by decide)

theorem dateWords_imfFixdate : dateWords d.imfFixdate =
    [digits 2 d.day, d.monthTitle, digits 4 d.year, d.time, "GMT".toList] := by
  have hweekday : ∀ name ∈ weekdayNames,
      (name.toList.take 3 ++ [',']).all fun c => !isSpace c := by decide
  have htime : d.time ≠ [] := List.ne_nil_of_mem d.colon_mem_time.2
  have hwords : words d.imfFixdate = [d.weekdayName.take 3 ++ [','], digits 2 d.day, d.monthTitle,
      digits 4 d.year, d.time, "GMT".toList] := by
    rw [imfFixdate, words_intercalate (List.cons_ne_nil _ _)]
    · simp [digits_ne_nil, d.monthTitle_ne_nil, htime]
    · simp only [List.mem_cons, List.not_mem_nil, or_false, forall_eq_or_imp, forall_eq]
      exact ⟨plain_of_all (hweekday _ d.weekday_mem), not_isSpace_digits,
        fun c hc => (d.monthTitle_plain c hc).1,
        not_isSpace_digits, fun c hc => (d.time_plain c hc).1, zone_plain⟩
  rw [dateWords, hwords]
  simp

theorem dashed_pieces : ∀ w ∈ [digits 2 d.day, d.monthTitle, digits 2 (d.year % 100)],
    ∀ c ∈ w, isSpace c = false ∧ decide (c = '-') = false := by
  have hmonth : ∀ c ∈ d.monthTitle, isSpace c = false ∧ decide (c = '-') = false := by
    intro c hc
    simpa using d.monthTitle_plain c hc
  simp only [List.mem_cons, List.not_mem_nil, or_false, forall_eq_or_imp, forall_eq]
  exact ⟨forall_digits (by decide), hmonth, forall_digits (by decide)⟩

theorem dateWords_rfc850 : dateWords d.rfc850 =
    [digits 2 d.day, d.monthTitle, digits 2 (d.year % 100), d.time, "GMT".toList] := by
  have hweekday : ∀ name ∈ weekdayNames, (name.toList ++ [',']).all fun c => !isSpace c := by
    decide
  have htime : d.time ≠ [] := List.ne_nil_of_mem d.colon_mem_time.2
  have hsplit : splitBy (· = '-') d.dashed =
      [digits 2 d.day, d.monthTitle, digits 2 (d.year % 100)] :=
    splitBy_intercalate (by decide) (List.cons_ne_nil _ _) fun w hw c hc =>
      (d.dashed_pieces w hw c hc).2
  have hdashed : d.dashed ≠ [] := by simp [dashed, List.intercalate_cons_cons]
  have hwords : words d.rfc850 = [d.weekdayName ++ [','], d.dashed, d.time, "GMT".toList] := by
    rw [rfc850, words_intercalate (List.cons_ne_nil _ _)]
    · simp [hdashed, htime]
    · simp only [List.mem_cons, List.not_mem_nil, or_false, forall_eq_or_imp, forall_eq]
      exact ⟨plain_of_all (hweekday _ d.weekday_mem),
        forall_intercalate (by decide) fun w hw c hc => (d.dashed_pieces w hw c hc).1,
        fun c hc => (d.time_plain c hc).1, zone_plain⟩
  rw [dateWords, hwords]
  simp [hsplit]

/-- The digits of the day: as many as it needs. -/
def dayWidth : ℕ := if d.day < 10 then 1 else 2

theorem dateWords_asctime : dateWords d.asctime =
    [d.monthTitle, digits d.dayWidth d.day, d.time, digits 4 d.year, []] := by
  have hweekday : ∀ name ∈ weekdayNames, ((name.toList.take 3).all fun c => !isSpace c) ∧
      name.toList.take 3 ≠ [] ∧ lowerChars (name.toList.take 3) ∈ dayNames := by decide
  obtain ⟨hspace, hne, hname⟩ := hweekday _ d.weekday_mem
  have htime : d.time ≠ [] := List.ne_nil_of_mem d.colon_mem_time.2
  have hplus : ∀ sign, sign = '+' ∨ sign = '-' →
      (digits 4 d.year).findIdx? (· = sign) = none := by
    intro sign hsign
    rw [List.findIdx?_eq_none_iff]
    rcases hsign with rfl | rfl <;> exact forall_digits (by decide)
  have hwords : words d.asctime =
      [d.weekdayName.take 3, d.monthTitle, digits d.dayWidth d.day, d.time, digits 4 d.year] := by
    unfold asctime dayWidth
    split
    all_goals
      rw [words_intercalate (by simp)]
      · simp [digits_ne_nil, d.monthTitle_ne_nil, htime, weekdayName, hne]
      · simp only [List.cons_append, List.nil_append, List.mem_cons, List.not_mem_nil, or_false,
          forall_eq_or_imp, forall_eq, false_imp_iff, implies_true, true_and]
        exact ⟨plain_of_all hspace, fun c hc => (d.monthTitle_plain c hc).1, not_isSpace_digits,
          fun c hc => (d.time_plain c hc).1, not_isSpace_digits⟩
  rw [dateWords, hwords]
  simp [weekdayName, hname, hplus]

theorem fullYear_eq (year : ℕ) : fullYear year = century year := by
  unfold century fullYear
  split_ifs <;> omega

theorem century_lt {year : ℕ} (hyear : year < 10000) : century year < 10000 := by
  unfold century fullYear
  split_ifs <;> omega

theorem century_of_le {year : ℕ} (hyear : 100 ≤ year) : century year = year := by
  unfold century fullYear
  split_ifs <;> omega

theorem exists_iff {year : ℕ} (hyear : year < 10000) : d.Exists year ↔
    1 ≤ (year : Int) ∧ (year : Int) ≤ 9999 ∧ 1 ≤ (d.day : Int) ∧
      (d.day : Int) ≤ daysIn (leap year) (d.month.val + 1) ∧ 0 ≤ (d.hour : Int) ∧
      (d.hour : Int) < 24 ∧ 0 ≤ (d.minute : Int) ∧ (d.minute : Int) < 60 ∧
      0 ≤ (d.second : Int) ∧ (d.second : Int) < 60 := by
  have hmonth := d.month.isLt
  constructor
  · intro h
    have hday := h.date.inMonth
    have hpos := h.date.positive
    have hclock := h.hour
    have hminute := h.minute
    have hsecond := h.second
    omega
  · intro h
    exact ⟨⟨by omega, by omega, by omega⟩, by omega, by omega, by omega⟩

theorem toDatetime_tuple {year : ℕ} (hyear : year < 10000) (tzoffset : Option Int) :
    (d.tuple year tzoffset).toDatetime =
      if d.Exists (century year) then .ok (d.us (century year) : Int)
      else .error (.valueError "a field of the date is out of range") := by
  have hcentury := century_lt hyear
  have hfits : ∀ n ∈ [(century year : Int), d.day, d.hour, d.minute, d.second],
      fitsInt n = true := by
    have hday := d.day_lt
    have hhour := d.hour_lt
    have hminute := d.minute_lt
    have hsecond := d.second_lt
    simp only [List.mem_cons, List.not_mem_nil, or_false, forall_eq_or_imp, forall_eq, fitsInt,
      Bool.and_eq_true, decide_eq_true_eq]
    omega
  have hnone : ([(century year : Int), d.day, d.hour, d.minute, d.second].any
      fun n => !fitsInt n) = false := by
    rw [List.any_eq_false]
    intro n hn
    simp [hfits n hn]
  rw [DateTuple.toDatetime]
  simp only [tuple, fullYear_eq, hnone, Bool.false_eq_true, if_false, Int.toNat_natCast]
  refine if_congr (d.exists_iff hcentury).symm ?_ rfl
  simp [us]

/-- What the fields ask for in a year: to wait for the instant, if there is one. -/
def asked (year : ℕ) : RetryAfter := if d.Exists year then .date (d.us year) else .absent

/-- The hint that a date in one form leaves: the whole seconds until the instant it names, which
may be past, as `int` finds them from the float of `total_seconds`, and none if it names no
instant. -/
def Leaves (form : DateForm) (now : Instant) : Option Int → Prop
  | none => ∀ year, d.yearIn form = some year → ¬ d.Exists year
  | some seconds => ∃ year, d.yearIn form = some year ∧ d.Exists year ∧ 0 ≤ seconds ∧
      now.us + 1000000 * seconds ≤ max now.us (d.us year) ∧
      max now.us (d.us year) < now.us + 1000000 * (seconds + 1) ∧
      ∃ n, (Library.Float64.fin (totalSeconds (d.us year - now.us))).toInt = .ok n ∧
        seconds = max 0 n

/-- The instant that a date names, if any, is less than 2^34 seconds ahead. -/
def Near (form : DateForm) (now : Instant) : Prop :=
  ∀ year, d.yearIn form = some year → (d.us year : Int) - now.us < 2 ^ 34 * 1000000

theorem weekdayName_eq : ∃ c cs, d.weekdayName = c :: cs ∧ d.weekdayName.take 3 = c :: cs.take 2 ∧
    isSpace c = false ∧ isDigit c = false := by
  have h : ∀ name ∈ weekdayNames, (name.toList.take 1).any fun c => !isSpace c && !isDigit c := by
    decide
  obtain ⟨c, hc, hplain⟩ := List.any_eq_true.mp (h _ d.weekday_mem)
  obtain ⟨hspace, hdigit⟩ : isSpace c = false ∧ isDigit c = false := by simpa using hplain
  change c ∈ d.weekdayName.take 1 at hc
  cases hname : d.weekdayName with
  | nil =>
    rw [hname] at hc
    cases hc
  | cons c' cs =>
    rw [hname] at hc
    obtain rfl := List.mem_singleton.mp hc
    exact ⟨c, cs, rfl, rfl, hspace, hdigit⟩

theorem parsedateToDatetime_of_zone {data : String} {year : ℕ} (hyear : year < 10000)
    (hparse : parsedateTz data = some (d.tuple year (some 0))) :
    parsedateToDatetime data =
      if d.Exists (century year) then .ok (some (d.us (century year) : Int))
      else .error (.valueError "a field of the date is out of range") := by
  have hoffset : checkOffset 0 = .ok () := by decide
  have hdatetime := d.toDatetime_tuple hyear (some 0)
  rw [tuple] at hdatetime
  rw [parsedateToDatetime, hparse]
  simp only [tuple, hoffset, hdatetime]
  split
  · change Except.ok (some ((d.us (century year) : Int) - 0 * 1000000)) = _
    rw [Int.zero_mul, Int.sub_zero]
  · rfl

/-- Without a zone it does not matter whether the date exists. -/
theorem parsedateToDatetime_of_asctime {data : String}
    (hparse : parsedateTz data = some (d.tuple d.year none)) :
    parsedateToDatetime data = .ok none ∨
      parsedateToDatetime data = .error (.valueError "a field of the date is out of range") := by
  have hdatetime := d.toDatetime_tuple d.year_lt none
  rw [tuple] at hdatetime
  rw [parsedateToDatetime, hparse]
  simp only [tuple, hdatetime]
  split
  · exact .inl rfl
  · exact .inr rfl

/-- A text with a letter in front and no blank at its end is read as a date. -/
structure Headed (text : String) : Prop where
  first : ∃ c, text.toList.head? = some c ∧ isSpace c = false ∧ isDigit c = false
  last : ∃ c, text.toList.getLast? = some c ∧ isSpace c = false

theorem readRetryAfter_of_headed {text : String} (h : Headed text) :
    (∀ retryAt, parsedateToDatetime text = .ok (some retryAt) →
        readRetryAfter (some text) = .ok (.date retryAt)) ∧
      (parsedateToDatetime text = .ok none → readRetryAfter (some text) = .ok .absent) ∧
      ∀ reason, parsedateToDatetime text = .error (.valueError reason) →
        readRetryAfter (some text) = .ok .absent := by
  obtain ⟨first, hfirst, hspace, hdigit⟩ := h.first
  obtain ⟨last, hlast, hl⟩ := h.last
  have hne : text ≠ "" := by
    rintro rfl
    cases hfirst
  have hstrip : strip text = text := by
    have hends := strip_of_ends hfirst hlast hspace hl
    rwa [String.ofList_toList] at hends
  have hword : strIsDigit text = false := by
    have hmem := List.mem_of_mem_head? hfirst
    rw [strIsDigit, Bool.and_eq_false_iff]
    exact .inr (List.all_eq_false.mpr ⟨first, hmem, by simp [hdigit]⟩)
  have hfilter : (some text).filter (fun value => decide (value ≠ "")) = some text := by simp [hne]
  refine ⟨?_, ?_, ?_⟩
  · intro retryAt hparse
    simp only [readRetryAfter, hfilter, hstrip, hword, hparse, Bool.false_eq_true, if_false]
  · intro hparse
    simp only [readRetryAfter, hfilter, hstrip, hword, hparse, Bool.false_eq_true, if_false]
  · intro reason hparse
    simp only [readRetryAfter, hfilter, hstrip, hword, hparse, Bool.false_eq_true, if_false,
      PyExc.isDateError, if_true]

theorem readRetryAfter_of_zone {text : String} {year : ℕ} (h : Headed text) (hyear : year < 10000)
    (hparse : parsedateTz text = some (d.tuple year (some 0))) :
    readRetryAfter (some text) = .ok (d.asked (century year)) := by
  obtain ⟨hdate, -, herror⟩ := readRetryAfter_of_headed h
  have hdatetime := d.parsedateToDatetime_of_zone hyear hparse
  unfold asked
  split at hdatetime
  · next hexists => rw [hdate _ hdatetime, if_pos hexists]
  · next hnot => rw [herror _ hdatetime, if_neg hnot]

theorem headed_imfFixdate : Headed d.imfFixdate := by
  obtain ⟨c, cs, -, hname, hspace, hdigit⟩ := d.weekdayName_eq
  refine ⟨⟨c, ?_, hspace, hdigit⟩, ⟨'T', ?_, by decide⟩⟩
  · simp [imfFixdate, hname, List.intercalate_cons_cons]
  · simp [imfFixdate, List.intercalate_cons_cons, List.getLast?_cons]

theorem headed_rfc850 : Headed d.rfc850 := by
  obtain ⟨c, cs, hname, -, hspace, hdigit⟩ := d.weekdayName_eq
  refine ⟨⟨c, ?_, hspace, hdigit⟩, ⟨'T', ?_, by decide⟩⟩
  · simp [rfc850, hname, List.intercalate_cons_cons]
  · simp [rfc850, List.intercalate_cons_cons, List.getLast?_cons]

theorem headed_asctime : Headed d.asctime := by
  obtain ⟨c, cs, -, hname, hspace, hdigit⟩ := d.weekdayName_eq
  refine ⟨⟨c, ?_, hspace, hdigit⟩, ⟨Nat.digitChar (d.year % 10), ?_, ?_⟩⟩
  · simp [asctime, hname, List.intercalate_cons_cons]
  · unfold asctime
    split <;> simp [List.intercalate_cons_cons, List.getLast?_cons, digits]
  · have h : ∀ k < 10, isSpace (Nat.digitChar k) = false := by decide
    exact h _ (by omega)

theorem readRetryAfter_asctime : readRetryAfter (some d.asctime) = .ok .absent := by
  have hday : d.day < 10 ^ d.dayWidth := by
    have hlt := d.day_lt
    unfold dayWidth
    split <;> omega
  have hwidth : 0 < d.dayWidth ∧ d.dayWidth ≤ 4300 := by
    unfold dayWidth
    split <;> omega
  have hparse := d.parsedateTz_of_asctime hwidth.1 hwidth.2 hday d.dateWords_asctime
  obtain ⟨-, hnone, herror⟩ := readRetryAfter_of_headed d.headed_asctime
  rcases d.parsedateToDatetime_of_asctime hparse with hdatetime | hdatetime
  · exact hnone hdatetime
  · exact herror _ hdatetime

/-- A date is read as the instant that its fields name, if its form has a zone. -/
theorem readRetryAfter_text (form : DateForm) :
    readRetryAfter (some (d.text form)) =
      .ok ((d.yearIn form).elim .absent d.asked) := by
  cases form with
  | imfFixdate =>
    exact d.readRetryAfter_of_zone d.headed_imfFixdate d.year_lt
      (d.parsedateTz_of_zone (by decide) (by decide) d.year_lt d.dateWords_imfFixdate)
  | rfc850 =>
    exact d.readRetryAfter_of_zone d.headed_rfc850 (by omega)
      (d.parsedateTz_of_zone (by decide) (by decide) (by omega) d.dateWords_rfc850)
  | asctime => exact d.readRetryAfter_asctime

theorem readRetryAfter_of_exists {form : DateForm} {year : ℕ} (hyear : d.yearIn form = some year)
    (hexists : d.Exists year) :
    readRetryAfter (some (d.text form)) = .ok (.date (d.us year)) := by
  rw [d.readRetryAfter_text form, hyear, Option.elim_some, asked, if_pos hexists]

theorem secondsUntil_bounds (date : ℕ) (now : Instant) : 0 ≤ secondsUntil date now ∧
    now.us + 1000000 * secondsUntil date now ≤ max now.us date ∧
    max now.us date < now.us + 1000000 * (secondsUntil date now + 1) := by
  unfold secondsUntil
  rcases le_total (now.us : Int) date with hle | hle
  · rw [Int.tdiv_eq_ediv_of_nonneg (by omega)]
    omega
  · have hpast : (date : Int) - now.us = -(now.us - date) := by omega
    rw [hpast, Int.neg_tdiv, Int.tdiv_eq_ediv_of_nonneg (by omega)]
    omega

theorem leaves_hint {form : DateForm} {now : Instant} (hnear : d.Near form now) :
    d.Leaves form now (((d.yearIn form).elim .absent d.asked).hint now) := by
  cases hyear : d.yearIn form with
  | none =>
    intro year heq
    rw [hyear] at heq
    cases heq
  | some year =>
    rw [Option.elim_some, asked]
    split
    · next hexists =>
      obtain ⟨hpos, hle, hlt⟩ := secondsUntil_bounds (d.us year) now
      obtain ⟨n, hn, hexact⟩ := int_totalSeconds (hnear year hyear)
      exact ⟨year, hyear, hexists, hpos, hle, hlt, n, hn, hexact.symm⟩
    · next hnot =>
      intro year' heq
      rw [hyear] at heq
      cases heq
      exact hnot

end HttpDate

/-- A target that names a date, in any of the three forms, is left alone for the whole seconds
until that date, if the form names a zone and the calendar has the date. -/
theorem rate_limit_date (d : HttpDate) (form : DateForm) (response : AdapterResponse)
    (context : String) (host : HttpHost) (hstatus : response.statusCode = 429)
    (hheader : response.retryAfter = some (d.text form)) (hnear : d.Near form (host.clock 0)) :
    ∃ hint, ((accepted response context).exec host).1 =
        .error (.retryableAdapterError s!"{context} rate limited by downstream service" hint) ∧
      d.Leaves form (host.clock 0) hint := by
  obtain ⟨host', hexec, -, -⟩ := exec_accepted response context host
  refine ⟨_, ?_, d.leaves_hint hnear⟩
  rw [hexec, AdapterResponse.verdict, if_pos hstatus, hheader, d.readRetryAfter_text form]
  rfl

def novemberHeader : AdapterResponse :=
  ⟨⟨429, "429 Too Many Requests", ""⟩, some "Sunday, 06-Nov-94 08:49:37 GMT"⟩

def novemberHost : HttpHost :=
  { answering novemberHeader with clock := fun _ => ⟨62919708517500000, by decide⟩ }

theorem rate_limit_date_sample :
    ∃ hint, ((accepted novemberHeader "API target").exec novemberHost).1 =
        .error (.retryableAdapterError "API target rate limited by downstream service" hint) ∧
      november.Leaves .rfc850 (novemberHost.clock 0) hint := by
  refine rate_limit_date november .rfc850 novemberHeader "API target" novemberHost rfl
    (by decide) ?_
  have hyear : november.yearIn .rfc850 = some 1994 := by decide
  intro year heq
  cases hyear.symm.trans heq
  decide

namespace Instant

theorem civil_bounds (t : Instant) :
    (ordinalToDate (t.us / 86400000000)).1 < 10000 ∧
      (ordinalToDate (t.us / 86400000000)).2.1 - 1 < 12 ∧
      (ordinalToDate (t.us / 86400000000)).2.2 < 100 := by
  obtain ⟨y, m, d, hdate, hv, hnumber⟩ := ordinalToDate_spec (t.us / 86400000000)
  have hrange := t.inRange
  unfold endOfTime at hrange
  have hmonth := hv.inYear
  rw [hdate]
  exact ⟨year_lt (by omega) hnumber, by simp only; omega, hv.day_lt⟩

/-- The fields of an instant, its fraction of a second left out. -/
def httpDate (t : Instant) : HttpDate where
  weekday := ⟨t.us / 86400000000 % 7, by omega⟩
  year := (ordinalToDate (t.us / 86400000000)).1
  month := ⟨(ordinalToDate (t.us / 86400000000)).2.1 - 1, (civil_bounds t).2.1⟩
  day := (ordinalToDate (t.us / 86400000000)).2.2
  hour := t.us / 1000000 % 86400 / 3600
  minute := t.us / 1000000 % 86400 / 60 % 60
  second := t.us / 1000000 % 86400 % 60
  year_lt := (civil_bounds t).1
  day_lt := (civil_bounds t).2.2
  hour_lt := by omega
  minute_lt := by omega
  second_lt := by omega

theorem httpDate_exists (t : Instant) : t.httpDate.Exists t.httpDate.year ∧
    t.httpDate.us t.httpDate.year = t.us - t.us % 1000000 := by
  obtain ⟨y, m, d, hdate, hv, hnumber⟩ := ordinalToDate_spec (t.us / 86400000000)
  have hmonth : m - 1 + 1 = m := Nat.sub_add_cancel hv.inYear.1
  constructor
  · refine ⟨?_, ?_, ?_, ?_⟩
    · simp only [httpDate, hdate, hmonth]
      exact hv
    · change t.us / 1000000 % 86400 / 3600 < 24
      omega
    · change t.us / 1000000 % 86400 / 60 % 60 < 60
      omega
    · change t.us / 1000000 % 86400 % 60 < 60
      omega
  · simp only [HttpDate.us, httpDate, hdate, hmonth, hnumber]
    omega

end Instant

/-- The years that a form can write: with two digits, those of one century. -/
def DateForm.Writes (form : DateForm) (year : ℕ) : Prop :=
  match form with
  | imfFixdate => 100 ≤ year
  | rfc850 => 1969 ≤ year ∧ year ≤ 2068
  | asctime => False

theorem yearIn_of_writes {d : HttpDate} {form : DateForm} (h : form.Writes d.year) :
    d.yearIn form = some d.year := by
  cases form with
  | imfFixdate => rw [HttpDate.yearIn, HttpDate.century_of_le h]
  | rfc850 =>
    obtain ⟨hle, hge⟩ := h
    rw [HttpDate.yearIn, HttpDate.century, fullYear]
    congr 1
    split_ifs <;> omega
  | asctime => cases h

/-- An instant that is written as a date is read back, to the second. -/
theorem http_date_round_trip (t : Instant) (form : DateForm)
    (hform : form.Writes t.httpDate.year) :
    readRetryAfter (some (t.httpDate.text form)) =
      .ok (.date ((t.us - t.us % 1000000 : ℕ) : Int)) := by
  obtain ⟨hexists, hus⟩ := t.httpDate_exists
  rw [t.httpDate.readRetryAfter_of_exists (yearIn_of_writes hform) hexists, hus]

def novemberMorning : Instant := ⟨62919708577000001, by decide⟩

theorem http_date_round_trip_sample :
    readRetryAfter (some (novemberMorning.httpDate.text .rfc850)) =
    .ok (.date ((novemberMorning.us - novemberMorning.us % 1000000 : ℕ) : Int)) :=
  http_date_round_trip novemberMorning .rfc850 ⟨by decide, by decide⟩

example : novemberMorning.httpDate.rfc850 = "Sunday, 06-Nov-94 08:49:37 GMT" := by decide

end Orchestrator
