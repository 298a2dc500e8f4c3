import Orchestrator.Clock
import Orchestrator.Library.Calendar
import Orchestrator.Library.TextOrder

/-!
# Text timestamps order like time

The columns hold times as text and the queries compare texts. `isoformat` writes every
field with a fixed width, except that it leaves out a fraction of zero; as `+` comes
before `.`, the texts still compare as the instants do.
-/

namespace Orchestrator

open Calendar TextOrder
set_option autoImplicit false

namespace Instant

/-- Month and day of the day `n` of a year, as `ordinalToDate` computes them. -/
def monthAndDay (leap : Bool) (n : ℕ) : ℕ × ℕ :=
  let month := (n + 50) / 32
  let preceding := daysBeforeMonth.getD (month - 1) 0 + if month > 2 ∧ leap = true then 1 else 0
  if preceding > n then
    (month - 1, n - (preceding -
      (daysInMonth.getD (month - 2) 0 + if month - 1 = 2 ∧ leap = true then 1 else 0)) + 1)
  else (month, n - preceding + 1)

theorem monthAndDay_spec : ∀ leap : Bool, ∀ n < 365,
    1 ≤ (monthAndDay leap n).1 ∧ (monthAndDay leap n).1 ≤ 12 ∧ 1 ≤ (monthAndDay leap n).2 ∧
      (monthAndDay leap n).2 ≤ daysIn leap (monthAndDay leap n).1 ∧
      daysBefore leap (monthAndDay leap n).1 + ((monthAndDay leap n).2 - 1) = n := by
  decide +kernel

/-- How the nested divisions of `ordinalToDate` split a day: cycles of 400 years, centuries,
blocks of four years, years, and the day of the year. -/
structure Split (day a b c e n : ℕ) : Prop where
  sum : day = 146097 * a + 36524 * b + 1461 * c + 365 * e + n
  century : b ≤ 3 ∨ b = 4 ∧ c = 0 ∧ e = 0 ∧ n = 0
  block : c ≤ 24
  year : e ≤ 3 ∨ e = 4 ∧ c < 24 ∧ n = 0
  within : n < 365

theorem exists_split (day : ℕ) : ∃ a b c e n, Split day a b c e n := by
  refine ⟨day / 146097, day % 146097 / 36524, day % 146097 % 36524 / 1461,
    day % 146097 % 36524 % 1461 / 365, day % 146097 % 36524 % 1461 % 365, ?_⟩
  constructor <;> omega

theorem ordinalToDate_eq {day a b c e n : ℕ} (h : Split day a b c e n) :
    ordinalToDate day =
      if e = 4 ∨ b = 4 then (a * 400 + b * 100 + c * 4 + e, 12, 31)
      else (a * 400 + b * 100 + c * 4 + e + 1,
        monthAndDay (decide (e = 3 ∧ (c ≠ 24 ∨ b = 3))) n) := by
  obtain ⟨hday, hb, hc, he, hn⟩ := h
  have h400 : day / 146097 = a := by omega
  have hr400 : day % 146097 = 36524 * b + 1461 * c + 365 * e + n := by omega
  have h100 : (36524 * b + 1461 * c + 365 * e + n) / 36524 = b := by omega
  have hr100 : (36524 * b + 1461 * c + 365 * e + n) % 36524 = 1461 * c + 365 * e + n := by omega
  have h4 : (1461 * c + 365 * e + n) / 1461 = c := by omega
  have hr4 : (1461 * c + 365 * e + n) % 1461 = 365 * e + n := by omega
  have h1 : (365 * e + n) / 365 = e := by omega
  have hr1 : (365 * e + n) % 365 = n := by omega
  simp only [ordinalToDate, h400, hr400, h100, hr100, h4, hr4, h1, hr1, monthAndDay,
    decide_eq_true_eq]
  split_ifs <;> rfl

/-- The last day of a leap year is the only one that the divisions put after its year. -/
theorem daysBeforeYear_split {day a b c e n : ℕ} (h : Split day a b c e n) :
    daysBeforeYear (a * 400 + b * 100 + c * 4 + e + 1) + n =
      if e = 4 ∨ b = 4 then day + 1 else day := by
  obtain ⟨hday, hb, hc, he, hn⟩ := h
  have h4 : (a * 400 + b * 100 + c * 4 + e) / 4 = a * 100 + b * 25 + c + e / 4 := by omega
  have h100 : (a * 400 + b * 100 + c * 4 + e) / 100 = a * 4 + b := by omega
  have h400 : (a * 400 + b * 100 + c * 4 + e) / 400 = a + b / 4 := by omega
  simp only [daysBeforeYear, Nat.add_sub_cancel, h4, h100, h400]
  split <;> omega

theorem ordinalToDate_spec (day : ℕ) :
    ∃ y m d, ordinalToDate day = (y, m, d) ∧ ValidDate y m d ∧ dayNumber y m d = day := by
  obtain ⟨a, b, c, e, n, h⟩ := exists_split day
  have hsum := daysBeforeYear_split h
  have heq := ordinalToDate_eq h
  obtain ⟨-, hb, hc, he, hn⟩ := h
  by_cases hend : e = 4 ∨ b = 4
  · -- the last day of a leap year
    rw [if_pos hend] at heq hsum
    obtain ⟨y, hy⟩ : ∃ y, a * 400 + b * 100 + c * 4 + e = y := ⟨_, rfl⟩
    rw [hy] at hsum heq
    have hleap : leap y = true := by
      simp only [leap, Bool.and_eq_true, Bool.or_eq_true, decide_eq_true_eq]
      omega
    have hsucc := daysBeforeYear_succ (show 1 ≤ y by omega)
    refine ⟨y, 12, 31, heq, ⟨by omega, by decide, ?_⟩, ?_⟩
    · rw [hleap]
      decide
    · rw [dayNumber, hleap]
      rw [hleap] at hsucc
      have hdec : daysBefore true 12 = 335 := rfl
      simp only [if_true] at hsucc
      omega
  · rw [if_neg hend] at heq hsum
    obtain ⟨y, hy⟩ : ∃ y, a * 400 + b * 100 + c * 4 + e + 1 = y := ⟨_, rfl⟩
    rw [hy] at hsum heq
    have hleap : leap y = decide (e = 3 ∧ (c ≠ 24 ∨ b = 3)) := by
      rw [Bool.eq_iff_iff]
      simp only [leap, Bool.and_eq_true, Bool.or_eq_true, decide_eq_true_eq]
      omega
    obtain ⟨hm1, hm12, hd1, hdin, hdays⟩ := monthAndDay_spec (leap y) n hn
    rw [← hleap] at heq
    refine ⟨y, (monthAndDay (leap y) n).1, (monthAndDay (leap y) n).2, heq,
      ⟨by omega, ⟨hm1, hm12⟩, hd1, hdin⟩, ?_⟩
    rw [dayNumber]
    omega

theorem year_lt {day y m d : ℕ} (hday : day < 3652059) (hn : dayNumber y m d = day) :
    y < 10000 := by
  by_contra hlarge
  have hmono := daysBeforeYear_mono (by decide) (not_lt.mp hlarge)
  have hlimit : daysBeforeYear 10000 = 3652059 := rfl
  unfold dayNumber at hn
  omega

theorem toList_pad {width n : ℕ} (hw : 0 < width) (hn : n < 10 ^ width) :
    (pad width n).toList = digits width n := by
  rw [pad, String.toList_ofList, leftpad_toDigits hw hn]

/-- The end of a timestamp: the fraction, unless it is zero, and the offset. -/
def ending (fraction : ℕ) : List Char :=
  (if fraction = 0 then [] else '.' :: digits 6 fraction) ++ "+00:00".toList

theorem ending_lt {f f' : ℕ} (h : f < f') (hf' : f' < 1000000) : ending f < ending f' := by
  have hne : f' ≠ 0 := by omega
  rw [ending, ending, if_neg hne]
  by_cases hzero : f = 0
  · rw [if_pos hzero, List.nil_append, List.cons_append]
    apply List.cons_lt_cons_iff.mpr
    exact .inl (by decide)
  · rw [if_neg hzero, List.cons_append, List.cons_append]
    apply List.cons_lt_cons_iff.mpr
    refine .inr ⟨rfl, ?_⟩
    apply field_lt
    · exact hf'
    · exact .inl h

/-- The fields of a timestamp, each with its width, and what stands between them. -/
def stamp (year month day hour minute second fraction : ℕ) : List Char :=
  digits 4 year ++ ('-' :: (digits 2 month ++ ('-' :: (digits 2 day ++ ('T' ::
    (digits 2 hour ++ (':' :: (digits 2 minute ++ (':' ::
      (digits 2 second ++ ending fraction))))))))))

theorem toList_isoformat {t : Instant} {y m d : ℕ}
    (hdate : ordinalToDate (t.us / 86400000000) = (y, m, d)) (hv : ValidDate y m d)
    (hy : y < 10000) :
    t.isoformat.toList = stamp y m d (t.us / 1000000 % 86400 / 3600)
      (t.us / 1000000 % 86400 / 60 % 60) (t.us / 1000000 % 86400 % 60) (t.us % 1000000) := by
  have hm := hv.inYear
  have hd := hv.day_lt
  have hfraction : (if t.us % 1000000 = 0 then "" else "." ++ pad 6 (t.us % 1000000)).toList =
      if t.us % 1000000 = 0 then [] else '.' :: digits 6 (t.us % 1000000) := by
    split
    · rfl
    · rw [String.toList_append, toList_pad (by decide) (by omega)]
      rfl
  simp only [isoformat, hdate, String.toList_append, hfraction]
  rw [toList_pad (by decide) (by omega), toList_pad (by decide) (by omega),
    toList_pad (by decide) (by omega), toList_pad (by decide) (by omega),
    toList_pad (by decide) (by omega), toList_pad (by decide) (by omega)]
  simp only [stamp, ending, List.append_assoc]
  rfl

theorem stamp_lt_of_earlier {y m d h mi s f y' m' d' h' mi' s' f' : ℕ} (hy : y' < 10000)
    (hm : m' < 100) (hd : d' < 100) (hlt : Earlier y m d y' m' d') :
    stamp y m d h mi s f < stamp y' m' d' h' mi' s' f' := by
  apply field_lt
  · exact hy
  · rcases hlt with hlt | ⟨heq, hlt⟩
    · exact .inl hlt
    · refine .inr ⟨heq, List.cons_lt_cons_self.mpr (field_lt hm ?_)⟩
      rcases hlt with hlt | ⟨heq, hlt⟩
      · exact .inl hlt
      · exact .inr ⟨heq, List.cons_lt_cons_self.mpr (field_lt hd (.inl hlt))⟩

theorem stamp_lt_of_time {y m d h mi s f h' mi' s' f' : ℕ} (hh : h' < 100) (hmi : mi' < 100)
    (hs : s' < 100) (hf : f' < 1000000)
    (hlt : h < h' ∨ h = h' ∧ (mi < mi' ∨ mi = mi' ∧ (s < s' ∨ s = s' ∧ f < f'))) :
    stamp y m d h mi s f < stamp y m d h' mi' s' f' := by
  apply List.append_left_lt
  apply List.cons_lt_cons_self.mpr
  apply List.append_left_lt
  apply List.cons_lt_cons_self.mpr
  apply List.append_left_lt
  apply List.cons_lt_cons_self.mpr
  apply field_lt
  · exact hh
  · rcases hlt with hlt | ⟨heq, hlt⟩
    · exact .inl hlt
    · refine .inr ⟨heq, List.cons_lt_cons_self.mpr (field_lt hmi ?_)⟩
      rcases hlt with hlt | ⟨heq, hlt⟩
      · exact .inl hlt
      · refine .inr ⟨heq, List.cons_lt_cons_self.mpr (field_lt hs ?_)⟩
        rcases hlt with hlt | ⟨heq, hlt⟩
        · exact .inl hlt
        · exact .inr ⟨heq, ending_lt hlt hf⟩

instance : LinearOrder Instant :=
  LinearOrder.lift' us fun a b h => by
    cases a
    cases b
    cases h
    rfl

theorem le_def {a b : Instant} : a ≤ b ↔ a.us ≤ b.us := Iff.rfl

theorem lt_def {a b : Instant} : a < b ↔ a.us < b.us := by
  rw [← not_le, ← not_le, le_def]

theorem isoformat_strictMono : StrictMono isoformat := by
  intro a b hab
  rw [lt_def] at hab
  rw [String.lt_iff_toList_lt]
  have hra := a.inRange
  have hrb := b.inRange
  unfold endOfTime at hra hrb
  obtain ⟨y, m, d, hdate, hv, hn⟩ := ordinalToDate_spec (a.us / 86400000000)
  obtain ⟨y', m', d', hdate', hv', hn'⟩ := ordinalToDate_spec (b.us / 86400000000)
  have hy := year_lt (by omega) hn
  have hy' := year_lt (by omega) hn'
  have hm' := hv'.inYear
  rw [toList_isoformat hdate hv hy, toList_isoformat hdate' hv' hy']
  rcases lt_or_eq_of_le (Nat.div_le_div_right (le_of_lt hab) :
    a.us / 86400000000 ≤ b.us / 86400000000) with hday | hday
  · rw [← hn, ← hn'] at hday
    apply stamp_lt_of_earlier hy' (by omega) hv'.day_lt
    exact earlier_of_dayNumber_lt hv hv' hday
  · -- the same day: the clock fields decide
    rw [hday, hdate'] at hdate
    cases hdate
    apply stamp_lt_of_time <;> omega

/-- Text comparison of two stored times is comparison of the instants. -/
@[simp] theorem isoformat_le_isoformat {a b : Instant} : a.isoformat ≤ b.isoformat ↔ a ≤ b :=
  isoformat_strictMono.le_iff_le

@[simp] theorem isoformat_lt_isoformat {a b : Instant} : a.isoformat < b.isoformat ↔ a < b :=
  isoformat_strictMono.lt_iff_lt

@[simp] theorem isoformat_inj {a b : Instant} : a.isoformat = b.isoformat ↔ a = b :=
  isoformat_strictMono.injective.eq_iff

theorem ascii_stamp (y m d h mi s f : ℕ) : Ascii (stamp y m d h mi s f) := by
  have hcons : ∀ {c : Char} {l : List Char}, c.toNat < 128 → Ascii l → Ascii (c :: l) :=
    fun hc hl => List.forall_mem_cons.mpr ⟨hc, hl⟩
  have hending : Ascii (ending f) := by
    apply Ascii.append
    · split
      · exact fun c hc => by cases hc
      · exact hcons (by decide) (ascii_digits 6 f)
    · have hoffset : ∀ c ∈ "+00:00".toList, c.toNat < 128 := by simp
      exact hoffset
  repeat' first
    | exact hending
    | apply ascii_digits
    | apply Ascii.append
    | apply hcons (by decide)

/-- The order in which a database compares the stored texts is the order of time. -/
theorem bytes_isoformat_le {a b : Instant} : bytes a.isoformat ≤ bytes b.isoformat ↔ a ≤ b := by
  have hascii : ∀ t : Instant, Ascii t.isoformat.toList := by
    intro t
    have hrange := t.inRange
    unfold endOfTime at hrange
    obtain ⟨y, m, d, hdate, hv, hn⟩ := ordinalToDate_spec (t.us / 86400000000)
    rw [toList_isoformat hdate hv (year_lt (by omega) hn)]
    exact ascii_stamp _ _ _ _ _ _ _
  rw [bytes_le_bytes (hascii a) (hascii b), isoformat_le_isoformat]

end Instant

end Orchestrator
