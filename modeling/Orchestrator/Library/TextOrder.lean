import Mathlib.Data.String.Basic

/-!
# The order of texts with fields of fixed width

Texts compare character by character. Decimal fields that are padded to one width compare
as their numbers do, and a text of such fields compares by its first field that differs.
-/

namespace Orchestrator.TextOrder

set_option autoImplicit false

/-- The last `width` decimal digits of a number. -/
def digits : ℕ → ℕ → List Char
  | 0, _ => []
  | width + 1, n => digits width (n / 10) ++ [Nat.digitChar (n % 10)]

variable {width n m : ℕ} {l l' r r' : List Char}

@[simp] theorem length_digits (width n : ℕ) : (digits width n).length = width := by
  induction width generalizing n with
  | zero => rfl
  | succ width ih => simp [digits, ih]

theorem forall_digits {P : Char → Prop} (hP : ∀ k < 10, P (Nat.digitChar k)) :
    ∀ c ∈ digits width n, P c := by
  induction width generalizing n with
  | zero => simp [digits]
  | succ width ih =>
    intro c hc
    rw [digits] at hc
    rcases List.mem_append.mp hc with hc | hc
    · exact ih c hc
    · rw [List.mem_singleton.mp hc]
      exact hP _ (by omega)

theorem forall_intercalate {P : Char → Prop} {c : Char} {ws : List (List Char)} (hc : P c)
    (hws : ∀ w ∈ ws, ∀ x ∈ w, P x) : ∀ x ∈ [c].intercalate ws, P x := by
  induction ws with
  | nil => simp [List.intercalate_nil]
  | cons w ws ih =>
    have hw := hws w List.mem_cons_self
    have hrest := ih fun w' hw' => hws w' (List.mem_cons_of_mem w hw')
    cases ws with
    | nil =>
      rw [List.intercalate_singleton]
      exact hw
    | cons w' ws =>
      rw [List.intercalate_cons_cons]
      intro x hx
      rcases List.mem_append.mp hx with hx | hx
      · rcases List.mem_append.mp hx with hx | hx
        · exact hw x hx
        · rw [List.mem_singleton.mp hx]
          exact hc
      · exact hrest x hx

theorem append_lt_append (hlen : l.length = l'.length) (h : l < l') : l ++ r < l' ++ r' := by
  induction l generalizing l' with
  | nil =>
    cases l' with
    | nil => exact absurd h (lt_irrefl _)
    | cons c l' => cases hlen
  | cons c l ih =>
    cases l' with
    | nil => cases hlen
    | cons c' l' =>
      rw [List.cons_lt_cons_iff] at h
      rw [List.cons_append, List.cons_append, List.cons_lt_cons_iff]
      rcases h with hlt | ⟨heq, hlt⟩
      · exact .inl hlt
      · exact .inr ⟨heq, ih (by simpa using hlen) hlt⟩

theorem digitChar_lt : ∀ n < 10, ∀ m < 10, n < m → Nat.digitChar n < Nat.digitChar m := by decide

theorem digits_lt (hm : m < 10 ^ width) (h : n < m) : digits width n < digits width m := by
  induction width generalizing n m with
  | zero => omega
  | succ width ih =>
    rw [digits, digits]
    have hdiv : m / 10 < 10 ^ width := by
      apply Nat.div_lt_of_lt_mul
      rwa [pow_succ, mul_comm] at hm
    rcases lt_or_eq_of_le (Nat.div_le_div_right (le_of_lt h) : n / 10 ≤ m / 10) with hlt | heq
    · exact append_lt_append (by simp) (ih hdiv hlt)
    · rw [heq]
      apply List.append_left_lt
      rw [List.cons_lt_cons_iff]
      exact .inl (digitChar_lt _ (by omega) _ (by omega) (by omega))

theorem leftpad_toDigits (hw : 0 < width) (hn : n < 10 ^ width) :
    (Nat.toDigits 10 n).leftpad width '0' = digits width n := by
  induction width generalizing n with
  | zero => omega
  | succ width ih =>
    by_cases hsmall : n < 10
    · have hzero : ∀ k, digits k 0 = List.replicate k '0' := by
        intro k
        induction k with
        | zero => rfl
        | succ k ih => simp [digits, ih, List.replicate_succ']
      rw [Nat.toDigits_of_lt_base hsmall, digits, Nat.div_eq_of_lt hsmall,
        Nat.mod_eq_of_lt hsmall, hzero, List.leftpad]
      simp
    · have hw' : 0 < width := by
        by_contra hzero
        obtain rfl : width = 0 := by omega
        omega
      have hdiv : n / 10 < 10 ^ width := by
        apply Nat.div_lt_of_lt_mul
        rwa [pow_succ, mul_comm] at hn
      rw [Nat.toDigits_of_base_le (by decide) (by omega), digits, ← ih hw' hdiv]
      simp [List.leftpad]

/-- Two texts that start with a field: the smaller number decides, or the rest does. -/
theorem field_lt (hm : m < 10 ^ width) (h : n < m ∨ n = m ∧ r < r') :
    digits width n ++ r < digits width m ++ r' := by
  rcases h with hlt | ⟨rfl, hlt⟩
  · exact append_lt_append (by simp) (digits_lt hm hlt)
  · exact List.append_left_lt hlt

section Bytes

/-- The bytes of a text in UTF-8. -/
def bytes (s : String) : List UInt8 := s.toUTF8.data.toList

def Ascii (l : List Char) : Prop := ∀ c ∈ l, c.toNat < 128

theorem Ascii.tail {c : Char} (h : Ascii (c :: l)) : Ascii l :=
  fun d hd => h d (List.mem_cons_of_mem c hd)

theorem Ascii.append (h : Ascii l) (h' : Ascii l') : Ascii (l ++ l') := by
  intro c hc
  rcases List.mem_append.mp hc with hc | hc
  · exact h c hc
  · exact h' c hc

theorem ascii_digits (width n : ℕ) : Ascii (digits width n) := by
  have hchar : ∀ k < 10, (Nat.digitChar k).toNat < 128 := by decide
  exact forall_digits hchar

theorem toList_utf8Encode (h : Ascii l) :
    l.utf8Encode.data.toList = l.map fun c => c.val.toUInt8 := by
  induction l with
  | nil => simp
  | cons c l ih =>
    have hc : c.toNat < 128 := h c List.mem_cons_self
    have hsize : c.utf8Size = 1 := by
      rw [Char.utf8Size_eq_one_iff, UInt32.le_iff_toNat_le]
      exact Nat.le_of_lt_succ hc
    rw [List.utf8Encode_cons, List.utf8Encode_singleton, String.utf8EncodeChar_eq_singleton hsize,
      ByteArray.data_append, Array.toList_append, ih h.tail]
    simp

theorem map_lt_map (h : Ascii l) (h' : Ascii l') :
    (l.map fun c => c.val.toUInt8) < (l'.map fun c => c.val.toUInt8) ↔ l < l' := by
  induction l generalizing l' with
  | nil => cases l' <;> simp
  | cons c l ih =>
    cases l' with
    | nil => simp
    | cons c' l' =>
      have hc : c.toNat < 128 := h c List.mem_cons_self
      have hc' : c'.toNat < 128 := h' c' List.mem_cons_self
      have hlt : c.val.toUInt8 < c'.val.toUInt8 ↔ c < c' := by
        rw [UInt8.lt_iff_toNat_lt, UInt32.toNat_toUInt8, UInt32.toNat_toUInt8, Char.lt_def,
          UInt32.lt_iff_toNat_lt]
        change c.toNat % 256 < c'.toNat % 256 ↔ c.toNat < c'.toNat
        omega
      have heq : c.val.toUInt8 = c'.val.toUInt8 ↔ c = c' := by
        rw [← UInt8.toNat_inj, UInt32.toNat_toUInt8, UInt32.toNat_toUInt8, Char.ext_iff,
          ← UInt32.toNat_inj]
        change c.toNat % 256 = c'.toNat % 256 ↔ c.toNat = c'.toNat
        omega
      rw [List.map_cons, List.map_cons, List.cons_lt_cons_iff, List.cons_lt_cons_iff, hlt, heq,
        ih h.tail h'.tail]

theorem bytes_le_bytes {s t : String} (hs : Ascii s.toList) (ht : Ascii t.toList) :
    bytes s ≤ bytes t ↔ s ≤ t := by
  have hbytes : ∀ {s : String}, Ascii s.toList →
      bytes s = s.toList.map fun c => c.val.toUInt8 := by
    intro s hs
    rw [bytes, ← toList_utf8Encode hs, String.utf8Encode_toList]
    rfl
  rw [hbytes hs, hbytes ht, ← not_lt (a := t), String.lt_iff_toList_lt, ← List.not_lt,
    map_lt_map ht hs]

end Bytes

end Orchestrator.TextOrder
