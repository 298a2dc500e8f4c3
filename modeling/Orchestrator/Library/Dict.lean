import Mathlib.Algebra.BigOperators.Group.List.Basic
import Mathlib.Algebra.GroupWithZero.Nat
import Mathlib.Data.List.Nodup
import Mathlib.Data.List.TakeDrop

/-!
# Dictionaries and windows

A dictionary has each of its keys once, in the order in which they came. A window keeps
the latest of the values that are pushed into it.
-/

namespace Orchestrator.Library

set_option autoImplicit false

universe u v

structure Dict (κ : Type u) (ν : Type v) where
  items : List (κ × ν)
  nodup : (items.map Prod.fst).Nodup

namespace Dict

variable {κ : Type u} {ν : Type v} [DecidableEq κ]

def empty : Dict κ ν := ⟨[], .nil⟩

/-- The value of a key is rewritten; a key that is new starts from the default. -/
def modifyItems (key : κ) (default : ν) (f : ν → ν) : List (κ × ν) → List (κ × ν)
  | [] => [(key, f default)]
  | (k, v) :: items =>
    if k = key then (k, f v) :: items else (k, v) :: modifyItems key default f items

section Items
variable {key k : κ} {default v : ν} {f : ν → ν} {items : List (κ × ν)}

theorem mem_keys_modifyItems :
    k ∈ (modifyItems key default f items).map Prod.fst ↔ k ∈ items.map Prod.fst ∨ k = key := by
  induction items with
  | nil => simp [modifyItems]
  | cons item items ih =>
    obtain ⟨k', v'⟩ := item
    rw [modifyItems]
    split
    · next heq =>
      subst heq
      simp only [List.map_cons, List.mem_cons]
      tauto
    · simp only [List.map_cons, List.mem_cons, ih]
      tauto

theorem nodup_modifyItems (hnodup : (items.map Prod.fst).Nodup) :
    ((modifyItems key default f items).map Prod.fst).Nodup := by
  induction items with
  | nil => simp [modifyItems]
  | cons item items ih =>
    obtain ⟨k', v'⟩ := item
    rw [List.map_cons, List.nodup_cons] at hnodup
    rw [modifyItems]
    split
    · exact List.nodup_cons.mpr hnodup
    · next hne =>
      rw [List.map_cons, List.nodup_cons, mem_keys_modifyItems]
      exact ⟨fun h => h.elim hnodup.1 hne, ih hnodup.2⟩

theorem lookup_modifyItems (key' : κ) : (modifyItems key default f items).lookup key' =
    if key' = key then some (f ((items.lookup key).getD default)) else items.lookup key' := by
  induction items with
  | nil =>
    by_cases heq : key' = key
    · simp [modifyItems, heq]
    · have hne : (key' == key) = false := by simpa using heq
      simp [modifyItems, List.lookup_cons, heq, hne]
  | cons item items ih =>
    obtain ⟨k', v'⟩ := item
    rw [modifyItems]
    by_cases hk : k' = key
    · subst hk
      by_cases heq : key' = k'
      · simp [heq]
      · have hne : (key' == k') = false := by simpa using heq
        simp [List.lookup_cons, heq, hne]
    · have hne : (key == k') = false := by simpa using Ne.symm hk
      rw [if_neg hk, List.lookup_cons, List.lookup_cons, List.lookup_cons, ih, hne]
      by_cases heq : key' = k'
      · subst heq
        simp [hk]
      · have hne' : (key' == k') = false := by simpa using heq
        simp [hne']

end Items

def get? (d : Dict κ ν) (key : κ) : Option ν := d.items.lookup key

def modify (d : Dict κ ν) (key : κ) (default : ν) (f : ν → ν) : Dict κ ν :=
  ⟨modifyItems key default f d.items, nodup_modifyItems d.nodup⟩

theorem get?_modify (d : Dict κ ν) (key key' : κ) (default : ν) (f : ν → ν) :
    (d.modify key default f).get? key' =
      if key' = key then some (f ((d.get? key).getD default)) else d.get? key' :=
  lookup_modifyItems key'

theorem mem_items {d : Dict κ ν} {key : κ} {v : ν} :
    (key, v) ∈ d.items ↔ d.get? key = some v := by
  obtain ⟨items, hnodup⟩ := d
  induction items with
  | nil => simp [get?]
  | cons item items ih =>
    obtain ⟨k', v'⟩ := item
    rw [List.map_cons, List.nodup_cons] at hnodup
    have ih := ih hnodup.2
    simp only [get?, List.mem_cons, Prod.mk.injEq, List.lookup_cons] at ih ⊢
    by_cases heq : key = k'
    · subst heq
      have hnot : (key, v) ∉ items := fun h => hnodup.1 (List.mem_map.mpr ⟨_, h, rfl⟩)
      simp [hnot, eq_comm]
    · have hne : (key == k') = false := by simpa using heq
      simp only [heq, false_and, false_or, hne]
      exact ih

/-- What the counters of some keys add up to. -/
def total (p : κ → Bool) (items : List (κ × ℕ)) : ℕ :=
  ((items.filter fun item => p item.1).map Prod.snd).sum

omit [DecidableEq κ] in
theorem total_cons (p : κ → Bool) (k : κ) (n : ℕ) (items : List (κ × ℕ)) :
    total p ((k, n) :: items) = (if p k = true then n else 0) + total p items := by
  by_cases hp : p k = true <;> simp [total, hp]

omit [DecidableEq κ] in
theorem total_perm {p : κ → Bool} {items items' : List (κ × ℕ)} (h : items.Perm items') :
    total p items = total p items' := ((h.filter _).map _).sum_eq

theorem total_modify (p : κ → Bool) (d : Dict κ ℕ) (key : κ) :
    total p (d.modify key 0 (· + 1)).items = total p d.items + if p key = true then 1 else 0 := by
  change total p (modifyItems key 0 (· + 1) d.items) = _
  generalize d.items = items
  induction items with
  | nil => by_cases hp : p key = true <;> simp [modifyItems, total, hp]
  | cons item items ih =>
    obtain ⟨k, n⟩ := item
    rw [modifyItems]
    split
    · next heq =>
      subst heq
      rw [total_cons, total_cons]
      split <;> omega
    · rw [total_cons, total_cons, ih]
      omega

end Dict

section Windows
variable {α : Type u}

/-- The last values of a list, as many as the bound allows. -/
@[irreducible] def window (bound : ℕ) (values : List α) : List α :=
  values.drop (values.length - bound)

/-- A value is appended, and what exceeds the bound is deleted at the front. -/
def push (bound : ℕ) (samples : List α) (value : α) : List α :=
  let samples := samples ++ [value]
  if samples.length > bound then samples.drop (samples.length - bound) else samples

@[simp] theorem window_nil (bound : ℕ) : window bound ([] : List α) = [] := by
  rw [window, List.drop_nil]

theorem length_window (bound : ℕ) (values : List α) :
    (window bound values).length = min bound values.length := by
  rw [window, List.length_drop]
  omega

theorem window_of_le {bound : ℕ} {values : List α} (h : values.length ≤ bound) :
    window bound values = values := by
  rw [window, Nat.sub_eq_zero_of_le h, List.drop_zero]

theorem push_window (bound : ℕ) (values : List α) (value : α) :
    push bound (window bound values) value = window bound (values ++ [value]) := by
  have hpush : push bound (window bound values) value =
      (window bound values ++ [value]).drop ((window bound values ++ [value]).length - bound) := by
    rw [push]
    split
    · rfl
    · next hle => rw [Nat.sub_eq_zero_of_le (by omega), List.drop_zero]
  have hwindow : window bound values ++ [value] =
      (values ++ [value]).drop (values.length - bound) := by
    rw [window, List.drop_append_of_le_length (Nat.sub_le _ _)]
  have hlength : (window bound values).length = min bound values.length :=
    length_window bound values
  rw [hpush, hwindow, List.drop_drop, window]
  congr 1
  rw [← hwindow, List.length_append, hlength, List.length_append, List.length_singleton]
  omega

end Windows

end Orchestrator.Library
