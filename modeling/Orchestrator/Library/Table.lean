import Mathlib.Algebra.BigOperators.Group.List.Lemmas
import Mathlib.Data.List.Nodup
import Mathlib.Order.Basic
import Mathlib.Tactic.Abel

/-!
# Tables of rows with a key

A table is a list of rows. `lookup` finds the row of a key, `updateAt` rewrites
the rows of one key, and `entriesOf` selects the rows of a log that belong to it.
-/

namespace Orchestrator.Table

set_option autoImplicit false

universe u v w

variable {ρ : Type u} {κ : Type v} [DecidableEq κ] (key : ρ → κ)

def lookup (id : κ) (rows : List ρ) : Option ρ := rows.find? fun r => key r = id

def updateAt (id : κ) (f : ρ → ρ) (rows : List ρ) : List ρ :=
  rows.map fun r => if key r = id then f r else r

def entriesOf (id : κ) (log : List ρ) : List ρ := log.filter fun r => key r = id

variable {key} {id id' : κ} {f : ρ → ρ} {rows log : List ρ} {row : ρ}

theorem lookup_key (h : lookup key id rows = some row) : key row = id := by
  simpa using List.find?_some h

theorem lookup_eq_none : lookup key id rows = none ↔ id ∉ rows.map key := by
  simp [lookup, List.find?_eq_none]

theorem lookup_of_mem (hk : (rows.map key).Nodup) (h : row ∈ rows) :
    lookup key (key row) rows = some row := by
  induction rows with
  | nil => simp at h
  | cons r rows ih =>
    simp only [List.map_cons, List.nodup_cons, List.mem_map, not_exists, not_and] at hk
    rcases List.mem_cons.mp h with rfl | hm
    · simp [lookup]
    · have hne : key r ≠ key row := fun he => hk.1 row hm he.symm
      simpa [lookup, hne] using ih hk.2 hm

theorem lookup_append_singleton (hnew : key row ∉ rows.map key) :
    lookup key id (rows ++ [row]) = if key row = id then some row else lookup key id rows := by
  rw [lookup, List.find?_append]
  by_cases hid : key row = id
  · subst hid
    have hnone := lookup_eq_none.mpr hnew
    rw [lookup] at hnone
    simp [hnone]
  · simp [hid, lookup]

theorem lookup_updateAt (hf : ∀ r, key (f r) = key r) :
    lookup key id' (updateAt key id f rows) =
      (lookup key id' rows).map fun r => if id' = id then f r else r := by
  induction rows with
  | nil => rfl
  | cons r rows ih =>
    simp only [lookup, updateAt, List.map_cons, List.find?_cons] at ih ⊢
    by_cases hid : key r = id
    · by_cases hid' : id = id'
      · simp [hid, hf, hid']
      · simpa [hid, hf, hid'] using ih
    · by_cases hid' : key r = id'
      · have hne : id' ≠ id := fun he => hid (hid'.trans he)
        simp [hid', hne]
      · simpa [hid, hid'] using ih

theorem map_key_updateAt (hf : ∀ r, key (f r) = key r) :
    (updateAt key id f rows).map key = rows.map key := by
  simp only [updateAt, List.map_map]
  apply List.map_congr_left
  intro r _
  simp only [Function.comp_apply]
  split
  · exact hf r
  · rfl

theorem updateAt_of_not_mem (h : id ∉ rows.map key) : updateAt key id f rows = rows := by
  refine (List.map_congr_left (g := fun r => r) ?_).trans (List.map_id' rows)
  intro r hr
  exact if_neg fun hid : key r = id => h (hid ▸ List.mem_map_of_mem hr)

theorem sum_map_updateAt {M : Type w} [AddCommGroup M] {g : ρ → M} (hk : (rows.map key).Nodup)
    (h : lookup key id rows = some row) :
    ((updateAt key id f rows).map g).sum = (rows.map g).sum - g row + g (f row) := by
  induction rows with
  | nil => cases h
  | cons r rows ih =>
    simp only [List.map_cons, List.nodup_cons] at hk
    rw [lookup, List.find?_cons] at h
    by_cases hr : key r = id
    · obtain rfl : r = row := by simpa [hr] using h
      have hrest : updateAt key id f rows = rows := updateAt_of_not_mem (hr ▸ hk.1)
      have hcons : updateAt key id f (r :: rows) = f r :: updateAt key id f rows := by
        simp [updateAt, hr]
      rw [hcons, hrest, List.map_cons, List.map_cons, List.sum_cons, List.sum_cons]
      abel
    · have hrest := ih hk.2 (by simpa [lookup, hr] using h)
      have hcons : updateAt key id f (r :: rows) = r :: updateAt key id f rows := by
        simp [updateAt, hr]
      rw [hcons, List.map_cons, List.map_cons, List.sum_cons, List.sum_cons, hrest]
      abel

theorem entriesOf_append_singleton :
    entriesOf key id (log ++ [row]) =
      if key row = id then entriesOf key id log ++ [row] else entriesOf key id log := by
  rw [entriesOf, List.filter_append]
  split <;> simp_all [entriesOf]

section Groups

/-- `GROUP BY` with `count(*)`: each value that occurs, with how often it does. -/
def groupCounts (values : List κ) : List (κ × ℕ) :=
  values.dedup.map fun value => (value, values.count value)

theorem sum_groupCounts (values : List κ) :
    ((groupCounts values).map Prod.snd).sum = values.length := by
  rw [groupCounts, List.map_map]
  exact List.sum_map_count_dedup_eq_length values

theorem lookup_map_pair (f : κ → ℕ) (values : List κ) (value : κ) :
    (values.map fun v => (v, f v)).lookup value =
      if value ∈ values then some (f value) else none := by
  induction values with
  | nil => rfl
  | cons v values ih =>
    rw [List.map_cons, List.lookup_cons]
    by_cases hv : value = v
    · subst hv
      simp
    · have hne : (value == v) = false := by simpa using hv
      rw [hne, ih]
      simp [hv]

theorem lookup_groupCounts (values : List κ) (value : κ) :
    ((groupCounts values).lookup value).getD 0 = values.count value := by
  rw [groupCounts, lookup_map_pair]
  by_cases hmem : value ∈ values
  · rw [if_pos (List.mem_dedup.mpr hmem)]
    rfl
  · rw [if_neg (fun h => hmem (List.mem_dedup.mp h)), List.count_eq_zero.mpr hmem]
    rfl

end Groups

section First

variable (before : ρ → ρ → Bool)

/-- The row that `ORDER BY … LIMIT 1` returns: the first one that no other row is before. -/
def firstBy : List ρ → Option ρ
  | [] => none
  | r :: rows =>
    match firstBy rows with
    | none => some r
    | some s => if before s r then some s else some r

theorem firstBy_mem {rows : List ρ} {row : ρ} (h : firstBy before rows = some row) :
    row ∈ rows := by
  induction rows generalizing row with
  | nil => simp [firstBy] at h
  | cons r rows ih =>
    simp only [firstBy] at h
    split at h
    · simp_all
    · next s hs =>
      split at h
      · cases h
        exact List.mem_cons_of_mem r (ih hs)
      · cases h
        exact List.mem_cons_self

theorem firstBy_eq_none {rows : List ρ} : firstBy before rows = none ↔ rows = [] := by
  cases rows with
  | nil => simp [firstBy]
  | cons r rows =>
    simp only [firstBy, reduceCtorEq, iff_false]
    split
    · simp
    · split <;> simp

theorem firstBy_le {β : Type v} [Preorder β] {f : ρ → β}
    (hbefore : ∀ {a b}, before a b = true → f a ≤ f b)
    (hnot : ∀ {a b}, before a b = false → f b ≤ f a) {rows : List ρ} {row : ρ}
    (h : firstBy before rows = some row) : ∀ r ∈ rows, f row ≤ f r := by
  induction rows generalizing row with
  | nil => simp
  | cons r rows ih =>
    simp only [firstBy] at h
    split at h
    · next hnone =>
      rw [firstBy_eq_none] at hnone
      cases h
      simp [hnone]
    · next s hs =>
      have hmin := ih hs
      split at h
      · next hb =>
        cases h
        exact List.forall_mem_cons.mpr ⟨hbefore hb, hmin⟩
      · next hb =>
        cases h
        have hle := hnot (by simpa using hb)
        exact List.forall_mem_cons.mpr ⟨le_refl _, fun r hr => le_trans hle (hmin r hr)⟩

end First

end Orchestrator.Table
