import Mathlib.Logic.Function.Basic

/-!
# Leases

Threads hold keys, one at a time. A key that is held is marked busy, and a thread
acquires only keys that are not; so no two threads ever hold the same key.
-/

namespace Orchestrator.Lease

set_option autoImplicit false

universe u v

variable {T : Type u} {κ : Type v} {holding : T → Option κ} {busy busy' : κ → Prop}

structure Exclusive (holding : T → Option κ) (busy : κ → Prop) : Prop where
  marked : ∀ t k, holding t = some k → busy k
  unique : ∀ t t' k, holding t = some k → holding t' = some k → t = t'

namespace Exclusive

theorem of_free (h : ∀ t, holding t = none) : Exclusive holding busy :=
  ⟨fun t k ht => by simp [h t] at ht, fun t _ k ht => by simp [h t] at ht⟩

theorem mono (hx : Exclusive holding busy) (hb : ∀ k, busy k → busy' k) :
    Exclusive holding busy' :=
  ⟨fun t k ht => hb k (hx.marked t k ht), hx.unique⟩

variable [DecidableEq T] {t : T} {k : κ}

theorem acquire (hx : Exclusive holding busy) (hfree : ¬ busy k) (hk : busy' k)
    (hb : ∀ k', k' ≠ k → busy k' → busy' k') :
    Exclusive (Function.update holding t (some k)) busy' := by
  have other : ∀ t' k', t' ≠ t → Function.update holding t (some k) t' = some k' → k' ≠ k := by
    rintro t' k' ht hh rfl
    rw [Function.update_of_ne ht] at hh
    exact hfree (hx.marked t' k' hh)
  have self : ∀ k', Function.update holding t (some k) t = some k' → k' = k := by
    intro k' hh
    simpa [eq_comm] using hh
  constructor
  · intro t' k' hh
    by_cases ht : t' = t
    · subst ht
      exact (self k' hh) ▸ hk
    · have hne := other t' k' ht hh
      rw [Function.update_of_ne ht] at hh
      exact hb k' hne (hx.marked t' k' hh)
  · intro t₁ t₂ k' h₁ h₂
    by_cases ht₁ : t₁ = t <;> by_cases ht₂ : t₂ = t
    · exact ht₁.trans ht₂.symm
    · subst ht₁
      exact absurd (self k' h₁) (other t₂ k' ht₂ h₂)
    · subst ht₂
      exact absurd (self k' h₂) (other t₁ k' ht₁ h₁)
    · rw [Function.update_of_ne ht₁] at h₁
      rw [Function.update_of_ne ht₂] at h₂
      exact hx.unique t₁ t₂ k' h₁ h₂

theorem update_none {t' : T} {k' : κ} (hh : Function.update holding t none t' = some k') :
    t' ≠ t ∧ holding t' = some k' := by
  by_cases ht' : t' = t
  · subst ht'
    simp at hh
  · rw [Function.update_of_ne ht'] at hh
    exact ⟨ht', hh⟩

theorem release (hx : Exclusive holding busy) (ht : holding t = some k)
    (hb : ∀ k', k' ≠ k → busy k' → busy' k') :
    Exclusive (Function.update holding t none) busy' := by
  constructor
  · intro t' k' hh
    obtain ⟨hne, hold⟩ := update_none hh
    apply hb k' ?_ (hx.marked t' k' hold)
    rintro rfl
    exact hne (hx.unique t' t k' hold ht)
  · intro t₁ t₂ k' h₁ h₂
    exact hx.unique t₁ t₂ k' (update_none h₁).2 (update_none h₂).2

theorem drop (hx : Exclusive holding busy) (t : T) :
    Exclusive (Function.update holding t none) busy :=
  ⟨fun t' k' hh => hx.marked t' k' (update_none hh).2,
    fun t₁ t₂ k' h₁ h₂ => hx.unique t₁ t₂ k' (update_none h₁).2 (update_none h₂).2⟩

end Exclusive

end Orchestrator.Lease
