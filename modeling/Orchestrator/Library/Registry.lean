import Mathlib.Data.List.Nodup

/-!
# Registries with an optional unique key

Entries are only ever appended. An entry may carry a key, and no two entries carry the
same one; `find` gives the identity registered under a key. `Registered` says what a
caller who asked for an entry has been promised: the identity under its key, or its own.
-/

namespace Orchestrator.Registry

set_option autoImplicit false

universe u v w

variable {ε : Type u} {κ : Type v} {ι : Type w} [DecidableEq κ]
variable (key : ε → Option κ) (ident : ε → ι)

def find (k : κ) (entries : List ε) : Option ι :=
  (entries.find? fun e => key e = some k).map ident

def Registered (entries : List ε) (e : ε) (result : ι) : Prop :=
  (∀ k, key e = some k → find key ident k entries = some result) ∧
    (key e = none → result = ident e ∧ e ∈ entries)

variable {key ident} {entries entries' : List ε} {e : ε} {k : κ} {i : ι}

theorem find_eq_none : find key ident k entries = none ↔ k ∉ entries.filterMap key := by
  simp [find, List.find?_eq_none]

theorem find_prefix (hp : entries <+: entries') (h : find key ident k entries = some i) :
    find key ident k entries' = some i := by
  obtain ⟨e, he, hi⟩ := Option.map_eq_some_iff.mp h
  rw [find, hp.find?_eq_some he]
  simpa using hi

theorem find_snoc (hk : key e = some k) (hfree : k ∉ entries.filterMap key) :
    find key ident k (entries ++ [e]) = some (ident e) := by
  have hnone : find key ident k entries = none := find_eq_none.mpr hfree
  simp only [find, Option.map_eq_none_iff] at hnone
  simp [find, List.find?_append, hnone, hk]

theorem find_of_mem (hn : (entries.filterMap key).Nodup) (he : e ∈ entries) (hk : key e = some k) :
    find key ident k entries = some (ident e) := by
  induction entries with
  | nil => cases he
  | cons e' entries ih =>
    rcases List.mem_cons.mp he with rfl | he
    · simp [find, hk]
    · have hmem : k ∈ entries.filterMap key := List.mem_filterMap.mpr ⟨e, he, hk⟩
      cases hk' : key e' with
      | none =>
        rw [List.filterMap_cons_none hk'] at hn
        simpa [find, hk'] using ih hn he
      | some k' =>
        rw [List.filterMap_cons_some hk', List.nodup_cons] at hn
        have hne : k' ≠ k := by
          rintro rfl
          exact hn.1 hmem
        simpa [find, hk', hne] using ih hn.2 he

namespace Registered

theorem mono (hp : entries <+: entries') (h : Registered key ident entries e i) :
    Registered key ident entries' e i := by
  refine ⟨fun k hk => find_prefix hp (h.1 k hk), ?_⟩
  intro hk
  exact ⟨(h.2 hk).1, hp.subset (h.2 hk).2⟩

theorem found (hk : key e = some k) (h : find key ident k entries = some i) :
    Registered key ident entries e i := by
  refine ⟨?_, by simp [hk]⟩
  intro k' hk'
  obtain rfl : k = k' := by simpa [hk] using hk'
  exact h

theorem inserted (hfree : ∀ k, key e = some k → k ∉ entries.filterMap key) :
    Registered key ident (entries ++ [e]) e (ident e) :=
  ⟨fun k hk => find_snoc hk (hfree k hk), fun _ => ⟨rfl, by simp⟩⟩

end Registered

end Orchestrator.Registry
