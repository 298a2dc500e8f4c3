import Orchestrator.Library.Interleaving

/-!
# Moments of a call

A thread that only reads returns what it has met: something that held in the state of some
moment of its call. Whatever was there before the call began, and stays, is there at each of
its moments.
-/

namespace Orchestrator.Interleaving

set_option autoImplicit false

universe u v w x y

variable {T : Type v} {Eff : Type u} {Res : Eff → Type w} {Call χ σ ℓ : Type x} {α : Type w}
variable {Phase : Type y}

/-- The thread has started no call since the earlier history: a moment of its present call. -/
def Since (t : T) (h₁ h : List (Event T Eff Res Call χ α)) : Prop :=
  ∃ l, h = l ++ h₁ ∧ ∀ call, .start t call ∉ l

section Since
variable {t : T} {call : Call} {ev : Event T Eff Res Call χ α}
variable {h₁ h earlier rest : List (Event T Eff Res Call χ α)}

theorem Since.refl (t : T) (h : List (Event T Eff Res Call χ α)) : Since t h h :=
  ⟨[], rfl, fun _ => List.not_mem_nil⟩

theorem Since.later (hs : Since t h₁ h) (hev : ∀ call, ev ≠ .start t call) :
    Since t h₁ (ev :: h) := by
  obtain ⟨l, rfl, hl⟩ := hs
  refine ⟨ev :: l, rfl, ?_⟩
  intro call hmem
  rcases List.mem_cons.mp hmem with heq | hmem
  · exact hev call heq.symm
  · exact hl call hmem

theorem Since.suffix (hs : Since t h₁ (rest ++ .start t call :: earlier)) :
    .start t call :: earlier <:+ h₁ := by
  obtain ⟨l, heq, hl⟩ := hs
  rcases List.append_eq_append_iff.mp heq with ⟨l', hl', heq'⟩ | ⟨l', -, heq'⟩
  · cases l' with
    | nil => exact ⟨[], heq'⟩
    | cons ev l' =>
      obtain ⟨rfl, -⟩ := List.cons_eq_cons.mp heq'
      exact absurd (hl' ▸ List.mem_append_right _ List.mem_cons_self) (hl call)
  · exact ⟨l', heq'.symm⟩

end Since

/-- The present call of a thread has performed an effect with this answer, after an earlier
history of a kind. -/
def Did (t : T) (e : Eff) (r : Res e) (P : List (Event T Eff Res Call χ α) → Prop)
    (h : List (Event T Eff Res Call χ α)) : Prop :=
  ∃ c h₁, Since t (.did t c e r :: h₁) h ∧ P h₁

section Did
variable {t : T} {c : χ} {e : Eff} {r : Res e} {ev : Event T Eff Res Call χ α}
variable {P : List (Event T Eff Res Call χ α) → Prop} {h : List (Event T Eff Res Call χ α)}

theorem Did.now (hp : P h) : Did t e r P (.did t c e r :: h) := ⟨c, h, .refl t _, hp⟩

theorem Did.later (hd : Did t e r P h) (hev : ∀ call, ev ≠ .start t call) :
    Did t e r P (ev :: h) := by
  obtain ⟨c, h₁, hsince, hp⟩ := hd
  exact ⟨c, h₁, hsince.later hev, hp⟩

end Did

/-- The event is neither a start nor an effect of the thread. -/
def Event.Spares (ev : Event T Eff Res Call χ α) (t : T) : Prop :=
  (∀ call, ev ≠ .start t call) ∧ ∀ c e r, ev ≠ .did t c e r

def Begun (t : T) (call : Call) (h : List (Event T Eff Res Call χ α)) : Prop :=
  ∃ l h₁, h = l ++ .start t call :: h₁ ∧ ∀ ev ∈ l, ev.Spares t

section Begun
variable {t : T} {call : Call} {ev : Event T Eff Res Call χ α}
variable {h : List (Event T Eff Res Call χ α)}

theorem Begun.now : Begun t call (.start t call :: h) := ⟨[], h, rfl, List.forall_mem_nil _⟩

theorem Begun.later (hb : Begun t call h) (hev : ev.Spares t) : Begun t call (ev :: h) := by
  obtain ⟨l, h₁, rfl, hl⟩ := hb
  exact ⟨ev :: l, h₁, rfl, List.forall_mem_cons.mpr ⟨hev, hl⟩⟩

end Begun

variable [DecidableEq T] (M : Machine Eff Res Call χ σ ℓ α)
variable (Initial : State T Eff Res Call σ ℓ α → Prop)

/-- Something held at a moment of the present call of a thread. -/
def Met (t : T) (P : List (Event T Eff Res Call χ α) → State T Eff Res Call σ ℓ α → Prop)
    (h : List (Event T Eff Res Call χ α)) : Prop :=
  ∃ h₁ s₁, Runs M Initial h₁ s₁ ∧ Since t h₁ h ∧ P h₁ s₁

variable {M Initial} {t : T} {call : Call} {ev : Event T Eff Res Call χ α}
variable {h earlier rest : List (Event T Eff Res Call χ α)} {s : State T Eff Res Call σ ℓ α}
variable {P : List (Event T Eff Res Call χ α) → State T Eff Res Call σ ℓ α → Prop}

theorem Met.now (hr : Runs M Initial h s) (hp : P h s) : Met M Initial t P h :=
  ⟨h, s, hr, .refl t h, hp⟩

theorem Met.later (hm : Met M Initial t P h) (hev : ∀ call, ev ≠ .start t call) :
    Met M Initial t P (ev :: h) := by
  obtain ⟨h₁, s₁, hr₁, hsince, hp⟩ := hm
  exact ⟨h₁, s₁, hr₁, hsince.later hev, hp⟩

theorem Met.after_start (hm : Met M Initial t P (rest ++ .start t call :: earlier)) :
    ∃ h₁ s₁, Runs M Initial h₁ s₁ ∧ .start t call :: earlier <:+ h₁ ∧ P h₁ s₁ := by
  obtain ⟨h₁, s₁, hr₁, hsince, hp⟩ := hm
  exact ⟨h₁, s₁, hr₁, hsince.suffix, hp⟩

/-- What each phase notes of the call stays noted, as it is about moments of that call. -/
theorem Protocol.notes {P : Protocol Eff Res Call Phase} {Q : Call → Phase → α → Prop}
    (Notes : List (Event T Eff Res Call χ α) → T → Phase → Prop)
    (code : ∀ call, P.wp (M.code call) (Q call) (P.start call))
    (idle : ∀ h t, Notes h t P.idle) (start : ∀ h t call, Notes h t (P.start call))
    (later : ∀ {h t ph ev}, Notes h t ph → (∀ call, ev ≠ .start t call) → Notes (ev :: h) t ph)
    (did : ∀ {h s s' t c e r}, Runs M Initial h s → Step M s (.did t c e r) s' →
      P.allowed (P.phase h t) e → Notes h t (P.phase h t) →
      P.admits (P.phase h t) e r ∧ Notes (.did t c e r :: h) t (P.next (P.phase h t) e r))
    (quiet : ∀ s, Initial s → ∀ t : T, s.running t = none) (hr : Runs M Initial h s) :
    P.Follows Q h s ∧ ∀ t, Notes h t (P.phase h t) := by
  have hupdate : ∀ {h : List (Event T Eff Res Call χ α)} {ev : Event T Eff Res Call χ α} {t : T}
      {ph : Phase}, P.phase (ev :: h) = Function.update (P.phase h) t ph → Notes (ev :: h) t ph →
      (∀ t', t' ≠ t → ∀ call, ev ≠ .start t' call) → (∀ t, Notes h t (P.phase h t)) →
      ∀ t, Notes (ev :: h) t (P.phase (ev :: h) t) := by
    intro h ev t ph hphase hown hothers hn t'
    rw [hphase]
    by_cases ht : t' = t
    · subst ht
      rw [Function.update_self]
      exact hown
    · rw [Function.update_of_ne ht]
      exact later (hn t') (hothers t' ht)
  have hkeeps : P.Keeps M Initial Q (fun _ => True) fun h _ => ∀ t, Notes h t (P.phase h t) := {
    code := code
    past := fun _ => trivial
    init := fun _ _ t => idle [] t
    start := by
      intro h s s' t call _ _ hn _ _
      refine hupdate (P.phase_start h t call) (start _ t call) ?_ hn
      rintro t' ht _ ⟨⟩
      exact ht rfl
    did := by
      intro h s s' t c e r hr _ hn hal hs
      obtain ⟨hadmits, hown⟩ := did hr hs hal (hn t)
      exact ⟨hadmits, hupdate (P.phase_did h t c e r) hown (fun _ _ _ heq => by cases heq) hn⟩
    stop := by
      intro h s s' t call reply _ _ hn _ _
      exact hupdate (P.phase_stop h t call reply) (idle _ t) (fun _ _ _ heq => by cases heq) hn
    disturb := fun _ _ hn _ t => later (hn t) (fun _ heq => by cases heq) }
  exact hkeeps.runs quiet hr trivial

end Orchestrator.Interleaving
