import Mathlib.Logic.Function.Basic
import Orchestrator.Library.Interaction

/-!
# Interleavings of effectful programs

Any number of threads run calls against one shared state. A step starts a call,
performs the next effect of one thread, ends a call, or lets the surroundings
disturb the shared state. A history lists the steps of a run, the latest first.

`Protocol.Keeps` packages the induction over runs once: every thread follows the
protocol from its own phase, so an invariant only has to survive the effects that
the protocol allows in that phase.
-/

namespace Orchestrator.Interleaving

open Interaction
set_option autoImplicit false

universe u v w x y

variable {T : Type v} {Eff : Type u} {Res : Eff → Type w} {Call χ σ ℓ : Type x} {α : Type w}
variable {Phase : Type y}

/-- The code of each call, and how an effect is answered under an environment's choice. -/
structure Machine (Eff : Type u) (Res : Eff → Type w) (Call χ σ ℓ : Type x) (α : Type w) where
  code : Call → Prog Eff Res α
  handle : χ → (e : Eff) → σ → ℓ → Res e × σ × ℓ
  disturbs : σ → σ → Prop

inductive Event (T : Type v) (Eff : Type u) (Res : Eff → Type w) (Call χ : Type x)
    (α : Type w) where
  | start (t : T) (call : Call)
  | did (t : T) (c : χ) (e : Eff) (r : Res e)
  | stop (t : T) (call : Call) (reply : α)
  | disturb

structure State (T : Type v) (Eff : Type u) (Res : Eff → Type w) (Call σ ℓ : Type x)
    (α : Type w) where
  shared : σ
  locals : T → ℓ
  running : T → Option (Call × Prog Eff Res α)

variable [DecidableEq T]

inductive Step (M : Machine Eff Res Call χ σ ℓ α) :
    State T Eff Res Call σ ℓ α → Event T Eff Res Call χ α → State T Eff Res Call σ ℓ α → Prop where
  | start {s : State T Eff Res Call σ ℓ α} (t : T) (call : Call) (h : s.running t = none) :
      Step M s (.start t call)
        { s with running := Function.update s.running t (some (call, M.code call)) }
  | did {s : State T Eff Res Call σ ℓ α} (t : T) (c : χ) {call : Call} {e : Eff}
      {k : Res e → Prog Eff Res α} (h : s.running t = some (call, .call e k)) :
      Step M s (.did t c e (M.handle c e s.shared (s.locals t)).1)
        { shared := (M.handle c e s.shared (s.locals t)).2.1
          locals := Function.update s.locals t (M.handle c e s.shared (s.locals t)).2.2
          running := Function.update s.running t
            (some (call, k (M.handle c e s.shared (s.locals t)).1)) }
  | stop {s : State T Eff Res Call σ ℓ α} (t : T) {call : Call} {reply : α}
      (h : s.running t = some (call, .ret reply)) :
      Step M s (.stop t call reply) { s with running := Function.update s.running t none }
  | disturb {s : State T Eff Res Call σ ℓ α} (shared : σ) (h : M.disturbs s.shared shared) :
      Step M s .disturb { s with shared := shared }

inductive Runs (M : Machine Eff Res Call χ σ ℓ α) (Initial : State T Eff Res Call σ ℓ α → Prop) :
    List (Event T Eff Res Call χ α) → State T Eff Res Call σ ℓ α → Prop where
  | init {s : State T Eff Res Call σ ℓ α} (h : Initial s) : Runs M Initial [] s
  | step {h : List (Event T Eff Res Call χ α)} {s s' : State T Eff Res Call σ ℓ α}
      {ev : Event T Eff Res Call χ α} (hr : Runs M Initial h s) (hs : Step M s ev s') :
      Runs M Initial (ev :: h) s'

/-- The runs whose every step meets `ok`. -/
inductive RunsWithin (M : Machine Eff Res Call χ σ ℓ α)
    (Initial : State T Eff Res Call σ ℓ α → Prop)
    (ok : List (Event T Eff Res Call χ α) → State T Eff Res Call σ ℓ α →
      Event T Eff Res Call χ α → State T Eff Res Call σ ℓ α → Prop) :
    List (Event T Eff Res Call χ α) → State T Eff Res Call σ ℓ α → Prop where
  | init {s : State T Eff Res Call σ ℓ α} (h : Initial s) : RunsWithin M Initial ok [] s
  | step {h : List (Event T Eff Res Call χ α)} {s s' : State T Eff Res Call σ ℓ α}
      {ev : Event T Eff Res Call χ α} (hr : RunsWithin M Initial ok h s) (hs : Step M s ev s')
      (hok : ok h s ev s') : RunsWithin M Initial ok (ev :: h) s'

/-- The steps from one state to a later one, the latest first. -/
inductive Steps (M : Machine Eff Res Call χ σ ℓ α) (s : State T Eff Res Call σ ℓ α) :
    List (Event T Eff Res Call χ α) → State T Eff Res Call σ ℓ α → Prop where
  | refl : Steps M s [] s
  | step {evs : List (Event T Eff Res Call χ α)} {s' s'' : State T Eff Res Call σ ℓ α}
      {ev : Event T Eff Res Call χ α} (hl : Steps M s evs s') (hs : Step M s' ev s'') :
      Steps M s (ev :: evs) s''

def ended (t : T) : List (Event T Eff Res Call χ α) → List (Call × α)
  | [] => []
  | .stop t' call reply :: h => if t' = t then (call, reply) :: ended t h else ended t h
  | _ :: h => ended t h

def current (t : T) : List (Event T Eff Res Call χ α) → Option Call
  | [] => none
  | .start t' call :: h => if t' = t then some call else current t h
  | .stop t' _ _ :: h => if t' = t then none else current t h
  | _ :: h => current t h

/-- A thread has performed an effect within a call, and was answered so. -/
def Performed (h : List (Event T Eff Res Call χ α)) (call : Call) (e : Eff) (r : Res e) : Prop :=
  ∃ h₂ t c h₁, h = h₂ ++ .did t c e r :: h₁ ∧ current t h₁ = some call

/-- A discipline together with the phase of an idle thread and of a thread that starts a call. -/
structure Protocol (Eff : Type u) (Res : Eff → Type w) (Call : Type x) (Phase : Type y) extends
    Discipline Eff Res Phase where
  idle : Phase
  start : Call → Phase

namespace Protocol

variable (P : Protocol Eff Res Call Phase)

/-- The phase of a thread, read off the history. -/
def phase : List (Event T Eff Res Call χ α) → T → Phase
  | [], _ => P.idle
  | .start t' call :: h, t => if t' = t then P.start call else phase h t
  | .did t' _ e r :: h, t => if t' = t then P.next (phase h t) e r else phase h t
  | .stop t' _ _ :: h, t => if t' = t then P.idle else phase h t
  | .disturb :: h, t => phase h t

section Phases
variable (h : List (Event T Eff Res Call χ α)) (t : T)

theorem phase_start (call : Call) :
    P.phase (.start t call :: h) = Function.update (P.phase h) t (P.start call) := by
  funext t'
  by_cases ht : t = t'
  · subst ht
    simp [phase]
  · simp [phase, ht, Function.update_of_ne (Ne.symm ht)]

theorem phase_did (c : χ) (e : Eff) (r : Res e) :
    P.phase (.did t c e r :: h) = Function.update (P.phase h) t (P.next (P.phase h t) e r) := by
  funext t'
  by_cases ht : t = t'
  · subst ht
    simp [phase]
  · simp [phase, ht, Function.update_of_ne (Ne.symm ht)]

theorem phase_stop (call : Call) (reply : α) :
    P.phase (.stop t call reply :: h) = Function.update (P.phase h) t P.idle := by
  funext t'
  by_cases ht : t = t'
  · subst ht
    simp [phase]
  · simp [phase, ht, Function.update_of_ne (Ne.symm ht)]

theorem phase_cons (ev : Event T Eff Res Call χ α) :
    P.phase (ev :: h) t = P.phase h t ∨ P.phase (ev :: h) t = P.idle ∨
      (∃ call, ev = .start t call ∧ P.phase (ev :: h) t = P.start call) ∨
      ∃ c e r, ev = .did t c e r ∧ P.phase (ev :: h) t = P.next (P.phase h t) e r := by
  cases ev with
  | start t' call =>
    by_cases ht : t' = t
    · subst ht
      exact .inr (.inr (.inl ⟨call, rfl, if_pos rfl⟩))
    · exact .inl (if_neg ht)
  | did t' c e r =>
    by_cases ht : t' = t
    · subst ht
      exact .inr (.inr (.inr ⟨c, e, r, rfl, if_pos rfl⟩))
    · exact .inl (if_neg ht)
  | stop t' call reply =>
    by_cases ht : t' = t
    · subst ht
      exact .inr (.inl (if_pos rfl))
    · exact .inl (if_neg ht)
  | disturb => exact .inl rfl

variable {P h t}

theorem phase_current (R : Call → Phase → Prop) (start : ∀ call, R call (P.start call))
    (next : ∀ call ph e r, R call ph → R call (P.next ph e r)) {call : Call}
    (hcurrent : current t h = some call) : R call (P.phase h t) := by
  induction h with
  | nil => cases hcurrent
  | cons ev h ih =>
    cases ev with
    | start t' call' =>
      by_cases ht : t' = t
      · obtain rfl : call' = call := by simpa [current, ht] using hcurrent
        simpa [phase, ht] using start call'
      · simpa [phase, ht] using ih (by simpa [current, ht] using hcurrent)
    | did t' c e r =>
      by_cases ht : t' = t
      · simpa [phase, ht] using next call _ e r (ih hcurrent)
      · simpa [phase, ht] using ih hcurrent
    | stop t' call' reply =>
      by_cases ht : t' = t
      · simp [current, ht] at hcurrent
      · simpa [phase, ht] using ih (by simpa [current, ht] using hcurrent)
    | disturb => exact ih hcurrent

/-- What a phase says of the history from its beginning on, and later events keep, it says of
every history. -/
theorem phase_notes (Notes : List (Event T Eff Res Call χ α) → T → Phase → Prop)
    (idle : ∀ h t, Notes h t P.idle)
    (start : ∀ h t call, Notes (.start t call :: h) t (P.start call))
    (did : ∀ h t e r, Notes h t (P.phase h t) → Notes h t (P.next (P.phase h t) e r))
    (keep : ∀ h t ev ph, Notes h t ph → Notes (ev :: h) t ph) : Notes h t (P.phase h t) := by
  induction h with
  | nil => exact idle [] t
  | cons ev h ih =>
    rcases P.phase_cons h t ev with hph | hph | ⟨call, rfl, hph⟩ | ⟨c, e, r, rfl, hph⟩
    · rw [hph]
      exact keep h t ev _ ih
    · rw [hph]
      exact idle _ t
    · rw [hph]
      exact start h t call
    · rw [hph]
      exact keep h t _ _ (did h t e r ih)

end Phases

/-- What has to be shown of an invariant `I` once every thread follows the protocol, in the
runs whose history the surroundings keep within `A`. -/
structure Keeps (M : Machine Eff Res Call χ σ ℓ α) (Initial : State T Eff Res Call σ ℓ α → Prop)
    (Q : Call → Phase → α → Prop) (A : List (Event T Eff Res Call χ α) → Prop)
    (I : List (Event T Eff Res Call χ α) → State T Eff Res Call σ ℓ α → Prop) : Prop where
  code : ∀ call, P.wp (M.code call) (Q call) (P.start call)
  past : ∀ {ev h}, A (ev :: h) → A h
  init : ∀ s, Initial s → I [] s
  start : ∀ {h s s' t call}, Runs M Initial h s → A (.start t call :: h) → I h s →
    P.phase h t = P.idle → Step M s (.start t call) s' → I (.start t call :: h) s'
  did : ∀ {h s s' t c e r}, Runs M Initial h s → A (.did t c e r :: h) → I h s →
    P.allowed (P.phase h t) e → Step M s (.did t c e r) s' →
    P.admits (P.phase h t) e r ∧ I (.did t c e r :: h) s'
  stop : ∀ {h s s' t call reply}, Runs M Initial h s → A (.stop t call reply :: h) → I h s →
    Q call (P.phase h t) reply → Step M s (.stop t call reply) s' → I (.stop t call reply :: h) s'
  disturb : ∀ {h s s'}, Runs M Initial h s → A (.disturb :: h) → I h s → Step M s .disturb s' →
    I (.disturb :: h) s'

/-- Every thread follows the protocol from the phase its history gives it. -/
def Follows (Q : Call → Phase → α → Prop) (h : List (Event T Eff Res Call χ α))
    (s : State T Eff Res Call σ ℓ α) : Prop :=
  ∀ t, (s.running t = none → P.phase h t = P.idle) ∧
    ∀ call p, s.running t = some (call, p) → P.wp p (Q call) (P.phase h t)

end Protocol

variable {M : Machine Eff Res Call χ σ ℓ α} {Initial : State T Eff Res Call σ ℓ α → Prop}
variable {h : List (Event T Eff Res Call χ α)} {s s' : State T Eff Res Call σ ℓ α}

theorem Step.did_handle {t : T} {c : χ} {e : Eff} {r : Res e}
    (hs : Step M s (.did t c e r) s') :
    M.handle c e s.shared (s.locals t) = (r, s'.shared, s'.locals t) := by
  cases hs with
  | did _ _ h => simp

theorem Step.start_shared {t : T} {call : Call} (hs : Step M s (.start t call) s') :
    s'.shared = s.shared := by
  cases hs with
  | start _ _ h => rfl

theorem Step.stop_shared {t : T} {call : Call} {reply : α}
    (hs : Step M s (.stop t call reply) s') : s'.shared = s.shared := by
  cases hs with
  | stop _ h => rfl

theorem Step.ended {t : T} {call : Call} {reply : α} (h : s.running t = some (call, .ret reply))
    (hs' : s' = { s with running := Function.update s.running t none }) :
    Step M s (.stop t call reply) s' := by
  subst hs'
  exact .stop t h

theorem Step.disturb_shared (hs : Step M s (.disturb : Event T Eff Res Call χ α) s') :
    M.disturbs s.shared s'.shared := by
  cases hs with
  | disturb _ h => exact h

theorem Runs.append {evs : List (Event T Eff Res Call χ α)} (hr : Runs M Initial h s)
    (hl : Steps M s evs s') : Runs M Initial (evs ++ h) s' := by
  induction hl with
  | refl => exact hr
  | step _ hs ih => exact ih.step hs

theorem Runs.split {evs : List (Event T Eff Res Call χ α)} (hr : Runs M Initial (evs ++ h) s') :
    ∃ s, Runs M Initial h s ∧ Steps M s evs s' := by
  induction evs generalizing s' with
  | nil => exact ⟨s', hr, .refl⟩
  | cons ev evs ih =>
    cases hr with
    | step hr hs =>
      obtain ⟨s, hr, hl⟩ := ih hr
      exact ⟨s, hr, hl.step hs⟩

theorem Steps.trans {evs evs' : List (Event T Eff Res Call χ α)}
    {s₁ s₂ : State T Eff Res Call σ ℓ α} (hl : Steps M s evs s₁) (hl' : Steps M s₁ evs' s₂) :
    Steps M s (evs' ++ evs) s₂ := by
  induction hl' with
  | refl => exact hl
  | step _ hs ih => exact ih.step hs

theorem Runs.steps {s₀ : State T Eff Res Call σ ℓ α} (hr : Runs M (fun s => s = s₀) h s) :
    Steps M s₀ h s := by
  induction hr with
  | init h =>
    subst h
    exact .refl
  | step _ hs ih => exact ih.step hs

theorem Runs.invariant {I : List (Event T Eff Res Call χ α) → State T Eff Res Call σ ℓ α → Prop}
    (init : ∀ s, Initial s → I [] s)
    (step : ∀ {h s s' ev}, Runs M Initial h s → I h s → Step M s ev s' → I (ev :: h) s')
    (hr : Runs M Initial h s) : I h s := by
  induction hr with
  | init h => exact init _ h
  | step hr hs ih => exact step hr ih hs

theorem Runs.current (hr : Runs M Initial h s) (idle : ∀ s, Initial s → ∀ t : T, s.running t = none)
    (t : T) : current t h = (s.running t).map Prod.fst := by
  induction hr with
  | init hi => rw [idle _ hi]; rfl
  | step hr hs ih =>
    cases hs with
    | start t' call hidle =>
      by_cases ht : t' = t
      · subst ht
        simp [Interleaving.current]
      · simpa [Interleaving.current, ht, Function.update_of_ne (Ne.symm ht)] using ih
    | did t' c hrun =>
      by_cases ht : t' = t
      · subst ht
        simpa [Interleaving.current, hrun] using ih
      · simpa [Interleaving.current, ht, Function.update_of_ne (Ne.symm ht)] using ih
    | stop t' hrun =>
      by_cases ht : t' = t
      · subst ht
        simp [Interleaving.current]
      · simpa [Interleaving.current, ht, Function.update_of_ne (Ne.symm ht)] using ih
    | disturb shared hd => exact ih

theorem Runs.performed (hr : Runs M Initial h s)
    (idle : ∀ s, Initial s → ∀ t : T, s.running t = none) {t : T} {c : χ} {e : Eff} {r : Res e}
    (hs : Step M s (.did t c e r) s') :
    ∃ call, Interleaving.current t h = some call ∧ Performed (.did t c e r :: h) call e r := by
  cases hs with
  | did _ _ hrun =>
    have hcurrent := hr.current idle t
    rw [hrun] at hcurrent
    exact ⟨_, hcurrent, [], t, c, h, rfl, hcurrent⟩

theorem Performed.later {call : Call} {e : Eff} {r : Res e} (hp : Performed h call e r)
    (ev : Event T Eff Res Call χ α) : Performed (ev :: h) call e r := by
  obtain ⟨h₂, t, c, h₁, rfl, hcurrent⟩ := hp
  exact ⟨ev :: h₂, t, c, h₁, rfl, hcurrent⟩

theorem Performed.mem {call : Call} {e : Eff} {r : Res e} (hp : Performed h call e r) :
    ∃ t c, .did t c e r ∈ h := by
  obtain ⟨h₂, t, c, h₁, rfl, -⟩ := hp
  exact ⟨t, c, List.mem_append_right h₂ List.mem_cons_self⟩

namespace RunsWithin

variable {ok ok' : List (Event T Eff Res Call χ α) → State T Eff Res Call σ ℓ α →
  Event T Eff Res Call χ α → State T Eff Res Call σ ℓ α → Prop}

theorem runs (hr : RunsWithin M Initial ok h s) : Runs M Initial h s := by
  induction hr with
  | init h => exact .init h
  | step _ hs _ ih => exact ih.step hs

theorem past {evs : List (Event T Eff Res Call χ α)} (hr : RunsWithin M Initial ok (evs ++ h) s') :
    ∃ s, RunsWithin M Initial ok h s := by
  induction evs generalizing s' with
  | nil => exact ⟨s', hr⟩
  | cons ev evs ih =>
    cases hr with
    | step hr hs hok => exact ih hr

theorem invariant {I : List (Event T Eff Res Call χ α) → State T Eff Res Call σ ℓ α → Prop}
    (init : ∀ s, Initial s → I [] s)
    (step : ∀ {h s s' ev}, Runs M Initial h s → I h s → Step M s ev s' → ok h s ev s' →
      I (ev :: h) s')
    (hr : RunsWithin M Initial ok h s) : I h s := by
  induction hr with
  | init h => exact init _ h
  | step hr hs hok ih => exact step hr.runs ih hs hok

theorem weaken {A : List (Event T Eff Res Call χ α) → Prop} (past : ∀ {ev h}, A (ev :: h) → A h)
    (step : ∀ {h s s' ev}, RunsWithin M Initial ok h s → RunsWithin M Initial ok' h s →
      A (ev :: h) → Step M s ev s' → ok h s ev s' → ok' h s ev s')
    (hr : RunsWithin M Initial ok h s) (hA : A h) : RunsWithin M Initial ok' h s := by
  induction hr with
  | init h => exact .init h
  | step hr hs hok ih =>
    have hr' := ih (past hA)
    exact hr'.step hs (step hr hr' hA hs hok)

end RunsWithin

namespace Protocol

variable {P : Protocol Eff Res Call Phase} {Q : Call → Phase → α → Prop}
variable {A : List (Event T Eff Res Call χ α) → Prop}
variable {I : List (Event T Eff Res Call χ α) → State T Eff Res Call σ ℓ α → Prop}

theorem Follows.allowed {t : T} {c : χ} {e : Eff} {r : Res e} (hf : P.Follows Q h s)
    (hs : Step M s (.did t c e r) s') : P.allowed (P.phase h t) e := by
  cases hs with
  | did _ _ hrun => exact ((hf t).2 _ _ hrun).1

theorem Follows.ends {t : T} {call : Call} {reply : α} (hf : P.Follows Q h s)
    (hs : Step M s (.stop t call reply) s') : Q call (P.phase h t) reply := by
  cases hs with
  | stop _ hrun => exact (hf t).2 _ _ hrun

theorem follows_step (code : ∀ call, P.wp (M.code call) (Q call) (P.start call))
    {ev : Event T Eff Res Call χ α} (hf : P.Follows Q h s) (hs : Step M s ev s')
    (admits : ∀ t c e r, ev = .did t c e r → P.allowed (P.phase h t) e →
      P.admits (P.phase h t) e r) : P.Follows Q (ev :: h) s' := by
  intro t
  cases hs with
  | start t' call hidle =>
    by_cases ht : t' = t
    · subst ht
      refine ⟨by simp, ?_⟩
      intro call' p hp
      obtain ⟨rfl, rfl⟩ : call = call' ∧ M.code call = p := by simpa using hp
      simpa [phase] using code call
    · simpa [phase, ht, Function.update_of_ne (Ne.symm ht)] using hf t
  | @did t' c call e k hrun =>
    by_cases ht : t' = t
    · subst ht
      have hw := (hf t').2 _ _ hrun
      refine ⟨by simp, ?_⟩
      intro call' p hp
      obtain ⟨rfl, rfl⟩ : call = call' ∧ k _ = p := by simpa using hp
      simpa [phase] using hw.2 _ (admits t' c e _ rfl hw.1)
    · simpa [phase, ht, Function.update_of_ne (Ne.symm ht)] using hf t
  | stop t' hrun =>
    by_cases ht : t' = t
    · subst ht
      simp [phase]
    · simpa [phase, ht, Function.update_of_ne (Ne.symm ht)] using hf t
  | disturb shared hd => simpa [phase] using hf t

/-- The induction over runs: threads keep following the protocol and `I` keeps holding. -/
theorem Keeps.runs (hk : P.Keeps M Initial Q A I)
    (idle : ∀ s, Initial s → ∀ t : T, s.running t = none) (hr : Runs M Initial h s) (hA : A h) :
    P.Follows Q h s ∧ I h s := by
  induction hr with
  | init hi => exact ⟨fun t => ⟨fun _ => rfl, by simp [idle _ hi]⟩, hk.init _ hi⟩
  | @step h s s' ev hr hs ih =>
    obtain ⟨hf, hI⟩ := ih (hk.past hA)
    refine ⟨follows_step hk.code hf hs ?_, ?_⟩
    · rintro t c e r rfl hal
      exact (hk.did hr hA hI hal hs).1
    · cases ev with
      | start t call =>
        have hnone : s.running t = none := by
          cases hs with
          | start _ _ hnone => exact hnone
        exact hk.start hr hA hI ((hf t).1 hnone) hs
      | did t c e r => exact (hk.did hr hA hI (hf.allowed hs) hs).2
      | stop t call reply => exact hk.stop hr hA hI (hf.ends hs) hs
      | disturb => exact hk.disturb hr hA hI hs

theorem follows_runs (code : ∀ call, P.wp (M.code call) (Q call) (P.start call))
    (admits : ∀ ph e r, P.admits ph e r)
    (idle : ∀ s, Initial s → ∀ t : T, s.running t = none) (hr : Runs M Initial h s) :
    P.Follows Q h s := by
  induction hr with
  | init hi => exact fun t => ⟨fun _ => rfl, by simp [idle _ hi]⟩
  | step hr hs ih => exact follows_step code ih hs fun t c e r _ _ => admits _ e r

end Protocol

section Schedules

/-- What a scheduler decides: a thread starts a call, or goes on under a choice. -/
inductive Turn (T : Type v) (Call χ : Type x) where
  | start (t : T) (call : Call)
  | go (t : T) (c : χ)

/-- The step that a turn makes, if the thread can make it. -/
def State.turn (M : Machine Eff Res Call χ σ ℓ α) (s : State T Eff Res Call σ ℓ α) :
    Turn T Call χ → Option (Event T Eff Res Call χ α × State T Eff Res Call σ ℓ α)
  | .start t call =>
    match s.running t with
    | none =>
      some (.start t call,
        { s with running := Function.update s.running t (some (call, M.code call)) })
    | some _ => none
  | .go t c =>
    match s.running t with
    | none => none
    | some (call, .ret reply) =>
      some (.stop t call reply, { s with running := Function.update s.running t none })
    | some (call, .call e k) =>
      let answered := M.handle c e s.shared (s.locals t)
      some (.did t c e answered.1,
        { shared := answered.2.1
          locals := Function.update s.locals t answered.2.2
          running := Function.update s.running t (some (call, k answered.1)) })

theorem State.turn_step {turn : Turn T Call χ} {ev : Event T Eff Res Call χ α}
    (h : s.turn M turn = some (ev, s')) : Step M s ev s' := by
  cases turn with
  | start t call =>
    simp only [State.turn] at h
    split at h
    · next hidle =>
      cases h
      exact .start t call hidle
    · cases h
  | go t c =>
    simp only [State.turn] at h
    split at h
    · cases h
    · next hrun =>
      cases h
      exact .stop t hrun
    · next hrun =>
      cases h
      exact .did t c hrun

/-- The history and the state after a schedule; turns that cannot be made are passed over. -/
def State.play (M : Machine Eff Res Call χ σ ℓ α) : List (Turn T Call χ) →
    List (Event T Eff Res Call χ α) × State T Eff Res Call σ ℓ α →
    List (Event T Eff Res Call χ α) × State T Eff Res Call σ ℓ α
  | [], hs => hs
  | turn :: turns, (h, s) =>
    match s.turn M turn with
    | none => play M turns (h, s)
    | some (ev, s') => play M turns (ev :: h, s')

theorem State.play_closed {R : List (Event T Eff Res Call χ α) → State T Eff Res Call σ ℓ α → Prop}
    (step : ∀ {h s ev s'}, R h s → Step M s ev s' → R (ev :: h) s') (turns : List (Turn T Call χ))
    (hR : R h s) : R (State.play M turns (h, s)).1 (State.play M turns (h, s)).2 := by
  induction turns generalizing h s with
  | nil => exact hR
  | cons turn turns ih =>
    simp only [State.play]
    cases hturn : s.turn M turn with
    | none => exact ih hR
    | some moved => exact ih (step hR (State.turn_step hturn))

theorem Runs.play (turns : List (Turn T Call χ)) (hr : Runs M Initial h s) :
    Runs M Initial (State.play M turns (h, s)).1 (State.play M turns (h, s)).2 :=
  State.play_closed Runs.step turns hr

/-- Every step of a schedule passes a test. -/
def State.passes (M : Machine Eff Res Call χ σ ℓ α)
    (test : State T Eff Res Call σ ℓ α → Event T Eff Res Call χ α → Bool) :
    List (Turn T Call χ) → State T Eff Res Call σ ℓ α → Bool
  | [], _ => true
  | turn :: turns, s =>
    match s.turn M turn with
    | none => passes M test turns s
    | some (ev, s') => test s ev && passes M test turns s'

theorem RunsWithin.play {ok : List (Event T Eff Res Call χ α) → State T Eff Res Call σ ℓ α →
      Event T Eff Res Call χ α → State T Eff Res Call σ ℓ α → Prop}
    {test : State T Eff Res Call σ ℓ α → Event T Eff Res Call χ α → Bool}
    (grants : ∀ {h s ev s'}, test s ev = true → ok h s ev s') (turns : List (Turn T Call χ))
    (hr : RunsWithin M Initial ok h s) (hp : s.passes M test turns = true) :
    RunsWithin M Initial ok (State.play M turns (h, s)).1 (State.play M turns (h, s)).2 := by
  induction turns generalizing h s with
  | nil => exact hr
  | cons turn turns ih =>
    simp only [State.passes] at hp
    simp only [State.play]
    cases hturn : s.turn M turn with
    | none =>
      rw [hturn] at hp
      exact ih hr hp
    | some moved =>
      rw [hturn] at hp
      obtain ⟨htest, hp⟩ := (Bool.and_eq_true _ _).mp hp
      exact ih (hr.step (State.turn_step hturn) (grants htest)) hp

theorem Steps.play {s₀ : State T Eff Res Call σ ℓ α} (turns : List (Turn T Call χ))
    (hl : Steps M s₀ h s) :
    Steps M s₀ (State.play M turns (h, s)).1 (State.play M turns (h, s)).2 :=
  State.play_closed Steps.step turns hl

def State.pending (s : State T Eff Res Call σ ℓ α) (t : T) : Option Eff :=
  match s.running t with
  | some (_, .call e _) => some e
  | _ => none

theorem State.pending_step {t : T} {e : Eff} (h : s.pending t = some e) (c : χ) :
    ∃ s', Step M s (.did t c e (M.handle c e s.shared (s.locals t)).1) s' ∧
      s'.shared = (M.handle c e s.shared (s.locals t)).2.1 := by
  unfold State.pending at h
  split at h
  · next hrun =>
    cases h
    exact ⟨_, .did t c hrun, rfl⟩
  · cases h

end Schedules

section Sequential

variable {ω : Type x} (answer : (e : Eff) → ω → Res e × ω) (choose : ω → Eff → χ)

/-- The history of a program that a thread runs alone, put before `h`. -/
def trace (t : T) : Prog Eff Res α → ω → List (Event T Eff Res Call χ α) →
    List (Event T Eff Res Call χ α)
  | .ret _, _, h => h
  | .call e k, w, h =>
    trace t (k (answer e w).1) (answer e w).2 (.did t (choose w e) e (answer e w).1 :: h)

variable {answer choose} {shared : ω → σ} {ownState : ω → ℓ}

/-- A sequential execution is a run of the interleaved system in which no other thread moves. -/
theorem Runs.exec
    (agrees : ∀ e w, M.handle (choose w e) e (shared w) (ownState w) =
      ((answer e w).1, shared (answer e w).2, ownState (answer e w).2))
    {t : T} {call : Call} {p : Prog Eff Res α} {w : ω} (hr : Runs M Initial h s)
    (hrun : s.running t = some (call, p)) (hsh : s.shared = shared w)
    (hown : s.locals t = ownState w) :
    Runs M Initial (trace answer choose t p w h)
      { shared := shared (p.exec answer w).2
        locals := Function.update s.locals t (ownState (p.exec answer w).2)
        running := Function.update s.running t (some (call, .ret (p.exec answer w).1)) } := by
  induction p generalizing h s w with
  | ret a =>
    obtain ⟨sh, lo, ru⟩ := s
    subst hsh
    have hlo : Function.update lo t (ownState w) = lo := by
      rw [← hown, Function.update_eq_self]
    have hru : Function.update ru t (some (call, .ret a)) = ru := by
      rw [← hrun, Function.update_eq_self]
    simpa [trace, hlo, hru] using hr
  | call e k ih =>
    have hag := agrees e w
    have hstep := Step.did (M := M) t (choose w e) hrun
    rw [hsh, hown, hag] at hstep
    have hnext := ih (answer e w).1 (.step hr hstep) (Function.update_self t _ _) rfl
      (Function.update_self t _ _)
    simpa [trace] using hnext

theorem Runs.call
    (agrees : ∀ e w, M.handle (choose w e) e (shared w) (ownState w) =
      ((answer e w).1, shared (answer e w).2, ownState (answer e w).2))
    {t : T} (call : Call) {w : ω} (hr : Runs M Initial h s) (hidle : s.running t = none)
    (hsh : s.shared = shared w) (hown : s.locals t = ownState w) :
    Runs M Initial
      (.stop t call ((M.code call).exec answer w).1 ::
        trace answer choose t (M.code call) w (.start t call :: h))
      { s with
        shared := shared ((M.code call).exec answer w).2
        locals := Function.update s.locals t (ownState ((M.code call).exec answer w).2) } := by
  have hstart := Runs.step hr (Step.start (M := M) t call hidle)
  have hexec := hstart.exec agrees (Function.update_self t _ _) hsh hown
  have hstop := Runs.step hexec (Step.stop (M := M) t (Function.update_self t _ _))
  have hru : Function.update s.running t none = s.running := by
    rw [← hidle, Function.update_eq_self]
  simpa [hru] using hstop

theorem Steps.call
    (agrees : ∀ e w, M.handle (choose w e) e (shared w) (ownState w) =
      ((answer e w).1, shared (answer e w).2, ownState (answer e w).2))
    {t : T} (call : Call) {w : ω} (hidle : s.running t = none) (hsh : s.shared = shared w)
    (hown : s.locals t = ownState w) :
    ∃ s₁ s₂, Step M s (.start t call) s₁ ∧
      Steps M s₁ (trace answer choose t (M.code call) w []) s₂ ∧
      Step M s₂ (.stop t call ((M.code call).exec answer w).1)
        { s with
          shared := shared ((M.code call).exec answer w).2
          locals := Function.update s.locals t (ownState ((M.code call).exec answer w).2) } := by
  let s₁ : State T Eff Res Call σ ℓ α :=
    { s with running := Function.update s.running t (some (call, M.code call)) }
  have hrefl : Runs M (fun s₀ => s₀ = s₁) [] s₁ := .init rfl
  have hexec := (hrefl.exec agrees (Function.update_self t _ _) hsh hown).steps
  have hru : Function.update s.running t none = s.running := by
    rw [← hidle, Function.update_eq_self]
  exact ⟨s₁, _, .start t call hidle, hexec,
    Step.ended (Function.update_self t _ _) (by simp [s₁, hru])⟩

end Sequential

end Orchestrator.Interleaving
