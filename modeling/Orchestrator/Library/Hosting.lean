import Orchestrator.Library.Interleaving

/-!
# Machines that run the calls of another machine

A host runs, among effects of its own, calls of a guest. Where its own effects leave the part
of the state alone that the guest knows, every run of the host is a run of the guest: the guest
starts a call where the host enters it, performs the effects that the host performs inside, and
ends it where the host goes on. So what holds in every run of the guest holds of the host.
-/

namespace Orchestrator.Interaction

set_option autoImplicit false

universe u v w

variable {Eff : Type u} {Eff' : Type v} {Res : Eff → Type w} {Res' : Eff' → Type w} {α β : Type w}

/-- A program over the effects of a guest, as one over the effects of its host. -/
def Prog.embed (effect : Eff' → Eff) (answer : (e : Eff') → Res (effect e) → Res' e) :
    Prog Eff' Res' α → Prog Eff Res α
  | ret a => ret a
  | call e k => call (effect e) fun r => (k (answer e r)).embed effect answer

theorem Prog.embed_bind {effect : Eff' → Eff} {answer : (e : Eff') → Res (effect e) → Res' e}
    (p : Prog Eff' Res' α) (f : α → Prog Eff' Res' β) : (p >>= f).embed effect answer =
      p.embed effect answer >>= fun a => (f a).embed effect answer := by
  induction p with
  | ret a => rfl
  | call e k ih => exact congrArg (Prog.call _) (funext fun r => ih (answer e r))

theorem Prog.embed_self {Eff : Type u} {Res : Eff → Type w} {α : Type w} (p : Prog Eff Res α) :
    p.embed id (fun _ r => r) = p := by
  induction p with
  | ret a => rfl
  | call e k ih => exact congrArg (Prog.call e) (funext ih)

theorem Discipline.wp_embed {Phase : Type*} {D : Discipline Eff Res Phase} {effect : Eff' → Eff}
    {answer : (e : Eff') → Res (effect e) → Res' e}
    (h : D.Ignores fun e => ∃ e', e = effect e') (p : Prog Eff' Res' α) (ph : Phase) :
    D.wp (p.embed effect answer) (fun ph' _ => ph' = ph) ph := by
  induction p with
  | ret a => rfl
  | call e k ih =>
    obtain ⟨hallowed, hnext⟩ := h (effect e) ⟨e, rfl⟩ ph
    refine ⟨hallowed, ?_⟩
    intro r _
    rw [hnext]
    exact ih (answer e r)

@[simp] theorem Prog.bind_assoc {γ : Type w} (p : Prog Eff Res α) (f : α → Prog Eff Res β)
    (g : β → Prog Eff Res γ) : (p >>= f) >>= g = p >>= fun a => f a >>= g := by
  induction p with
  | ret a => rfl
  | call e k ih => exact congrArg (call e) (funext ih)

theorem Prog.bind_ret (p : Prog Eff Res α) : (p >>= fun a => ret a) = p := by
  induction p with
  | ret a => rfl
  | call e k ih => exact congrArg (call e) (funext ih)

theorem Prog.except_bind_assoc {ε γ δ : Type w} (p : ExceptT ε (Prog Eff Res) α)
    (f : α → ExceptT ε (Prog Eff Res) γ) (g : Except ε γ → Prog Eff Res δ) :
    (p >>= f).run >>= g = p.run >>= fun r =>
      match r with
      | .ok a => (f a).run >>= g
      | .error x => g (.error x) := by
  rw [ExceptT.run_bind, Prog.bind_assoc]
  congr 1
  funext r
  cases r <;> rfl

end Orchestrator.Interaction

namespace Orchestrator.Interleaving

open Interaction
set_option autoImplicit false

universe u u' v w x y

variable {T : Type v} {Eff : Type u} {Res : Eff → Type w} {Call χ σ ℓ : Type x} {α : Type w}
variable {Eff' : Type u'} {Res' : Eff' → Type w} {Call' χ' σ' ℓ' : Type y} {α' β : Type w}
variable {M : Machine Eff Res Call χ σ ℓ α} {N : Machine Eff' Res' Call' χ' σ' ℓ' α'}

section Beside
variable [DecidableEq T]
variable {R : List (Event T Eff Res Call χ α) → State T Eff Res Call σ ℓ α →
  List (Event T Eff' Res' Call' χ' α') → State T Eff' Res' Call' σ' ℓ' α' → Prop}
variable {h : List (Event T Eff Res Call χ α)} {s s₁ : State T Eff Res Call σ ℓ α}
variable {h' h'' : List (Event T Eff' Res' Call' χ' α')}
variable {s' s₁' : State T Eff' Res' Call' σ' ℓ' α'}

variable (M N R h s h' s')

/-- At each moment of the first run so far, the second one was at a moment that `R` relates
to it. -/
def Beside : Prop :=
  ∀ h₂ h₁, h = h₂ ++ h₁ → ∃ s₁ h₂' h₁' s₁', h' = h₂' ++ h₁' ∧ R h₁ s₁ h₁' s₁' ∧
    Steps M s₁ h₂ s ∧ Steps N s₁' h₂' s'

variable {M N R h s h' s'}

theorem Beside.nil (hR : R [] s [] s') : Beside M N R [] s [] s' := by
  intro h₂ h₁ heq
  obtain ⟨rfl, rfl⟩ := List.append_eq_nil_iff.mp heq.symm
  exact ⟨s, [], [], s', rfl, hR, .refl, .refl⟩

theorem Beside.step (hb : Beside M N R h s h' s') {ev : Event T Eff Res Call χ α}
    (hs : Step M s ev s₁) (hs' : Steps N s' h'' s₁') (hR : R (ev :: h) s₁ (h'' ++ h') s₁') :
    Beside M N R (ev :: h) s₁ (h'' ++ h') s₁' := by
  -- the moment is now, or before the latest step
  intro h₂ h₁ heq
  cases h₂ with
  | nil =>
    obtain rfl : ev :: h = h₁ := heq
    exact ⟨s₁, [], h'' ++ h', s₁', rfl, hR, .refl, .refl⟩
  | cons ev₂ h₂ =>
    obtain ⟨rfl, htail⟩ := List.cons_eq_cons.mp heq
    obtain ⟨s₂, h₂', h₁', s₂', rfl, hR₂, hl, hl'⟩ := hb h₂ h₁ htail
    exact ⟨s₂, h'' ++ h₂', h₁', s₂', (List.append_assoc ..).symm, hR₂, hl.step hs, hl'.trans hs'⟩

theorem Beside.later (hb : Beside M N R h s h' s') {ev' : Event T Eff' Res' Call' χ' α'}
    (hs' : Step N s' ev' s₁') : Beside M N R h s (ev' :: h') s₁' := by
  intro h₂ h₁ heq
  obtain ⟨s₂, h₂', h₁', s₂', rfl, hR, hl, hl'⟩ := hb h₂ h₁ heq
  exact ⟨s₂, ev' :: h₂', h₁', s₂', rfl, hR, hl, hl'.step hs'⟩

end Beside

/-- What a guest sees of its host, and how the host performs an effect of the guest. -/
structure Hosting (M : Machine Eff Res Call χ σ ℓ α) (N : Machine Eff' Res' Call' χ' σ' ℓ' α') where
  shared : σ → σ'
  own : ℓ → ℓ'
  choice : χ → χ'
  effect : Eff' → Eff
  answer : (e : Eff') → Res (effect e) → Res' e
  handles : ∀ c e s l, N.handle (choice c) e (shared s) (own l) =
    (answer e (M.handle c (effect e) s l).1, shared (M.handle c (effect e) s l).2.1,
      own (M.handle c (effect e) s l).2.2)
  disturbs : ∀ {s s'}, M.disturbs s s' → N.disturbs (shared s) (shared s')
  /-- Which call of the guest a call of the host enters: at its start, or after an answer. -/
  enters : Call → Option ((e : Eff) × Res e) → Call' → Prop
  /-- What a call of the host may return, given what the guest has returned to it. -/
  ends : Call → Option (Call' × α') → α → Prop

/-- How far a call of the host has got with the guest. -/
inductive Visit (Eff' : Type u') (Res' : Eff' → Type w) (Call' : Type y) (α' : Type w) where
  | before
  | inside (call : Call') (p : Prog Eff' Res' α')
  | after (call : Call') (reply : α')

namespace Visit

def running : Visit Eff' Res' Call' α' → Option (Call' × Prog Eff' Res' α')
  | inside call p => some (call, p)
  | _ => none

def returned : Visit Eff' Res' Call' α' → Option (Call' × α')
  | after call reply => some (call, reply)
  | _ => none

/-- The host is outside the guest, and knows what it has returned, if anything. -/
def Outside (visit : Visit Eff' Res' Call' α') : Prop := visit.running = none

end Visit

namespace Hosting

variable (H : Hosting M N)

/-- An effect of the host that the guest does not notice. -/
def Quiet (e : Eff) : Prop := ∀ c s l, H.shared (M.handle c e s l).2.1 = H.shared s ∧
  H.own (M.handle c e s l).2.2 = H.own l

/-- Outside the guest a program keeps to quiet effects; inside it goes along with the guest. -/
inductive Hosts (call : Call) : Prog Eff Res α → Visit Eff' Res' Call' α' → Prop where
  | ret {visit : Visit Eff' Res' Call' α'} (reply : α) (hout : visit.Outside)
      (h : H.ends call visit.returned reply) : Hosts call (.ret reply) visit
  | ahead {e : Eff} {k : Res e → Prog Eff Res α} (next : Res e → Visit Eff' Res' Call' α')
      (hquiet : H.Quiet e) (hnext : ∀ r, next r = .before ∨
        ∃ call', H.enters call (some ⟨e, r⟩) call' ∧ next r = .inside call' (N.code call'))
      (h : ∀ r, Hosts call (k r) (next r)) : Hosts call (.call e k) .before
  | inner {e : Eff'} {k : Res (H.effect e) → Prog Eff Res α} {k' : Res' e → Prog Eff' Res' α'}
      {call' : Call'} (h : ∀ r, Hosts call (k r) (.inside call' (k' (H.answer e r)))) :
      Hosts call (.call (H.effect e) k) (.inside call' (.call e k'))
  | leave {p : Prog Eff Res α} {call' : Call'} {reply : α'}
      (h : Hosts call p (.after call' reply)) : Hosts call p (.inside call' (.ret reply))
  | behind {e : Eff} {k : Res e → Prog Eff Res α} {call' : Call'} {reply : α'}
      (hquiet : H.Quiet e) (h : ∀ r, Hosts call (k r) (.after call' reply)) :
      Hosts call (.call e k) (.after call' reply)

/-- The discipline of the quiet effects. -/
def quietly : Discipline Eff Res Unit where
  allowed _ := H.Quiet
  admits _ _ _ := True
  next _ _ _ := ()

variable {H} {call : Call}

theorem hosts_before {p : Prog Eff Res β} {f : β → Prog Eff Res α}
    (h : H.quietly.wp p (fun _ a => H.Hosts call (f a) .before) ()) :
    H.Hosts call (p >>= f) .before := by
  induction p with
  | ret a => exact h
  | call e k ih =>
    exact .ahead (fun _ => .before) h.1 (fun _ => .inl rfl) fun r => ih r (h.2 r trivial)

theorem hosts_inside (p : Prog Eff' Res' β) {f : β → Prog Eff Res α} {g : β → α'} {call' : Call'}
    (h : ∀ b, H.Hosts call (f b) (.after call' (g b))) :
    H.Hosts call (p.embed H.effect H.answer >>= f)
      (.inside call' (p >>= fun b => pure (g b))) := by
  induction p with
  | ret b => exact .leave (h b)
  | call e k ih => exact .inner fun r => ih (H.answer e r)

section Projection
variable [DecidableEq T] (H)

/-- The call of the host has just entered a call of the guest: at its start, or with the latest
answer. -/
def EntersAt (h : List (Event T Eff Res Call χ α)) (t : T) (call : Call) (call' : Call') : Prop :=
  current t h = some call ∧ ((∃ h₁, h = .start t call :: h₁ ∧ H.enters call none call') ∨
    ∃ c e r h₁, h = .did t c e r :: h₁ ∧ H.enters call (some ⟨e, r⟩) call')

/-- The call of the guest that the thread is in is one that its call of the host has entered. -/
def Serves (h : List (Event T Eff Res Call χ α)) (h' : List (Event T Eff' Res' Call' χ' α'))
    (t : T) : Prop :=
  ∃ call call' answer, current t h = some call ∧ current t h' = some call' ∧
    H.enters call answer call'

section Along
variable (Initial : State T Eff Res Call σ ℓ α → Prop)
  (Initial' : State T Eff' Res' Call' σ' ℓ' α' → Prop)

/-- A run of the guest along a run of the host. -/
inductive Along : List (Event T Eff Res Call χ α) → State T Eff Res Call σ ℓ α →
    List (Event T Eff' Res' Call' χ' α') → State T Eff' Res' Call' σ' ℓ' α' → Prop where
  | init {s : State T Eff Res Call σ ℓ α} {s' : State T Eff' Res' Call' σ' ℓ' α'} (hi : Initial s)
      (hi' : Initial' s') (hshared : s'.shared = H.shared s.shared) : Along [] s [] s'
  | enter {h : List (Event T Eff Res Call χ α)} {s : State T Eff Res Call σ ℓ α}
      {h' : List (Event T Eff' Res' Call' χ' α')} {s' s₁' : State T Eff' Res' Call' σ' ℓ' α'}
      (ha : Along h s h' s') {t : T} {call : Call} {call' : Call'}
      (henters : H.EntersAt h t call call') (hs' : Step N s' (.start t call') s₁') :
      Along h s (.start t call' :: h') s₁'
  | leave {h : List (Event T Eff Res Call χ α)} {s : State T Eff Res Call σ ℓ α}
      {h' : List (Event T Eff' Res' Call' χ' α')} {s' s₁' : State T Eff' Res' Call' σ' ℓ' α'}
      (ha : Along h s h' s') {t : T} {call' : Call'} {reply : α'}
      (hs' : Step N s' (.stop t call' reply) s₁') : Along h s (.stop t call' reply :: h') s₁'
  | outside {h : List (Event T Eff Res Call χ α)} {s s₁ : State T Eff Res Call σ ℓ α}
      {h' : List (Event T Eff' Res' Call' χ' α')} {s' : State T Eff' Res' Call' σ' ℓ' α'}
      (ha : Along h s h' s') {ev : Event T Eff Res Call χ α} (hs : Step M s ev s₁)
      (hev : (∃ t call, ev = .start t call) ∨ ∃ t c e r, ev = .did t c e r ∧ H.Quiet e) :
      Along (ev :: h) s₁ h' s'
  | finish {h : List (Event T Eff Res Call χ α)} {s s₁ : State T Eff Res Call σ ℓ α}
      {h' : List (Event T Eff' Res' Call' χ' α')} {s' : State T Eff' Res' Call' σ' ℓ' α'}
      (ha : Along h s h' s') {t : T} {call : Call} {reply : α} {returned : Option (Call' × α')}
      (hs : Step M s (.stop t call reply) s₁) (hends : H.ends call returned reply)
      (hreturned : ∀ call' reply', returned = some (call', reply') → .stop t call' reply' ∈ h') :
      Along (.stop t call reply :: h) s₁ h' s'
  | inside {h : List (Event T Eff Res Call χ α)} {s s₁ : State T Eff Res Call σ ℓ α}
      {h' : List (Event T Eff' Res' Call' χ' α')} {s' s₁' : State T Eff' Res' Call' σ' ℓ' α'}
      (ha : Along h s h' s') {t : T} {c : χ} {e : Eff'} {r : Res (H.effect e)}
      (hserves : H.Serves h h' t) (hs : Step M s (.did t c (H.effect e) r) s₁)
      (hs' : Step N s' (.did t (H.choice c) e (H.answer e r)) s₁')
      (hshared : s₁'.shared = H.shared s₁.shared) :
      Along (.did t c (H.effect e) r :: h) s₁ (.did t (H.choice c) e (H.answer e r) :: h') s₁'
  | disturb {h : List (Event T Eff Res Call χ α)} {s s₁ : State T Eff Res Call σ ℓ α}
      {h' : List (Event T Eff' Res' Call' χ' α')} {s' s₁' : State T Eff' Res' Call' σ' ℓ' α'}
      (ha : Along h s h' s') (hs : Step M s .disturb s₁) (hs' : Step N s' .disturb s₁')
      (hshared : s₁'.shared = H.shared s₁.shared) : Along (.disturb :: h) s₁ (.disturb :: h') s₁'

end Along

/-- Where a call of the host is, and that the guest is there as well. -/
structure At (h' : List (Event T Eff' Res' Call' χ' α')) (s' : State T Eff' Res' Call' σ' ℓ' α')
    (t : T) (call : Call) (p : Prog Eff Res α) (visit : Visit Eff' Res' Call' α') : Prop where
  hosts : H.Hosts call p visit
  running : s'.running t = visit.running
  entered : ∀ call' p', visit = .inside call' p' →
    current t h' = some call' ∧ ∃ answer, H.enters call answer call'
  returned : ∀ call' reply, visit.returned = some (call', reply) → .stop t call' reply ∈ h'

/-- How a run of the guest shows a run of the host. -/
structure Shows (s : State T Eff Res Call σ ℓ α) (h' : List (Event T Eff' Res' Call' χ' α'))
    (s' : State T Eff' Res' Call' σ' ℓ' α') : Prop where
  shared : s'.shared = H.shared s.shared
  own : ∀ t, s'.locals t = H.own (s.locals t)
  idle : ∀ t, s.running t = none → s'.running t = none
  busy : ∀ t call p, s.running t = some (call, p) → ∃ visit, H.At h' s' t call p visit

variable {H} {Initial : State T Eff Res Call σ ℓ α → Prop}
variable {Initial' : State T Eff' Res' Call' σ' ℓ' α' → Prop}
variable {h h₁ : List (Event T Eff Res Call χ α)} {s s₁ : State T Eff Res Call σ ℓ α}
variable {h' h₁' : List (Event T Eff' Res' Call' χ' α')} {s' s₁' : State T Eff' Res' Call' σ' ℓ' α'}

namespace Along

theorem runs (ha : H.Along Initial Initial' h s h' s') :
    Runs M Initial h s ∧ Runs N Initial' h' s' := by
  induction ha with
  | init hi hi' hshared => exact ⟨.init hi, .init hi'⟩
  | enter ha henters hs' ih | leave ha hs' ih => exact ⟨ih.1, ih.2.step hs'⟩
  | outside ha hs hev ih | finish ha hs hends hreturned ih => exact ⟨ih.1.step hs, ih.2⟩
  | inside ha hserves hs hs' hshared ih | disturb ha hs hs' hshared ih =>
    exact ⟨ih.1.step hs, ih.2.step hs'⟩

theorem shared (ha : H.Along Initial Initial' h s h' s') : s'.shared = H.shared s.shared := by
  induction ha with
  | init hi hi' hshared => exact hshared
  | enter ha henters hs' ih => exact hs'.start_shared ▸ ih
  | leave ha hs' ih => exact hs'.stop_shared ▸ ih
  | inside ha hserves hs hs' hshared ih | disturb ha hs hs' hshared ih => exact hshared
  | finish ha hs hends hreturned ih => rw [hs.stop_shared, ih]
  | @outside h s s₁ h' s' ha ev hs hev ih =>
    rcases hev with ⟨t, call, rfl⟩ | ⟨t, c, e, r, rfl, hquiet⟩
    · rw [hs.start_shared, ih]
    · have hh := congrArg (fun a => a.2.1) hs.did_handle
      rw [ih, ← (hquiet c s.shared (s.locals t)).1]
      exact congrArg H.shared hh

theorem moment (ha : H.Along Initial Initial' h s h' s') :
    Beside M N (H.Along Initial Initial') h s h' s' := by
  induction ha with
  | init hi hi' hshared => exact .nil (.init hi hi' hshared)
  | enter ha henters hs' ih | leave ha hs' ih => exact ih.later hs'
  | outside ha hs hev ih => exact ih.step hs .refl (.outside ha hs hev)
  | finish ha hs hends hreturned ih => exact ih.step hs .refl (.finish ha hs hends hreturned)
  | inside ha hserves hs hs' hshared ih =>
    exact ih.step hs (.step .refl hs') (.inside ha hserves hs hs' hshared)
  | disturb ha hs hs' hshared ih =>
    exact ih.step hs (.step .refl hs') (.disturb ha hs hs' hshared)

theorem did (ha : H.Along Initial Initial' h s h' s') {t : T} {c' : χ'} {e : Eff'} {r' : Res' e} :
    ∀ h₂' h₁', h' = h₂' ++ .did t c' e r' :: h₁' → ∃ h₂ c r h₁ s₁ s₁',
      h = h₂ ++ .did t c (H.effect e) r :: h₁ ∧ H.choice c = c' ∧ H.answer e r = r' ∧
        H.Serves h₁ h₁' t ∧ H.Along Initial Initial' h₁ s₁ h₁' s₁' := by
  induction ha with
  | init hi hi' hshared =>
    intro h₂' h₁' heq
    cases h₂' <;> cases heq
  | enter ha henters hs' ih | leave ha hs' ih =>
    intro h₂' h₁' heq
    cases h₂' with
    | nil => cases heq
    | cons ev h₂' => exact ih h₂' h₁' (List.cons_eq_cons.mp heq).2
  | outside ha hs hev ih | finish ha hs hends hreturned ih =>
    intro h₂' h₁' heq
    obtain ⟨h₂, c, r, h₁, s₁, s₁', rfl, hrest⟩ := ih h₂' h₁' heq
    exact ⟨_ :: h₂, c, r, h₁, s₁, s₁', rfl, hrest⟩
  | @inside h s s₁ h' s' s₁' ha t' c e' r hserves hs hs' hshared ih =>
    intro h₂' h₁' heq
    cases h₂' with
    | nil =>
      cases heq
      exact ⟨[], c, r, h, s, s', rfl, rfl, rfl, hserves, ha⟩
    | cons ev h₂' =>
      obtain ⟨h₂, c, r, h₁, s₁, s₁', rfl, hrest⟩ := ih h₂' h₁' (List.cons_eq_cons.mp heq).2
      exact ⟨_ :: h₂, c, r, h₁, s₁, s₁', rfl, hrest⟩
  | @disturb h s s₁ h' s' s₁' ha hs hs' hshared ih =>
    intro h₂' h₁' heq
    cases h₂' with
    | nil => cases heq
    | cons ev h₂' =>
      obtain ⟨h₂, c, r, h₁, s₁, s₁', rfl, hrest⟩ := ih h₂' h₁' (List.cons_eq_cons.mp heq).2
      exact ⟨.disturb :: h₂, c, r, h₁, s₁, s₁', rfl, hrest⟩

theorem starts (ha : H.Along Initial Initial' h s h' s') {t : T} {call' : Call'}
    (hstart : .start t call' ∈ h') : ∃ h₂ h₁ call, h = h₂ ++ h₁ ∧ H.EntersAt h₁ t call call' := by
  have later : ∀ {h : List (Event T Eff Res Call χ α)} (ev),
      (∃ h₂ h₁ call, h = h₂ ++ h₁ ∧ H.EntersAt h₁ t call call') →
      ∃ h₂ h₁ call, ev :: h = h₂ ++ h₁ ∧ H.EntersAt h₁ t call call' := by
    rintro _ ev ⟨h₂, h₁, call, rfl, henters⟩
    exact ⟨ev :: h₂, h₁, call, rfl, henters⟩
  induction ha with
  | init hi hi' hshared => cases hstart
  | @enter h s h' s' s₁' ha t' call call'' henters hs' ih =>
    rcases List.mem_cons.mp hstart with heq | hstart
    · cases heq
      exact ⟨[], h, call, rfl, henters⟩
    · exact ih hstart
  | leave ha hs' ih =>
    rcases List.mem_cons.mp hstart with heq | hstart
    · cases heq
    · exact ih hstart
  | outside ha hs hev ih | finish ha hs hends hreturned ih => exact later _ (ih hstart)
  | inside ha hserves hs hs' hshared ih | disturb ha hs hs' hshared ih =>
    rcases List.mem_cons.mp hstart with heq | hstart
    · cases heq
    · exact later _ (ih hstart)

theorem stops (ha : H.Along Initial Initial' h s h' s') {t : T} {call : Call} {reply : α}
    (hstop : .stop t call reply ∈ h) : ∃ returned, H.ends call returned reply ∧
      ∀ call' reply', returned = some (call', reply') → .stop t call' reply' ∈ h' := by
  have later : ∀ {h' : List (Event T Eff' Res' Call' χ' α')} (ev),
      (∃ returned, H.ends call returned reply ∧
        ∀ call' reply', returned = some (call', reply') → .stop t call' reply' ∈ h') →
      ∃ returned, H.ends call returned reply ∧
        ∀ call' reply', returned = some (call', reply') → .stop t call' reply' ∈ ev :: h' := by
    rintro h' ev ⟨returned, hends, hreturned⟩
    exact ⟨returned, hends, fun call' reply' heq => List.mem_cons_of_mem _ (hreturned _ _ heq)⟩
  induction ha with
  | init hi hi' hshared => cases hstop
  | enter ha henters hs' ih | leave ha hs' ih => exact later _ (ih hstop)
  | outside ha hs hev ih =>
    rcases List.mem_cons.mp hstop with rfl | hstop
    · rcases hev with ⟨t, call, heq⟩ | ⟨t, c, e, r, heq, -⟩ <;> cases heq
    · exact ih hstop
  | finish ha hs hends hreturned ih =>
    rcases List.mem_cons.mp hstop with heq | hstop
    · cases heq
      exact ⟨_, hends, hreturned⟩
    · exact ih hstop
  | inside ha hserves hs hs' hshared ih | disturb ha hs hs' hshared ih =>
    rcases List.mem_cons.mp hstop with heq | hstop
    · cases heq
    · exact later _ (ih hstop)

end Along

theorem Shows.update (hshows : H.Shows s h' s') (t : T)
    (hshared : s₁'.shared = H.shared s₁.shared) (hown : ∀ t, s₁'.locals t = H.own (s₁.locals t))
    (hothers : ∀ t', t' ≠ t → s₁.running t' = s.running t' ∧ s₁'.running t' = s'.running t' ∧
      current t' h₁' = current t' h')
    (hmem : ∀ ev ∈ h', ev ∈ h₁') (hidle : s₁.running t = none → s₁'.running t = none)
    (hbusy : ∀ call p, s₁.running t = some (call, p) → ∃ visit, H.At h₁' s₁' t call p visit) :
    H.Shows s₁ h₁' s₁' where
  shared := hshared
  own := hown
  idle t' hnone := by
    by_cases ht : t' = t
    · subst ht
      exact hidle hnone
    · rw [(hothers t' ht).1] at hnone
      rw [(hothers t' ht).2.1]
      exact hshows.idle t' hnone
  busy t' call p hrun := by
    by_cases ht : t' = t
    · subst ht
      exact hbusy call p hrun
    · rw [(hothers t' ht).1] at hrun
      obtain ⟨visit, hat⟩ := hshows.busy t' call p hrun
      refine ⟨visit, hat.hosts, (hothers t' ht).2.1.trans hat.running, ?_, ?_⟩
      · rw [(hothers t' ht).2.2]
        exact hat.entered
      · exact fun call' reply hr => hmem _ (hat.returned call' reply hr)

theorem Shows.left (hshows : H.Shows s h' s') (ha : H.Along Initial Initial' h s h' s') {t : T}
    {call : Call} {p : Prog Eff Res α} (hrun : s.running t = some (call, p)) :
    ∃ h₁' s₁' visit, H.Along Initial Initial' h s h₁' s₁' ∧ H.Shows s h₁' s₁' ∧
      H.At h₁' s₁' t call p visit ∧ ∀ call' reply, visit ≠ .inside call' (.ret reply) := by
  obtain ⟨visit, hat⟩ := hshows.busy t call p hrun
  by_cases hret : ∃ call' reply, visit = .inside call' (.ret reply)
  · obtain ⟨call', reply, rfl⟩ := hret
    have hafter : H.Hosts call p (.after call' reply) := by
      cases hat.hosts with
      | ret reply hout hends => cases hout
      | leave hafter => exact hafter
    have hstep := Step.stop (M := N) t hat.running
    have hat' : H.At (.stop t call' reply :: h')
        { s' with running := Function.update s'.running t none } t call p (.after call' reply) := by
      refine ⟨hafter, Function.update_self t _ _, fun _ _ heq => (by cases heq), ?_⟩
      rintro _ _ ⟨⟩
      exact List.mem_cons_self
    refine ⟨_, _, .after call' reply, ha.leave hstep, ?_, hat', fun _ _ heq => by cases heq⟩
    refine hshows.update t hshows.shared hshows.own ?_ (fun _ => List.mem_cons_of_mem _) ?_ ?_
    · exact fun t' ht => ⟨rfl, Function.update_of_ne ht _ _, if_neg (Ne.symm ht)⟩
    · exact fun _ => Function.update_self t _ _
    · intro call₁ p₁ hrun₁
      cases hrun.symm.trans hrun₁
      exact ⟨_, hat'⟩
  · exact ⟨h', s', visit, ha, hshows, hat, fun call' reply heq => hret ⟨call', reply, heq⟩⟩

theorem Along.entered (ha : H.Along Initial Initial' h s h' s') {t : T} {call : Call}
    {call' : Call'} (henters : H.EntersAt h t call call') (hidle : s'.running t = none)
    {p : Prog Eff Res α} (hhosts : H.Hosts call p (.inside call' (N.code call'))) :
    ∃ s₁', H.Along Initial Initial' h s (.start t call' :: h') s₁' ∧ s₁'.shared = s'.shared ∧
      s₁'.locals = s'.locals ∧ (∀ t', t' ≠ t → s₁'.running t' = s'.running t') ∧
      H.At (.start t call' :: h') s₁' t call p (.inside call' (N.code call')) := by
  refine ⟨_, ha.enter henters (.start t call' hidle), rfl, rfl,
    fun t' ht => Function.update_of_ne ht _ _, hhosts, Function.update_self t _ _, ?_,
    fun _ _ heq => by cases heq⟩
  rintro _ _ ⟨⟩
  refine ⟨if_pos rfl, ?_⟩
  rcases henters.2 with ⟨h₁, -, henters⟩ | ⟨c, e, r, h₁, -, henters⟩
  · exact ⟨none, henters⟩
  · exact ⟨some ⟨e, r⟩, henters⟩

theorem Shows.started (hshows : H.Shows s h' s') (ha : H.Along Initial Initial' h s h' s') {t : T}
    {call : Call} (code : H.Hosts call (M.code call) .before ∨ ∃ call', H.enters call none call' ∧
      H.Hosts call (M.code call) (.inside call' (N.code call')))
    (hs : Step M s (.start t call) s₁) :
    ∃ h₁' s₁', H.Along Initial Initial' (.start t call :: h) s₁ h₁' s₁' ∧
      H.Shows s₁ h₁' s₁' := by
  have ha₁ : H.Along Initial Initial' (.start t call :: h) s₁ h' s' :=
    ha.outside hs (.inl ⟨t, call, rfl⟩)
  cases hs with
  | start _ _ hidle =>
    rcases code with hbefore | ⟨call', henters, hinside⟩
    · refine ⟨h', s', ha₁, ?_⟩
      refine hshows.update t hshows.shared hshows.own ?_ (fun _ => id) ?_ ?_
      · exact fun t' ht => ⟨Function.update_of_ne ht _ _, rfl, rfl⟩
      · exact fun _ => hshows.idle t hidle
      · intro call₁ p₁ hrun₁
        cases (Function.update_self t _ _).symm.trans hrun₁
        exact ⟨.before, hbefore, hshows.idle t hidle, fun _ _ heq => (by cases heq),
          fun _ _ heq => by cases heq⟩
    · obtain ⟨s₁', ha₂, hshared, hlocals, hothers, hat⟩ :=
        ha₁.entered ⟨if_pos rfl, .inl ⟨h, rfl, henters⟩⟩ (hshows.idle t hidle) hinside
      refine ⟨_, s₁', ha₂, ?_⟩
      refine hshows.update t (hshared.trans hshows.shared) ?_ ?_
        (fun _ => List.mem_cons_of_mem _) ?_ ?_
      · exact fun t => (congrFun hlocals t).trans (hshows.own t)
      · exact fun t' ht => ⟨Function.update_of_ne ht _ _, hothers t' ht, if_neg (Ne.symm ht)⟩
      · intro hnone
        cases (Function.update_self t _ _).symm.trans hnone
      · intro call₁ p₁ hrun₁
        cases (Function.update_self t _ _).symm.trans hrun₁
        exact ⟨_, hat⟩

theorem Shows.quiet (hshows : H.Shows s h' s') (ha : H.Along Initial Initial' h s h' s')
    (idle : ∀ s, Initial s → ∀ t : T, s.running t = none) {t : T} {c : χ} {call : Call} {e : Eff}
    {k : Res e → Prog Eff Res α} (hrun : s.running t = some (call, .call e k)) (hquiet : H.Quiet e)
    {visit visit' : Visit Eff' Res' Call' α'} (hat : H.At h' s' t call (.call e k) visit)
    (hhosts : H.Hosts call (k (M.handle c e s.shared (s.locals t)).1) visit')
    (hnext : visit' = visit ∨ visit = .before ∧ ∃ call',
      H.enters call (some ⟨e, (M.handle c e s.shared (s.locals t)).1⟩) call' ∧
      visit' = .inside call' (N.code call')) {s₁ : State T Eff Res Call σ ℓ α}
    (hs : s₁ = { shared := (M.handle c e s.shared (s.locals t)).2.1
                 locals := Function.update s.locals t (M.handle c e s.shared (s.locals t)).2.2
                 running := Function.update s.running t
                   (some (call, k (M.handle c e s.shared (s.locals t)).1)) }) :
    ∃ h₁' s₁', H.Along Initial Initial' (.did t c e (M.handle c e s.shared (s.locals t)).1 :: h) s₁
        h₁' s₁' ∧
      H.Shows s₁ h₁' s₁' := by
  have hcurrent : current t h = some call := by
    rw [ha.runs.1.current idle, hrun]
    rfl
  have ha₁ : H.Along Initial Initial'
      (.did t c e (M.handle c e s.shared (s.locals t)).1 :: h) s₁ h' s' := by
    rw [hs]
    exact ha.outside (.did t c hrun) (.inr ⟨t, c, e, _, rfl, hquiet⟩)
  subst hs
  obtain ⟨hshared, hown⟩ := hquiet c s.shared (s.locals t)
  have hown' : ∀ t', s'.locals t' =
      H.own (Function.update s.locals t (M.handle c e s.shared (s.locals t)).2.2 t') := by
    intro t'
    by_cases ht : t' = t
    · subst ht
      rw [Function.update_self, hown]
      exact hshows.own t'
    · rw [Function.update_of_ne ht]
      exact hshows.own t'
  rcases hnext with rfl | ⟨rfl, call', henters, rfl⟩
  · refine ⟨h', s', ha₁, ?_⟩
    refine hshows.update t (hshows.shared.trans hshared.symm) hown' ?_ (fun _ => id) ?_ ?_
    · exact fun t' ht => ⟨Function.update_of_ne ht _ _, rfl, rfl⟩
    · intro hnone
      cases (Function.update_self t _ _).symm.trans hnone
    · intro call₁ p₁ hrun₁
      cases (Function.update_self t _ _).symm.trans hrun₁
      exact ⟨visit', hhosts, hat.running, hat.entered, hat.returned⟩
  · obtain ⟨s₁', ha₂, hshared', hlocals, hothers, hat'⟩ :=
      ha₁.entered ⟨hcurrent, .inr ⟨c, e, _, h, rfl, henters⟩⟩ hat.running hhosts
    refine ⟨_, s₁', ha₂, ?_⟩
    refine hshows.update t (hshared'.trans (hshows.shared.trans hshared.symm)) ?_ ?_
      (fun _ => List.mem_cons_of_mem _) ?_ ?_
    · exact fun t => (congrFun hlocals t).trans (hown' t)
    · exact fun t' ht => ⟨Function.update_of_ne ht _ _, hothers t' ht, if_neg (Ne.symm ht)⟩
    · intro hnone
      cases (Function.update_self t _ _).symm.trans hnone
    · intro call₁ p₁ hrun₁
      cases (Function.update_self t _ _).symm.trans hrun₁
      exact ⟨_, hat'⟩

theorem Shows.inner (hshows : H.Shows s h' s') (ha : H.Along Initial Initial' h s h' s')
    (idle : ∀ s, Initial s → ∀ t : T, s.running t = none) {t : T} {c : χ}
    {call : Call} {call' : Call'} {e : Eff'} {k : Res (H.effect e) → Prog Eff Res α}
    {k' : Res' e → Prog Eff' Res' α'} (hrun : s.running t = some (call, .call (H.effect e) k))
    (hat : H.At h' s' t call (.call (H.effect e) k) (.inside call' (.call e k')))
    (hhosts : ∀ r, H.Hosts call (k r) (.inside call' (k' (H.answer e r))))
    {s₁ : State T Eff Res Call σ ℓ α}
    (hs : s₁ = { shared := (M.handle c (H.effect e) s.shared (s.locals t)).2.1
                 locals := Function.update s.locals t
                   (M.handle c (H.effect e) s.shared (s.locals t)).2.2
                 running := Function.update s.running t
                   (some (call, k (M.handle c (H.effect e) s.shared (s.locals t)).1)) }) :
    ∃ h₁' s₁', H.Along Initial Initial'
        (.did t c (H.effect e) (M.handle c (H.effect e) s.shared (s.locals t)).1 :: h) s₁ h₁' s₁' ∧
      H.Shows s₁ h₁' s₁' := by
  subst hs
  have hcurrent : current t h = some call := by
    rw [ha.runs.1.current idle, hrun]
    rfl
  obtain ⟨hcurrent', answer, henters⟩ := hat.entered call' _ rfl
  have hstep := Step.did (M := N) t (H.choice c) hat.running
  have hhandles := H.handles c e s.shared (s.locals t)
  rw [← hshows.shared, ← hshows.own] at hhandles
  rw [hhandles] at hstep
  refine ⟨_, _, ha.inside ⟨call, call', answer, hcurrent, hcurrent', henters⟩ (.did t c hrun) hstep
    rfl, ?_⟩
  refine hshows.update t rfl ?_ ?_ (fun _ => List.mem_cons_of_mem _) ?_ ?_
  · intro t'
    by_cases ht : t' = t
    · subst ht
      simp only [Function.update_self]
    · simp only [Function.update_of_ne ht]
      exact hshows.own t'
  · exact fun t' ht => ⟨Function.update_of_ne ht _ _, Function.update_of_ne ht _ _, rfl⟩
  · intro hnone
    cases (Function.update_self t _ _).symm.trans hnone
  · intro call₁ p₁ hrun₁
    cases (Function.update_self t _ _).symm.trans hrun₁
    refine ⟨_, hhosts _, Function.update_self t _ _, ?_, fun _ _ heq => by cases heq⟩
    rintro _ _ ⟨⟩
    exact ⟨hcurrent', answer, henters⟩

theorem Shows.stopped (hshows : H.Shows s h' s') (ha : H.Along Initial Initial' h s h' s') {t : T}
    {call : Call} {reply : α} (hs : Step M s (.stop t call reply) s₁) :
    ∃ h₁' s₁', H.Along Initial Initial' (.stop t call reply :: h) s₁ h₁' s₁' ∧
      H.Shows s₁ h₁' s₁' := by
  have hstep := hs
  cases hs with
  | stop _ hrun =>
    obtain ⟨h₁', s₁', visit, ha₁, hshows₁, hat, hleft⟩ := hshows.left ha hrun
    obtain ⟨hout, hends⟩ : visit.Outside ∧ H.ends call visit.returned reply := by
      cases hat.hosts with
      | ret reply hout hends => exact ⟨hout, hends⟩
      | leave => exact absurd rfl (hleft _ _)
    refine ⟨h₁', s₁', ha₁.finish hstep hends hat.returned, ?_⟩
    refine hshows₁.update t hshows₁.shared hshows₁.own ?_ (fun _ => id) ?_ ?_
    · exact fun t' ht => ⟨Function.update_of_ne ht _ _, rfl, rfl⟩
    · exact fun _ => hat.running.trans hout
    · intro call₁ p₁ hrun₁
      cases (Function.update_self t _ _).symm.trans hrun₁

theorem Shows.disturbed (hshows : H.Shows s h' s') (ha : H.Along Initial Initial' h s h' s')
    (hs : Step M s .disturb s₁) :
    ∃ h₁' s₁', H.Along Initial Initial' (.disturb :: h) s₁ h₁' s₁' ∧
      H.Shows s₁ h₁' s₁' := by
  have hstep := hs
  cases hs with
  | disturb shared hd =>
    have hd' : N.disturbs s'.shared (H.shared shared) := by
      rw [hshows.shared]
      exact H.disturbs hd
    refine ⟨_, _, ha.disturb hstep (.disturb (H.shared shared) hd') rfl, rfl, hshows.own,
      hshows.idle, ?_⟩
    intro t call p hrun
    obtain ⟨visit, hat⟩ := hshows.busy t call p hrun
    exact ⟨visit, hat.hosts, hat.running, hat.entered,
      fun call' reply hr => List.mem_cons_of_mem _ (hat.returned call' reply hr)⟩

/-- Every run of a host has a run of its guest along it. -/
theorem shows (code : ∀ call, H.Hosts call (M.code call) .before ∨ ∃ call',
      H.enters call none call' ∧ H.Hosts call (M.code call) (.inside call' (N.code call')))
    (idle : ∀ s, Initial s → ∀ t : T, s.running t = none)
    (init : ∀ s, Initial s →
      Initial' ⟨H.shared s.shared, fun t => H.own (s.locals t), fun _ => none⟩)
    (hr : Runs M Initial h s) :
    ∃ h' s', H.Along Initial Initial' h s h' s' ∧ H.Shows s h' s' := by
  induction hr with
  | @init s hi =>
    refine ⟨[], _, .init hi (init s hi) rfl, rfl, fun _ => rfl, fun _ _ => rfl, ?_⟩
    intro t call p hrun
    rw [idle s hi t] at hrun
    cases hrun
  | @step h s s₁ ev hr hs ih =>
    obtain ⟨h', s', ha, hshows⟩ := ih
    cases ev with
    | start t call => exact hshows.started ha (code call) hs
    | stop t call reply => exact hshows.stopped ha hs
    | disturb => exact hshows.disturbed ha hs
    | did t c e r =>
      cases hs with
      | did _ _ hrun =>
        obtain ⟨h₁', s₁', visit, ha₁, hshows₁, hat, hleft⟩ := hshows.left ha hrun
        cases hat.hosts with
        | ahead next hquiet hnext hhosts =>
          refine hshows₁.quiet ha₁ idle hrun hquiet hat (hhosts _) ?_ rfl
          rcases hnext _ with heq | hentered
          · exact .inl heq
          · exact .inr ⟨rfl, hentered⟩
        | inner hhosts => exact hshows₁.inner ha₁ idle hrun hat hhosts rfl
        | leave => exact absurd rfl (hleft _ _)
        | behind hquiet hhosts =>
          exact hshows₁.quiet ha₁ idle hrun hquiet hat (hhosts _) (.inl rfl) rfl

end Projection

end Hosting

end Orchestrator.Interleaving
