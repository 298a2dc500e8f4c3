import Mathlib.Data.List.Forall2
import Orchestrator.Library.Hosting
import Orchestrator.Library.Moments

/-!
# Machines whose effects are programs of finer effects

A fine machine runs the programs of a coarse one with every effect expanded into a program of
effects of its own. The coarse state does not notice these effects, except for the last one,
which has the result of the coarse effect. So every run of the fine machine goes along with a
run of the coarse machine; `Joint` has the two of them step by step.
-/

namespace Orchestrator.Interaction

set_option autoImplicit false

universe u v w

variable {Eff : Type u} {Eff' : Type v} {Res : Eff → Type w} {Res' : Eff' → Type w} {α : Type w}

def Prog.expand (impl : (e : Eff') → Prog Eff Res (Res' e)) : Prog Eff' Res' α → Prog Eff Res α
  | ret a => ret a
  | call e k => impl e >>= fun r => (k r).expand impl

/-- A program that keeps to a discipline keeps to one of the finer effects, if the phases agree
before and after each effect. -/
theorem Discipline.wp_expand {Phase : Type*} {Phase' : Type*} {D : Discipline Eff Res Phase}
    {D' : Discipline Eff' Res' Phase'} {R : Phase' → Phase → Prop}
    {impl : (e : Eff') → Prog Eff Res (Res' e)}
    (h : ∀ {ph' ph e}, R ph' ph → D'.allowed ph' e →
      D.wp (impl e) (fun ph r => D'.admits ph' e r ∧ R (D'.next ph' e r) ph) ph)
    {p : Prog Eff' Res' α} {Q : Phase' → α → Prop} {ph' : Phase'} {ph : Phase}
    (hp : D'.wp p Q ph') (hR : R ph' ph) :
    D.wp (p.expand impl) (fun ph a => ∃ ph', R ph' ph ∧ Q ph' a) ph := by
  induction p generalizing ph' ph with
  | ret a => exact ⟨ph', hR, hp⟩
  | call e k ih =>
    refine (D.wp_bind ..).mpr (D.wp_mono (h hR hp.1) ?_)
    intro ph₁ r hr
    exact ih r (hp.2 r hr.1) hr.2

theorem Prog.embed_eq_expand {effect : Eff' → Eff} {answer : (e : Eff') → Res (effect e) → Res' e}
    (p : Prog Eff' Res' α) : p.embed effect answer =
      p.expand fun e => call (effect e) fun r => ret (answer e r) := by
  induction p with
  | ret a => rfl
  | call e k ih => exact congrArg (call (effect e)) (funext fun r => ih (answer e r))

/-- What is left of a program after answers to its first effects. -/
inductive Prog.Path (p : Prog Eff Res α) : List ((e : Eff) × Res e) → Prog Eff Res α → Prop where
  | nil : Path p [] p
  | snoc {answers : List ((e : Eff) × Res e)} {e : Eff} {k : Res e → Prog Eff Res α}
      (h : Path p answers (.call e k)) (r : Res e) : Path p (answers ++ [⟨e, r⟩]) (k r)

theorem Prog.Path.perform {e : Eff} {answers : List ((e : Eff) × Res e)}
    {q : Prog Eff Res (Res e)} (h : (Prog.perform e).Path answers q) :
    (answers = [] ∧ q = .perform e) ∨ ∃ r, answers = [⟨e, r⟩] ∧ q = .ret r := by
  induction h with
  | nil => exact .inl ⟨rfl, rfl⟩
  | snoc h r ih =>
    rcases ih with ⟨rfl, hq⟩ | ⟨r', -, hq⟩
    · cases hq
      exact .inr ⟨r, rfl, rfl⟩
    · cases hq

theorem Prog.Path.of_embed {effect : Eff' → Eff} {answer : (e : Eff') → Res (effect e) → Res' e}
    {p : Prog Eff' Res' α} {answers : List ((e : Eff) × Res e)} {q : Prog Eff Res α}
    (h : (p.embed effect answer).Path answers q) :
    ∃ answers' q', p.Path answers' q' ∧ q = q'.embed effect answer ∧
      List.Forall₂ (fun a a' => ∃ r, a = ⟨effect a'.1, r⟩ ∧ answer a'.1 r = a'.2)
        answers answers' := by
  induction h with
  | nil => exact ⟨[], p, .nil, rfl, .nil⟩
  | snoc h r ih =>
    obtain ⟨answers', q', hpath, hq, hanswers⟩ := ih
    cases q' with
    | ret a => cases hq
    | call e' k' =>
      cases hq
      refine ⟨_, _, hpath.snoc (answer e' r), rfl, List.rel_append hanswers ?_⟩
      exact .cons ⟨r, rfl, rfl⟩ .nil

theorem Prog.Path.embedded {effect : Eff' → Eff} {answer : (e : Eff') → Res (effect e) → Res' e}
    {p : Prog Eff' Res' α} {answers : List ((e : Eff) × Res e)} {q : Prog Eff Res α}
    (h : (p.embed effect answer).Path answers q) : ∀ a ∈ answers, ∃ e', a.1 = effect e' := by
  obtain ⟨answers', -, -, -, hanswers⟩ := h.of_embed
  clear h
  induction hanswers with
  | nil => exact fun _ ha => absurd ha List.not_mem_nil
  | cons hhead _ ih =>
    intro a ha
    rcases List.mem_cons.mp ha with rfl | ha
    · obtain ⟨r, rfl, -⟩ := hhead
      exact ⟨_, rfl⟩
    · exact ih a ha

end Orchestrator.Interaction

namespace Orchestrator.Interleaving

open Interaction
set_option autoImplicit false

universe u u' v w x

variable {T : Type v} {Eff : Type u} {Res : Eff → Type w} {Call χ σ ℓ : Type x} {α : Type w}
variable {Eff' : Type u'} {Res' : Eff' → Type w} {χ' σ' ℓ' : Type x}

theorem Step.did_cases [DecidableEq T] {M : Machine Eff Res Call χ σ ℓ α}
    {s s₁ : State T Eff Res Call σ ℓ α} {t : T} {c : χ} {e : Eff} {r : Res e}
    (hs : Step M s (.did t c e r) s₁) : ∃ call k, s.running t = some (call, .call e k) ∧
      s₁.running = Function.update s.running t (some (call, k r)) ∧
      ∀ t', t' ≠ t → s₁.locals t' = s.locals t' := by
  cases hs with
  | did _ _ hrun => exact ⟨_, _, hrun, rfl, fun t' ht => Function.update_of_ne ht _ _⟩

theorem Step.of_handle [DecidableEq T] {M : Machine Eff Res Call χ σ ℓ α}
    {s : State T Eff Res Call σ ℓ α} {t : T} {call : Call} {c : χ} {e : Eff} {r : Res e}
    {k : Res e → Prog Eff Res α} {shared : σ} {own : ℓ}
    (hrun : s.running t = some (call, .call e k))
    (hhandle : M.handle c e s.shared (s.locals t) = (r, shared, own)) :
    Step M s (.did t c e r) ⟨shared, Function.update s.locals t own,
      Function.update s.running t (some (call, k r))⟩ := by
  have hstep := Step.did (M := M) t c hrun
  rwa [hhandle] at hstep

/-- How a fine machine runs the calls of a coarse one, and what the coarse one sees of it. -/
structure Expansion (M : Machine Eff Res Call χ σ ℓ α) (N : Machine Eff' Res' Call χ' σ' ℓ' α) where
  shared : σ → σ'
  own : ℓ → ℓ'
  impl : (e : Eff') → Prog Eff Res (Res' e)
  code : ∀ call, M.code call = (N.code call).expand impl
  disturbs : ∀ {s s'}, M.disturbs s s' → N.disturbs (shared s) (shared s')

namespace Expansion

variable {M : Machine Eff Res Call χ σ ℓ α} {N : Machine Eff' Res' Call χ' σ' ℓ' α}
variable (E : Expansion M N)

/-- A program of fine effects implements a coarse effect: each of its effects goes unnoticed,
but for the last, which has the result and leaves what the coarse effect leaves. -/
def Implements (e' : Eff') : Prog Eff Res (Res' e') → Prop
  | .ret _ => False
  | .call e k => ∀ c s l,
    (∃ c' r', k (M.handle c e s l).1 = .ret r' ∧ N.handle c' e' (E.shared s) (E.own l) =
      (r', E.shared (M.handle c e s l).2.1, E.own (M.handle c e s l).2.2)) ∨
    E.shared (M.handle c e s l).2.1 = E.shared s ∧ E.own (M.handle c e s l).2.2 = E.own l ∧
      Implements e' (k (M.handle c e s l).1)

section Answers
variable [DecidableEq T]

def received (t : T) : List (Event T Eff Res Call χ α) → List ((e : Eff) × Res e)
  | [] => []
  | .start t' _ :: h => if t' = t then [] else received t h
  | .did t' _ e r :: h => if t' = t then received t h ++ [⟨e, r⟩] else received t h
  | _ :: h => received t h

/-- The latest answers that a thread has received in its call. -/
def Recorded (h : List (Event T Eff Res Call χ α)) (t : T)
    (answers : List ((e : Eff) × Res e)) : Prop :=
  answers <:+ received t h

/-- Where a thread of the fine machine is in the program of the coarse one. -/
inductive Follows (h : List (Event T Eff Res Call χ α)) (t : T) :
    Prog Eff Res α → Prog Eff' Res' α → Prop where
  | ret (reply : α) : Follows h t (.ret reply) (.ret reply)
  | inside {e' : Eff'} {p : Prog Eff Res (Res' e')} {answers : List ((e : Eff) × Res e)}
      (k : Res' e' → Prog Eff' Res' α) (himpl : E.Implements e' p)
      (hpath : (E.impl e').Path answers p) (hanswers : Recorded h t answers) :
      Follows h t (p >>= fun r => (k r).expand E.impl) (.call e' k)

end Answers

section Joint
variable [DecidableEq T] (Initial : State T Eff Res Call σ ℓ α → Prop)
  (Initial' : State T Eff' Res' Call σ' ℓ' α → Prop)

/-- A run of the fine machine beside a run of the coarse one, which has the same state at each
moment. -/
inductive Joint : List (Event T Eff Res Call χ α) → State T Eff Res Call σ ℓ α →
    List (Event T Eff' Res' Call χ' α) → State T Eff' Res' Call σ' ℓ' α → Prop where
  | init {s : State T Eff Res Call σ ℓ α} {s' : State T Eff' Res' Call σ' ℓ' α} (hi : Initial s)
      (hi' : Initial' s') (hshared : s'.shared = E.shared s.shared) : Joint [] s [] s'
  | start {h : List (Event T Eff Res Call χ α)} {s s₁ : State T Eff Res Call σ ℓ α}
      {h' : List (Event T Eff' Res' Call χ' α)} {s' s₁' : State T Eff' Res' Call σ' ℓ' α}
      (hj : Joint h s h' s') {t : T} {call : Call} (hs : Step M s (.start t call) s₁)
      (hs' : Step N s' (.start t call) s₁') :
      Joint (.start t call :: h) s₁ (.start t call :: h') s₁'
  | stop {h : List (Event T Eff Res Call χ α)} {s s₁ : State T Eff Res Call σ ℓ α}
      {h' : List (Event T Eff' Res' Call χ' α)} {s' s₁' : State T Eff' Res' Call σ' ℓ' α}
      (hj : Joint h s h' s') {t : T} {call : Call} {reply : α}
      (hs : Step M s (.stop t call reply) s₁) (hs' : Step N s' (.stop t call reply) s₁') :
      Joint (.stop t call reply :: h) s₁ (.stop t call reply :: h') s₁'
  | disturb {h : List (Event T Eff Res Call χ α)} {s s₁ : State T Eff Res Call σ ℓ α}
      {h' : List (Event T Eff' Res' Call χ' α)} {s' s₁' : State T Eff' Res' Call σ' ℓ' α}
      (hj : Joint h s h' s') (hs : Step M s .disturb s₁) (hs' : Step N s' .disturb s₁')
      (hshared : s₁'.shared = E.shared s₁.shared) :
      Joint (.disturb :: h) s₁ (.disturb :: h') s₁'
  | quiet {h : List (Event T Eff Res Call χ α)} {s s₁ : State T Eff Res Call σ ℓ α}
      {h' : List (Event T Eff' Res' Call χ' α)} {s' : State T Eff' Res' Call σ' ℓ' α}
      (hj : Joint h s h' s') {t : T} {c : χ} {e : Eff} {r : Res e} {call : Call} {e' : Eff'}
      {k : Res' e' → Prog Eff' Res' α} {answers : List ((e : Eff) × Res e)}
      {p : Prog Eff Res (Res' e')} (hs : Step M s (.did t c e r) s₁)
      (hrun : s'.running t = some (call, .call e' k))
      (hpath : (E.impl e').Path (answers ++ [⟨e, r⟩]) p) (himpl : E.Implements e' p)
      (hshared : s'.shared = E.shared s₁.shared) : Joint (.did t c e r :: h) s₁ h' s'
  | commit {h : List (Event T Eff Res Call χ α)} {s s₁ : State T Eff Res Call σ ℓ α}
      {h' : List (Event T Eff' Res' Call χ' α)} {s' s₁' : State T Eff' Res' Call σ' ℓ' α}
      (hj : Joint h s h' s') {t : T} {c : χ} {e : Eff} {r : Res e} {c' : χ'} {e' : Eff'}
      {r' : Res' e'} {answers : List ((e : Eff) × Res e)} (hs : Step M s (.did t c e r) s₁)
      (hs' : Step N s' (.did t c' e' r') s₁')
      (hpath : (E.impl e').Path (answers ++ [⟨e, r⟩]) (.ret r')) (hanswers : Recorded h t answers)
      (hshared : s₁'.shared = E.shared s₁.shared) :
      Joint (.did t c e r :: h) s₁ (.did t c' e' r' :: h') s₁'

/-- What the coarse machine knows of the fine one. -/
structure Matches (h : List (Event T Eff Res Call χ α)) (s : State T Eff Res Call σ ℓ α)
    (s' : State T Eff' Res' Call σ' ℓ' α) : Prop where
  shared : s'.shared = E.shared s.shared
  own : ∀ t, s'.locals t = E.own (s.locals t)
  idle : ∀ t, s.running t = none → s'.running t = none
  busy : ∀ t call q, s.running t = some (call, q) →
    ∃ p, s'.running t = some (call, p) ∧ E.Follows h t q p

variable {E} {Initial} {Initial'} {h : List (Event T Eff Res Call χ α)}
variable {s s₁ : State T Eff Res Call σ ℓ α} {h' : List (Event T Eff' Res' Call χ' α)}
variable {s' s₁' : State T Eff' Res' Call σ' ℓ' α} {t : T} {call : Call}

theorem Recorded.later {answers : List ((e : Eff) × Res e)} (hr : Recorded h t answers)
    {ev : Event T Eff Res Call χ α} (hev : ev.Spares t) : Recorded (ev :: h) t answers := by
  cases ev with
  | start t' call =>
    have hne : t' ≠ t := fun heq => hev.1 call (by rw [heq])
    unfold Recorded
    rwa [received, if_neg hne]
  | did t' c e r =>
    have hne : t' ≠ t := fun heq => hev.2 c e r (by rw [heq])
    unfold Recorded
    rwa [received, if_neg hne]
  | _ => exact hr

theorem Recorded.snoc {answers : List ((e : Eff) × Res e)} (hr : Recorded h t answers) (c : χ)
    (e : Eff) (r : Res e) : Recorded (.did t c e r :: h) t (answers ++ [⟨e, r⟩]) := by
  obtain ⟨before, hbefore⟩ := hr
  refine ⟨before, ?_⟩
  rw [received, if_pos rfl, ← hbefore, List.append_assoc]

theorem Follows.later {q : Prog Eff Res α} {p : Prog Eff' Res' α} (hf : E.Follows h t q p)
    {ev : Event T Eff Res Call χ α} (hev : ev.Spares t) : E.Follows (ev :: h) t q p := by
  cases hf with
  | ret reply => exact .ret reply
  | inside k himpl hpath hanswers => exact .inside k himpl hpath (hanswers.later hev)

theorem follows_expand (himpl : ∀ e', E.Implements e' (E.impl e')) (p : Prog Eff' Res' α) :
    E.Follows h t (p.expand E.impl) p := by
  cases p with
  | ret reply => exact .ret reply
  | call e' k => exact .inside k (himpl e') .nil (List.nil_suffix)

namespace Joint

theorem runs (hj : E.Joint Initial Initial' h s h' s') :
    Runs M Initial h s ∧ Runs N Initial' h' s' := by
  induction hj with
  | init hi hi' hshared => exact ⟨.init hi, .init hi'⟩
  | quiet hj hs hrun hpath himpl hshared ih => exact ⟨ih.1.step hs, ih.2⟩
  | start hj hs hs' ih | stop hj hs hs' ih | disturb hj hs hs' hshared ih
  | commit hj hs hs' hpath hanswers hshared ih => exact ⟨ih.1.step hs, ih.2.step hs'⟩

theorem shared (hj : E.Joint Initial Initial' h s h' s') : s'.shared = E.shared s.shared := by
  induction hj with
  | init hi hi' hshared => exact hshared
  | start hj hs hs' ih => rw [hs.start_shared, hs'.start_shared, ih]
  | stop hj hs hs' ih => rw [hs.stop_shared, hs'.stop_shared, ih]
  | disturb hj hs hs' hshared ih | quiet hj hs hrun hpath himpl hshared ih
  | commit hj hs hs' hpath hanswers hshared ih => exact hshared

theorem ended (hj : E.Joint Initial Initial' h s h' s') (t : T) :
    Interleaving.ended t h = Interleaving.ended t h' := by
  induction hj with
  | init hi hi' hshared => rfl
  | stop hj hs hs' ih => simp only [Interleaving.ended, ih]
  | start hj hs hs' ih => exact ih
  | disturb hj hs hs' hshared ih | quiet hj hs hrun hpath himpl hshared ih
  | commit hj hs hs' hpath hanswers hshared ih => exact ih

theorem current (hj : E.Joint Initial Initial' h s h' s') (t : T) :
    Interleaving.current t h = Interleaving.current t h' := by
  induction hj with
  | init hi hi' hshared => rfl
  | start hj hs hs' ih | stop hj hs hs' ih => simp only [Interleaving.current, ih]
  | disturb hj hs hs' hshared ih | quiet hj hs hrun hpath himpl hshared ih
  | commit hj hs hs' hpath hanswers hshared ih => exact ih

theorem moment (hj : E.Joint Initial Initial' h s h' s') :
    Beside M N (E.Joint Initial Initial') h s h' s' := by
  induction hj with
  | init hi hi' hshared => exact .nil (.init hi hi' hshared)
  | quiet hj hs hrun hpath himpl hshared ih =>
    exact ih.step hs .refl (.quiet hj hs hrun hpath himpl hshared)
  | start hj hs hs' ih => exact ih.step hs (.step .refl hs') (.start hj hs hs')
  | stop hj hs hs' ih => exact ih.step hs (.step .refl hs') (.stop hj hs hs')
  | disturb hj hs hs' hshared ih =>
    exact ih.step hs (.step .refl hs') (.disturb hj hs hs' hshared)
  | commit hj hs hs' hpath hanswers hshared ih =>
    exact ih.step hs (.step .refl hs') (.commit hj hs hs' hpath hanswers hshared)

theorem returned (hj : E.Joint Initial Initial' h s h' s') {t : T} {c' : χ'} {e' : Eff'}
    {r' : Res' e'} : ∀ h₂' h₁', h' = h₂' ++ .did t c' e' r' :: h₁' →
      ∃ h₂ h₁ c e r s₁ s₁' answers, h = h₂ ++ .did t c e r :: h₁ ∧
        E.Joint Initial Initial' h₁ s₁ h₁' s₁' ∧
        (E.impl e').Path (answers ++ [⟨e, r⟩]) (.ret r') ∧ Recorded h₁ t answers := by
  induction hj with
  | init hi hi' hshared =>
    intro h₂' h₁' heq
    cases h₂' <;> cases heq
  | start hj hs hs' ih | stop hj hs hs' ih | disturb hj hs hs' hshared ih =>
    intro h₂' h₁' heq
    cases h₂' with
    | nil => cases heq
    | cons ev h₂' =>
      obtain ⟨h₂, h₁, c, e, r, s₁, s₁', answers, rfl, hrest⟩ :=
        ih h₂' h₁' (List.cons_eq_cons.mp heq).2
      exact ⟨_ :: h₂, h₁, c, e, r, s₁, s₁', answers, rfl, hrest⟩
  | quiet hj hs hrun hpath himpl hshared ih =>
    intro h₂' h₁' heq
    obtain ⟨h₂, h₁, c, e, r, s₁, s₁', answers, rfl, hrest⟩ := ih h₂' h₁' heq
    exact ⟨_ :: h₂, h₁, c, e, r, s₁, s₁', answers, rfl, hrest⟩
  | @commit h s s₁ h' s' s₁' hj t' c e r c'' e'' r'' answers hs hs' hpath hanswers hshared ih =>
    intro h₂' h₁' heq
    cases h₂' with
    | nil =>
      cases heq
      exact ⟨[], h, c, e, r, s, s', answers, rfl, hj, hpath, hanswers⟩
    | cons ev h₂' =>
      obtain ⟨h₂, h₁, c, e, r, s₁, s₁', answers, rfl, hrest⟩ :=
        ih h₂' h₁' (List.cons_eq_cons.mp heq).2
      exact ⟨_ :: h₂, h₁, c, e, r, s₁, s₁', answers, rfl, hrest⟩

end Joint

theorem Matches.update {ev : Event T Eff Res Call χ α} (hm : E.Matches h s s') (t : T)
    (hshared : s₁'.shared = E.shared s₁.shared) (hown : ∀ t, s₁'.locals t = E.own (s₁.locals t))
    (hothers : ∀ t', t' ≠ t → s₁.running t' = s.running t' ∧ s₁'.running t' = s'.running t' ∧
      ev.Spares t')
    (hidle : s₁.running t = none → s₁'.running t = none)
    (hbusy : ∀ call q, s₁.running t = some (call, q) →
      ∃ p, s₁'.running t = some (call, p) ∧ E.Follows (ev :: h) t q p) :
    E.Matches (ev :: h) s₁ s₁' where
  shared := hshared
  own := hown
  idle t' hnone := by
    by_cases ht : t' = t
    · subst ht
      exact hidle hnone
    · rw [(hothers t' ht).1] at hnone
      rw [(hothers t' ht).2.1]
      exact hm.idle t' hnone
  busy t' call q hrun := by
    by_cases ht : t' = t
    · subst ht
      exact hbusy call q hrun
    · rw [(hothers t' ht).1] at hrun
      obtain ⟨p, hp, hfollows⟩ := hm.busy t' call q hrun
      exact ⟨p, (hothers t' ht).2.1.trans hp, hfollows.later (hothers t' ht).2.2⟩

theorem Matches.did (himpl : ∀ e', E.Implements e' (E.impl e')) (hm : E.Matches h s s')
    (hj : E.Joint Initial Initial' h s h' s') {c : χ} {e : Eff} {r : Res e}
    (hs : Step M s (.did t c e r) s₁) :
    ∃ h₁' s₁', E.Joint Initial Initial' (.did t c e r :: h) s₁ h₁' s₁' ∧
      E.Matches (.did t c e r :: h) s₁ s₁' := by
  have hanswer := hs.did_handle
  obtain ⟨call, k, hrun, hrunning, hlocals⟩ := hs.did_cases
  have hself : s₁.running t = some (call, k r) := by rw [hrunning, Function.update_self]
  have hothers : ∀ t', t' ≠ t → s₁.running t' = s.running t' :=
    fun t' ht => by rw [hrunning, Function.update_of_ne ht]
  have hspares : ∀ t', t' ≠ t → (.did t c e r : Event T Eff Res Call χ α).Spares t' :=
    fun t' ht => ⟨fun _ heq => (by cases heq), fun _ _ _ heq => ht (by cases heq; rfl)⟩
  obtain ⟨p, hp, hfollows⟩ := hm.busy t call _ hrun
  generalize hq : Prog.call e k = q at hfollows
  cases hfollows with
  | ret reply => cases hq
  | @inside e' p answers k' himpl' hpath hanswers =>
    cases p with
    | ret r' => exact himpl'.elim
    | call e₁ k₁ =>
      rw [Prog.call_bind] at hq
      cases hq
      have hnext := himpl' c s.shared (s.locals t)
      rw [hanswer] at hnext
      rcases hnext with ⟨c', r', hret, hhandle⟩ | ⟨hshared, hlocal, himpl''⟩
      · rw [← hm.shared, ← hm.own] at hhandle
        have hs' := Step.of_handle hp hhandle
        have hpath' := hpath.snoc r
        rw [hret] at hpath'
        refine ⟨_, _, .commit hj hs hs' hpath' hanswers rfl, ?_⟩
        refine hm.update t rfl ?_ ?_ ?_ ?_
        · intro t'
          by_cases ht : t' = t
          · subst ht
            exact Function.update_self ..
          · rw [hlocals t' ht, ← hm.own]
            exact Function.update_of_ne ht ..
        · exact fun t' ht => ⟨hothers t' ht, Function.update_of_ne ht .., hspares t' ht⟩
        · intro hnone
          cases hself.symm.trans hnone
        · intro call₁ q hrun₁
          cases hself.symm.trans hrun₁
          refine ⟨_, Function.update_self .., ?_⟩
          have hrest : (k₁ r >>= fun r => (k' r).expand E.impl) = (k' r').expand E.impl := by
            rw [show k₁ r = .ret r' from hret]
            rfl
          change E.Follows _ t (k₁ r >>= fun r => (k' r).expand E.impl) _
          rw [hrest]
          exact follows_expand himpl (k' r')
      · have hshared' := hm.shared.trans hshared.symm
        refine ⟨h', s', .quiet hj hs hp (hpath.snoc r) himpl'' hshared', ?_⟩
        refine hm.update t hshared' ?_ (fun t' ht => ⟨hothers t' ht, rfl, hspares t' ht⟩) ?_ ?_
        · intro t'
          by_cases ht : t' = t
          · subst ht
            exact (hm.own t').trans hlocal.symm
          · rw [hlocals t' ht, hm.own]
        · intro hnone
          cases hself.symm.trans hnone
        · intro call₁ q hrun₁
          cases hself.symm.trans hrun₁
          exact ⟨_, hp, .inside k' himpl'' (hpath.snoc r) (hanswers.snoc c e r)⟩

/-- Every run of the fine machine has a run of the coarse machine beside it. -/
theorem joint (himpl : ∀ e', E.Implements e' (E.impl e'))
    (idle : ∀ s, Initial s → ∀ t : T, s.running t = none)
    (init : ∀ s, Initial s →
      Initial' ⟨E.shared s.shared, fun t => E.own (s.locals t), fun _ => none⟩)
    (hr : Runs M Initial h s) :
    ∃ h' s', E.Joint Initial Initial' h s h' s' ∧ E.Matches h s s' := by
  induction hr with
  | @init s hi =>
    refine ⟨[], _, .init hi (init s hi) rfl, rfl, fun _ => rfl, fun _ _ => rfl, ?_⟩
    intro t call q hrun
    rw [idle s hi t] at hrun
    cases hrun
  | @step h s s₁ ev hr hs ih =>
    obtain ⟨h', s', hj, hm⟩ := ih
    cases ev with
    | did t c e r => exact hm.did himpl hj hs
    | start t call =>
      have hstep := hs
      cases hs with
      | start _ _ hnone =>
        refine ⟨_, _, .start hj hstep (.start t call (hm.idle t hnone)), ?_⟩
        refine hm.update t hm.shared hm.own ?_ ?_ ?_
        · exact fun t' ht => ⟨Function.update_of_ne ht .., Function.update_of_ne ht ..,
            fun _ heq => ht (by cases heq; rfl), fun _ _ _ heq => by cases heq⟩
        · intro hnone
          cases (Function.update_self t _ _).symm.trans hnone
        · intro call₁ q hrun
          cases (Function.update_self t _ _).symm.trans hrun
          refine ⟨_, Function.update_self .., ?_⟩
          rw [E.code]
          exact follows_expand himpl _
    | stop t call reply =>
      have hstep := hs
      cases hs with
      | stop _ hrun =>
        obtain ⟨p, hp, hfollows⟩ := hm.busy t call _ hrun
        have hret : p = .ret reply := by
          generalize hq : (Prog.ret reply : Prog Eff Res α) = q at hfollows
          cases hfollows with
          | ret reply => cases hq; rfl
          | @inside e' p answers k himpl' hpath hanswers =>
            cases p with
            | ret r' => exact himpl'.elim
            | call e k => cases hq
        rw [hret] at hp
        refine ⟨_, _, .stop hj hstep (.stop t hp), ?_⟩
        refine hm.update t hm.shared hm.own ?_ ?_ ?_
        · exact fun t' ht => ⟨Function.update_of_ne ht .., Function.update_of_ne ht ..,
            fun _ heq => (by cases heq), fun _ _ _ heq => by cases heq⟩
        · exact fun _ => Function.update_self ..
        · intro call₁ q hrun₁
          cases (Function.update_self t _ _).symm.trans hrun₁
    | disturb =>
      have hstep := hs
      cases hs with
      | disturb shared hd =>
        have hd' : N.disturbs s'.shared (E.shared shared) := by
          rw [hm.shared]
          exact E.disturbs hd
        refine ⟨_, _, .disturb hj hstep (.disturb _ hd') rfl, rfl, hm.own, hm.idle, ?_⟩
        intro t call q hrun
        obtain ⟨p, hp, hfollows⟩ := hm.busy t call q hrun
        have hspares : (.disturb : Event T Eff Res Call χ α).Spares t :=
          ⟨fun _ heq => (by cases heq), fun _ _ _ heq => by cases heq⟩
        exact ⟨p, hp, hfollows.later hspares⟩

end Joint

end Expansion

end Orchestrator.Interleaving
