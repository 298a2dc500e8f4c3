import Mathlib.Logic.Basic

/-!
# Effectful programs, their runs and their disciplines

A program asks its surroundings one effect at a time and continues with the
answer. `Prog.exec` answers every effect from a state; a `Discipline` tracks what
a program has done so far in a phase, and `Discipline.wp` is the weakest phase
condition under which the program keeps to it, whatever answers it gets.
-/

namespace Orchestrator.Interaction

set_option autoImplicit false

universe u v w x

/-- A finite tree of effects: either a result, or one effect and what follows its answer. -/
inductive Prog (Eff : Type u) (Res : Eff → Type w) (α : Type w) : Type (max u w) where
  | ret (a : α) : Prog Eff Res α
  | call (e : Eff) (k : Res e → Prog Eff Res α) : Prog Eff Res α

namespace Prog
variable {Eff : Type u} {Res : Eff → Type w} {α β : Type w} {ω : Type x}

def bind : Prog Eff Res α → (α → Prog Eff Res β) → Prog Eff Res β
  | ret a, f => f a
  | call e k, f => call e fun r => (k r).bind f

instance : Monad (Prog Eff Res) where
  pure := ret
  bind := bind

def perform (e : Eff) : Prog Eff Res (Res e) := call e ret

@[simp] theorem ret_bind (a : α) (f : α → Prog Eff Res β) : (ret a >>= f) = f a := rfl

@[simp] theorem call_bind (e : Eff) (k : Res e → Prog Eff Res α) (f : α → Prog Eff Res β) :
    (call e k >>= f) = call e fun r => k r >>= f := rfl

@[simp] theorem pure_eq_ret (a : α) : (pure a : Prog Eff Res α) = ret a := rfl

/-- Sequential execution: every effect is answered from the state at once. -/
def exec (answer : (e : Eff) → ω → Res e × ω) : Prog Eff Res α → ω → α × ω
  | ret a, s => (a, s)
  | call e k, s => exec answer (k (answer e s).1) (answer e s).2

variable (answer : (e : Eff) → ω → Res e × ω)

@[simp] theorem exec_ret (a : α) (s : ω) : exec answer (ret a) s = (a, s) := rfl

@[simp] theorem exec_call (e : Eff) (k : Res e → Prog Eff Res α) (s : ω) :
    exec answer (call e k) s = exec answer (k (answer e s).1) (answer e s).2 := rfl

@[simp] theorem exec_perform (e : Eff) (s : ω) :
    exec answer (perform e) s = answer e s := rfl

@[simp] theorem exec_bind (p : Prog Eff Res α) (f : α → Prog Eff Res β) (s : ω) :
    exec answer (p >>= f) s = exec answer (f (exec answer p s).1) (exec answer p s).2 := by
  induction p generalizing s with
  | ret a => rfl
  | call e k ih => exact ih _ _

end Prog

/-- What a program may do in each phase, which answers it may count on there,
and the phase that an answered effect leads to. -/
structure Discipline (Eff : Type u) (Res : Eff → Type w) (Phase : Type v) where
  allowed : Phase → Eff → Prop
  admits : Phase → (e : Eff) → Res e → Prop
  next : Phase → (e : Eff) → Res e → Phase

namespace Discipline
variable {Eff : Type u} {Res : Eff → Type w} {Phase : Type v} {α β : Type w}
variable (D : Discipline Eff Res Phase)

/-- Every effect is allowed when it is performed, and `Q` holds at the end. -/
def wp : Prog Eff Res α → (Phase → α → Prop) → Phase → Prop
  | .ret a, Q, ph => Q ph a
  | .call e k, Q, ph => D.allowed ph e ∧ ∀ r, D.admits ph e r → wp (k r) Q (D.next ph e r)

@[simp] theorem wp_ret (a : α) (Q : Phase → α → Prop) (ph : Phase) :
    D.wp (.ret a) Q ph = Q ph a := rfl

@[simp] theorem wp_call (e : Eff) (k : Res e → Prog Eff Res α) (Q : Phase → α → Prop)
    (ph : Phase) : D.wp (.call e k) Q ph =
      (D.allowed ph e ∧ ∀ r, D.admits ph e r → D.wp (k r) Q (D.next ph e r)) := rfl

@[simp] theorem wp_perform (e : Eff) (Q : Phase → Res e → Prop) (ph : Phase) :
    D.wp (.perform e) Q ph =
      (D.allowed ph e ∧ ∀ r, D.admits ph e r → Q (D.next ph e r) r) := rfl

@[simp] theorem wp_bind (p : Prog Eff Res α) (f : α → Prog Eff Res β)
    (Q : Phase → β → Prop) (ph : Phase) :
    D.wp (p >>= f) Q ph = D.wp p (fun ph' a => D.wp (f a) Q ph') ph := by
  induction p generalizing ph with
  | ret a => rfl
  | call e k ih =>
    simp only [Prog.call_bind, wp_call, ih]

theorem wp_mono {p : Prog Eff Res α} {Q R : Phase → α → Prop} {ph : Phase}
    (h : D.wp p Q ph) (hQR : ∀ ph' a, Q ph' a → R ph' a) : D.wp p R ph := by
  induction p generalizing ph with
  | ret a => exact hQR ph a h
  | call e k ih => exact ⟨h.1, fun r hr => ih r (h.2 r hr)⟩

theorem wp_free (hfree : ∀ ph e, D.allowed ph e) (p : Prog Eff Res α) (ph : Phase) :
    D.wp p (fun _ _ => True) ph := by
  induction p generalizing ph with
  | ret a => trivial
  | call e k ih => exact ⟨hfree ph e, fun r _ => ih r _⟩

/-- What keeps to a discipline keeps to every one that a relation of the phases simulates. -/
theorem wp_simulate {Phase' : Type v} {D' : Discipline Eff Res Phase'}
    {R : Phase → Phase' → Prop} (allowed : ∀ {ph ph' e}, R ph ph' → D.allowed ph e →
      D'.allowed ph' e)
    (next : ∀ {ph ph' e r}, R ph ph' → D.allowed ph e → D'.admits ph' e r →
      D.admits ph e r ∧ R (D.next ph e r) (D'.next ph' e r))
    {p : Prog Eff Res α} {Q : Phase → α → Prop} {ph : Phase} {ph' : Phase'}
    (h : D.wp p Q ph) (hR : R ph ph') : D'.wp p (fun ph' a => ∃ ph, R ph ph' ∧ Q ph a) ph' := by
  induction p generalizing ph ph' with
  | ret a => exact ⟨ph, hR, h⟩
  | call e k ih =>
    refine ⟨allowed hR h.1, ?_⟩
    intro r hr
    obtain ⟨hadmits, hnext⟩ := next hR h.1 hr
    exact ih r (h.2 r hadmits) hnext

theorem wp_stays {Phase' : Type v} {D : Discipline Eff Res Unit} {D' : Discipline Eff Res Phase'}
    {ph : Phase'} (h : ∀ {e}, D.allowed () e →
      D'.allowed ph e ∧ ∀ r, D.admits () e r ∧ D'.next ph e r = ph)
    {p : Prog Eff Res α} {Q : Unit → α → Prop} (hp : D.wp p Q ()) :
    D'.wp p (fun ph' _ => ph' = ph) ph := by
  induction p with
  | ret a => rfl
  | call e k ih =>
    refine ⟨(h hp.1).1, ?_⟩
    intro r _
    obtain ⟨hadmits, hnext⟩ := (h hp.1).2 r
    rw [hnext]
    exact ih r (hp.2 r hadmits)

end Discipline

/-! Programs that may raise: an exception skips the rest of the program. -/

section Exceptions
variable {Eff : Type u} {Res : Eff → Type w} {Phase : Type v} {ε α β : Type w} {ω : Type x}

@[simp] theorem Prog.exec_except_bind (answer : (e : Eff) → ω → Res e × ω)
    (p : ExceptT ε (Prog Eff Res) α) (f : α → ExceptT ε (Prog Eff Res) β) (s : ω) :
    (p >>= f).run.exec answer s =
      match p.run.exec answer s with
      | (.ok a, s') => (f a).run.exec answer s'
      | (.error x, s') => (.error x, s') := by
  rw [ExceptT.run_bind, Prog.exec_bind]
  obtain ⟨r, s'⟩ := p.run.exec answer s
  cases r <;> rfl

variable (D : Discipline Eff Res Phase)

@[simp] theorem Discipline.wp_except_bind (p : ExceptT ε (Prog Eff Res) α)
    (f : α → ExceptT ε (Prog Eff Res) β) (Q : Phase → Except ε β → Prop) (ph : Phase) :
    D.wp (p >>= f).run Q ph =
      D.wp p.run (fun ph' r =>
        match r with
        | .ok a => D.wp (f a).run Q ph'
        | .error x => Q ph' (.error x)) ph := by
  rw [ExceptT.run_bind, wp_bind]
  congr 1
  funext ph' r
  cases r <;> rfl

@[simp] theorem Discipline.wp_except_pure (a : α) (Q : Phase → Except ε α → Prop) (ph : Phase) :
    D.wp (pure a : ExceptT ε (Prog Eff Res) α).run Q ph = Q ph (.ok a) := rfl

/-- A program that the discipline does not constrain and that leaves its phase alone. -/
def Discipline.Neutral (p : ExceptT ε (Prog Eff Res) α) : Prop :=
  ∀ ph, D.wp p.run (fun ph' _ => ph' = ph) ph

/-- The effects of a class are free in every phase and move no phase. -/
def Discipline.Ignores (E : Eff → Prop) : Prop :=
  ∀ e, E e → ∀ ph, D.allowed ph e ∧ ∀ r, D.next ph e r = ph

namespace Discipline.Neutral
variable {D} {p : ExceptT ε (Prog Eff Res) α} {f : α → ExceptT ε (Prog Eff Res) β}

theorem ret (a : α) : D.Neutral (pure a : ExceptT ε (Prog Eff Res) α) := fun _ => rfl

theorem raise (x : ε) : D.Neutral (throw x : ExceptT ε (Prog Eff Res) α) := fun _ => rfl

theorem ofExcept (r : Except ε α) : D.Neutral (ExceptT.mk (pure r) : ExceptT ε (Prog Eff Res) α) :=
  fun _ => rfl

theorem effect (e : Eff) {k : Res e → Except ε α}
    (h : ∀ ph, D.allowed ph e ∧ ∀ r, D.next ph e r = ph)
    (hp : p.run = .call e fun r => .ret (k r)) : D.Neutral p := by
  intro ph
  rw [hp]
  exact ⟨(h ph).1, fun r _ => (h ph).2 r⟩

/-- Verifying what follows a neutral program needs no knowledge about its answers. -/
theorem wp_bind (hp : D.Neutral p) {Q : Phase → Except ε β → Prop} {ph : Phase}
    (ok : ∀ a, D.wp (f a).run Q ph) (error : ∀ x, Q ph (.error x)) : D.wp (p >>= f).run Q ph := by
  rw [wp_except_bind]
  apply D.wp_mono (hp ph)
  rintro ph' r rfl
  cases r with
  | ok a => exact ok a
  | error x => exact error x

theorem bind (hp : D.Neutral p) (hf : ∀ a, D.Neutral (f a)) : D.Neutral (p >>= f) :=
  fun ph => hp.wp_bind (fun a => hf a ph) fun _ => rfl

end Discipline.Neutral

/-- A program that keeps to the discipline from every phase on. -/
def Discipline.Safe (p : ExceptT ε (Prog Eff Res) α) : Prop :=
  ∀ ph, D.wp p.run (fun _ _ => True) ph

namespace Discipline
variable {D} {p : ExceptT ε (Prog Eff Res) α} {f : α → ExceptT ε (Prog Eff Res) β}

theorem Neutral.safe (hp : D.Neutral p) : D.Safe p :=
  fun ph => D.wp_mono (hp ph) fun _ _ _ => trivial

theorem Safe.bind (hp : D.Safe p) (hf : ∀ a, D.Safe (f a)) : D.Safe (p >>= f) := by
  intro ph
  rw [wp_except_bind]
  apply D.wp_mono (hp ph)
  intro ph' r _
  cases r with
  | ok a => exact hf a ph'
  | error x => trivial

theorem Safe.map {γ : Type w} (hp : D.Safe p) (f : Except ε α → γ) (ph : Phase) :
    D.wp (p.run >>= fun r => pure (f r)) (fun _ _ => True) ph := by
  rw [wp_bind]
  exact hp ph

end Discipline

end Exceptions

end Orchestrator.Interaction
