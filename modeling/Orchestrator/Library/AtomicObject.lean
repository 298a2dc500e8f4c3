import Orchestrator.Library.Interleaving

/-!
# Atomic objects

An object answers each call in one indivisible operation. A concurrent history is
linearized by a list of operations if these can be performed one after another with the
same answers, and each of them falls between the start and the end of its call.

A call of the machine may take many steps. It passes through the stages of a protocol, and
the step that brings it from `pending` to `answered` is the point where it takes effect.
-/

namespace Orchestrator.AtomicObject

open Interaction Interleaving
set_option autoImplicit false

universe u v w x y

/-- Where a call is: before the step that takes effect, with a note of what it has found
out so far, or after it. -/
inductive Stage (Call Note α : Type*) where
  | idle
  | pending (call : Call) (note : Note)
  | answered (call : Call) (reply : α)

/-- One operation on the object; the moment is what it took from its surroundings. -/
structure Op (T Call Moment α : Type*) where
  thread : T
  call : Call
  moment : Moment
  reply : α

section Histories
variable {T : Type v} {Eff : Type u} {Res : Eff → Type w} {Call χ : Type x} {α : Type w}
variable {Moment : Type y} [DecidableEq T]

/-- The calls of a thread among the operations, with their answers. -/
def madeBy (t : T) (ops : List (Op T Call Moment α)) : List (Call × α) :=
  ops.filterMap fun op => if op.thread = t then some (op.call, op.reply) else none

variable {δ : Type*}

/-- The operations are performed one after another from `δ₀`, the latest first in the list. -/
inductive Sequential (apply : Call → Moment → δ → α × δ) (δ₀ : δ) :
    List (Op T Call Moment α) → δ → Prop where
  | none : Sequential apply δ₀ [] δ₀
  | next {ops : List (Op T Call Moment α)} {d d' : δ} {op : Op T Call Moment α}
      (hs : Sequential apply δ₀ ops d) (h : apply op.call op.moment d = (op.reply, d')) :
      Sequential apply δ₀ (op :: ops) d'

/-- The operations so far are those of the calls that have ended, and perhaps that of the
call in progress. -/
def Placed (t : T) (h : List (Event T Eff Res Call χ α)) (ops : List (Op T Call Moment α)) :
    Prop :=
  madeBy t ops = ended t h ∨
    ∃ call reply, current t h = some call ∧ madeBy t ops = (call, reply) :: ended t h

/-- An operation took effect at a step of its thread, and took its moment from there. -/
def Timely (taken : List (Event T Eff Res Call χ α) → T → χ → Moment)
    (h : List (Event T Eff Res Call χ α)) (op : Op T Call Moment α) : Prop :=
  ∃ h₂ c e r h₁, h = h₂ ++ .did op.thread c e r :: h₁ ∧ current op.thread h₁ = some op.call ∧
    op.moment = taken h₁ op.thread c

/-- The operations explain the history: performed in their order they give the same answers
and the same state, and at every point of the history they are those of the calls until then. -/
structure Linearizes (apply : Call → Moment → δ → α × δ)
    (taken : List (Event T Eff Res Call χ α) → T → χ → Moment) (δ₀ : δ)
    (h : List (Event T Eff Res Call χ α)) (ops : List (Op T Call Moment α)) (d : δ) : Prop where
  sequential : Sequential apply δ₀ ops d
  placed : ∀ h₂ h₁, h = h₂ ++ h₁ → ∃ ops₂ ops₁, ops = ops₂ ++ ops₁ ∧ ∀ t, Placed t h₁ ops₁
  timely : ∀ op ∈ ops, Timely taken h op

end Histories

section Commits
variable {T : Type v} {Eff : Type u} {Res : Eff → Type w} {Call χ σ ℓ : Type x} {α : Type w}
variable {Note Moment : Type y} {δ : Type*} [DecidableEq T]

/-- A step of a call that is under way: it changes nothing, or it performs the operation. -/
inductive Advances (apply : Call → Moment → δ → α × δ) (moment : Moment) :
    Stage Call Note α → Stage Call Note α → δ → δ → Prop where
  | waits {call : Call} {note note' : Note} {d : δ} :
      Advances apply moment (.pending call note) (.pending call note') d d
  | commits {call : Call} {note : Note} {reply : α} {d d' : δ}
      (h : apply call moment d = (reply, d')) :
      Advances apply moment (.pending call note) (.answered call reply) d d'

variable (P : Protocol Eff Res Call (Stage Call Note α))
variable (taken : List (Event T Eff Res Call χ α) → T → χ → Moment)

/-- The operation of the step that takes a call to its answer. -/
def opOf (t : T) (moment : Moment) :
    Stage Call Note α → Stage Call Note α → Option (Op T Call Moment α)
  | .pending call _, .answered _ reply => some ⟨t, call, moment, reply⟩
  | _, _ => none

/-- The operations of a history, in the order in which they took effect. -/
def commits : List (Event T Eff Res Call χ α) → List (Op T Call Moment α)
  | [] => []
  | .did t c e r :: h =>
    (opOf t (taken h t c) (P.phase h t) (P.next (P.phase h t) e r)).toList ++ commits h
  | _ :: h => commits h

theorem commits_append (h₂ h₁ : List (Event T Eff Res Call χ α)) :
    ∃ ops, commits P taken (h₂ ++ h₁) = ops ++ commits P taken h₁ := by
  induction h₂ with
  | nil => exact ⟨[], rfl⟩
  | cons ev h₂ ih =>
    obtain ⟨ops, hops⟩ := ih
    cases ev with
    | did t c e r =>
      refine ⟨(opOf t (taken (h₂ ++ h₁) t c) (P.phase (h₂ ++ h₁) t)
        (P.next (P.phase (h₂ ++ h₁) t) e r)).toList ++ ops, ?_⟩
      rw [List.cons_append, commits, hops, List.append_assoc]
    | _ => exact ⟨ops, hops⟩

/-- What the stage of a call says about the operations of its thread. -/
def Stage.Shows (current : Option Call) (ended made : List (Call × α)) :
    Stage Call Note α → Prop
  | idle => current = none ∧ made = ended
  | pending call _ => current = some call ∧ made = ended
  | answered call reply => current = some call ∧ made = (call, reply) :: ended

theorem Stage.Shows.placed {t : T} {h : List (Event T Eff Res Call χ α)}
    {ops : List (Op T Call Moment α)} {stage : Stage Call Note α}
    (hs : stage.Shows (current t h) (ended t h) (madeBy t ops)) : Placed t h ops := by
  cases stage with
  | idle => exact .inl hs.2
  | pending call note => exact .inl hs.2
  | answered call reply => exact .inr ⟨call, reply, hs⟩

variable {P taken} {M : Machine Eff Res Call χ σ ℓ α}
variable {Initial : State T Eff Res Call σ ℓ α → Prop} {view : σ → δ}
variable {apply : Call → Moment → δ → α × δ}

/-- Each thread's operations, by the stage that its history gives it. -/
def Tracked (P : Protocol Eff Res Call (Stage Call Note α))
    (taken : List (Event T Eff Res Call χ α) → T → χ → Moment)
    (h : List (Event T Eff Res Call χ α)) : Prop :=
  ∀ t, (P.phase h t).Shows (current t h) (ended t h) (madeBy t (commits P taken h))

section Steps
variable {h : List (Event T Eff Res Call χ α)} {t : T}

theorem madeBy_cons (t : T) (op : Op T Call Moment α) (ops : List (Op T Call Moment α)) :
    madeBy t (op :: ops) =
      if op.thread = t then (op.call, op.reply) :: madeBy t ops else madeBy t ops := by
  by_cases ht : op.thread = t
  · simp [madeBy, ht]
  · simp [madeBy, ht]

theorem Tracked.start {call : Call} {note : Note} (start : P.start call = .pending call note)
    (hI : Tracked P taken h) (hidle : P.phase h t = .idle) :
    Tracked P taken (.start t call :: h) := by
  intro t'
  by_cases ht : t = t'
  · subst ht
    have hs := hI t
    rw [hidle] at hs
    simp only [Protocol.phase, current, ended, commits, if_true, start]
    exact ⟨rfl, hs.2⟩
  · simpa only [Protocol.phase, current, ended, commits, if_neg ht] using hI t'

theorem Tracked.stop {call : Call} {reply : α} (idle : P.idle = .idle) (hI : Tracked P taken h)
    (hanswered : P.phase h t = .answered call reply) :
    Tracked P taken (.stop t call reply :: h) := by
  intro t'
  by_cases ht : t = t'
  · subst ht
    have hs := hI t
    rw [hanswered] at hs
    simp only [Protocol.phase, current, ended, commits, if_true, idle]
    exact ⟨rfl, hs.2⟩
  · simpa only [Protocol.phase, current, ended, commits, if_neg ht] using hI t'

theorem Tracked.did {c : χ} {e : Eff} {r : Res e} {d d' : δ} (hI : Tracked P taken h)
    (hadv : Advances apply (taken h t c) (P.phase h t) (P.next (P.phase h t) e r) d d') :
    Tracked P taken (.did t c e r :: h) := by
  intro t'
  have hs := hI t'
  by_cases ht : t = t'
  · subst ht
    simp only [Protocol.phase, current, ended, commits, if_true]
    generalize P.phase h t = ph at hs hadv ⊢
    generalize P.next ph e r = ph' at hadv ⊢
    cases hadv with
    | waits => exact hs
    | commits happly =>
      refine ⟨hs.1, ?_⟩
      simp only [opOf, Option.toList_some, List.singleton_append, madeBy_cons, if_true]
      exact congrArg _ hs.2
  · simp only [Protocol.phase, current, ended, commits, if_neg ht]
    generalize P.phase h t = ph at hadv ⊢
    generalize P.next ph e r = ph' at hadv ⊢
    cases hadv with
    | waits => exact hs
    | commits happly =>
      simpa only [opOf, Option.toList_some, List.singleton_append, madeBy_cons, if_neg ht] using hs

theorem Timely.later {op : Op T Call Moment α} (ev : Event T Eff Res Call χ α)
    (ht : Timely taken h op) : Timely taken (ev :: h) op := by
  obtain ⟨h₂, c, e, r, h₁, rfl, hcurrent, hmoment⟩ := ht
  exact ⟨ev :: h₂, c, e, r, h₁, rfl, hcurrent, hmoment⟩

theorem Timely.did {c : χ} {e : Eff} {r : Res e} {op : Op T Call Moment α}
    (hI : Tracked P taken h)
    (hop : op ∈ opOf t (taken h t c) (P.phase h t) (P.next (P.phase h t) e r)) :
    Timely taken (.did t c e r :: h) op := by
  have hs := hI t
  generalize P.phase h t = ph at hs hop
  generalize P.next ph e r = ph' at hop
  cases ph with
  | pending call note =>
    cases ph' with
    | answered call' reply =>
      cases hop
      exact ⟨[], c, e, r, h, rfl, hs.1, rfl⟩
    | _ => cases hop
  | _ => cases hop

theorem Sequential.did {c : χ} {e : Eff} {r : Res e} {δ₀ d d' : δ}
    (hseq : Sequential apply δ₀ (commits P taken h) d)
    (hadv : Advances apply (taken h t c) (P.phase h t) (P.next (P.phase h t) e r) d d') :
    Sequential apply δ₀ (commits P taken (.did t c e r :: h)) d' := by
  simp only [commits]
  generalize P.phase h t = ph at hadv ⊢
  generalize P.next ph e r = ph' at hadv ⊢
  cases hadv with
  | waits => exact hseq
  | commits happly => exact hseq.next happly

end Steps

/-- What has to be shown of a machine: its calls answer only after the step that takes
effect, and that step does what the operation does, if it meets the condition. -/
structure Implements (M : Machine Eff Res Call χ σ ℓ α)
    (Initial : State T Eff Res Call σ ℓ α → Prop)
    (ok : List (Event T Eff Res Call χ α) → State T Eff Res Call σ ℓ α →
      Event T Eff Res Call χ α → State T Eff Res Call σ ℓ α → Prop) (view : σ → δ)
    (apply : Call → Moment → δ → α × δ) (δ₀ : δ)
    (P : Protocol Eff Res Call (Stage Call Note α))
    (taken : List (Event T Eff Res Call χ α) → T → χ → Moment) : Prop where
  idle : P.idle = .idle
  start : ∀ call, ∃ note, P.start call = .pending call note
  follows : ∀ {h s}, Runs M Initial h s →
    P.Follows (fun call ph reply => ph = .answered call reply) h s
  advances : ∀ {h s s' t c e r}, Runs M Initial h s → Step M s (.did t c e r) s' →
    ok h s (.did t c e r) s' → Advances apply (taken h t c) (P.phase h t)
      (P.next (P.phase h t) e r) (view s.shared) (view s'.shared)
  init : ∀ s, Initial s → view s.shared = δ₀
  disturb : ∀ a b, M.disturbs a b → view b = view a

variable {δ₀ : δ} {h : List (Event T Eff Res Call χ α)} {s : State T Eff Res Call σ ℓ α}
variable {ok : List (Event T Eff Res Call χ α) → State T Eff Res Call σ ℓ α →
  Event T Eff Res Call χ α → State T Eff Res Call σ ℓ α → Prop}

theorem Implements.runs (hi : Implements M Initial ok view apply δ₀ P taken)
    (hr : RunsWithin M Initial ok h s) :
    Tracked P taken h ∧ Sequential apply δ₀ (commits P taken h) (view s.shared) := by
  apply hr.invariant (I := fun h s => Tracked P taken h ∧
    Sequential apply δ₀ (commits P taken h) (view s.shared))
  case init =>
    intro s hs
    rw [hi.init s hs]
    refine ⟨?_, .none⟩
    intro t
    simp only [Protocol.phase, hi.idle]
    exact ⟨rfl, rfl⟩
  case step =>
    intro h s s' ev hr hI hs hok
    obtain ⟨htracked, hseq⟩ := hI
    have hf := hi.follows hr
    cases ev with
    | start t call =>
      obtain ⟨note, hstart⟩ := hi.start call
      have hnone : s.running t = none := by
        cases hs with
        | start _ _ hnone => exact hnone
      have hidle : P.phase h t = .idle := by rw [(hf t).1 hnone, hi.idle]
      rw [hs.start_shared]
      exact ⟨htracked.start hstart hidle, hseq⟩
    | did t c e r =>
      have hadv := hi.advances hr hs hok
      exact ⟨htracked.did hadv, hseq.did hadv⟩
    | stop t call reply =>
      have hanswered : P.phase h t = .answered call reply := hf.ends hs
      rw [hs.stop_shared]
      exact ⟨htracked.stop hi.idle hanswered, hseq⟩
    | disturb =>
      rw [hi.disturb _ _ hs.disturb_shared]
      exact ⟨htracked, hseq⟩

theorem timely_commits (tracked : ∀ {h s}, RunsWithin M Initial ok h s → Tracked P taken h)
    (hr : RunsWithin M Initial ok h s) : ∀ op ∈ commits P taken h, Timely taken h op := by
  induction hr with
  | init => exact fun _ hop => absurd hop List.not_mem_nil
  | @step h s s' ev hr hs hok ih =>
    intro op hop
    cases ev with
    | did t c e r =>
      rcases List.mem_append.mp hop with hop | hop
      · exact .did (tracked hr) (Option.mem_toList.mp hop)
      · exact (ih op hop).later _
    | _ => exact (ih op hop).later _

/-- A run of the machine is linearized by the operations of its steps, if these meet the
condition. -/
theorem Implements.linearizes (hi : Implements M Initial ok view apply δ₀ P taken)
    (hr : RunsWithin M Initial ok h s) :
    Linearizes apply taken δ₀ h (commits P taken h) (view s.shared) where
  sequential := (hi.runs hr).2
  placed := by
    intro h₂ h₁ hh
    subst hh
    obtain ⟨s₁, hr₁⟩ := hr.past
    obtain ⟨ops, hops⟩ := commits_append P taken h₂ h₁
    exact ⟨ops, _, hops, fun t => ((hi.runs hr₁).1 t).placed⟩
  timely := timely_commits (fun hr => (hi.runs hr).1) hr

end Commits

end Orchestrator.AtomicObject
