import Orchestrator.Readings
import Orchestrator.Sequential

/-!
# Any callers of the repository

Beside the processes of the program, any number of callers use the methods of the
repository directly, in any order and with any arguments. What holds in every run of this
machine depends on no discipline of the callers.
-/

namespace Orchestrator

open Interaction
set_option autoImplicit false

inductive RepositoryCall where
  | create (requestId : String) (request : AutomationRequest)
  | claim (requestId : String)
  | claimNext
  | complete (requestId detail : String)
  | failOrRetry (requestId detail : String) (retryDelaySeconds : Int)
  | replayDeadLetter (requestId : String)

inductive RepositoryReply where
  | created (r : Except PyExc String)
  | claimed (r : Except PyExc (Option (String × AutomationRequest)))
  | written (r : Except PyExc Unit)
  | replayed (r : Except PyExc AutomationResult)

open AutomationRepository in
def RepositoryCall.code : RepositoryCall → Prog Eff Eff.Res RepositoryReply
  | create requestId request =>
    return .created (← (AutomationRepository.create requestId request).run)
  | claim requestId => return .claimed (← (AutomationRepository.claim requestId).run)
  | claimNext => return .claimed (← AutomationRepository.claimNext.run)
  | complete requestId detail =>
    return .written (← (AutomationRepository.complete requestId detail).run)
  | failOrRetry requestId detail retryDelaySeconds =>
    return .written (← (AutomationRepository.failOrRetry requestId detail retryDelaySeconds).run)
  | replayDeadLetter requestId =>
    return .replayed (← (AutomationRepository.replayDeadLetter requestId).run)

/-- A call of the program, or of a method of the repository. -/
inductive OpenCall where
  | program (call : Call)
  | repository (call : RepositoryCall)

inductive OpenReply where
  | program (reply : Reply)
  | repository (reply : RepositoryReply)

def OpenCall.code : OpenCall → Prog Eff Eff.Res OpenReply
  | program call => return .program (← call.code)
  | repository call => return .repository (← call.code)

def openMachine [JsonCodec] :
    Interleaving.Machine Eff Eff.Res OpenCall Choice Shared Cooldowns OpenReply where
  code := OpenCall.code
  handle := handle
  disturbs s s' := s'.db = s.db

variable (T : Type)

abbrev OpenEvent := Interleaving.Event T Eff Eff.Res OpenCall Choice OpenReply

abbrev OpenSystem := Interleaving.State T Eff Eff.Res OpenCall Shared Cooldowns OpenReply

variable {T}

def OpenInitial (s : OpenSystem T) : Prop :=
  s.shared.db = .empty ∧ (∀ t, s.running t = none) ∧ ∀ t target, s.locals t target = none

section Steps
variable [DecidableEq T] [JsonCodec]

abbrev OpenStep (s : OpenSystem T) (ev : OpenEvent T) (s' : OpenSystem T) : Prop :=
  Interleaving.Step openMachine s ev s'

abbrev OpenRuns (h : List (OpenEvent T)) (s : OpenSystem T) : Prop :=
  Interleaving.Runs openMachine OpenInitial h s

/-- The runs of any callers in which every step meets a condition. -/
abbrev OpenRunsWithin (ok : List (OpenEvent T) → OpenSystem T → OpenEvent T → OpenSystem T → Prop)
    (h : List (OpenEvent T)) (s : OpenSystem T) : Prop :=
  Interleaving.RunsWithin openMachine OpenInitial ok h s

variable {s s' : OpenSystem T} {ev : OpenEvent T} {t : T} {c : Choice}

theorem open_commit {op : TransactionOp} {r : Except PyExc op.Result}
    (hs : OpenStep s (.did t c (.transaction op) r) s') :
    (op.body c.connection c.utc).commit s.shared.db = (r, s'.shared.db) :=
  handle_commit hs.did_handle

theorem open_outcome {op : TransactionOp} {r : Except PyExc op.Result}
    (hs : OpenStep s (.did t c (.transaction op) r) s') :
    Outcome c.utc s.shared.db s'.shared.db op r := handle_outcome hs.did_handle

theorem open_cases (hs : OpenStep s ev s') :
    (s'.shared.db = s.shared.db ∧ ∀ t c op r, ev ≠ .did t c (.transaction op) r) ∨
      ∃ t c op r, ev = .did t c (.transaction op) r := by
  cases ev with
  | start t call => exact .inl ⟨by rw [hs.start_shared], by simp⟩
  | stop t call reply => exact .inl ⟨by rw [hs.stop_shared], by simp⟩
  | disturb => exact .inl ⟨hs.disturb_shared, by simp⟩
  | did t c e r =>
    have hdb := handle_db hs.did_handle
    cases e with
    | transaction op => exact .inr ⟨t, c, op, r, rfl⟩
    | _ =>
      refine .inl ⟨?_, by simp⟩
      rcases hdb with hdb | ⟨op, hop⟩
      · exact hdb
      · cases hop

/-- A step leaves the tables alone, or it is a transaction with its outcome. -/
theorem open_step (hs : OpenStep s ev s') :
    s'.shared.db = s.shared.db ∨ ∃ t c op, ∃ r : Except PyExc op.Result,
      ev = .did t c (.transaction op) r ∧ Wrote c.utc s.shared.db op r s'.shared.db := by
  cases ev with
  | start t call => exact .inl (by rw [hs.start_shared])
  | stop t call reply => exact .inl (by rw [hs.stop_shared])
  | disturb => exact .inl hs.disturb_shared
  | did t c e r =>
    rcases handle_db hs.did_handle with hdb | ⟨op, rfl⟩
    · exact .inl hdb
    · exact .inr ⟨t, c, op, r, rfl, (open_outcome hs).wrote⟩

/-- The world of a caller between two of its calls. -/
def OpenSystem.world (s : OpenSystem T) (t : T) (choices : ℕ → Choice) : World :=
  ⟨choices, s.shared, s.locals t⟩

/-- The system after a call that is made while no other caller moves. -/
def OpenSystem.alone (s : OpenSystem T) (t : T) (choices : ℕ → Choice) (call : OpenCall) :
    OpenSystem T :=
  { s with
    shared := (call.code.exec World.answer (s.world t choices)).2.shared
    locals := Function.update s.locals t
      (call.code.exec World.answer (s.world t choices)).2.cooldowns }

def OpenSystem.traceAlone (s : OpenSystem T) (t : T) (choices : ℕ → Choice) (call : OpenCall)
    (h : List (OpenEvent T)) : List (OpenEvent T) :=
  .stop t call (call.code.exec World.answer (s.world t choices)).1 ::
    Interleaving.trace World.answer (fun w _ => w.choices 0) t call.code (s.world t choices)
      (.start t call :: h)

theorem OpenRuns.alone {h : List (OpenEvent T)} (hr : OpenRuns h s) (hidle : s.running t = none)
    (choices : ℕ → Choice) (call : OpenCall) :
    OpenRuns (s.traceAlone t choices call h) (s.alone t choices call) := by
  have agrees : ∀ (e : Eff) (w : World), handle (w.choices 0) e w.shared w.cooldowns =
      ((World.answer e w).1, (World.answer e w).2.shared, (World.answer e w).2.cooldowns) :=
    fun _ _ => rfl
  exact Interleaving.Runs.call (M := openMachine) agrees call hr hidle rfl rfl

/-- Calls that callers make one after another, each with what the surroundings decide. -/
def OpenSystem.inTurn : List (T × (ℕ → Choice) × OpenCall) → List (OpenEvent T) → OpenSystem T →
    List (OpenEvent T) × OpenSystem T
  | [], h, s => (h, s)
  | (t, choices, call) :: calls, h, s =>
    inTurn calls (s.traceAlone t choices call h) (s.alone t choices call)

theorem OpenRuns.inTurn (calls : List (T × (ℕ → Choice) × OpenCall)) {h : List (OpenEvent T)}
    (hr : OpenRuns h s) (hidle : ∀ t, s.running t = none) :
    OpenRuns (OpenSystem.inTurn calls h s).1 (OpenSystem.inTurn calls h s).2 := by
  induction calls generalizing h s with
  | nil => exact hr
  | cons call calls ih =>
    obtain ⟨t, choices, call⟩ := call
    exact ih (OpenRuns.alone hr (hidle t) choices call) hidle

end Steps

def OpenSystem.initial : OpenSystem ℕ := ⟨⟨.empty, fun _ => []⟩, fun _ _ => none, fun _ => none⟩

/-- A history and a state: those of calls made in turn from the initial state. -/
def openRun (calls : List (ℕ × (ℕ → Choice) × OpenCall)) : List (OpenEvent ℕ) × OpenSystem ℕ :=
  letI := emptyPayload
  OpenSystem.inTurn calls [] OpenSystem.initial

theorem openRun_runs (calls : List (ℕ × (ℕ → Choice) × OpenCall)) :
    @OpenRuns ℕ _ emptyPayload (openRun calls).1 (openRun calls).2 := by
  let _ := emptyPayload
  have hr : OpenRuns [] OpenSystem.initial := .init ⟨rfl, fun _ => rfl, fun _ _ => rfl⟩
  exact OpenRuns.inTurn calls hr fun _ => rfl

/-- A history and a state: those of a schedule from the initial state. -/
def openPlay (turns : List (Interleaving.Turn ℕ OpenCall Choice)) :
    List (OpenEvent ℕ) × OpenSystem ℕ :=
  letI := emptyPayload
  Interleaving.State.play openMachine turns ([], OpenSystem.initial)

theorem openPlay_runs (turns : List (Interleaving.Turn ℕ OpenCall Choice)) :
    @OpenRuns ℕ _ emptyPayload (openPlay turns).1 (openPlay turns).2 := by
  let _ := emptyPayload
  have hr : OpenRuns [] OpenSystem.initial := .init ⟨rfl, fun _ => rfl, fun _ _ => rfl⟩
  exact Interleaving.Runs.play turns hr

open Discipline AutomationRepository

/-- A discipline that every method keeps is kept by every call of the open machine. -/
theorem repositoryCall_safe {Phase : Type} {D : Discipline Eff Eff.Res Phase}
    (create : ∀ id request, D.Safe (create id request)) (claim : ∀ id, D.Safe (claim id))
    (claimNext : D.Safe claimNext) (complete : ∀ id detail, D.Safe (complete id detail))
    (failOrRetry : ∀ id detail delay, D.Safe (failOrRetry id detail delay))
    (replayDeadLetter : ∀ id, D.Safe (replayDeadLetter id)) (call : RepositoryCall) (ph : Phase) :
    D.wp call.code (fun _ _ => True) ph := by
  cases call with
  | create id request => exact (create id request).map _ _
  | claim id => exact (claim id).map _ _
  | claimNext => exact claimNext.map _ _
  | complete id detail => exact (complete id detail).map _ _
  | failOrRetry id detail delay => exact (failOrRetry id detail delay).map _ _
  | replayDeadLetter id => exact (replayDeadLetter id).map _ _

end Orchestrator
