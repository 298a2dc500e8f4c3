import Orchestrator.Library.Interleaving
import Orchestrator.Worker

/-!
# The system: any number of processes over one database and one broker

A process makes one call at a time and keeps its cooldown table between calls. The
broker may lose, duplicate or invent messages at any moment.
-/

namespace Orchestrator

open Interaction
set_option autoImplicit false

inductive Call where
  | create (requestId : String) (request : AutomationRequest)
  | submit (service : AutomationService) (request : AutomationRequest)
  | replayDeadLetter (service : AutomationService) (requestId : String)
  | runOnce (worker : AutomationWorker)

/-- What a call returns or raises. -/
inductive Reply where
  | created (r : Except PyExc String)
  | submitted (r : Except PyExc AutomationResult)
  | replayed (r : Except PyExc AutomationResult)
  | ran (r : Except PyExc Bool)

def Call.code : Call → Prog Eff Eff.Res Reply
  | create requestId request =>
    return .created (← (AutomationRepository.create requestId request).run)
  | submit service request => return .submitted (← (service.submit request).run)
  | replayDeadLetter service requestId =>
    return .replayed (← (service.replayDeadLetter requestId).run)
  | runOnce worker => return .ran (← worker.runOnce.run)

def machine [JsonCodec] : Interleaving.Machine Eff Eff.Res Call Choice Shared Cooldowns Reply where
  code := Call.code
  handle := handle
  disturbs s s' := s'.db = s.db

variable (T : Type)

abbrev Event := Interleaving.Event T Eff Eff.Res Call Choice Reply

abbrev System := Interleaving.State T Eff Eff.Res Call Shared Cooldowns Reply

variable {T}

/-- Empty tables, empty cooldown tables and no call in progress; any broker content. -/
def Initial (s : System T) : Prop :=
  s.shared.db = .empty ∧ (∀ t, s.running t = none) ∧ ∀ t target, s.locals t target = none

variable [DecidableEq T] [JsonCodec]

abbrev Step (s : System T) (ev : Event T) (s' : System T) : Prop :=
  Interleaving.Step machine s ev s'

abbrev Steps (s : System T) (evs : List (Event T)) (s' : System T) : Prop :=
  Interleaving.Steps machine s evs s'

/-- Every run of the system from its initial states, with its history, the latest step first. -/
abbrev Runs (h : List (Event T)) (s : System T) : Prop := Interleaving.Runs machine Initial h s

end Orchestrator
