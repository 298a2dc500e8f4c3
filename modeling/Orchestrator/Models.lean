import Orchestrator.Python

/-!
# Requests, results and the lifecycle states
-/

namespace Orchestrator

set_option autoImplicit false

inductive ExecutionChannel where
  | api
  | rpa
deriving DecidableEq

namespace ExecutionChannel

def value : ExecutionChannel → String
  | api => "api"
  | rpa => "rpa"

/-- `ExecutionChannel(value)`. -/
def ofValue (s : String) : Except PyExc ExecutionChannel :=
  if s = "api" then .ok api
  else if s = "rpa" then .ok rpa
  else .error (.valueError s!"'{s}' is not a valid ExecutionChannel")

@[simp] theorem ofValue_value (c : ExecutionChannel) : ofValue c.value = .ok c := by
  cases c <;> rfl

end ExecutionChannel

inductive AutomationStatus where
  | accepted
  | queued
  | running
  | retrying
  | completed
  | failed
  | deadLetter
deriving DecidableEq

namespace AutomationStatus

def value : AutomationStatus → String
  | accepted => "accepted"
  | queued => "queued"
  | running => "running"
  | retrying => "retrying"
  | completed => "completed"
  | failed => "failed"
  | deadLetter => "dead_letter"

def all : List AutomationStatus :=
  [accepted, queued, running, retrying, completed, failed, deadLetter]

/-- `AutomationStatus(value)`. -/
def ofValue (s : String) : Except PyExc AutomationStatus :=
  match all.find? fun status => status.value = s with
  | some status => .ok status
  | none => .error (.valueError s!"'{s}' is not a valid AutomationStatus")

@[simp] theorem ofValue_value (s : AutomationStatus) : ofValue s.value = .ok s := by
  cases s <;> rfl

@[simp] theorem value_inj {s t : AutomationStatus} : s.value = t.value ↔ s = t := by
  constructor
  · intro h
    have hst := congrArg ofValue h
    simpa using hst
  · exact congrArg value

end AutomationStatus

/-- The fields that pydantic reports for a request, in the order of the model. -/
def AutomationRequest.invalidFields (process target : String) (payload : Json)
    (idempotencyKey : Option String) (maxAttempts : Int) : List String :=
  (if 1 ≤ process.length ∧ process.length ≤ 100 then [] else ["process"]) ++
  (if 1 ≤ target.length ∧ target.length ≤ 100 then [] else ["target"]) ++
  (match payload with
    | .obj _ => []
    | _ => ["payload"]) ++
  (match idempotencyKey with
    | none => []
    | some key => if 8 ≤ key.length ∧ key.length ≤ 128 then [] else ["idempotency_key"]) ++
  (if 1 ≤ maxAttempts ∧ maxAttempts ≤ 10 then [] else ["max_attempts"])

/-- A submission that its model accepts. -/
structure AutomationRequest where
  process : String
  target : String
  executionChannel : ExecutionChannel
  payload : List (PyStr × Json)
  idempotencyKey : Option String
  maxAttempts : Int
  valid : AutomationRequest.invalidFields process target (.obj payload) idempotencyKey
    maxAttempts = []

namespace AutomationRequest

/-- The constructor of the model: it validates, or raises with the fields at fault. -/
def validate [JsonCodec] (process target : String) (executionChannel : ExecutionChannel)
    (payload : Json) (idempotencyKey : Option String) (maxAttempts : Int) :
    Except PyExc AutomationRequest :=
  match payload with
  | .obj entries =>
    if h : invalidFields process target (.obj entries) idempotencyKey maxAttempts = [] then
      .ok ⟨process, target, executionChannel, entries, idempotencyKey, maxAttempts, h⟩
    else .error (.invalid
      (invalidFields process target (.obj entries) idempotencyKey maxAttempts))
  | payload => .error (.invalid
      (invalidFields process target payload idempotencyKey maxAttempts))

theorem maxAttempts_range (r : AutomationRequest) : 1 ≤ r.maxAttempts ∧ r.maxAttempts ≤ 10 := by
  have h := r.valid
  unfold invalidFields at h
  simp only [List.append_eq_nil_iff, ite_eq_left_iff] at h
  by_contra hn
  exact absurd (h.2 hn) (by simp)

theorem key_ne_empty (r : AutomationRequest) {key : String} (hk : r.idempotencyKey = some key) :
    key ≠ "" := by
  have h := r.valid
  rintro rfl
  unfold invalidFields at h
  simp only [hk, List.append_eq_nil_iff] at h
  exact absurd h.1.2 (by decide)

/-- A request that was rebuilt from columns has exactly those columns. -/
theorem validate_ok [JsonCodec] {process target : String} {channel : ExecutionChannel}
    {payload : Json} {key : Option String} {maxAttempts : Int} {r : AutomationRequest}
    (h : validate process target channel payload key maxAttempts = .ok r) :
    r.process = process ∧ r.target = target ∧ r.executionChannel = channel ∧
      payload = .obj r.payload ∧ r.idempotencyKey = key ∧ r.maxAttempts = maxAttempts := by
  unfold validate at h
  split at h
  · split at h
    · cases h
      exact ⟨rfl, rfl, rfl, rfl, rfl, rfl⟩
    · cases h
  · cases h

end AutomationRequest

def sampleRequest : AutomationRequest where
  process := "invoice"
  target := "erp"
  executionChannel := .api
  payload := []
  idempotencyKey := some "invoice-1"
  maxAttempts := 1
  valid := by decide

structure AutomationResult where
  requestId : String
  status : AutomationStatus
  executionChannel : ExecutionChannel
  detail : String
  attemptCount : Int
  maxAttempts : Int
  createdAt : String
  updatedAt : String
deriving DecidableEq

end Orchestrator
