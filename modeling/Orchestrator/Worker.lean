import Orchestrator.Service

/-!
# The worker
-/

namespace Orchestrator

open Interaction Library
set_option autoImplicit false

structure AutomationWorker where
  retryDelaySeconds : Int
  maxRetryDelaySeconds : Int
  jitterRatio : Float64
  dispatch : Option DispatchQueue

namespace AutomationWorker

def backoffBase (self : AutomationWorker) (attempt : Int) : Int :=
  min self.maxRetryDelaySeconds (self.retryDelaySeconds * 2 ^ (max 0 (attempt - 1)).toNat)

/-- `_backoff` for a given random draw: the cap applies before the jitter. -/
def backoffFor (self : AutomationWorker) (attempt : Int) (draw : ℚ) : Except FloatError Int := do
  let base := self.backoffBase attempt
  let jitter := ((← Float64.ofInt base).mul self.jitterRatio).mul (.fin draw)
  return max 0 (← ((← Float64.ofInt base).add jitter).toInt)

def backoff (self : AutomationWorker) (attempt : Int) : Py Int := do
  let draw ← Py.ask .random
  Py.ofFloat (self.backoffFor attempt draw)

/-- The first half of `run_once`: a broker message first, the oldest eligible row otherwise. -/
def claimWork (self : AutomationWorker) : Py (Option (String × AutomationRequest)) := do
  let dispatcher ← dispatcherOr self.dispatch
  if dispatcher.brokered then
    match ← dispatcher.consume with
    | none => AutomationRepository.claimNext
    | some requestId =>
      match ← AutomationRepository.claim requestId with
      | some claimed => return some claimed
      | none => AutomationRepository.claimNext
  else AutomationRepository.claimNext

def coolingDetail (target : String) : String := s!"Target '{target}' is cooling down"

/-- `max(1, int(cooldown_until - time.monotonic()))`. -/
def deferralDelay (cooldownUntil : Float64) (monotonic : ℚ) : Except FloatError Int := do
  return max 1 (← (cooldownUntil.sub (.fin monotonic)).toInt)

def deferTarget (requestId : String) (request : AutomationRequest) (cooldownUntil : Float64) :
    Py Unit := do
  let delay ← Py.ofFloat (deferralDelay cooldownUntil (← Py.ask .monotonic))
  AutomationRepository.failOrRetry requestId (coolingDetail request.target) delay

def currentAttempt (requestId : String) : Py Int := do
  match ← AutomationRepository.get requestId with
  | some result => return result.attemptCount
  | none => return 1

/-- `time.monotonic() + retry_delay`. -/
def cooldownUntil (monotonic : ℚ) (retryDelay : Int) : Except FloatError Float64 := do
  return (Float64.fin monotonic).add (← Float64.ofInt retryDelay)

/-- The `except RetryableAdapterError` clause. -/
def rateLimited (self : AutomationWorker) (requestId : String) (request : AutomationRequest)
    (text : String) (retryAfterSeconds : Option Int) : Py Unit := do
  let attempt ← currentAttempt requestId
  match retryAfterSeconds with
  | some retryDelay =>
    let deadline ← Py.ofFloat (cooldownUntil (← Py.ask .monotonic) retryDelay)
    Py.ask (.cooldownSet request.target deadline)
    AutomationRepository.failOrRetry requestId text retryDelay
  | none =>
    let retryDelay ← self.backoff attempt
    AutomationRepository.failOrRetry requestId text retryDelay

/-- The `except Exception` clause. -/
def executionFailed (self : AutomationWorker) (requestId : String) (exc : PyExc) : Py Unit := do
  let attempt ← currentAttempt requestId
  let retryDelay ← self.backoff attempt
  AutomationRepository.failOrRetry requestId exc.str retryDelay

def runAdapter (self : AutomationWorker) (requestId : String) (request : AutomationRequest) :
    Py Unit := do
  match ← Py.ask (.execute requestId request) with
  | .error (.retryableAdapterError text retryAfterSeconds) =>
    self.rateLimited requestId request text retryAfterSeconds
  | .error exc => self.executionFailed requestId exc
  | .ok detail =>
    Py.ask (.cooldownPop request.target)
    AutomationRepository.complete requestId detail

/-- The second half of `run_once`, for the request that was claimed. -/
def processClaimed (self : AutomationWorker) (requestId : String) (request : AutomationRequest) :
    Py Unit := do
  let cooldownUntil := (← Py.ask (.cooldownGet request.target)).getD (.fin 0)
  let monotonic ← Py.ask .monotonic
  if Float64.lt (.fin monotonic) cooldownUntil then deferTarget requestId request cooldownUntil
  else self.runAdapter requestId request

def runOnce (self : AutomationWorker) : Py Bool := do
  match ← self.claimWork with
  | none => return false
  | some (requestId, request) =>
    self.processClaimed requestId request
    return true

end AutomationWorker

end Orchestrator
