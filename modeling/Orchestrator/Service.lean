import Orchestrator.Effects

/-!
# Repository methods, dispatch and the service

The methods of `AutomationRepository`, the two dispatch queues, `AutomationService`
and the replay endpoint, as programs over the effects.
-/

namespace Orchestrator

open Interaction
set_option autoImplicit false

namespace AutomationRepository

/-- The pre-check of `create`; an empty key or id counts as absent, as in `if existing`. -/
def findExisting (idempotencyKey : Option String) : Py (Option String) :=
  match idempotencyKey.filter (· ≠ "") with
  | none => return none
  | some key => do
    let existing ← Py.transaction (.selectByKey key)
    return existing.filter (· ≠ "")

def insertOrFind (requestId : String) (request : AutomationRequest) (now : String) :
    Py String := do
  match ← (Py.transaction (.insertRequest requestId request now)).attempt with
  | .ok () => return requestId
  | .error exc =>
    if exc.isIntegrityError then
      match request.idempotencyKey.filter (· ≠ "") with
      | none => throw exc
      | some key =>
        match ← Py.transaction (.selectByKey key) with
        | none => throw exc
        | some existing => return existing
    else throw exc

def create (requestId : String) (request : AutomationRequest) : Py String := do
  let now ← Py.utcNow
  match ← findExisting request.idempotencyKey with
  | some existing => return existing
  | none => insertOrFind requestId request now

def claimNext : Py (Option (String × AutomationRequest)) := do
  let now ← Py.utcNow
  Py.transaction (.claimNext now)

def claim (requestId : String) : Py (Option (String × AutomationRequest)) := do
  let now ← Py.utcNow
  Py.transaction (.claim requestId now)

def updateStatus (requestId : String) (status : AutomationStatus) (detail : String) :
    Py Unit := do
  let now ← Py.utcNow
  Py.transaction (.updateStatus requestId status detail now)

def complete (requestId detail : String) : Py Unit := updateStatus requestId .completed detail

def failOrRetry (requestId detail : String) (retryDelaySeconds : Int) : Py Unit :=
  Py.transaction (.failOrRetry requestId detail retryDelaySeconds)

def replayDeadLetter (requestId : String) : Py AutomationResult := do
  let now ← Py.utcNow
  let updated ← Py.transaction (.replayDeadLetter requestId now)
  Py.ofExcept (toResult updated)

def get (requestId : String) : Py (Option AutomationResult) := do
  match ← Py.transaction (.get requestId) with
  | none => return none
  | some row => return some (← Py.ofExcept (toResult row))

end AutomationRepository

/-- `client` tells whether the Redis queue was given a client or makes one from its URL. -/
inductive DispatchQueue where
  | database
  | redis (redisUrl queueName : String) (client : Bool)

namespace DispatchQueue

def brokered : DispatchQueue → Bool
  | database => false
  | redis .. => true

/-- `RedisDispatchQueue._client`. -/
def connect (redisUrl : String) (client : Bool) : Py Unit :=
  if client then pure () else ExceptT.mk (Prog.perform (Eff.redisFromUrl redisUrl))

def publish : DispatchQueue → String → Py Unit
  | database, _ => pure ()
  | redis redisUrl queueName client, requestId => do
    connect redisUrl client
    ExceptT.mk (Prog.perform (Eff.rpush queueName requestId))

def consume : DispatchQueue → Py (Option String)
  | database => pure none
  | redis redisUrl queueName client => do
    connect redisUrl client
    ExceptT.mk (Prog.perform (Eff.blpop queueName))

end DispatchQueue

def unsupportedBackend (backend : String) : PyExc :=
  .valueError s!"Unsupported DISPATCH_BACKEND: {backend}"

def getDispatchQueue : Py DispatchQueue := do
  let backend := lower (strip ((← Py.ask (.getenv "DISPATCH_BACKEND")).getD "database"))
  if backend = "database" then return .database
  else if backend = "redis" then do
    let redisUrl := (← Py.ask (.getenv "REDIS_URL")).getD "redis://localhost:6379/0"
    let queueName := (← Py.ask (.getenv "REDIS_QUEUE_NAME")).getD "automation:requests"
    return .redis redisUrl queueName false
  else throw (unsupportedBackend backend)

/-- `self.dispatch or get_dispatch_queue()`. -/
def dispatcherOr : Option DispatchQueue → Py DispatchQueue
  | some dispatch => pure dispatch
  | none => getDispatchQueue

structure AutomationService where
  dispatch : Option DispatchQueue

namespace AutomationService

/-- The choice of a dispatcher and the publication after a commit. -/
def announce (self : AutomationService) (requestId : String) : Py Unit := do
  let dispatcher ← dispatcherOr self.dispatch
  if dispatcher.brokered then dispatcher.publish requestId else pure ()

/-- The end of `submit`: the row is read back. -/
def readBack (requestId : String) : Py AutomationResult := do
  match ← AutomationRepository.get requestId with
  | none => throw (.runtimeError s!"Request {requestId} was not persisted")
  | some result => return result

def submit (self : AutomationService) (request : AutomationRequest) : Py AutomationResult := do
  let candidateId ← Py.ask .uuid4
  let requestId ← AutomationRepository.create candidateId request
  self.announce requestId
  readBack requestId

def replayDeadLetter (self : AutomationService) (requestId : String) : Py AutomationResult := do
  let result ← AutomationRepository.replayDeadLetter requestId
  self.announce requestId
  return result

end AutomationService

/-- What an endpoint answers: a status code, with the result or the error detail. -/
structure Response where
  statusCode : Nat
  content : Except String AutomationResult

/-- `POST /automation-requests/{request_id}/replay`; the framework answers 500 to what it
does not handle. -/
def replayDeadLetterRequest (requestId : String) : Prog Eff Eff.Res Response := do
  match ← (AutomationService.replayDeadLetter ⟨none⟩ requestId).run with
  | .ok result => return ⟨200, .ok result⟩
  | .error exc =>
    if exc.isKeyError then return ⟨404, .error "Automation request not found"⟩
    else if exc.isValueError then return ⟨409, .error exc.str⟩
    else return ⟨500, .error "Internal Server Error"⟩

end Orchestrator
