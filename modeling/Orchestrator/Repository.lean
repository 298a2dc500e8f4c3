import Orchestrator.Database

/-!
# The transactions of the repository

Each definition is the body of one `with transaction()` block. The clock text that a
method reads before it opens the block is an argument; `failOrRetry` reads the clock
inside, after its SELECT.
-/

namespace Orchestrator

open Table Transaction
set_option autoImplicit false

/-- The statements of one transaction. -/
abbrev Sql (α : Type) := Tx Database PyExc α

namespace Sql

def ofExcept {α : Type} : Except PyExc α → Sql α
  | .ok a => pure a
  | .error x => .raise x

@[simp] theorem exec_ofExcept {α : Type} (x : Except PyExc α) (db : Database) :
    (ofExcept x).exec db = x.map fun a => (a, db) := by
  cases x <;> rfl

def updateRequest (requestId : String) (values : Values) : Sql Unit :=
  .execute fun db => .ok (db.update requestId values)

/-- `_append_event`. -/
def appendEvent (connection : Connection) (requestId : String) (status : AutomationStatus)
    (detail createdAt : String) : Sql Unit :=
  .execute (·.insertEvent connection requestId status detail createdAt)

@[simp] theorem exec_updateRequest (id : String) (values : Values) (db : Database) :
    (updateRequest id values).exec db = .ok ((), db.update id values) := rfl

end Sql

/-- `_to_result`. -/
def toResult (row : RequestRow) : Except PyExc AutomationResult := do
  let status ← AutomationStatus.ofValue row.status
  let executionChannel ← ExecutionChannel.ofValue row.executionChannel
  return {
    requestId := row.requestId
    status := status
    executionChannel := executionChannel
    detail := row.detail
    attemptCount := row.attemptCount
    maxAttempts := row.maxAttempts
    createdAt := row.createdAt
    updatedAt := row.updatedAt }

/-- `_eligible_clause`: waiting, and not scheduled after `now`. -/
def RequestRow.eligible (now : String) (row : RequestRow) : Bool :=
  (row.status = AutomationStatus.queued.value || row.status = AutomationStatus.retrying.value) &&
    row.nextAttemptAt.all fun at' => at' ≤ now

/-- The model that `_claim_row` rebuilds from the columns. -/
def RequestRow.toRequest [JsonCodec] (row : RequestRow) : Except PyExc AutomationRequest := do
  let executionChannel ← ExecutionChannel.ofValue row.executionChannel
  let payload ← JsonCodec.loads row.payloadJson
  AutomationRequest.validate row.process row.target executionChannel payload row.idempotencyKey
    row.maxAttempts

def attemptDetail (attemptCount : Int) : String := s!"Execution attempt {attemptCount} started"

def RequestRow.claimValues (row : RequestRow) (now : String) : Values where
  status := AutomationStatus.running.value
  detail := attemptDetail (row.attemptCount + 1)
  attemptCount := some (row.attemptCount + 1)
  updatedAt := now

/-- `_claim_row`. -/
def claimRow [JsonCodec] (connection : Connection) (row : RequestRow) (now : String) :
    Sql (String × AutomationRequest) := do
  Sql.updateRequest row.requestId (row.claimValues now)
  Sql.appendEvent connection row.requestId .running (attemptDetail (row.attemptCount + 1)) now
  let request ← Sql.ofExcept row.toRequest
  return (row.requestId, request)

/-- ORDER BY created_at; rows with equal times come in the engine's order. -/
def Connection.before (connection : Connection) (a b : RequestRow) : Bool :=
  a.createdAt < b.createdAt ||
    a.createdAt = b.createdAt && connection.scanRank a.requestId < connection.scanRank b.requestId

def Database.oldestEligible (db : Database) (connection : Connection) (now : String) :
    Option RequestRow :=
  firstBy connection.before
    (db.requests.filter fun row => row.eligible now && !connection.skips row)

def claimNextTx [JsonCodec] (connection : Connection) (now : String) :
    Sql (Option (String × AutomationRequest)) := do
  match ← Tx.select (·.oldestEligible connection now) with
  | none => return none
  | some row => return some (← claimRow connection row now)

def Database.eligibleRow (db : Database) (connection : Connection) (requestId now : String) :
    Option RequestRow :=
  (db.row? requestId).filter fun row => row.eligible now && !connection.skips row

def claimTx [JsonCodec] (connection : Connection) (requestId now : String) :
    Sql (Option (String × AutomationRequest)) := do
  match ← Tx.select (·.eligibleRow connection requestId now) with
  | none => return none
  | some row => return some (← claimRow connection row now)

def queuedDetail : String := "Request queued for processing"

def submittedRow [JsonCodec] (requestId : String) (request : AutomationRequest) (now : String) :
    RequestRow where
  requestId := requestId
  idempotencyKey := request.idempotencyKey
  process := request.process
  target := request.target
  executionChannel := request.executionChannel.value
  payloadJson := JsonCodec.dumps request.payload
  status := AutomationStatus.queued.value
  detail := queuedDetail
  attemptCount := 0
  maxAttempts := request.maxAttempts
  nextAttemptAt := some now
  createdAt := now
  updatedAt := now

/-- The second transaction of `create`. -/
def insertRequestTx [JsonCodec] (connection : Connection) (requestId : String)
    (request : AutomationRequest) (now : String) : Sql Unit := do
  Tx.execute (·.insertRequest (submittedRow requestId request now))
  Sql.appendEvent connection requestId .queued queuedDetail now

def updateStatusTx (connection : Connection) (requestId : String) (status : AutomationStatus)
    (detail now : String) : Sql Unit := do
  Sql.updateRequest requestId
    { status := status.value, detail := detail, nextAttemptAt := some none, updatedAt := now }
  Sql.appendEvent connection requestId status detail now

def RequestRow.exhausted (row : RequestRow) : Bool := row.attemptCount ≥ row.maxAttempts

def RequestRow.failureStatus (row : RequestRow) : AutomationStatus :=
  if row.exhausted then .deadLetter else .retrying

def RequestRow.failureMessage (row : RequestRow) (detail : String) : String :=
  if row.exhausted then s!"Moved to dead letter after {row.attemptCount} attempts: {detail}"
  else s!"Retry scheduled after attempt {row.attemptCount}: {detail}"

def RequestRow.nextAttempt (row : RequestRow) (now : Instant) (retryDelaySeconds : Int) :
    Except PyExc (Option String) :=
  if row.exhausted then .ok none
  else (now.addSeconds retryDelaySeconds).map fun at' => some at'.isoformat

/-- What `fail_or_retry` does with the row that it has read, and with a reading of the clock. -/
def writeFailureTx (connection : Connection) (requestId detail : String) (retryDelaySeconds : Int)
    (row : RequestRow) (now : Instant) : Sql Unit := do
  let nextAttemptAt ← Sql.ofExcept (row.nextAttempt now retryDelaySeconds)
  Sql.updateRequest requestId
    { status := row.failureStatus.value
      detail := row.failureMessage detail
      nextAttemptAt := some nextAttemptAt
      updatedAt := now.isoformat }
  Sql.appendEvent connection requestId row.failureStatus (row.failureMessage detail) now.isoformat

/-- The block of `fail_or_retry`; `now` is the clock at the time of the block. -/
def failOrRetryTx (connection : Connection) (requestId detail : String) (retryDelaySeconds : Int)
    (now : Instant) : Sql Unit := do
  match ← Tx.select (·.row? requestId) with
  | none => .raise (.keyError s!"'{requestId}'")
  | some row => writeFailureTx connection requestId detail retryDelaySeconds row now

def replayDetail : String :=
  "Dead-letter replay requested by operator; attempt budget reset and request returned to queue"

/-- The block of `replay_dead_letter`; it ends by reading the row back. -/
def replayDeadLetterTx (connection : Connection) (requestId now : String) : Sql RequestRow := do
  match ← Tx.select (·.row? requestId) with
  | none => .raise (.keyError s!"'{requestId}'")
  | some row =>
    if row.status ≠ AutomationStatus.deadLetter.value then
      .raise (.valueError "Only dead-letter requests can be replayed")
    else
      Sql.updateRequest requestId
        { status := AutomationStatus.queued.value
          detail := replayDetail
          attemptCount := some 0
          nextAttemptAt := some (some now)
          updatedAt := now }
      Sql.appendEvent connection requestId .queued replayDetail now
      match ← Tx.select (·.row? requestId) with
      | some updated => return updated
      | none => .raise (.other "No row was found when one was required")

end Orchestrator
