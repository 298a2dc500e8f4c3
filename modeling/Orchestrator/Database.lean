import Mathlib.Data.List.Sort
import Orchestrator.Clock
import Orchestrator.Library.Table
import Orchestrator.Library.Transaction
import Orchestrator.Models

/-!
# The two tables

`automation_requests` with its primary key and its unique idempotency key, and the
append-only `automation_events`. The constraints that the database enforces are
fields, so a table that violates one cannot be built.
-/

namespace Orchestrator

open Table
set_option autoImplicit false

structure RequestRow where
  requestId : String
  idempotencyKey : Option String
  process : String
  target : String
  executionChannel : String
  payloadJson : String
  status : String
  detail : String
  attemptCount : Int
  maxAttempts : Int
  nextAttemptAt : Option String
  createdAt : String
  updatedAt : String
deriving DecidableEq

structure EventRow where
  eventId : Nat
  requestId : String
  status : String
  detail : String
  createdAt : String
deriving DecidableEq

/-- The SET list of an UPDATE; `none` leaves a column out. -/
structure Values where
  status : String
  detail : String
  attemptCount : Option Int := none
  nextAttemptAt : Option (Option String) := none
  updatedAt : String

def RequestRow.set (row : RequestRow) (values : Values) : RequestRow :=
  { row with
    status := values.status
    detail := values.detail
    attemptCount := values.attemptCount.getD row.attemptCount
    nextAttemptAt := values.nextAttemptAt.getD row.nextAttemptAt
    updatedAt := values.updatedAt }

@[simp] theorem RequestRow.set_requestId (row : RequestRow) (values : Values) :
    (row.set values).requestId = row.requestId := rfl

structure Database where
  requests : List RequestRow
  events : List EventRow
  lastEventId : Nat
  primaryKey : (requests.map (·.requestId)).Nodup
  uniqueKey : (requests.filterMap (·.idempotencyKey)).Nodup

inductive Dialect where
  | sqlite
  | postgresql
deriving DecidableEq

/-- What a connection brings to a transaction: its dialect, whether it enforces foreign
keys, the rows that other open transactions keep locked, and the order in which the
engine visits rows that ORDER BY does not tell apart. -/
structure Connection where
  dialect : Dialect
  foreignKeys : Bool
  locked : List String
  scanRank : String → Nat

/-- `FOR UPDATE SKIP LOCKED` passes over locked rows, on PostgreSQL only. -/
def Connection.skips (connection : Connection) (row : RequestRow) : Bool :=
  connection.dialect = .postgresql && row.requestId ∈ connection.locked

namespace Database

def empty : Database := ⟨[], [], 0, .nil, .nil⟩

def row? (db : Database) (requestId : String) : Option RequestRow :=
  lookup RequestRow.requestId requestId db.requests

def keyTaken (db : Database) : Option String → Bool
  | none => false
  | some key => key ∈ db.requests.filterMap (·.idempotencyKey)

/-- The row with an idempotency key, as `scalar_one_or_none` returns it. -/
def selectByKey (db : Database) (key : String) : Option String :=
  (db.requests.find? fun row => row.idempotencyKey = some key).map (·.requestId)

def insertRequest (row : RequestRow) (db : Database) : Except PyExc Database :=
  if hpk : row.requestId ∈ db.requests.map (·.requestId) then
    .error (.integrityError "automation_requests_pkey")
  else if huk : db.keyTaken row.idempotencyKey = true then
    .error (.integrityError "automation_requests_idempotency_key_key")
  else .ok
    { db with
      requests := db.requests ++ [row]
      primaryKey := by
        have h := db.primaryKey
        simp only [List.map_append, List.map_cons, List.map_nil]
        exact List.Nodup.append h (List.nodup_singleton _) (by simpa using hpk)
      uniqueKey := by
        have h := db.uniqueKey
        cases hk : row.idempotencyKey with
        | none => simpa [List.filterMap_append, hk] using h
        | some key =>
          simp only [List.filterMap_append, List.filterMap_cons, hk, List.filterMap_nil]
          exact List.Nodup.append h (List.nodup_singleton _) (by simpa [keyTaken, hk] using huk) }

/-- UPDATE … WHERE request_id = …; no UPDATE of the program sets a key column. -/
def update (requestId : String) (values : Values) (db : Database) : Database :=
  { db with
    requests := updateAt RequestRow.requestId requestId (·.set values) db.requests
    primaryKey := by
      rw [map_key_updateAt (by simp)]
      exact db.primaryKey
    uniqueKey := by
      have h : (updateAt RequestRow.requestId requestId (·.set values) db.requests).filterMap
          (·.idempotencyKey) = db.requests.filterMap (·.idempotencyKey) := by
        rw [updateAt, List.filterMap_map]
        congr 1
        funext row
        simp only [Function.comp_apply]
        split <;> rfl
      rw [h]
      exact db.uniqueKey }

def appendEvent (requestId : String) (status : AutomationStatus) (detail createdAt : String)
    (db : Database) : Database :=
  { db with
    events := db.events ++ [⟨db.lastEventId + 1, requestId, status.value, detail, createdAt⟩]
    lastEventId := db.lastEventId + 1 }

def insertEvent (connection : Connection) (requestId : String) (status : AutomationStatus)
    (detail createdAt : String) (db : Database) : Except PyExc Database :=
  if connection.foreignKeys = true ∧ db.row? requestId = none then
    .error (.integrityError "automation_events_request_id_fkey")
  else .ok (db.appendEvent requestId status detail createdAt)

/-- The events of a request in the order of `event_id`. -/
def auditLog (db : Database) (requestId : String) : List EventRow :=
  (entriesOf EventRow.requestId requestId db.events).insertionSort fun a b => a.eventId ≤ b.eventId

theorem row?_requestId {db : Database} {id : String} {row : RequestRow}
    (h : db.row? id = some row) : row.requestId = id := lookup_key h

theorem row?_of_mem {db : Database} {row : RequestRow} (h : row ∈ db.requests) :
    db.row? row.requestId = some row := lookup_of_mem db.primaryKey h

@[simp] theorem row?_appendEvent (db : Database) (id id' : String) (status : AutomationStatus)
    (detail at' : String) : (db.appendEvent id status detail at').row? id' = db.row? id' := rfl

@[simp] theorem row?_update (db : Database) (id id' : String) (values : Values) :
    (db.update id values).row? id' =
      (db.row? id').map fun row => if id' = id then row.set values else row :=
  lookup_updateAt (by simp)

theorem insertRequest_ok {row : RequestRow} {db db' : Database}
    (h : db.insertRequest row = .ok db') :
    db.row? row.requestId = none ∧ db.keyTaken row.idempotencyKey = false ∧
      db'.requests = db.requests ++ [row] ∧ db'.events = db.events ∧
      db'.lastEventId = db.lastEventId := by
  unfold insertRequest at h
  split at h
  · cases h
  · next hpk =>
    split at h
    · cases h
    · next huk =>
      cases h
      exact ⟨lookup_eq_none.mpr hpk, by simpa using huk, rfl, rfl, rfl⟩

theorem row?_insertRequest {row : RequestRow} {db db' : Database}
    (h : db.insertRequest row = .ok db') (id : String) :
    db'.row? id = if row.requestId = id then some row else db.row? id := by
  obtain ⟨hnone, -, hreq, -, -⟩ := insertRequest_ok h
  rw [row?, hreq]
  exact lookup_append_singleton (lookup_eq_none.mp hnone)

theorem insertEvent_ok {connection : Connection} {db db' : Database} {id : String}
    {status : AutomationStatus} {detail at' : String}
    (h : db.insertEvent connection id status detail at' = .ok db') :
    db' = db.appendEvent id status detail at' := by
  unfold insertEvent at h
  split at h <;> simp_all

theorem insertEvent_of_row (connection : Connection) {db : Database} {id : String}
    {row : RequestRow} (h : db.row? id = some row) (status : AutomationStatus)
    (detail at' : String) :
    db.insertEvent connection id status detail at' = .ok (db.appendEvent id status detail at') := by
  simp [insertEvent, h]

end Database

end Orchestrator
