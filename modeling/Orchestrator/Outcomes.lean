import Orchestrator.Effects

/-!
# What each transaction can do

A transition writes one row and one event together. `Outcome` lists, for every
transaction and every answer, what the commit did to the tables; the invariants of
the later modules are all derived from it.
-/

namespace Orchestrator

open Table Transaction
set_option autoImplicit false

/-- The columns that a transition writes, and the event it appends. -/
structure Transition where
  status : AutomationStatus
  detail : String
  attemptCount : Option Int := none
  nextAttemptAt : Option (Option String) := none
  time : String

def Transition.values (tr : Transition) : Values :=
  ⟨tr.status.value, tr.detail, tr.attemptCount, tr.nextAttemptAt, tr.time⟩

def Database.move (db : Database) (requestId : String) (tr : Transition) : Database :=
  (db.update requestId tr.values).appendEvent requestId tr.status tr.detail tr.time

namespace RequestRow

variable (row : RequestRow)

def started (now : String) : Transition where
  status := .running
  detail := attemptDetail (row.attemptCount + 1)
  attemptCount := some (row.attemptCount + 1)
  time := now

def settled (detail : String) (nextAttemptAt : Option String) (now : String) : Transition where
  status := row.failureStatus
  detail := row.failureMessage detail
  nextAttemptAt := some nextAttemptAt
  time := now

variable {row}

theorem nextAttempt_ok {now : Instant} {delay : Int} {nextAttemptAt : Option String}
    (h : row.nextAttempt now delay = .ok nextAttemptAt) :
    row.exhausted = true ∧ nextAttemptAt = none ∨ row.exhausted = false ∧
      ∃ at', now.addSeconds delay = .ok at' ∧ nextAttemptAt = some at'.isoformat := by
  unfold nextAttempt at h
  by_cases hexhausted : row.exhausted = true
  · rw [if_pos hexhausted] at h
    cases h
    exact .inl ⟨hexhausted, rfl⟩
  · rw [if_neg hexhausted] at h
    cases hadd : now.addSeconds delay with
    | error exc =>
      rw [hadd] at h
      cases h
    | ok at' =>
      rw [hadd] at h
      cases h
      exact .inr ⟨by simpa using hexhausted, at', rfl, rfl⟩

theorem addSeconds_of_nextAttempt_error {now : Instant} {delay : Int} {exc : PyExc}
    (h : row.nextAttempt now delay = .error exc) : now.addSeconds delay = .error exc := by
  unfold nextAttempt at h
  split at h
  · cases h
  · cases hadd : now.addSeconds delay with
    | error exc' =>
      rw [hadd] at h
      cases h
      rfl
    | ok at' =>
      rw [hadd] at h
      cases h

end RequestRow

def Transition.completed (status : AutomationStatus) (detail now : String) : Transition where
  status := status
  detail := detail
  nextAttemptAt := some none
  time := now

def Transition.replayed (now : String) : Transition where
  status := .queued
  detail := replayDetail
  attemptCount := some 0
  nextAttemptAt := some (some now)
  time := now

def Database.HasStatus (db : Database) (requestId : String) (status : AutomationStatus) : Prop :=
  ∃ row, db.row? requestId = some row ∧ row.status = status.value

theorem Database.row?_move (db : Database) (id id' : String) (tr : Transition) :
    (db.move id tr).row? id' =
      (db.row? id').map fun row => if id' = id then row.set tr.values else row := by
  rw [move, row?_appendEvent, row?_update]

theorem Database.row?_move_self {db : Database} {id : String} {row : RequestRow} (tr : Transition)
    (hrow : db.row? id = some row) : (db.move id tr).row? id = some (row.set tr.values) := by
  simp [row?_move, hrow]

theorem Database.row?_move_of_ne {db : Database} {id id' : String} (tr : Transition)
    (hne : id' ≠ id) : (db.move id tr).row? id' = db.row? id' := by
  simp [row?_move, hne]

theorem Database.HasStatus.move_of_ne {db : Database} {id id' : String} {status : AutomationStatus}
    (hst : db.HasStatus id' status) (tr : Transition) (hne : id' ≠ id) :
    (db.move id tr).HasStatus id' status := by
  obtain ⟨row, hrow, hst⟩ := hst
  exact ⟨row, by rw [row?_move_of_ne tr hne, hrow], hst⟩

theorem Database.HasStatus.of_move {db : Database} {id id' : String} {tr : Transition}
    {status : AutomationStatus} (hst : (db.move id tr).HasStatus id' status)
    (htr : tr.status ≠ status) : id' ≠ id ∧ db.HasStatus id' status := by
  obtain ⟨row, hrow, hstatus⟩ := hst
  rw [Database.row?_move, Option.map_eq_some_iff] at hrow
  obtain ⟨old, hold, rfl⟩ := hrow
  split at hstatus
  · exact absurd (AutomationStatus.value_inj.mp hstatus) htr
  · next hne => exact ⟨hne, old, hold, hstatus⟩

variable {connection : Connection} {clock : Instant} {db db' : Database}

theorem oldestEligible_spec {now : String} {row : RequestRow}
    (h : db.oldestEligible connection now = some row) :
    db.row? row.requestId = some row ∧ row.eligible now = true := by
  have hmem := firstBy_mem _ h
  simp only [List.mem_filter, Bool.and_eq_true] at hmem
  exact ⟨Database.row?_of_mem hmem.1, hmem.2.1⟩

theorem eligibleRow_spec {id now : String} {row : RequestRow}
    (h : db.eligibleRow connection id now = some row) :
    db.row? id = some row ∧ row.eligible now = true := by
  simp only [Database.eligibleRow, Option.filter_eq_some_iff, Bool.and_eq_true] at h
  exact ⟨h.1, h.2.1⟩

theorem insertEvent_map_ok {id : String} {status : AutomationStatus} {detail now : String}
    (h : ((db.insertEvent connection id status detail now).map fun s => ((), s)) =
      .ok ((), db')) : db' = db.appendEvent id status detail now := by
  cases hins : db.insertEvent connection id status detail now with
  | error x => simp [hins, Except.map] at h
  | ok db₁ =>
    simp only [hins, Except.map, Except.ok.injEq, Prod.mk.injEq, true_and] at h
    rw [← h]
    exact Database.insertEvent_ok hins

theorem exec_updateStatusTx {id : String} {status : AutomationStatus} {detail now : String}
    (h : (updateStatusTx connection id status detail now).exec db = .ok ((), db')) :
    db' = db.move id (.completed status detail now) := by
  simp only [updateStatusTx, Sql.appendEvent, Tx.exec_bind, Sql.exec_updateRequest,
    Tx.exec_execute] at h
  exact insertEvent_map_ok h

theorem exec_move {id : String} {row : RequestRow} (hrow : db.row? id = some row)
    (connection : Connection) (tr : Transition) :
    (db.update id tr.values).insertEvent connection id tr.status tr.detail tr.time =
      .ok (db.move id tr) := by
  have hrow' : (db.update id tr.values).row? id = some (row.set tr.values) := by simp [hrow]
  exact Database.insertEvent_of_row connection hrow' tr.status tr.detail tr.time

theorem updateStatusTx_eq (connection : Connection) (status : AutomationStatus)
    (detail now : String) {id : String} {row : RequestRow} (hrow : db.row? id = some row) :
    (updateStatusTx connection id status detail now).exec db =
      .ok ((), db.move id (.completed status detail now)) := by
  have hmove := exec_move hrow connection (.completed status detail now)
  simp only [updateStatusTx, Sql.appendEvent, Tx.exec_bind, Sql.exec_updateRequest,
    Tx.exec_execute]
  exact congrArg (Except.map fun db' => ((), db')) hmove

theorem writeFailureTx_eq (connection : Connection) (clock : Instant) (detail : String)
    (delay : Int) (seen : RequestRow) {id : String} {row : RequestRow}
    (hrow : db.row? id = some row) :
    (writeFailureTx connection id detail delay seen clock).exec db =
      (seen.nextAttempt clock delay).map fun nextAttemptAt =>
        ((), db.move id (seen.settled detail nextAttemptAt clock.isoformat)) := by
  simp only [writeFailureTx, Tx.exec_bind, Sql.exec_ofExcept]
  cases hnext : seen.nextAttempt clock delay with
  | error x => rfl
  | ok nextAttemptAt =>
    have hmove := exec_move hrow connection (seen.settled detail nextAttemptAt clock.isoformat)
    simp only [RequestRow.settled, Transition.values] at hmove
    simp only [Except.map, Sql.exec_updateRequest, Sql.appendEvent, Tx.exec_execute, hmove]
    rfl

theorem exec_writeFailureTx {id detail : String} {delay : Int} {seen : RequestRow}
    (h : (writeFailureTx connection id detail delay seen clock).exec db = .ok ((), db')) :
    ∃ nextAttemptAt, seen.nextAttempt clock delay = .ok nextAttemptAt ∧
      db' = db.move id (seen.settled detail nextAttemptAt clock.isoformat) := by
  simp only [writeFailureTx, Tx.exec_bind, Sql.exec_ofExcept] at h
  cases hnext : seen.nextAttempt clock delay with
  | error x => simp [hnext, Except.map] at h
  | ok nextAttemptAt =>
    simp only [hnext, Except.map, Sql.exec_updateRequest, Sql.appendEvent, Tx.exec_execute] at h
    exact ⟨nextAttemptAt, rfl, insertEvent_map_ok h⟩

theorem failOrRetryTx_eq (connection : Connection) (clock : Instant) (detail : String)
    (delay : Int) {id : String} {row : RequestRow} (hrow : db.row? id = some row) :
    (failOrRetryTx connection id detail delay clock).exec db =
      (row.nextAttempt clock delay).map fun nextAttemptAt =>
        ((), db.move id (row.settled detail nextAttemptAt clock.isoformat)) := by
  simp only [failOrRetryTx, Tx.exec_bind, Tx.exec_select, hrow]
  exact writeFailureTx_eq connection clock detail delay row hrow

theorem commit_failOrRetryTx {id detail : String} {delay : Int} {row : RequestRow}
    {r : Except PyExc Unit} (hrow : db.row? id = some row)
    (h : (failOrRetryTx connection id detail delay clock).commit db = (r, db')) :
    (∃ nextAttemptAt, row.nextAttempt clock delay = .ok nextAttemptAt ∧ r = .ok () ∧
      db' = db.move id (row.settled detail nextAttemptAt clock.isoformat)) ∨
    ∃ exc, row.nextAttempt clock delay = .error exc ∧ r = .error exc ∧ db' = db := by
  have hexec := failOrRetryTx_eq connection clock detail delay hrow
  cases hnext : row.nextAttempt clock delay with
  | ok nextAttemptAt =>
    rw [hnext] at hexec
    cases (Tx.commit_of_ok hexec).symm.trans h
    exact .inl ⟨nextAttemptAt, rfl, rfl, rfl⟩
  | error exc =>
    rw [hnext] at hexec
    cases (Tx.commit_of_error hexec).symm.trans h
    exact .inr ⟨exc, rfl, rfl, rfl⟩

theorem exec_failOrRetryTx {id detail : String} {delay : Int}
    (h : (failOrRetryTx connection id detail delay clock).exec db = .ok ((), db')) :
    ∃ row nextAttemptAt, db.row? id = some row ∧
      row.nextAttempt clock delay = .ok nextAttemptAt ∧
      db' = db.move id (row.settled detail nextAttemptAt clock.isoformat) := by
  cases hrow : db.row? id with
  | none =>
    simp only [failOrRetryTx, Tx.exec_bind, Tx.exec_select, hrow] at h
    cases h
  | some row =>
    simp only [failOrRetryTx, Tx.exec_bind, Tx.exec_select, hrow] at h
    obtain ⟨nextAttemptAt, hnext, hdb⟩ := exec_writeFailureTx h
    exact ⟨row, nextAttemptAt, rfl, hnext, hdb⟩

theorem replayDeadLetterTx_eq (connection : Connection) (now : String) {id : String}
    {row : RequestRow} (hrow : db.row? id = some row)
    (hdead : row.status = AutomationStatus.deadLetter.value) :
    (replayDeadLetterTx connection id now).exec db =
      .ok (row.set (Transition.replayed now).values, db.move id (.replayed now)) := by
  have hmove := exec_move hrow connection (.replayed now)
  have hread := Database.row?_move_self (.replayed now) hrow
  simp only [Transition.replayed, Transition.values] at hmove hread ⊢
  simp only [replayDeadLetterTx, Tx.exec_bind, Tx.exec_select, hrow, hdead, ne_eq,
    not_true_eq_false, if_false, Sql.exec_updateRequest, Sql.appendEvent, Tx.exec_execute, hmove,
    Except.map, hread, Tx.exec_pure]

theorem exec_replayDeadLetterTx {id now : String} {updated : RequestRow}
    (h : (replayDeadLetterTx connection id now).exec db = .ok (updated, db')) :
    ∃ row, db.row? id = some row ∧ row.status = AutomationStatus.deadLetter.value ∧
      db' = db.move id (.replayed now) ∧ db'.row? id = some updated := by
  cases hrow : db.row? id with
  | none =>
    simp only [replayDeadLetterTx, Tx.exec_bind, Tx.exec_select, hrow] at h
    cases h
  | some row =>
    by_cases hdead : row.status = AutomationStatus.deadLetter.value
    · rw [replayDeadLetterTx_eq _ _ hrow hdead] at h
      simp only [Except.ok.injEq, Prod.mk.injEq] at h
      obtain ⟨rfl, rfl⟩ := h
      exact ⟨row, rfl, hdead, rfl, Database.row?_move_self _ hrow⟩
    · simp only [replayDeadLetterTx, Tx.exec_bind, Tx.exec_select, hrow, ne_eq, hdead,
        not_false_eq_true, if_true] at h
      cases h

variable [JsonCodec]

/-- A claim started the next attempt of a row that was eligible and could be rebuilt. -/
def Claimed (db db' : Database) (requestId : String) (request : AutomationRequest)
    (now : String) : Prop :=
  ∃ row, db.row? requestId = some row ∧ row.eligible now = true ∧ row.toRequest = .ok request ∧
    db' = db.move requestId (row.started now)

def Submitted (db db' : Database) (requestId : String) (request : AutomationRequest)
    (now : String) : Prop :=
  ∃ db₁, db.insertRequest (submittedRow requestId request now) = .ok db₁ ∧
    db' = db₁.appendEvent requestId .queued queuedDetail now

/-- The effect of a transaction on the tables, by transaction and answer. -/
def Outcome (clock : Instant) (db db' : Database) :
    (op : TransactionOp) → Except PyExc op.Result → Prop
  | .insertRequest id request now, .ok _ => Submitted db db' id request now
  | .insertRequest id request _, .error x => db' = db ∧ x.isIntegrityError = true ∧
      (db.row? id ≠ none ∨ db.keyTaken request.idempotencyKey = true)
  | .claimNext now, .ok (some (id, request)) => Claimed db db' id request now
  | .claim id now, .ok (some (id', request)) => id' = id ∧ Claimed db db' id request now
  | .failOrRetry id detail delay, .ok _ => ∃ row nextAttemptAt, db.row? id = some row ∧
      row.nextAttempt clock delay = .ok nextAttemptAt ∧
      db' = db.move id (row.settled detail nextAttemptAt clock.isoformat)
  | .replayDeadLetter id now, .ok updated => ∃ row, db.row? id = some row ∧
      row.status = AutomationStatus.deadLetter.value ∧ db' = db.move id (.replayed now) ∧
      db'.row? id = some updated
  | .updateStatus id status detail now, .ok _ => db' = db.move id (.completed status detail now)
  | .selectByKey key, .ok found => found = db.selectByKey key ∧ db' = db
  | .get id, .ok found => found = db.row? id ∧ db' = db
  | _, _ => db' = db

namespace Submitted

variable {id id' now : String} {request : AutomationRequest} {row : RequestRow}

theorem fresh (hsub : Submitted db db' id request now) : db.row? id = none := by
  obtain ⟨db₁, hins, rfl⟩ := hsub
  exact (Database.insertRequest_ok hins).1

theorem requests (hsub : Submitted db db' id request now) :
    db'.requests = db.requests ++ [submittedRow id request now] := by
  obtain ⟨db₁, hins, rfl⟩ := hsub
  exact (Database.insertRequest_ok hins).2.2.1

theorem events (hsub : Submitted db db' id request now) : db'.events =
    db.events ++ [⟨db.lastEventId + 1, id, AutomationStatus.queued.value, queuedDetail, now⟩] := by
  obtain ⟨db₁, hins, rfl⟩ := hsub
  obtain ⟨-, -, -, hev, hlast⟩ := Database.insertRequest_ok hins
  rw [Database.appendEvent, hev, hlast]

theorem lastEventId (hsub : Submitted db db' id request now) :
    db'.lastEventId = db.lastEventId + 1 := by
  obtain ⟨db₁, hins, rfl⟩ := hsub
  obtain ⟨-, -, -, -, hlast⟩ := Database.insertRequest_ok hins
  rw [Database.appendEvent, hlast]

theorem row?_self (hsub : Submitted db db' id request now) :
    db'.row? id = some (submittedRow id request now) := by
  obtain ⟨db₁, hins, rfl⟩ := hsub
  rw [Database.row?_appendEvent, Database.row?_insertRequest hins]
  exact if_pos rfl

theorem row?_of_ne (hsub : Submitted db db' id request now) (hne : id' ≠ id) :
    db'.row? id' = db.row? id' := by
  obtain ⟨db₁, hins, rfl⟩ := hsub
  rw [Database.row?_appendEvent, Database.row?_insertRequest hins]
  exact if_neg (Ne.symm hne)

theorem row_cases (hsub : Submitted db db' id request now) (hrow : db'.row? id' = some row) :
    (id' = id ∧ row = submittedRow id request now) ∨ (id' ≠ id ∧ db.row? id' = some row) := by
  by_cases heq : id' = id
  · subst heq
    exact .inl ⟨rfl, Option.some.inj (hrow.symm.trans hsub.row?_self)⟩
  · exact .inr ⟨heq, (hsub.row?_of_ne heq).symm.trans hrow⟩

theorem row? (hsub : Submitted db db' id request now) (hrow : db.row? id' = some row) :
    db'.row? id' = some row := by
  rw [hsub.row?_of_ne, hrow]
  rintro rfl
  cases hrow.symm.trans hsub.fresh

theorem hasStatus {status : AutomationStatus} (hsub : Submitted db db' id request now)
    (hst : db.HasStatus id' status) : db'.HasStatus id' status := by
  obtain ⟨row, hrow, hst⟩ := hst
  exact ⟨row, hsub.row? hrow, hst⟩

end Submitted

theorem claimRow_eq (connection : Connection) {row : RequestRow}
    (hrow : db.row? row.requestId = some row) (now : String) :
    (claimRow connection row now).exec db = row.toRequest.map fun request =>
      ((row.requestId, request), db.move row.requestId (row.started now)) := by
  have hev := exec_move hrow connection (row.started now)
  change (db.update row.requestId (row.claimValues now)).insertEvent connection row.requestId
    .running (attemptDetail (row.attemptCount + 1)) now = _ at hev
  simp only [claimRow, Sql.appendEvent, Tx.exec_bind, Sql.exec_updateRequest, Tx.exec_execute,
    hev, Except.map, Sql.exec_ofExcept, Tx.exec_pure]
  cases row.toRequest <;> rfl

/-- What a claim does with the row that its query has chosen. -/
def Database.claimed (db : Database) (now : String) :
    Option RequestRow → Except PyExc (Option (String × AutomationRequest) × Database)
  | none => .ok (none, db)
  | some row => row.toRequest.map fun request =>
      (some (row.requestId, request), db.move row.requestId (row.started now))

theorem claimNextTx_eq (connection : Connection) (now : String) (db : Database) :
    (claimNextTx connection now).exec db = db.claimed now (db.oldestEligible connection now) := by
  simp only [claimNextTx, Tx.exec_bind, Tx.exec_select]
  cases hsel : db.oldestEligible connection now with
  | none => rfl
  | some row =>
    simp only [Tx.exec_bind, claimRow_eq connection (oldestEligible_spec hsel).1, Database.claimed]
    cases row.toRequest <;> rfl

theorem claimTx_eq (connection : Connection) (id now : String) (db : Database) :
    (claimTx connection id now).exec db = db.claimed now (db.eligibleRow connection id now) := by
  simp only [claimTx, Tx.exec_bind, Tx.exec_select]
  cases hsel : db.eligibleRow connection id now with
  | none => rfl
  | some row =>
    have hrow := (eligibleRow_spec hsel).1
    obtain rfl := Database.row?_requestId hrow
    simp only [Tx.exec_bind, claimRow_eq connection hrow, Database.claimed]
    cases row.toRequest <;> rfl

theorem claimed_ok {now : String} {found : Option RequestRow}
    {answer : Option (String × AutomationRequest)} (h : db.claimed now found = .ok (answer, db')) :
    (found = none ∧ answer = none ∧ db' = db) ∨
      ∃ row request, found = some row ∧ row.toRequest = .ok request ∧
        answer = some (row.requestId, request) ∧ db' = db.move row.requestId (row.started now) := by
  cases found with
  | none =>
    cases h
    exact .inl ⟨rfl, rfl, rfl⟩
  | some row =>
    rw [Database.claimed] at h
    cases hreq : row.toRequest with
    | error exc =>
      rw [hreq] at h
      cases h
    | ok request =>
      rw [hreq] at h
      cases h
      exact .inr ⟨row, request, rfl, hreq, rfl, rfl⟩

theorem claimed_error {now : String} {found : Option RequestRow} {exc : PyExc}
    (h : db.claimed now found = .error exc) :
    ∃ row, found = some row ∧ row.toRequest = .error exc := by
  cases found with
  | none => cases h
  | some row =>
    rw [Database.claimed] at h
    cases hreq : row.toRequest with
    | error exc' =>
      rw [hreq] at h
      cases h
      exact ⟨row, rfl, hreq⟩
    | ok request =>
      rw [hreq] at h
      cases h

theorem exec_claimNextTx {now : String} {answer : Option (String × AutomationRequest)}
    (h : (claimNextTx connection now).exec db = .ok (answer, db')) :
    Outcome clock db db' (.claimNext now) (.ok answer) := by
  rw [claimNextTx_eq] at h
  rcases claimed_ok h with ⟨-, rfl, rfl⟩ | ⟨row, request, hsel, hreq, rfl, hdb⟩
  · rfl
  · obtain ⟨hrow, hel⟩ := oldestEligible_spec hsel
    exact ⟨row, hrow, hel, hreq, hdb⟩

theorem exec_claimTx {id now : String} {answer : Option (String × AutomationRequest)}
    (h : (claimTx connection id now).exec db = .ok (answer, db')) :
    Outcome clock db db' (.claim id now) (.ok answer) := by
  rw [claimTx_eq] at h
  rcases claimed_ok h with ⟨-, rfl, rfl⟩ | ⟨row, request, hsel, hreq, rfl, hdb⟩
  · rfl
  · obtain ⟨hrow, hel⟩ := eligibleRow_spec hsel
    obtain rfl := Database.row?_requestId hrow
    exact ⟨rfl, row, hrow, hel, hreq, hdb⟩

theorem exec_insertRequestTx {id : String} {request : AutomationRequest} {now : String}
    (h : (insertRequestTx connection id request now).exec db = .ok ((), db')) :
    Submitted db db' id request now := by
  simp only [insertRequestTx, Sql.appendEvent, Tx.exec_bind, Tx.exec_execute] at h
  cases hins : db.insertRequest (submittedRow id request now) with
  | error x => simp [hins, Except.map] at h
  | ok db₁ =>
    have hrow : db₁.row? id = some (submittedRow id request now) := by
      rw [Database.row?_insertRequest hins]
      exact if_pos rfl
    rw [hins] at h
    simp only [Except.map, Database.insertEvent_of_row connection hrow, Except.ok.injEq,
      Prod.mk.injEq, true_and] at h
    exact ⟨db₁, hins, h.symm⟩

theorem insertRequestTx_error {id : String} {request : AutomationRequest} {now : String}
    {x : PyExc} (h : (insertRequestTx connection id request now).exec db = .error x) :
    x.isIntegrityError = true ∧
      (db.row? id ≠ none ∨ db.keyTaken request.idempotencyKey = true) := by
  simp only [insertRequestTx, Sql.appendEvent, Tx.exec_bind, Tx.exec_execute] at h
  cases hins : db.insertRequest (submittedRow id request now) with
  | ok db₁ =>
    have hrow : db₁.row? id = some (submittedRow id request now) := by
      rw [Database.row?_insertRequest hins]
      exact if_pos rfl
    simp [hins, Except.map, Database.insertEvent_of_row connection hrow] at h
  | error y =>
    simp only [hins, Except.map, Except.error.injEq] at h
    subst h
    unfold Database.insertRequest at hins
    split at hins
    · next hpk =>
      cases hins
      exact ⟨rfl, .inl fun hnone => lookup_eq_none.mp hnone hpk⟩
    · split at hins
      · next huk =>
        cases hins
        exact ⟨rfl, .inr huk⟩
      · cases hins

/-- Every transaction that commits, and every one that raises, has its outcome. -/
theorem outcome_of_commit {op : TransactionOp} {answer : Except PyExc op.Result}
    (h : (op.body connection clock).commit db = (answer, db')) :
    Outcome clock db db' op answer := by
  cases answer with
  | error x =>
    obtain rfl := Tx.commit_error_state h
    cases op with
    | insertRequest id request now =>
      have hexec : (insertRequestTx connection id request now).exec db' = .error x :=
        Tx.exec_of_commit_error h
      exact ⟨rfl, insertRequestTx_error hexec⟩
    | _ => rfl
  | ok a =>
    have hexec := Tx.exec_of_commit h
    cases op with
    | selectByKey key =>
      cases hexec
      exact ⟨rfl, rfl⟩
    | insertRequest id request now => exact exec_insertRequestTx hexec
    | claimNext now => exact exec_claimNextTx hexec
    | claim id now => exact exec_claimTx hexec
    | failOrRetry id detail delay => exact exec_failOrRetryTx hexec
    | replayDeadLetter id now => exact exec_replayDeadLetterTx hexec
    | updateStatus id status detail now => exact exec_updateStatusTx hexec
    | get id =>
      cases hexec
      exact ⟨rfl, rfl⟩

/-- The outcomes as one list of cases, for proofs about what is written and when. -/
inductive Wrote (clock : Instant) (db : Database) :
    (op : TransactionOp) → Except PyExc op.Result → Database → Prop where
  | nothing (op : TransactionOp) (r : Except PyExc op.Result) : Wrote clock db op r db
  | inserted {db' : Database} {id now : String} {request : AutomationRequest}
      (hsub : Submitted db db' id request now) :
      Wrote clock db (.insertRequest id request now) (.ok ()) db'
  | startedNext {id now : String} {request : AutomationRequest} {row : RequestRow}
      (hrow : db.row? id = some row) (hel : row.eligible now = true)
      (hreq : row.toRequest = .ok request) :
      Wrote clock db (.claimNext now) (.ok (some (id, request))) (db.move id (row.started now))
  | started {id now : String} {request : AutomationRequest} {row : RequestRow}
      (hrow : db.row? id = some row) (hel : row.eligible now = true)
      (hreq : row.toRequest = .ok request) :
      Wrote clock db (.claim id now) (.ok (some (id, request))) (db.move id (row.started now))
  | settled {id detail : String} {delay : Int} {row : RequestRow} {nextAttemptAt : Option String}
      (hrow : db.row? id = some row) (hnext : row.nextAttempt clock delay = .ok nextAttemptAt) :
      Wrote clock db (.failOrRetry id detail delay) (.ok ())
        (db.move id (row.settled detail nextAttemptAt clock.isoformat))
  | finished {id detail now : String} {status : AutomationStatus} :
      Wrote clock db (.updateStatus id status detail now) (.ok ())
        (db.move id (.completed status detail now))
  | requeued {id now : String} {row updated : RequestRow} (hrow : db.row? id = some row)
      (hdead : row.status = AutomationStatus.deadLetter.value) :
      Wrote clock db (.replayDeadLetter id now) (.ok updated) (db.move id (.replayed now))

theorem Outcome.wrote {op : TransactionOp} {r : Except PyExc op.Result}
    (h : Outcome clock db db' op r) : Wrote clock db op r db' := by
  cases r with
  | error x =>
    cases op with
    | insertRequest id request now =>
      obtain ⟨rfl, -⟩ := h
      exact .nothing _ _
    | _ =>
      obtain rfl : db' = db := h
      exact .nothing _ _
  | ok a =>
    cases op with
    | selectByKey key =>
      obtain ⟨-, rfl⟩ := h
      exact .nothing _ _
    | get id =>
      obtain ⟨-, rfl⟩ := h
      exact .nothing _ _
    | insertRequest id request now => exact .inserted h
    | claimNext now =>
      rcases a with _ | ⟨id, request⟩
      · obtain rfl : db' = db := h
        exact .nothing _ _
      · obtain ⟨row, hrow, hel, hreq, rfl⟩ := h
        exact .startedNext hrow hel hreq
    | claim id now =>
      rcases a with _ | ⟨id', request⟩
      · obtain rfl : db' = db := h
        exact .nothing _ _
      · obtain ⟨rfl, row, hrow, hel, hreq, rfl⟩ := h
        exact .started hrow hel hreq
    | failOrRetry id detail delay =>
      obtain ⟨row, nextAttemptAt, hrow, hnext, rfl⟩ := h
      exact .settled hrow hnext
    | updateStatus id status detail now =>
      obtain rfl : db' = _ := h
      exact .finished
    | replayDeadLetter id now =>
      obtain ⟨row, hrow, hdead, rfl, -⟩ := h
      exact .requeued hrow hdead

/-- One effect leaves the tables alone, or it is a transaction with its outcome. -/
theorem handle_db {c : Choice} {e : Eff} {r : e.Res} {s s' : Shared} {l l' : Cooldowns}
    (h : handle c e s l = (r, s', l')) :
    s'.db = s.db ∨ ∃ op, e = .transaction op := by
  have hs : s' = (handle c e s l).2.1 := by rw [h]
  rw [hs]
  cases e with
  | transaction op => exact .inr ⟨op, rfl⟩
  | rpush queueName id =>
    left
    simp only [handle]
    split <;> rfl
  | blpop queueName =>
    left
    simp only [handle]
    split <;> rfl
  | _ => exact .inl rfl

section Handling
variable {c : Choice} {op : TransactionOp} {r : Except PyExc op.Result} {s s' : Shared}
variable {l l' : Cooldowns}

theorem handle_commit (h : handle c (.transaction op) s l = (r, s', l')) :
    (op.body c.connection c.utc).commit s.db = (r, s'.db) := by
  simp only [handle, Prod.mk.injEq] at h
  obtain ⟨hr, hsh, -⟩ := h
  rw [← hsh, ← hr]

theorem handle_outcome (h : handle c (.transaction op) s l = (r, s', l')) :
    Outcome c.utc s.db s'.db op r := outcome_of_commit (handle_commit h)

end Handling

end Orchestrator
