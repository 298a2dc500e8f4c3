import Orchestrator.Orphans

/-!
# What a transaction writes, and when

A transaction writes to one request at most, one event and one time. Whether it will can
be told from the tables before it.
-/

namespace Orchestrator

open Table Transaction
set_option autoImplicit false

/-- One event was appended to the request, and its row carries the same time. -/
structure Stamps (db db' : Database) (id time : String) : Prop where
  event : ∃ e : EventRow, db'.events = db.events ++ [e] ∧ e.eventId = db.lastEventId + 1 ∧
    e.requestId = id ∧ e.createdAt = time
  count : db'.lastEventId = db.lastEventId + 1
  dated : ∀ row, db'.row? id = some row → row.updatedAt = time
  others : ∀ id', id' ≠ id → db'.row? id' = db.row? id'

theorem stamps_move (db : Database) (id : String) (tr : Transition) :
    Stamps db (db.move id tr) id tr.time := by
  refine ⟨⟨_, rfl, rfl, rfl, rfl⟩, rfl, ?_, fun id' hne => Database.row?_move_of_ne tr hne⟩
  intro row hrow
  rw [Database.row?_move, Option.map_eq_some_iff] at hrow
  obtain ⟨old, -, rfl⟩ := hrow
  rw [if_pos rfl]
  rfl

theorem Submitted.stamps [JsonCodec] {db db' : Database} {id now : String}
    {request : AutomationRequest} (hsub : Submitted db db' id request now) :
    Stamps db db' id now := by
  refine ⟨⟨_, hsub.events, rfl, rfl, rfl⟩, hsub.lastEventId, ?_, fun id' => hsub.row?_of_ne⟩
  intro row hrow
  obtain rfl := Option.some.inj (hsub.row?_self.symm.trans hrow)
  rfl

namespace TransactionOp

/-- The request that a transaction wrote, and the time it wrote; `clock` is read inside. -/
def written (clock : Instant) : (op : TransactionOp) → Except PyExc op.Result →
    Option (String × String)
  | insertRequest id _ now, .ok _ => some (id, now)
  | claimNext now, .ok (some (id, _)) => some (id, now)
  | claim _ now, .ok (some (id, _)) => some (id, now)
  | failOrRetry id _ _, .ok _ => some (id, clock.isoformat)
  | replayDeadLetter id now, .ok _ => some (id, now)
  | updateStatus id _ _ now, .ok _ => some (id, now)
  | _, _ => none

/-- The claim of a row that can be rebuilt. -/
def claims [JsonCodec] (now : String) (row : RequestRow) : Option (String × String) :=
  if row.toRequest.isOk then some (row.requestId, now) else none

/-- The request that a transaction is about to write, and the time, judged by the tables. -/
def writes [JsonCodec] (connection : Connection) (clock : Instant) (db : Database) :
    TransactionOp → Option (String × String)
  | insertRequest id request now =>
    if db.row? id = none ∧ db.keyTaken request.idempotencyKey = false then some (id, now) else none
  | claimNext now => (db.oldestEligible connection now).bind (claims now)
  | claim id now => (db.eligibleRow connection id now).bind (claims now)
  | failOrRetry id _ delay => (db.row? id).bind fun row =>
    if (row.nextAttempt clock delay).isOk then some (id, clock.isoformat) else none
  | replayDeadLetter id now => (db.row? id).bind fun row =>
    if row.status = AutomationStatus.deadLetter.value then some (id, now) else none
  | updateStatus id _ _ now =>
    if connection.foreignKeys = true ∧ db.row? id = none then none else some (id, now)
  | _ => none

end TransactionOp

theorem Outcome.stamps [JsonCodec] {clock : Instant} {db db' : Database} {op : TransactionOp}
    {r : Except PyExc op.Result} (ho : Outcome clock db db' op r) :
    match op.written clock r with
    | none => db' = db
    | some (id, time) => Stamps db db' id time := by
  cases r with
  | error exc =>
    cases op with
    | insertRequest id request now => exact ho.1
    | _ => exact ho
  | ok answer =>
    cases op with
    | selectByKey key => exact ho.2
    | get id => exact ho.2
    | insertRequest id request now => exact Submitted.stamps ho
    | claimNext now =>
      rcases answer with _ | ⟨id, request⟩
      · exact ho
      · obtain ⟨row, -, -, -, rfl⟩ := ho
        exact stamps_move db id (row.started now)
    | claim id now =>
      rcases answer with _ | ⟨id', request⟩
      · exact ho
      · obtain ⟨rfl, row, -, -, -, rfl⟩ := ho
        exact stamps_move db id' (row.started now)
    | failOrRetry id detail delay =>
      obtain ⟨row, nextAttemptAt, -, -, rfl⟩ := ho
      exact stamps_move db id (row.settled detail nextAttemptAt clock.isoformat)
    | replayDeadLetter id now =>
      obtain ⟨row, -, -, rfl, -⟩ := ho
      exact stamps_move db id (.replayed now)
    | updateStatus id status detail now =>
      obtain rfl : db' = _ := ho
      exact stamps_move db id (.completed status detail now)

section Writes

variable [JsonCodec] {connection : Connection} {clock : Instant} {db db' : Database}

theorem commit_claimed {now : String} {found : Option RequestRow}
    {p : Sql (Option (String × AutomationRequest))}
    {r : Except PyExc (Option (String × AutomationRequest))}
    (hp : p.exec db = db.claimed now found) (hc : p.commit db = (r, db')) :
    ((∃ exc, r = .error exc) ∨ r = .ok none) ∧ found.bind (TransactionOp.claims now) = none ∨
      ∃ id request, r = .ok (some (id, request)) ∧
        found.bind (TransactionOp.claims now) = some (id, now) := by
  cases r with
  | error exc =>
    obtain ⟨row, rfl, hreq⟩ := claimed_error (hp.symm.trans (Tx.exec_of_commit_error hc))
    refine .inl ⟨.inl ⟨exc, rfl⟩, ?_⟩
    rw [Option.bind_some, TransactionOp.claims, hreq]
    rfl
  | ok answer =>
    rcases claimed_ok (hp.symm.trans (Tx.exec_of_commit hc)) with
      ⟨rfl, rfl, -⟩ | ⟨row, request, rfl, hreq, rfl, -⟩
    · exact .inl ⟨.inr rfl, rfl⟩
    · refine .inr ⟨row.requestId, request, rfl, ?_⟩
      rw [Option.bind_some, TransactionOp.claims, hreq]
      rfl

theorem written_claimNext {now : String} {r : Except PyExc (Option (String × AutomationRequest))}
    (hc : (claimNextTx connection now).commit db = (r, db')) :
    (TransactionOp.claimNext now).written clock r =
      (TransactionOp.claimNext now).writes connection clock db := by
  rw [TransactionOp.writes]
  rcases commit_claimed (claimNextTx_eq connection now db) hc with
    ⟨⟨exc, rfl⟩ | rfl, hnone⟩ | ⟨id, request, rfl, hsome⟩
  · exact hnone.symm
  · exact hnone.symm
  · exact hsome.symm

theorem written_claim {id now : String} {r : Except PyExc (Option (String × AutomationRequest))}
    (hc : (claimTx connection id now).commit db = (r, db')) :
    (TransactionOp.claim id now).written clock r =
      (TransactionOp.claim id now).writes connection clock db := by
  rw [TransactionOp.writes]
  rcases commit_claimed (claimTx_eq connection id now db) hc with
    ⟨⟨exc, rfl⟩ | rfl, hnone⟩ | ⟨id', request, rfl, hsome⟩
  · exact hnone.symm
  · exact hnone.symm
  · exact hsome.symm

theorem written_eq_writes {op : TransactionOp} {r : Except PyExc op.Result}
    (hc : (op.body connection clock).commit db = (r, db')) :
    op.written clock r = op.writes connection clock db := by
  have ho : Outcome clock db db' op r := outcome_of_commit hc
  cases op with
  | selectByKey key => cases r <;> rfl
  | get id => cases r <;> rfl
  | claimNext now => exact written_claimNext hc
  | claim id now => exact written_claim hc
  | insertRequest id request now =>
    cases r with
    | ok answer =>
      obtain ⟨db₁, hins, -⟩ := ho
      obtain ⟨hnone, hkey, -⟩ := Database.insertRequest_ok hins
      exact (if_pos ⟨hnone, hkey⟩).symm
    | error exc =>
      refine (if_neg ?_).symm
      rintro ⟨hnone, hkey⟩
      rcases ho.2.2 with hrow | htaken
      · exact hrow hnone
      · rw [hkey] at htaken
        cases htaken
  | failOrRetry id detail delay =>
    simp only [TransactionOp.writes]
    cases hrow : db.row? id with
    | none =>
      cases (failOrRetryTx_unknown hrow detail delay clock).symm.trans hc
      rfl
    | some row =>
      rcases commit_failOrRetryTx hrow hc with ⟨_, hnext, rfl, rfl⟩ | ⟨_, hnext, rfl, rfl⟩
      · simp [TransactionOp.written, hnext, Except.isOk, Except.toBool]
      · simp [TransactionOp.written, hnext, Except.isOk, Except.toBool]
  | replayDeadLetter id now =>
    simp only [TransactionOp.writes]
    cases hrow : db.row? id with
    | none =>
      cases (replayDeadLetterTx_unknown hrow now).symm.trans hc
      rfl
    | some row =>
      rw [Option.bind_some]
      by_cases hdead : row.status = AutomationStatus.deadLetter.value
      · cases (Tx.commit_of_ok (replayDeadLetterTx_eq connection now hrow hdead)).symm.trans hc
        exact (if_pos hdead).symm
      · have hexec : (replayDeadLetterTx connection id now).exec db =
            .error (.valueError "Only dead-letter requests can be replayed") := by
          simp only [replayDeadLetterTx, Tx.exec_bind, Tx.exec_select, hrow, ne_eq, hdead,
            not_false_eq_true, if_true]
          rfl
        cases (Tx.commit_of_error hexec).symm.trans hc
        exact (if_neg hdead).symm
  | updateStatus id status detail now =>
    simp only [TransactionOp.writes]
    cases hrow : db.row? id with
    | none =>
      have hc' := (updateStatusTx_unknown hrow status detail now).symm.trans hc
      by_cases hfk : connection.foreignKeys = true
      · rw [if_pos hfk] at hc'
        cases hc'
        simp [TransactionOp.written, hfk]
      · rw [if_neg hfk] at hc'
        cases hc'
        simp [TransactionOp.written, hfk]
    | some row =>
      have hexec := updateStatusTx_eq connection status detail now hrow
      cases (Tx.commit_of_ok hexec).symm.trans hc
      simp [TransactionOp.written]

end Writes

end Orchestrator
