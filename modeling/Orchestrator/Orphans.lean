import Orchestrator.Callers

/-!
# Events of requests that do not exist

Whether an event can name a request without a row depends on `update_status` alone: it
updates and appends without looking whether the row is there, and only a connection that
enforces foreign keys stops it.
-/

namespace Orchestrator

open Interaction Table Transaction
set_option autoImplicit false

/-- Every event names a request that has a row. -/
def Database.NoOrphans (db : Database) : Prop :=
  ∀ e ∈ db.events, ∃ row, db.row? e.requestId = some row

namespace Database

variable {db db' : Database}

theorem noOrphans_empty : Database.empty.NoOrphans := by
  intro e he
  cases he

theorem NoOrphans.appendEvent {id : String} {row : RequestRow} (h : db.NoOrphans)
    (hrow : db.row? id = some row) (status : AutomationStatus) (detail now : String) :
    (db.appendEvent id status detail now).NoOrphans := by
  intro e he
  rcases List.mem_append.mp he with hold | hnew
  · exact h e hold
  · obtain rfl := List.mem_singleton.mp hnew
    exact ⟨row, hrow⟩

theorem NoOrphans.update (h : db.NoOrphans) (id : String) (values : Values) :
    (db.update id values).NoOrphans := by
  intro e he
  obtain ⟨row, hrow⟩ := h e he
  rw [row?_update, hrow]
  exact ⟨_, rfl⟩

theorem NoOrphans.move {id : String} {row : RequestRow} (h : db.NoOrphans)
    (hrow : db.row? id = some row) (tr : Transition) : (db.move id tr).NoOrphans := by
  have hrow' : (db.update id tr.values).row? id = some (row.set tr.values) := by simp [hrow]
  exact (h.update id tr.values).appendEvent hrow' tr.status tr.detail tr.time

theorem NoOrphans.insertRequest {row : RequestRow} (h : db.NoOrphans)
    (hins : db.insertRequest row = .ok db') : db'.NoOrphans := by
  obtain ⟨-, -, -, hevents, -⟩ := insertRequest_ok hins
  intro e he
  rw [hevents] at he
  rw [row?_insertRequest hins]
  split
  · exact ⟨row, rfl⟩
  · exact h e he

theorem not_noOrphans_move {id : String} (hnone : db.row? id = none) (tr : Transition) :
    ¬ (db.move id tr).NoOrphans := by
  intro h
  have hmem : (⟨db.lastEventId + 1, id, tr.status.value, tr.detail, tr.time⟩ : EventRow) ∈
      (db.move id tr).events := by simp [move, appendEvent, Database.update]
  obtain ⟨row, hrow⟩ := h _ hmem
  rw [row?_move, hnone] at hrow
  cases hrow

end Database

theorem Submitted.noOrphans [JsonCodec] {db db' : Database} {id now : String}
    {request : AutomationRequest} (hsub : Submitted db db' id request now) (h : db.NoOrphans) :
    db'.NoOrphans := by
  obtain ⟨db₁, hins, rfl⟩ := hsub
  have hrow : db₁.row? id = some (submittedRow id request now) := by
    rw [Database.row?_insertRequest hins]
    exact if_pos rfl
  exact (h.insertRequest hins).appendEvent hrow .queued queuedDetail now

section Unknown

variable {connection : Connection} {db : Database} {id : String} (hnone : db.row? id = none)
include hnone

theorem updateStatusTx_unknown (status : AutomationStatus) (detail now : String) :
    (updateStatusTx connection id status detail now).commit db =
      if connection.foreignKeys = true then
        (.error (.integrityError "automation_events_request_id_fkey"), db)
      else (.ok (), db.move id (.completed status detail now)) := by
  have hnone' : (db.update id (Transition.completed status detail now).values).row? id = none := by
    simp [hnone]
  have hexec : (updateStatusTx connection id status detail now).exec db =
      ((db.update id (Transition.completed status detail now).values).insertEvent connection id
        status detail now).map fun db' => ((), db') := by
    simp only [updateStatusTx, Sql.appendEvent, Tx.exec_bind, Sql.exec_updateRequest,
      Tx.exec_execute]
    rfl
  simp only [Database.insertEvent, hnone', and_true] at hexec
  by_cases hfk : connection.foreignKeys = true
  · rw [if_pos hfk] at hexec ⊢
    exact Tx.commit_of_error hexec
  · rw [if_neg hfk] at hexec ⊢
    exact Tx.commit_of_ok hexec

theorem failOrRetryTx_unknown (detail : String) (delay : Int) (clock : Instant) :
    (failOrRetryTx connection id detail delay clock).commit db =
      (.error (.keyError s!"'{id}'"), db) := by
  apply Tx.commit_of_error
  simp only [failOrRetryTx, Tx.exec_bind, Tx.exec_select, hnone]
  rfl

theorem replayDeadLetterTx_unknown (now : String) :
    (replayDeadLetterTx connection id now).commit db = (.error (.keyError s!"'{id}'"), db) := by
  apply Tx.commit_of_error
  simp only [replayDeadLetterTx, Tx.exec_bind, Tx.exec_select, hnone]
  rfl

theorem claimTx_unknown [JsonCodec] (now : String) :
    (claimTx connection id now).commit db = (.ok none, db) := by
  have hrow : db.eligibleRow connection id now = none := by simp [Database.eligibleRow, hnone]
  apply Tx.commit_of_ok
  rw [claimTx_eq, hrow]
  rfl

end Unknown

/-- A transaction on an id without a row changes nothing: a claim finds no row, every other
one raises. -/
def RefusesUnknown (db db' : Database) :
    (op : TransactionOp) → Except PyExc op.Result → Prop
  | .claim id _, r => db.row? id = none → r = .ok none ∧ db' = db
  | .failOrRetry id _ _, r => db.row? id = none → (∃ exc, r = .error exc) ∧ db' = db
  | .replayDeadLetter id _, r => db.row? id = none → (∃ exc, r = .error exc) ∧ db' = db
  | .updateStatus id _ _ _, r => db.row? id = none → (∃ exc, r = .error exc) ∧ db' = db
  | _, _ => True

/-- `update_status` meets an id without a row only where foreign keys are enforced. -/
def TransactionOp.Guarded (connection : Connection) (db : Database) : TransactionOp → Prop
  | .updateStatus id _ _ _ => db.row? id = none → connection.foreignKeys = true
  | _ => True

section Transactions
variable [JsonCodec] {connection : Connection} {clock : Instant} {db db' : Database}
variable {op : TransactionOp} {r : Except PyExc op.Result}

theorem refusesUnknown_of_guarded (hc : (op.body connection clock).commit db = (r, db'))
    (hg : op.Guarded connection db) : RefusesUnknown db db' op r := by
  cases op with
  | claim id now =>
    intro hnone
    have hc' := (claimTx_unknown hnone now).symm.trans hc
    cases hc'
    exact ⟨rfl, rfl⟩
  | failOrRetry id detail delay =>
    intro hnone
    have hc' := (failOrRetryTx_unknown hnone detail delay clock).symm.trans hc
    cases hc'
    exact ⟨⟨_, rfl⟩, rfl⟩
  | replayDeadLetter id now =>
    intro hnone
    have hc' := (replayDeadLetterTx_unknown hnone now).symm.trans hc
    cases hc'
    exact ⟨⟨_, rfl⟩, rfl⟩
  | updateStatus id status detail now =>
    intro hnone
    have hc' := (updateStatusTx_unknown hnone status detail now).symm.trans hc
    rw [if_pos (hg hnone)] at hc'
    cases hc'
    exact ⟨⟨_, rfl⟩, rfl⟩
  | selectByKey key => trivial
  | insertRequest id request now => trivial
  | claimNext now => trivial
  | get id => trivial

theorem Wrote.noOrphans (hw : Wrote clock db op r db') (h : db.NoOrphans)
    (hknown : RefusesUnknown db db' op r) : db'.NoOrphans := by
  cases hw with
  | nothing => exact h
  | inserted hsub => exact hsub.noOrphans h
  | startedNext hrow hel hreq => exact h.move hrow _
  | started hrow hel hreq => exact h.move hrow _
  | settled hrow hnext => exact h.move hrow _
  | requeued hrow hdead => exact h.move hrow _
  | @finished id detail now status =>
    cases hrow : db.row? id with
    | none =>
      obtain ⟨⟨exc, hexc⟩, -⟩ := hknown hrow
      cases hexc
    | some row => exact h.move hrow _

/-- The guard is exact: where it fails, the event of an unknown id is written. -/
theorem guarded_of_noOrphans (hc : (op.body connection clock).commit db = (r, db'))
    (h : db'.NoOrphans) : op.Guarded connection db := by
  cases op with
  | updateStatus id status detail now =>
    intro hnone
    by_contra hfk
    have hc' := (updateStatusTx_unknown hnone status detail now).symm.trans hc
    rw [if_neg hfk] at hc'
    cases hc'
    exact Database.not_noOrphans_move hnone _ h
  | _ => trivial

end Transactions

section Steps
variable {T : Type}

def Guarded (s : OpenSystem T) : OpenEvent T → Prop
  | .did _ c (.transaction op) _ => op.Guarded c.connection s.shared.db
  | _ => True

/-- What every step should keep: no orphan events, and no change for an unknown id. -/
def OrphanFree (s : OpenSystem T) (ev : OpenEvent T) (s' : OpenSystem T) : Prop :=
  s'.shared.db.NoOrphans ∧
    match ev with
    | .did _ _ (.transaction op) r => RefusesUnknown s.shared.db s'.shared.db op r
    | _ => True

theorem OpenInitial.noOrphans {s : OpenSystem T} (hi : OpenInitial s) :
    s.shared.db.NoOrphans := by
  rw [hi.1]
  exact Database.noOrphans_empty

variable [DecidableEq T] [JsonCodec] {s s' : OpenSystem T} {ev : OpenEvent T}

/-- From a state without orphans a step is harmless exactly when it is guarded. -/
theorem orphanFree_iff_guarded (hs : OpenStep s ev s') (h : s.shared.db.NoOrphans) :
    OrphanFree s ev s' ↔ Guarded s ev := by
  rcases open_cases hs with ⟨hdb, hev⟩ | ⟨t, c, op, r, rfl⟩
  · have hguarded : Guarded s ev := by
      unfold Guarded
      split
      · exact absurd rfl (hev _ _ _ _)
      · trivial
    refine ⟨fun _ => hguarded, fun _ => ⟨hdb ▸ h, ?_⟩⟩
    split
    · exact absurd rfl (hev _ _ _ _)
    · trivial
  · constructor
    · intro hof
      exact guarded_of_noOrphans (open_commit hs) hof.1
    · intro hg
      have hknown := refusesUnknown_of_guarded (open_commit hs) hg
      exact ⟨(open_outcome hs).wrote.noOrphans h hknown, hknown⟩

variable {h : List (OpenEvent T)}

theorem noOrphans_of_within (hr : OpenRunsWithin (fun _ => OrphanFree) h s) :
    s.shared.db.NoOrphans := by
  cases hr with
  | init hi => exact hi.noOrphans
  | step _ _ hof => exact hof.1

theorem within_guarded_iff :
    OpenRunsWithin (fun _ s ev _ => Guarded s ev) h s ↔
      OpenRunsWithin (fun _ => OrphanFree) h s := by
  constructor
  · intro hr
    refine hr.weaken (A := fun _ => True) id ?_ trivial
    intro h s s' ev _ hr' _ hs hg
    exact (orphanFree_iff_guarded hs (noOrphans_of_within hr')).mpr hg
  · intro hr
    refine hr.weaken (A := fun _ => True) id ?_ trivial
    intro h s s' ev hr _ _ hs hof
    exact (orphanFree_iff_guarded hs (noOrphans_of_within hr)).mp hof

end Steps

section Calls

def RepositoryCall.requestId? : RepositoryCall → Option String
  | create .. | claimNext => none
  | claim id | complete id _ | failOrRetry id _ _ | replayDeadLetter id => some id

/-- A claim returns None; the other methods raise. -/
def RepositoryReply.Refuses : RepositoryReply → Prop
  | created r => ∃ exc, r = .error exc
  | claimed r => r = .ok none
  | written r => ∃ exc, r = .error exc
  | replayed r => ∃ exc, r = .error exc

/-- `complete` reads the clock first; its transaction gets the connection of the second choice. -/
def RepositoryCall.Guarded (choices : ℕ → Choice) : RepositoryCall → Prop
  | complete _ _ => (choices 1).connection.foreignKeys = true
  | _ => True

variable [JsonCodec]

theorem exec_reply {α : Type} (x : Py α) (reply : Except PyExc α → RepositoryReply) (w : World) :
    Prog.exec World.answer (x.run >>= fun r => pure (reply r)) w =
      (reply (x.exec w).1, (x.exec w).2) := by
  rw [Prog.exec_bind]
  rfl

theorem refuses_iff_guarded (w : World) (call : RepositoryCall) {id : String}
    (hid : call.requestId? = some id) (hnone : w.db.row? id = none) :
    (call.code.exec World.answer w).1.Refuses ∧ (call.code.exec World.answer w).2.db = w.db ↔
      call.Guarded w.choices := by
  cases call with
  | create id' request => cases hid
  | claimNext => cases hid
  | claim id' =>
    obtain rfl : id' = id := by simpa [RepositoryCall.requestId?] using hid
    have hexec : (AutomationRepository.claim id').exec w = (.ok none, w.next.next) := by
      simp only [AutomationRepository.claim, Py.exec_bind, Py.exec_utcNow, Py.exec_transaction,
        TransactionOp.body, World.next_db, claimTx_unknown hnone]
      rfl
    rw [RepositoryCall.code, exec_reply, hexec]
    exact ⟨fun _ => trivial, fun _ => ⟨rfl, rfl⟩⟩
  | complete id' detail =>
    obtain rfl : id' = id := by simpa [RepositoryCall.requestId?] using hid
    rw [RepositoryCall.code, exec_reply]
    simp only [AutomationRepository.complete, AutomationRepository.updateStatus, Py.exec_bind,
      Py.exec_utcNow, Py.exec_transaction, TransactionOp.body, World.next_db,
      updateStatusTx_unknown hnone]
    by_cases hfk : (w.next.choices 0).connection.foreignKeys = true
    · rw [if_pos hfk]
      exact ⟨fun _ => hfk, fun _ => ⟨⟨_, rfl⟩, rfl⟩⟩
    · rw [if_neg hfk]
      constructor
      · rintro ⟨⟨exc, hexc⟩, -⟩
        cases hexc
      · intro hg
        exact absurd hg hfk
  | failOrRetry id' detail delay =>
    obtain rfl : id' = id := by simpa [RepositoryCall.requestId?] using hid
    rw [RepositoryCall.code, exec_reply]
    simp only [AutomationRepository.failOrRetry, Py.exec_transaction, TransactionOp.body,
      failOrRetryTx_unknown hnone]
    exact ⟨fun _ => trivial, fun _ => ⟨⟨_, rfl⟩, rfl⟩⟩
  | replayDeadLetter id' =>
    obtain rfl : id' = id := by simpa [RepositoryCall.requestId?] using hid
    rw [RepositoryCall.code, exec_reply]
    simp only [AutomationRepository.replayDeadLetter, Py.exec_bind, Py.exec_utcNow,
      Py.exec_transaction, TransactionOp.body, World.next_db, replayDeadLetterTx_unknown hnone]
    exact ⟨fun _ => trivial, fun _ => ⟨⟨_, rfl⟩, rfl⟩⟩

/-- Over all runs of any callers, and over all calls with an unknown id, the audit log has no
orphans exactly as long as `complete` on an unknown id meets enforced foreign keys. -/
theorem no_orphans_iff_guarded {T : Type} [DecidableEq T] :
    (∀ (h : List (OpenEvent T)) (s : OpenSystem T),
      (OpenRunsWithin (fun _ s ev _ => Guarded s ev) h s ↔
        OpenRunsWithin (fun _ => OrphanFree) h s) ∧
        (OpenRunsWithin (fun _ s ev _ => Guarded s ev) h s → s.shared.db.NoOrphans)) ∧
    ∀ (w : World) (call : RepositoryCall) (id : String), call.requestId? = some id →
      w.db.row? id = none →
      ((call.code.exec World.answer w).1.Refuses ∧
        (call.code.exec World.answer w).2.db = w.db ↔ call.Guarded w.choices) := by
  refine ⟨?_, ?_⟩
  · intro h s
    exact ⟨within_guarded_iff, fun hr => noOrphans_of_within (within_guarded_iff.mp hr)⟩
  · intro w call id hid hnone
    exact refuses_iff_guarded w call hid hnone

end Calls

section Sample

def ghostCall : RepositoryCall := .complete "ghost" "done"

def emptyWorld : World := ⟨fun _ => .calm, ⟨.empty, fun _ => []⟩, fun _ => none⟩

/-- `complete` on an unknown id raises where the connection enforces foreign keys. -/
theorem no_orphans_sample : letI := emptyPayload
    (ghostCall.code.exec World.answer emptyWorld).1.Refuses ∧
      (ghostCall.code.exec World.answer emptyWorld).2.db = emptyWorld.db := by
  let _ := emptyPayload
  exact ((no_orphans_iff_guarded (T := ℕ)).2 emptyWorld ghostCall "ghost" rfl rfl).mpr rfl

/-- A pooled connection on which the pragma was never executed. -/
def pooledChoice : Choice := { Choice.calm with connection := ⟨.sqlite, false, [], fun _ => 0⟩ }

def ghostCalls : List (ℕ × (ℕ → Choice) × OpenCall) :=
  [(0, fun _ => pooledChoice, .repository ghostCall)]

/-- On such a connection the call returns, and leaves an event that no row owns. -/
theorem complete_leaves_orphan :
    @OpenRuns ℕ _ emptyPayload (openRun ghostCalls).1 (openRun ghostCalls).2 ∧
    (openRun ghostCalls).1.head? =
      some (.stop 0 (.repository ghostCall) (.repository (.written (.ok ())))) ∧
    (openRun ghostCalls).2.shared.db.requests = [] ∧
    (openRun ghostCalls).2.shared.db.events.map (·.requestId) = ["ghost"] ∧
    ¬ (openRun ghostCalls).2.shared.db.NoOrphans := by
  have hrequests : (openRun ghostCalls).2.shared.db.requests = [] := rfl
  have hevents : (openRun ghostCalls).2.shared.db.events.map (·.requestId) = ["ghost"] := rfl
  refine ⟨openRun_runs _, rfl, hrequests, hevents, ?_⟩
  intro hno
  obtain ⟨e, he, -⟩ := List.mem_map.mp (hevents ▸ List.mem_singleton_self "ghost")
  obtain ⟨row, hrow⟩ := hno e he
  rw [Database.row?, hrequests] at hrow
  cases hrow

end Sample

end Orchestrator
