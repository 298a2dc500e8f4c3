import Orchestrator.Library.Expansion
import Orchestrator.Times

/-!
# The statements of `fail_or_retry`

The transaction of `fail_or_retry` reads its row without a lock and then the clock, and it
locks the row by its UPDATE. So other transactions may commit between its statements. Every
other transaction locks what it reads or begins with its write, and stays one step.
-/

namespace Orchestrator

open Interaction Interleaving Transaction
set_option autoImplicit false

/-- The effects of the program, with those that `fail_or_retry` has instead of its transaction:
the SELECT, and the UPDATE with the event and the commit, made from the row that was seen. -/
inductive StatementEff where
  | program (e : Eff)
  | selectAttempts (requestId : String)
  | writeFailure (requestId detail : String) (retryDelaySeconds : Int) (seen : RequestRow)
      (now : Instant)

abbrev StatementEff.Res : StatementEff → Type
  | program e => e.Res
  | selectAttempts _ => Except PyExc RequestRow
  | writeFailure .. => Except PyExc Unit

def Eff.statements : (e : Eff) → Prog StatementEff StatementEff.Res e.Res
  | .transaction (.failOrRetry id detail delay) =>
    .call (.selectAttempts id) fun
      | .error exc => .ret (.error exc)
      | .ok seen => .call (.program .utcNow) fun now =>
        .call (.writeFailure id detail delay seen now) .ret
  | e => Prog.perform (StatementEff.program e)

def statementCode (call : OpenCall) : Prog StatementEff StatementEff.Res OpenReply :=
  call.code.expand Eff.statements

section Machine
variable [JsonCodec]

def statementHandle (c : Choice) :
    (e : StatementEff) → Shared → Cooldowns → e.Res × Shared × Cooldowns
  | .program e, s, l => handle c e s l
  | .selectAttempts id, s, l =>
    match s.db.row? id with
    | none => (.error (.keyError s!"'{id}'"), s, l)
    | some row => (.ok row, s, l)
  | .writeFailure id detail delay seen now, s, l =>
    let (answer, db) := (writeFailureTx c.connection id detail delay seen now).commit s.db
    (answer, { s with db := db }, l)

theorem statementHandle_selectAttempts (c : Choice) (id : String) (s : Shared) (l : Cooldowns) :
    (statementHandle c (.selectAttempts id) s l).2 = (s, l) := by
  cases hrow : s.db.row? id <;> simp only [statementHandle, hrow]

def statementMachine :
    Machine StatementEff StatementEff.Res OpenCall Choice Shared Cooldowns OpenReply where
  code := statementCode
  handle := statementHandle
  disturbs s s' := s'.db = s.db

/-- Where nothing comes between them, the statements are the transaction. -/
theorem statements_exec (c : Choice) (e : Eff) (s : Shared) (l : Cooldowns) :
    e.statements.exec (fun e w => statementHandle c e w.1 w.2) (s, l) = handle c e s l := by
  cases e with
  | transaction op =>
    cases op with
    | failOrRetry id detail delay =>
      cases hrow : s.db.row? id with
      | none =>
        have hcommit : (failOrRetryTx c.connection id detail delay c.utc).commit s.db = _ :=
          failOrRetryTx_unknown hrow detail delay c.utc
        simp only [Eff.statements, Prog.exec, statementHandle, hrow, handle, TransactionOp.body,
          hcommit]
      | some row =>
        have hcommit : (failOrRetryTx c.connection id detail delay c.utc).commit s.db =
            (writeFailureTx c.connection id detail delay row c.utc).commit s.db := by
          simp only [Tx.commit, failOrRetryTx, Tx.exec_bind,
            Tx.exec_select, hrow]
        simp only [Eff.statements, Prog.exec, statementHandle, hrow, handle, TransactionOp.body,
          hcommit]
    | _ => rfl
  | _ => rfl

variable (T : Type)

abbrev StatementEvent :=
  Interleaving.Event T StatementEff StatementEff.Res OpenCall Choice OpenReply

abbrev StatementSystem :=
  Interleaving.State T StatementEff StatementEff.Res OpenCall Shared Cooldowns OpenReply

variable {T} [DecidableEq T]

def StatementsInitial (s : StatementSystem T) : Prop :=
  s.shared.db = .empty ∧ (∀ t, s.running t = none) ∧ ∀ t target, s.locals t target = none

abbrev StatementStep (s : StatementSystem T) (ev : StatementEvent T) (s' : StatementSystem T) :
    Prop :=
  Interleaving.Step statementMachine s ev s'

/-- Every run of any callers of the repository and processes of the program, in which others
may come between the statements of `fail_or_retry`. -/
abbrev StatementRuns (h : List (StatementEvent T)) (s : StatementSystem T) : Prop :=
  Interleaving.Runs statementMachine StatementsInitial h s

abbrev StatementRunsWithin (ok : List (StatementEvent T) → StatementSystem T → StatementEvent T →
    StatementSystem T → Prop) (h : List (StatementEvent T)) (s : StatementSystem T) : Prop :=
  Interleaving.RunsWithin statementMachine StatementsInitial ok h s

end Machine

instance {T : Type} : Stamping (StatementEvent T) where
  written
    | .did _ c (.program (.transaction op)) r => op.written c.utc r
    | .did _ _ (.writeFailure id _ _ _ now) (.ok _) => some (id, now.isoformat)
    | _ => none

/-- The request that an effect is about to write, and the time, judged by the tables. -/
def StatementEff.writes [JsonCodec] (c : Choice) (db : Database) :
    StatementEff → Option (String × String)
  | program (.transaction op) => op.writes c.connection c.utc db
  | writeFailure id _ delay seen now =>
    if (seen.nextAttempt now delay).isOk = true ∧
        ¬ (c.connection.foreignKeys = true ∧ db.row? id = none) then some (id, now.isoformat)
    else none
  | _ => none

theorem commit_writeFailureTx {connection : Connection} {clock : Instant} {db db' : Database}
    {id detail : String} {delay : Int} {seen : RequestRow} {r : Except PyExc Unit}
    (h : (writeFailureTx connection id detail delay seen clock).commit db = (r, db')) :
    (∃ nextAttemptAt, seen.nextAttempt clock delay = .ok nextAttemptAt ∧
      ¬ (connection.foreignKeys = true ∧ db.row? id = none) ∧ r = .ok () ∧
      db' = db.move id (seen.settled detail nextAttemptAt clock.isoformat)) ∨
    ((seen.nextAttempt clock delay).isOk = false ∨
      connection.foreignKeys = true ∧ db.row? id = none) ∧ (∃ exc, r = .error exc) ∧ db' = db := by
  have hexec : (writeFailureTx connection id detail delay seen clock).exec db =
      (seen.nextAttempt clock delay).bind fun nextAttemptAt =>
        ((db.update id (seen.settled detail nextAttemptAt clock.isoformat).values).insertEvent
          connection id seen.failureStatus (seen.failureMessage detail) clock.isoformat).map
            fun db' => ((), db') := by
    simp only [writeFailureTx, Sql.appendEvent, Tx.exec_bind, Sql.exec_ofExcept,
      Sql.exec_updateRequest, Tx.exec_execute]
    cases seen.nextAttempt clock delay <;> rfl
  cases hnext : seen.nextAttempt clock delay with
  | error exc =>
    rw [hnext] at hexec
    cases (Tx.commit_of_error hexec).symm.trans h
    exact .inr ⟨.inl rfl, ⟨exc, rfl⟩, rfl⟩
  | ok nextAttemptAt =>
    have hrow : (db.update id (seen.settled detail nextAttemptAt clock.isoformat).values).row? id =
        none ↔ db.row? id = none := by simp
    rw [hnext] at hexec
    simp only [Except.bind, Database.insertEvent, hrow] at hexec
    by_cases hfk : connection.foreignKeys = true ∧ db.row? id = none
    · rw [if_pos hfk] at hexec
      cases (Tx.commit_of_error hexec).symm.trans h
      exact .inr ⟨.inr hfk, ⟨_, rfl⟩, rfl⟩
    · rw [if_neg hfk] at hexec
      cases (Tx.commit_of_ok hexec).symm.trans h
      exact .inl ⟨nextAttemptAt, rfl, hfk, rfl, rfl⟩

section Steps
variable [JsonCodec] {T : Type} [DecidableEq T] {s s' : StatementSystem T}
variable {ev : StatementEvent T} {t : T} {c : Choice}

theorem writeFailure_cases {id detail : String} {delay : Int} {seen : RequestRow} {now : Instant}
    {r : Except PyExc Unit}
    (hs : StatementStep s (.did t c (.writeFailure id detail delay seen now) r) s') :
    (∃ nextAttemptAt, seen.nextAttempt now delay = .ok nextAttemptAt ∧
      ¬ (c.connection.foreignKeys = true ∧ s.shared.db.row? id = none) ∧ r = .ok () ∧
      s'.shared.db = s.shared.db.move id (seen.settled detail nextAttemptAt now.isoformat)) ∨
    ((seen.nextAttempt now delay).isOk = false ∨
      c.connection.foreignKeys = true ∧ s.shared.db.row? id = none) ∧ (∃ exc, r = .error exc) ∧
      s'.shared.db = s.shared.db := by
  have hh := hs.did_handle
  simp only [statementMachine, statementHandle, Prod.mk.injEq] at hh
  obtain ⟨rfl, hsh, -⟩ := hh
  rw [← hsh]
  exact commit_writeFailureTx rfl

theorem statement_outcome {op : TransactionOp} {r : Except PyExc op.Result}
    (hs : StatementStep s (.did t c (.program (.transaction op)) r) s') :
    (op.body c.connection c.utc).commit s.shared.db = (r, s'.shared.db) ∧
      Outcome c.utc s.shared.db s'.shared.db op r := by
  have hh : handle c (.transaction op) s.shared (s.locals t) =
      (r, s'.shared, s'.locals t) := hs.did_handle
  exact ⟨handle_commit hh, handle_outcome hh⟩

theorem statement_cases (hs : StatementStep s ev s') :
    (s'.shared.db = s.shared.db ∧ ∀ t c e r, ev = .did t c e r →
      (∀ op, e ≠ .program (.transaction op)) ∧
        ∀ id detail delay seen now, e ≠ .writeFailure id detail delay seen now) ∨
    (∃ t c op r, ev = .did t c (.program (.transaction op)) r) ∨
      ∃ t c id detail delay seen now r,
        ev = .did t c (.writeFailure id detail delay seen now) r := by
  cases ev with
  | start t call => exact .inl ⟨by rw [hs.start_shared], by simp⟩
  | stop t call reply => exact .inl ⟨by rw [hs.stop_shared], by simp⟩
  | disturb => exact .inl ⟨hs.disturb_shared, by simp⟩
  | did t c e r =>
    have hh := hs.did_handle
    cases e with
    | program e =>
      have hdb : s'.shared.db = s.shared.db ∨ ∃ op, e = .transaction op := handle_db hh
      cases e with
      | transaction op => exact .inr (.inl ⟨t, c, op, r, rfl⟩)
      | _ =>
        refine .inl ⟨hdb.resolve_right (by simp), ?_⟩
        rintro _ _ _ _ ⟨⟩
        simp
    | selectAttempts id =>
      refine .inl ⟨?_, by rintro _ _ _ _ ⟨⟩; simp⟩
      have hsh : (statementHandle c (.selectAttempts id) s.shared (s.locals t)).2.1 = s'.shared :=
        congrArg (fun x => x.2.1) hh
      rw [← hsh, statementHandle_selectAttempts]
    | writeFailure id detail delay seen now =>
      exact .inr (.inr ⟨t, c, id, detail, delay, seen, now, r, rfl⟩)

theorem statement_stamped (hs : StatementStep s ev s') : Stamped s.shared.db s'.shared.db ev := by
  rcases statement_cases hs with ⟨hdb, hev⟩ | ⟨t, c, op, r, rfl⟩ |
    ⟨t, c, id, detail, delay, seen, now, r, rfl⟩
  · have hw : Stamping.written ev = none := by
      cases ev with
      | did t c e r =>
        obtain ⟨hop, hwrite⟩ := hev t c e r rfl
        cases e with
        | program e => cases e <;> first | rfl | exact absurd rfl (hop _)
        | selectAttempts id => rfl
        | writeFailure => exact absurd rfl (hwrite _ _ _ _ _)
      | _ => rfl
    unfold Stamped
    rw [hw]
    exact hdb
  · exact (statement_outcome hs).2.stamps
  · rcases writeFailure_cases hs with ⟨nextAttemptAt, -, -, rfl, hdb⟩ | ⟨-, ⟨exc, rfl⟩, hdb⟩
    · unfold Stamped
      rw [hdb]
      exact stamps_move _ id (seen.settled detail nextAttemptAt now.isoformat)
    · exact hdb

theorem statement_writes {e : StatementEff} {r : e.Res} (hs : StatementStep s (.did t c e r) s') :
    Stamping.written (.did t c e r : StatementEvent T) = e.writes c s.shared.db := by
  cases e with
  | program e =>
    cases e with
    | transaction op => exact written_eq_writes (statement_outcome hs).1
    | _ => rfl
  | selectAttempts id => rfl
  | writeFailure id detail delay seen now =>
    rcases writeFailure_cases hs with ⟨_, hnext, hrow, rfl, -⟩ | ⟨hnot, ⟨exc, rfl⟩, -⟩
    · have hok : (seen.nextAttempt now delay).isOk = true := by rw [hnext]; rfl
      exact (if_pos ⟨hok, hrow⟩).symm
    · refine (if_neg ?_).symm
      rintro ⟨hok, hrow⟩
      rcases hnot with hnot | hnot
      · rw [hok] at hnot
        cases hnot
      · exact hrow hnot

theorem StatementRuns.tells {h : List (StatementEvent T)} (hr : StatementRuns h s) :
    Tells h s.shared.db := by
  refine hr.invariant (I := fun h s => Tells h s.shared.db) ?_
    fun _ ht hs => ht.step (statement_stamped hs)
  intro s hi
  rw [hi.1]
  exact tells_empty

end Steps

def StatementSystem.initial : StatementSystem ℕ :=
  ⟨⟨.empty, fun _ => []⟩, fun _ _ => none, fun _ => none⟩

/-- A history and a state: those of a schedule from the initial state. -/
def statementPlay (turns : List (Interleaving.Turn ℕ OpenCall Choice)) :
    List (StatementEvent ℕ) × StatementSystem ℕ :=
  letI := emptyPayload
  Interleaving.State.play statementMachine turns ([], StatementSystem.initial)

theorem statementPlay_runs (turns : List (Interleaving.Turn ℕ OpenCall Choice)) :
    @StatementRuns emptyPayload ℕ _ (statementPlay turns).1 (statementPlay turns).2 := by
  let _ := emptyPayload
  have hr : StatementRuns [] StatementSystem.initial := .init ⟨rfl, fun _ => rfl, fun _ _ => rfl⟩
  exact Interleaving.Runs.play turns hr

end Orchestrator
