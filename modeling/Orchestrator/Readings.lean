import Orchestrator.Changes
import Orchestrator.Timestamps

/-!
# Readings of the clock

Most methods read the clock before they open their transaction and pass its text on. The
protocol of this module remembers the last reading of a process; it is the time that its
next transaction writes, however many other transactions commit in between.
-/

namespace Orchestrator

open Interaction Discipline AutomationRepository
set_option autoImplicit false

/-- The time that a transaction is given; `fail_or_retry` reads the clock inside. -/
def TransactionOp.given : TransactionOp → Option String
  | insertRequest _ _ now | claimNext now | claim _ now | replayDeadLetter _ now => some now
  | updateStatus _ _ _ now => some now
  | selectByKey _ | failOrRetry .. | get _ => none

variable {C : Type}

/-- The phase is the last reading of the UTC clock in the current call, as long as the call may
still write it: `fail_or_retry` reads the clock anew. -/
def readings (C : Type) : Interleaving.Protocol Eff Eff.Res C (Option Instant) where
  allowed reading
    | .transaction op => ∀ now, op.given = some now → reading.map Instant.isoformat = some now
    | _ => True
  admits _ _ _ := True
  next reading
    | .utcNow, now => some now
    | .transaction (.failOrRetry ..), _ => none
    | _, _ => reading
  idle := none
  start _ := none

theorem readings_still : (readings C).Ignores Eff.Still := by
  intro e he reading
  cases e with
  | utcNow => exact absurd he id
  | transaction op =>
    cases op with
    | get id => exact ⟨by simp [readings, TransactionOp.given], fun _ => rfl⟩
    | _ => exact absurd he (by simp [Eff.Still, Eff.kind])
  | _ => exact ⟨trivial, fun _ => rfl⟩

theorem readings_selectByKey (key : String) :
    (readings C).Neutral (Py.transaction (.selectByKey key)) :=
  .effect (.transaction (.selectByKey key))
    (fun _ => ⟨by simp [readings, TransactionOp.given], fun _ => rfl⟩) rfl

theorem safe_ask (e : Eff) (he : ∀ op, e ≠ .transaction op) :
    (readings C).Safe (Py.ask e) := by
  intro reading
  refine ⟨?_, fun _ _ => trivial⟩
  cases e with
  | transaction op => exact absurd rfl (he op)
  | _ => trivial

theorem safe_untimed (op : TransactionOp) (hop : op.given = none) :
    (readings C).Safe (Py.transaction op) :=
  fun _ => ⟨by simp [readings, hop], fun _ _ => trivial⟩

theorem safe_reading {α : Type} {f : String → Py α}
    (hf : ∀ now : Instant, (readings C).wp (f now.isoformat).run (fun _ _ => True) (some now)) :
    (readings C).Safe (Py.utcNow >>= f) :=
  fun _ => ⟨trivial, fun now _ => hf now⟩

theorem wp_given {op : TransactionOp} {now : Instant} (hop : op.given = some now.isoformat) :
    (readings C).wp (Py.transaction op).run (fun _ _ => True) (some now) := by
  refine ⟨?_, fun _ _ => trivial⟩
  intro text htext
  rw [← htext, hop, Option.map_some]

theorem safe_insertOrFind (id : String) (request : AutomationRequest) (now : Instant) :
    (readings C).wp (insertOrFind id request now.isoformat).run (fun _ _ => True) (some now) := by
  have hop : (TransactionOp.insertRequest id request now.isoformat).given = some now.isoformat :=
    rfl
  rw [insertOrFind, wp_except_bind, Py.wp_attempt]
  apply (readings C).wp_mono (wp_given hop)
  intro reading r _
  rcases r with exc | ⟨⟩
  · simp only
    split
    · split
      · trivial
      · refine (readings_selectByKey _).safe.bind ?_ reading
        intro existing
        cases existing with
        | none => exact (Neutral.raise _).safe
        | some existing => exact (Neutral.ret _).safe
    · trivial
  · trivial

theorem safe_create (id : String) (request : AutomationRequest) :
    (readings C).Safe (create id request) := by
  apply safe_reading
  intro now
  have hfind : (readings C).Neutral (findExisting request.idempotencyKey) := by
    unfold findExisting
    split
    · exact .ret _
    · exact .bind (readings_selectByKey _) fun _ => .ret _
  apply hfind.wp_bind
  · intro existing
    cases existing with
    | none => exact safe_insertOrFind id request now
    | some existing => trivial
  · exact fun _ => trivial

theorem safe_claimNext : (readings C).Safe claimNext :=
  safe_reading fun _ => wp_given rfl

theorem safe_claim (id : String) : (readings C).Safe (claim id) :=
  safe_reading fun _ => wp_given rfl

theorem safe_complete (id detail : String) : (readings C).Safe (complete id detail) :=
  safe_reading fun _ => wp_given rfl

theorem safe_failOrRetry (id detail : String) (delay : Int) :
    (readings C).Safe (failOrRetry id detail delay) := safe_untimed _ rfl

theorem safe_replayDeadLetter (id : String) :
    (readings C).Safe (AutomationRepository.replayDeadLetter id) := by
  apply safe_reading
  intro now
  rw [wp_except_bind]
  apply (readings C).wp_mono (wp_given rfl)
  intro reading r _
  cases r <;> trivial

namespace AutomationWorker

variable (worker : AutomationWorker)

theorem safe_claimWork : (readings C).Safe worker.claimWork := by
  apply (neutral_dispatcherOr readings_still _).safe.bind
  intro dispatcher
  cases dispatcher with
  | database => exact safe_claimNext
  | redis redisUrl queueName client =>
    apply (neutral_consume readings_still _).safe.bind
    intro message
    cases message with
    | none => exact safe_claimNext
    | some id =>
      apply (safe_claim id).bind
      intro claimed
      cases claimed with
      | none => exact safe_claimNext
      | some claimed => exact (Neutral.ret _).safe

theorem safe_settle {attempt : Int} {f : Int → Py Unit}
    (hf : ∀ delay, (readings C).Safe (f delay)) :
    (readings C).Safe (worker.backoff attempt >>= f) :=
  (neutral_backoff readings_still worker attempt).safe.bind hf

theorem safe_rateLimited (id : String) (request : AutomationRequest) (text : String)
    (hint : Option Int) : (readings C).Safe (worker.rateLimited id request text hint) := by
  apply (neutral_currentAttempt readings_still id).safe.bind
  intro attempt
  cases hint with
  | none => exact safe_settle worker fun _ => safe_failOrRetry _ _ _
  | some delay =>
    apply (safe_ask .monotonic (by simp)).bind
    intro monotonic
    apply (neutral_ofFloat _).safe.bind
    intro deadline
    apply (safe_ask (.cooldownSet request.target deadline) (by simp)).bind
    exact fun _ => safe_failOrRetry _ _ _

theorem safe_executionFailed (id : String) (exc : PyExc) :
    (readings C).Safe (worker.executionFailed id exc) := by
  apply (neutral_currentAttempt readings_still id).safe.bind
  exact fun attempt => safe_settle worker fun _ => safe_failOrRetry _ _ _

theorem safe_runAdapter (id : String) (request : AutomationRequest) :
    (readings C).Safe (worker.runAdapter id request) := by
  apply (safe_ask (.execute id request) (by simp)).bind
  intro r
  rcases r with exc | detail
  · cases exc with
    | retryableAdapterError text hint => exact safe_rateLimited worker id request text hint
    | _ => exact safe_executionFailed worker id _
  · apply (safe_ask (.cooldownPop request.target) (by simp)).bind
    exact fun _ => safe_complete id detail

theorem safe_runOnce : (readings C).Safe worker.runOnce := by
  apply (safe_claimWork worker).bind
  intro claimed
  rcases claimed with _ | ⟨id, request⟩
  · exact (Neutral.ret _).safe
  · refine Safe.bind ?_ fun _ => (Neutral.ret _).safe
    apply (safe_ask (.cooldownGet request.target) (by simp)).bind
    intro cooldown
    apply (safe_ask .monotonic (by simp)).bind
    intro monotonic
    split
    · apply (safe_ask .monotonic (by simp)).bind
      intro monotonic
      apply (neutral_ofFloat _).safe.bind
      exact fun delay => safe_failOrRetry _ _ _
    · exact safe_runAdapter worker id request

end AutomationWorker

theorem readings_code (call : Call) :
    (readings Call).wp call.code (fun _ _ => True) ((readings Call).start call) := by
  cases call with
  | create id request => exact (safe_create id request).map _ _
  | submit service request =>
    have hsubmit : (readings Call).Safe (service.submit request) := by
      apply (safe_ask .uuid4 (by simp)).bind
      intro id
      apply (safe_create id request).bind
      intro id
      apply (neutral_announce readings_still _ _).safe.bind
      exact fun _ => (neutral_readBack readings_still id).safe
    exact hsubmit.map _ _
  | replayDeadLetter service id =>
    have hreplay : (readings Call).Safe (service.replayDeadLetter id) := by
      apply (safe_replayDeadLetter id).bind
      intro result
      apply (neutral_announce readings_still _ _).safe.bind
      exact fun _ => (Neutral.ret _).safe
    exact hreplay.map _ _
  | runOnce worker => exact worker.safe_runOnce.map _ _

variable [JsonCodec] {T : Type} [DecidableEq T] {h : List (Event T)} {s s' : System T}

theorem Runs.given {t : T} {c : Choice} {op : TransactionOp} {r : Except PyExc op.Result}
    {now : String} (hr : Runs h s) (hs : Step s (.did t c (.transaction op) r) s')
    (hop : op.given = some now) :
    ∃ reading, (readings Call).phase h t = some reading ∧ now = reading.isoformat := by
  have hf := Interleaving.Protocol.follows_runs (P := readings Call) readings_code
    (fun _ _ _ => trivial) (fun _ hi => hi.2.1) hr
  have hal := hf.allowed hs now hop
  simp only [Option.map_eq_some_iff] at hal
  obtain ⟨reading, hreading, htext⟩ := hal
  exact ⟨reading, hreading, htext.symm⟩

/-- The induction over runs, for laws of the tables that depend on the times written. -/
theorem Runs.each_write {I : Database → Prop} (init : I .empty)
    (write : ∀ {clock db op r db'}, (∀ now, op.given = some now →
      ∃ reading : Instant, now = reading.isoformat) → I db → Wrote clock db op r db' → I db')
    (hr : Runs h s) : I s.shared.db := by
  apply Interleaving.Runs.invariant (I := fun _ s => I s.shared.db) ?_ ?_ hr
  · intro s hi
    rw [hi.1]
    exact init
  · intro h s s' ev hr hI hs
    cases ev with
    | start t call => rwa [hs.start_shared]
    | stop t call reply => rwa [hs.stop_shared]
    | disturb => rwa [show s'.shared.db = s.shared.db from hs.disturb_shared]
    | did t c e r =>
      rcases handle_db hs.did_handle with hdb | ⟨op, rfl⟩
      · rwa [hdb]
      · apply write ?_ hI (step_outcome hs).wrote
        intro now hop
        obtain ⟨reading, -, htext⟩ := Runs.given hr hs hop
        exact ⟨reading, htext⟩

end Orchestrator
