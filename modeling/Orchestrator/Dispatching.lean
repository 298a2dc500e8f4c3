import Orchestrator.Publication
import Orchestrator.Settlement

/-!
# The broker and the tables

A message of the broker only proposes a request. Whatever the queues hold, a run claims
what the tables allow, as if the claimed request had been named directly.
-/

namespace Orchestrator

open Interaction Library Table Transaction AutomationRepository
set_option autoImplicit false

def World.later (w : World) (n : ℕ) (queues : String → List String) : World where
  choices k := w.choices (k + n)
  shared := { w.shared with queues := queues }
  cooldowns := w.cooldowns

/-- One message was taken from the front of a queue, or none. -/
def Consumed (before after : String → List String) : Prop :=
  after = before ∨ ∃ queueName id ids, before queueName = id :: ids ∧
    after = Function.update before queueName ids

theorem World.later_later (w : World) (m n : ℕ) (queues queues' : String → List String) :
    (w.later m queues).later n queues' = w.later (n + m) queues' := by
  simp [later, Nat.add_assoc]

/-- A run for a request that is named, with no broker in between. -/
def AutomationWorker.runClaimed [JsonCodec] (self : AutomationWorker) (requestId : String) :
    Py Bool := do
  match ← AutomationRepository.claim requestId with
  | none => return false
  | some (requestId, request) =>
    self.processClaimed requestId request
    return true

variable [JsonCodec]

section Settling

/-- Code that leaves tables and queues as they are, whatever the surroundings decide. -/
def Py.Idles {α : Type} (x : Py α) : Prop := ∀ w, (x.exec w).2.shared = w.shared

/-- Code that, once it returns, has moved one request out of RUNNING and nothing else. -/
def Py.SettlesOnce (x : Py Unit) (requestId : String) : Prop :=
  ∀ w w', x.exec w = (.ok (), w') → w'.shared.queues = w.shared.queues ∧
    ∃ tr : Transition, tr.status ≠ .running ∧ w'.db = w.db.move requestId tr

variable {α β : Type} {id : String}

theorem Py.Idles.bind {x : Py α} {f : α → Py β} (hx : x.Idles) (hf : ∀ a, (f a).Idles) :
    (x >>= f).Idles := by
  intro w
  rw [Py.exec_bind]
  rcases hexec : x.exec w with ⟨r, w'⟩
  have hsame := hx w
  rw [hexec] at hsame
  cases r with
  | error exc => exact hsame
  | ok a => exact (hf a w').trans hsame

theorem Py.Idles.settlesOnce {x : Py α} {f : α → Py Unit} (hx : x.Idles)
    (hf : ∀ a, (f a).SettlesOnce id) : (x >>= f).SettlesOnce id := by
  intro w w' h
  obtain ⟨a, w₁, hexec, h⟩ := Py.exec_bind_ok h
  have hsame := hx w
  rw [hexec] at hsame
  obtain ⟨hqueues, tr, hstatus, hdb⟩ := hf a w₁ w' h
  exact ⟨hqueues.trans (congrArg _ hsame), tr, hstatus, hdb.trans (by rw [World.db, hsame]; rfl)⟩

theorem idles_ofFloat (x : Except FloatError α) : (Py.ofFloat x).Idles := fun _ => rfl

theorem idles_get (requestId : String) : (AutomationRepository.get requestId).Idles := by
  intro w
  rw [exec_get]
  cases w.db.row? requestId with
  | none => rfl
  | some row => rfl

theorem idles_currentAttempt (requestId : String) :
    (AutomationWorker.currentAttempt requestId).Idles := by
  apply (idles_get requestId).bind
  intro result
  cases result with
  | none => exact fun _ => rfl
  | some result => exact fun _ => rfl

theorem idles_backoff (worker : AutomationWorker) (attempt : Int) :
    (worker.backoff attempt).Idles :=
  Py.Idles.bind (fun _ => rfl) fun _ => idles_ofFloat _

theorem failOrRetry_settlesOnce (detail : String) (delay : Int) :
    (failOrRetry id detail delay).SettlesOnce id := by
  intro w w' h
  rw [failOrRetry, Py.exec_transaction] at h
  obtain ⟨hr, rfl⟩ := Prod.mk.inj h
  obtain ⟨row, nextAttemptAt, -, -, hdb⟩ := outcome_of_commit (Prod.ext hr rfl)
  refine ⟨rfl, row.settled detail nextAttemptAt _, ?_, hdb⟩
  change row.failureStatus ≠ .running
  unfold RequestRow.failureStatus
  split <;> decide

theorem complete_settlesOnce (detail : String) : (complete id detail).SettlesOnce id := by
  intro w w' h
  obtain ⟨now, w₁, hnow, h⟩ := Py.exec_bind_ok h
  rw [Py.exec_utcNow] at hnow
  obtain ⟨-, rfl⟩ := Prod.mk.inj hnow
  rw [Py.exec_transaction] at h
  obtain ⟨hr, rfl⟩ := Prod.mk.inj h
  have hdb := outcome_of_commit (Prod.ext hr rfl)
  refine ⟨rfl, .completed .completed detail now, ?_, hdb⟩
  intro hstatus
  cases hstatus

theorem runAdapter_settlesOnce (worker : AutomationWorker) (request : AutomationRequest) :
    (worker.runAdapter id request).SettlesOnce id := by
  apply Py.Idles.settlesOnce (x := Py.ask (.execute id request)) fun _ => rfl
  intro r
  cases r with
  | ok detail =>
    exact Py.Idles.settlesOnce (x := Py.ask (.cooldownPop request.target)) (fun _ => rfl)
      fun _ => complete_settlesOnce detail
  | error exc =>
    have hfailed : (worker.executionFailed id exc).SettlesOnce id :=
      (idles_currentAttempt id).settlesOnce fun attempt =>
        (idles_backoff worker attempt).settlesOnce fun _ => failOrRetry_settlesOnce _ _
    cases exc with
    | retryableAdapterError text hint =>
      apply (idles_currentAttempt id).settlesOnce
      intro attempt
      cases hint with
      | none =>
        exact (idles_backoff worker attempt).settlesOnce fun _ => failOrRetry_settlesOnce _ _
      | some delay =>
        exact Py.Idles.settlesOnce (x := Py.ask .monotonic) (fun _ => rfl) fun _ =>
          (idles_ofFloat _).settlesOnce fun deadline =>
            Py.Idles.settlesOnce (x := Py.ask (.cooldownSet request.target deadline))
              (fun _ => rfl) fun _ => failOrRetry_settlesOnce _ _
    | _ => exact hfailed

theorem processClaimed_settlesOnce (worker : AutomationWorker) (request : AutomationRequest) :
    (worker.processClaimed id request).SettlesOnce id := by
  apply Py.Idles.settlesOnce (x := Py.ask (.cooldownGet request.target)) fun _ => rfl
  intro cooldown
  apply Py.Idles.settlesOnce (x := Py.ask .monotonic) fun _ => rfl
  intro monotonic
  split
  · exact Py.Idles.settlesOnce (x := Py.ask .monotonic) (fun _ => rfl) fun _ =>
      (idles_ofFloat _).settlesOnce fun _ => failOrRetry_settlesOnce _ _
  · exact runAdapter_settlesOnce worker request

end Settling

section Claiming
variable {w w₁ : World}

theorem exec_dispatcherOr (dispatch : Option DispatchQueue) (w : World) :
    ∃ r n, (dispatcherOr dispatch).exec w = (r, w.later n w.shared.queues) := by
  cases dispatch with
  | some dispatch => exact ⟨.ok dispatch, 0, rfl⟩
  | none =>
    rw [dispatcherOr, exec_getDispatchQueue]
    split
    · exact ⟨_, 1, rfl⟩
    · split
      · exact ⟨_, 3, rfl⟩
      · exact ⟨_, 1, rfl⟩

theorem exec_blpop (queueName : String) (w : World) :
    ∃ r queues, Py.exec (ExceptT.mk (Prog.perform (Eff.blpop queueName))) w =
      (r, w.later 1 queues) ∧ Consumed w.shared.queues queues := by
  cases hblpop : (w.choices 0).blpop with
  | error exc =>
    refine ⟨.error exc, w.shared.queues, ?_, .inl rfl⟩
    simp [Py.exec, World.answer, handle, hblpop, World.later]
  | ok _ =>
    cases hqueue : w.shared.queues queueName with
    | nil =>
      refine ⟨.ok none, w.shared.queues, ?_, .inl rfl⟩
      simp [Py.exec, World.answer, handle, hblpop, hqueue, World.later]
    | cons id ids =>
      refine ⟨.ok (some id), _, ?_, .inr ⟨queueName, id, ids, hqueue, rfl⟩⟩
      simp [Py.exec, World.answer, handle, hblpop, hqueue, World.later]

theorem exec_consume (dispatcher : DispatchQueue) (w : World) :
    ∃ r n queues, dispatcher.consume.exec w = (r, w.later n queues) ∧
      Consumed w.shared.queues queues := by
  cases dispatcher with
  | database => exact ⟨.ok none, 0, w.shared.queues, rfl, .inl rfl⟩
  | redis redisUrl queueName client =>
    cases client with
    | true =>
      obtain ⟨r, queues, hexec, hconsumed⟩ := exec_blpop queueName w
      exact ⟨r, 1, queues, hexec, hconsumed⟩
    | false =>
      have hconnect : (DispatchQueue.connect redisUrl false).exec w =
          ((w.choices 0).fromUrl, w.next) := rfl
      rw [DispatchQueue.consume, Py.exec_bind, hconnect]
      cases (w.choices 0).fromUrl with
      | error exc => exact ⟨.error exc, 1, w.shared.queues, rfl, .inl rfl⟩
      | ok _ =>
        obtain ⟨r, queues, hexec, hconsumed⟩ := exec_blpop queueName w.next
        exact ⟨r, 2, queues, hexec, hconsumed⟩

theorem exec_claim_none {id : String} (h : (claim id).exec w = (.ok none, w₁)) :
    w₁ = w.later 2 w.shared.queues := by
  obtain ⟨now, w₂, hnow, h⟩ := Py.exec_bind_ok h
  rw [Py.exec_utcNow] at hnow
  obtain ⟨-, rfl⟩ := Prod.mk.inj hnow
  rw [Py.exec_transaction] at h
  obtain ⟨hr, rfl⟩ := Prod.mk.inj h
  have hdb : _ = w.next.db := outcome_of_commit (Prod.ext hr rfl)
  exact congrArg w.next.next.withDb hdb

theorem exec_claimWork {worker : AutomationWorker} {claimed : Option (String × AutomationRequest)}
    (h : worker.claimWork.exec w = (.ok claimed, w₁)) :
    ∃ n queues, Consumed w.shared.queues queues ∧
      (claimNext.exec (w.later n queues) = (.ok claimed, w₁) ∨ ∃ message pair,
        claimed = some pair ∧ (claim message).exec (w.later n queues) = (.ok claimed, w₁)) := by
  obtain ⟨dispatcher, w₂, hdispatcher, h⟩ := Py.exec_bind_ok h
  obtain ⟨r, n, hlater⟩ := exec_dispatcherOr worker.dispatch w
  rw [hlater] at hdispatcher
  obtain ⟨-, rfl⟩ := Prod.mk.inj hdispatcher
  cases dispatcher with
  | database => exact ⟨n, w.shared.queues, .inl rfl, .inl h⟩
  | redis redisUrl queueName client =>
    obtain ⟨message, w₃, hmessage, h⟩ := Py.exec_bind_ok h
    obtain ⟨r', m, queues, hlater', hconsumed⟩ :=
      exec_consume (.redis redisUrl queueName client) (w.later n w.shared.queues)
    rw [hlater'] at hmessage
    obtain ⟨-, rfl⟩ := Prod.mk.inj hmessage
    rw [World.later_later] at h
    cases message with
    | none => exact ⟨m + n, queues, hconsumed, .inl h⟩
    | some message =>
      obtain ⟨claimed', w₄, hclaim, h⟩ := Py.exec_bind_ok h
      cases claimed' with
      | none =>
        obtain rfl := exec_claim_none hclaim
        rw [World.later_later] at h
        exact ⟨2 + (m + n), queues, hconsumed, .inl h⟩
      | some pair =>
        cases h
        exact ⟨m + n, queues, hconsumed, .inr ⟨message, pair, rfl, hclaim⟩⟩

section Unlocked
variable {connection : Connection} (hlocks : connection.locked = []) {db db' : Database}
variable {now : String}
include hlocks

omit [JsonCodec] in
theorem not_skips (row : RequestRow) : connection.skips row = false := by
  simp [Connection.skips, hlocks]

theorem claimNextTx_none
    (h : (claimNextTx connection now).exec db = .ok (none, db')) :
    ∀ row ∈ db.requests, row.eligible now = false := by
  rw [claimNextTx_eq] at h
  rcases claimed_ok h with ⟨hsel, -, -⟩ | ⟨row, request, -, -, hanswer, -⟩
  · intro row hmem
    have hempty := (firstBy_eq_none connection.before).mp hsel
    have hnot := List.filter_eq_nil_iff.mp hempty row hmem
    simpa [not_skips hlocks] using hnot
  · cases hanswer

/-- Without locks, the fallback is the claim of the row that it finds. -/
theorem claimTx_of_claimNextTx {id : String} {request : AutomationRequest}
    (h : (claimNextTx connection now).exec db = .ok (some (id, request), db')) :
    (claimTx connection id now).exec db = .ok (some (id, request), db') := by
  rw [claimNextTx_eq] at h
  rcases claimed_ok h with ⟨-, hanswer, -⟩ | ⟨row, request, hsel, -, hanswer, -⟩
  · cases hanswer
  · cases hanswer
    obtain ⟨hrow, hel⟩ := oldestEligible_spec hsel
    have hsel' : db.eligibleRow connection row.requestId now = some row := by
      simp [Database.eligibleRow, hrow, hel, not_skips hlocks]
    rw [claimTx_eq, hsel', ← hsel]
    exact h

end Unlocked

theorem exec_claim_of_claimNext (hlocks : ∀ n, (w.choices n).connection.locked = [])
    {id : String} {request : AutomationRequest}
    (h : claimNext.exec w = (.ok (some (id, request)), w₁)) :
    (claim id).exec w = (.ok (some (id, request)), w₁) := by
  rw [claimNext, Py.exec_bind, Py.exec_utcNow] at h
  rw [claim, Py.exec_bind, Py.exec_utcNow]
  simp only [Py.exec_transaction, TransactionOp.body] at h ⊢
  obtain ⟨hr, rfl⟩ := Prod.mk.inj h
  have hexec := Tx.exec_of_commit (Prod.ext hr rfl)
  have hclaim := claimTx_of_claimNextTx (w.next_choices 0 ▸ hlocks 1) hexec
  rw [Tx.commit_of_ok hclaim]

theorem exec_claimNext_none (hlocks : ∀ n, (w.choices n).connection.locked = [])
    (h : claimNext.exec w = (.ok none, w₁)) :
    w₁.shared = w.shared ∧
      ∀ row ∈ w.db.requests, row.eligible (w.choices 0).utc.isoformat = false := by
  rw [claimNext, Py.exec_bind, Py.exec_utcNow] at h
  simp only [Py.exec_transaction, TransactionOp.body] at h
  obtain ⟨hr, rfl⟩ := Prod.mk.inj h
  have hexec := Tx.exec_of_commit (Prod.ext hr rfl)
  have hout : Outcome (w.choices 1).utc w.next.db _
      (.claimNext (w.choices 0).utc.isoformat) (.ok none) := exec_claimNextTx hexec
  have hdb : _ = w.next.db := hout
  refine ⟨?_, claimNextTx_none (w.next_choices 0 ▸ hlocks 1) hexec⟩
  exact congrArg (fun db => (w.next.next.withDb db).shared) hdb

theorem exec_claim_some {id message : String} {request : AutomationRequest}
    (h : (claim message).exec w = (.ok (some (id, request)), w₁)) :
    id = message ∧ w₁.shared.queues = w.shared.queues ∧
      Claimed w.db w₁.db id request (w.choices 0).utc.isoformat := by
  rw [claim, Py.exec_bind, Py.exec_utcNow] at h
  simp only [Py.exec_transaction] at h
  obtain ⟨hr, rfl⟩ := Prod.mk.inj h
  obtain ⟨rfl, hc⟩ : id = message ∧ _ := outcome_of_commit (Prod.ext hr rfl)
  exact ⟨rfl, rfl, hc⟩

end Claiming

/-- One eligible row was started at a time and settled afterwards. -/
def RanOnce (db db' : Database) (requestId now : String) : Prop :=
  ∃ (row : RequestRow) (tr : Transition), db.row? requestId = some row ∧ row.eligible now = true ∧
    tr.status ≠ .running ∧ db' = (db.move requestId (row.started now)).move requestId tr

/-- What a run does with the tables and the queues, where it reads the clock for the claim
that counts after `n` decisions of the surroundings. -/
def RanAs (worker : AutomationWorker) (w w' : World) (n : ℕ) : Bool → Prop
  | true => ∃ id, RanOnce w.db w'.db id (w.choices n).utc.isoformat ∧
      (worker.runClaimed id).exec (w.later n w'.shared.queues) = (.ok true, w')
  | false => w'.db = w.db ∧ claimNext.exec (w.later n w'.shared.queues) = (.ok none, w') ∧
      ∀ row ∈ w.db.requests, row.eligible (w.choices n).utc.isoformat = false

section Runs
variable {worker : AutomationWorker} {w w' : World} {b : Bool}

theorem runClaimed_ranOnce {id : String} (h : (worker.runClaimed id).exec w = (.ok true, w')) :
    w'.shared.queues = w.shared.queues ∧
      RanOnce w.db w'.db id (w.choices 0).utc.isoformat := by
  obtain ⟨claimed, w₁, hclaim, hrest⟩ := Py.exec_bind_ok h
  cases claimed with
  | none => cases hrest
  | some pair =>
    obtain ⟨id', request⟩ := pair
    obtain ⟨rfl, hqueues, row, hrow, hel, -, hdb⟩ := exec_claim_some hclaim
    obtain ⟨_, w₂, hprocess, hret⟩ := Py.exec_bind_ok hrest
    cases hret
    obtain ⟨hqueues', tr, hstatus, hdb'⟩ := processClaimed_settlesOnce worker request w₁ w' hprocess
    exact ⟨hqueues'.trans hqueues, row, tr, hrow, hel, hstatus, by rw [hdb', hdb]⟩

theorem runOnce_ranAs (hlocks : ∀ n, (w.choices n).connection.locked = [])
    (hrun : worker.runOnce.exec w = (.ok b, w')) :
    Consumed w.shared.queues w'.shared.queues ∧ ∃ n, RanAs worker w w' n b := by
  obtain ⟨claimed, w₁, hwork, h⟩ := Py.exec_bind_ok hrun
  obtain ⟨n, queues, hconsumed, hclaim⟩ := exec_claimWork hwork
  have hlater : ∀ k, ((w.later n queues).choices k).connection.locked = [] :=
    fun k => hlocks (k + n)
  have hzero : (w.later n queues).choices 0 = w.choices n := congrArg w.choices (Nat.zero_add n)
  cases claimed with
  | none =>
    cases h
    rcases hclaim with hnext | ⟨message, pair, hpair, -⟩
    · obtain ⟨hshared, hnone⟩ := exec_claimNext_none hlater hnext
      rw [hzero] at hnone
      have hqueues : w'.shared.queues = queues := congrArg Shared.queues hshared
      have hdb : w'.db = w.db := by
        rw [World.db, hshared]
        rfl
      rw [← hqueues] at hconsumed hnext
      exact ⟨hconsumed, n, hdb, hnext, hnone⟩
    · cases hpair
  | some pair =>
    obtain ⟨id, request⟩ := pair
    obtain ⟨_, w₂, hprocess, hret⟩ := Py.exec_bind_ok h
    cases hret
    have hnamed : (claim id).exec (w.later n queues) = (.ok (some (id, request)), w₁) := by
      rcases hclaim with hnext | ⟨message, pair, -, hclaim⟩
      · exact exec_claim_of_claimNext hlater hnext
      · obtain ⟨rfl, -, -⟩ := exec_claim_some hclaim
        exact hclaim
    have hdirect : (worker.runClaimed id).exec (w.later n queues) = (.ok true, w') := by
      rw [AutomationWorker.runClaimed, Py.exec_bind, hnamed]
      exact h
    obtain ⟨hqueues, honce⟩ := runClaimed_ranOnce hdirect
    rw [hzero] at honce
    have hqueues' : w'.shared.queues = queues := hqueues
    rw [← hqueues'] at hconsumed hdirect
    exact ⟨hconsumed, n, id, honce, hdirect⟩

theorem RanAs.eligible {n : ℕ} (h : RanAs worker w w' n b) :
    b = true ↔ ∃ row ∈ w.db.requests, row.eligible (w.choices n).utc.isoformat = true := by
  cases b with
  | true =>
    obtain ⟨id, ⟨row, tr, hrow, hel, -⟩, -⟩ := h
    simp only [true_iff]
    exact ⟨row, List.mem_of_find?_eq_some hrow, hel⟩
  | false =>
    obtain ⟨-, -, hnone⟩ := h
    simp only [Bool.false_eq_true, false_iff]
    intro ⟨row, hmem, hel⟩
    rw [hnone row hmem] at hel
    cases hel

/-- Whatever the queues hold: at most one message goes, a run that works is the run of one
eligible row that is named directly, and a run that does not work finds no row eligible. At
one fixed time every other way of dispatching comes to the same. -/
theorem broker_never_changes_what_runs (hlocks : ∀ n, (w.choices n).connection.locked = [])
    (hrun : worker.runOnce.exec w = (.ok b, w')) :
    Consumed w.shared.queues w'.shared.queues ∧ (∃ n, RanAs worker w w' n b) ∧
      ∀ (now : Instant) (other : AutomationWorker) (v v' : World) (c : Bool),
        (∀ n, (w.choices n).utc = now) → (∀ n, (v.choices n).utc = now) →
        (∀ n, (v.choices n).connection.locked = []) → v.db = w.db →
        other.runOnce.exec v = (.ok c, v') → c = b := by
  obtain ⟨hconsumed, n, hran⟩ := runOnce_ranAs hlocks hrun
  refine ⟨hconsumed, ⟨n, hran⟩, ?_⟩
  intro now other v v' c hw hv hlocks' hdb hrun'
  obtain ⟨-, m, hran'⟩ := runOnce_ranAs hlocks' hrun'
  have hb := hran.eligible
  have hc := hran'.eligible
  rw [hw n] at hb
  rw [hv m, hdb, ← hb] at hc
  exact Bool.eq_iff_iff.mpr hc

def brokeredWorker : AutomationWorker :=
  { sampleWorker with dispatch := some (.redis "redis://localhost:6379/0" "requests" true) }

/-- One request is waiting, and the queue names an unknown one first. -/
def ghostQueue : World where
  choices _ := .calm
  shared := { (sampleRun 1).2.shared with queues := fun _ => ["ghost", "a"] }
  cooldowns _ := none

omit [JsonCodec] in
theorem broker_never_changes_what_runs_sample : letI := emptyPayload
    ∃ w' v', brokeredWorker.runOnce.exec ghostQueue = (.ok true, w') ∧
      Consumed ghostQueue.shared.queues w'.shared.queues ∧
      (∃ n, RanAs brokeredWorker ghostQueue w' n true) ∧
      sampleWorker.runOnce.exec ghostQueue = (.ok true, v') := by
  let _ := emptyPayload
  have hlocks : ∀ n, (ghostQueue.choices n).connection.locked = [] := fun _ => rfl
  have hbrokered : (brokeredWorker.runOnce.exec ghostQueue).1.toOption = some true := by
    decide +kernel
  have hdirect : (sampleWorker.runOnce.exec ghostQueue).1.toOption.isSome = true := by
    decide +kernel
  rcases hrun : brokeredWorker.runOnce.exec ghostQueue with ⟨r, w'⟩
  rcases hrun' : sampleWorker.runOnce.exec ghostQueue with ⟨r', v'⟩
  rw [hrun] at hbrokered
  rw [hrun'] at hdirect
  cases r with
  | error exc => cases hbrokered
  | ok b =>
    cases hbrokered
    cases r' with
    | error exc => cases hdirect
    | ok c =>
      obtain ⟨hconsumed, hran, hsame⟩ := broker_never_changes_what_runs hlocks hrun
      obtain rfl : c = true := hsame Choice.calm.utc sampleWorker ghostQueue v' c (fun _ => rfl)
        (fun _ => rfl) hlocks rfl hrun'
      exact ⟨w', v', rfl, hconsumed, hran, rfl⟩

end Runs

end Orchestrator
