import Orchestrator.Outcomes
import Orchestrator.Sequential

/-!
# What `run_once` leaves behind

A claim is committed before the adapter runs, and each exit of `run_once` then computes a
delay and settles the row in a transaction of its own. The row is settled exactly when
the numbers of the exit that is taken can be represented.
-/

namespace Orchestrator

open Interaction Library Transaction
set_option autoImplicit false

def Database.Settled (db : Database) (requestId : String) : Prop :=
  db.HasStatus requestId .completed ∨ db.HasStatus requestId .retrying ∨
    db.HasStatus requestId .deadLetter

/-- No attempt is left, or the next one is due before the end of year 9999. -/
def RequestRow.Schedulable (row : RequestRow) (now : Instant) (delay : Int) : Prop :=
  row.exhausted = true ∨
    (0 ≤ now.us + delay * 1000000 ∧ now.us + delay * 1000000 < endOfTime)

theorem RequestRow.schedulable_iff {row : RequestRow} {now : Instant} {delay : Int} :
    row.Schedulable now delay ↔ ∃ nextAttemptAt, row.nextAttempt now delay = .ok nextAttemptAt := by
  rw [Schedulable, ← Instant.addSeconds_isOk, nextAttempt]
  by_cases hex : row.exhausted = true
  · simp [hex]
  · cases hat : now.addSeconds delay <;> simp [hex, Except.map]

theorem Database.settled_settled {db : Database} {id : String} {row : RequestRow}
    (hrow : db.row? id = some row) (detail now : String) (nextAttemptAt : Option String) :
    (db.move id (row.settled detail nextAttemptAt now)).Settled id := by
  have hmove := row?_move_self (row.settled detail nextAttemptAt now) hrow
  have hst : (row.set (row.settled detail nextAttemptAt now).values).status =
      row.failureStatus.value := rfl
  unfold RequestRow.failureStatus at hst
  split at hst
  · exact .inr (.inr ⟨_, hmove, hst⟩)
  · exact .inr (.inl ⟨_, hmove, hst⟩)

variable [JsonCodec]

/-- The code returns without an exception and leaves the row settled. -/
def Py.Settles {α : Type} (x : Py α) (w : World) (requestId : String) : Prop :=
  (∃ a, (x.exec w).1 = .ok a) ∧ (x.exec w).2.db.Settled requestId

namespace Py
variable {α β : Type} {x : Py α} {f : α → Py β} {w w' : World} {id : String}

theorem settles_bind_ok {a : α} (hx : x.exec w = (.ok a, w')) :
    (x >>= f).Settles w id ↔ (f a).Settles w' id := by
  unfold Settles
  rw [exec_bind, hx]

theorem not_settles_bind {exc : PyExc} (hx : x.exec w = (.error exc, w')) :
    ¬ (x >>= f).Settles w id := by
  intro hsettles
  obtain ⟨⟨b, hb⟩, -⟩ := hsettles
  rw [exec_bind, hx] at hb
  cases hb

end Py

open AutomationRepository World

theorem exec_failOrRetry {w : World} {id : String} {row : RequestRow}
    (hrow : w.db.row? id = some row) (detail : String) (delay : Int) :
    (failOrRetry id detail delay).exec w =
      match row.nextAttempt (w.choices 0).utc delay with
      | .ok nextAttemptAt => (.ok (), w.next.withDb (w.db.move id
          (row.settled detail nextAttemptAt (w.choices 0).utc.isoformat)))
      | .error exc => (.error exc, w.next) := by
  have htx := failOrRetryTx_eq (w.choices 0).connection (w.choices 0).utc detail delay hrow
  rw [failOrRetry, Py.exec_transaction]
  simp only [TransactionOp.body]
  cases hnext : row.nextAttempt (w.choices 0).utc delay with
  | ok nextAttemptAt =>
    rw [hnext] at htx
    rw [Tx.commit_of_ok htx]
  | error exc =>
    rw [hnext] at htx
    rw [Tx.commit_of_error htx]
    rfl

theorem failOrRetry_settles {w : World} {id : String} {row : RequestRow}
    (hrow : w.db.row? id = some row)
    (detail : String) (delay : Int) :
    (failOrRetry id detail delay).Settles w id ↔ row.Schedulable (w.choices 0).utc delay := by
  rw [RequestRow.schedulable_iff, Py.Settles, exec_failOrRetry hrow]
  cases hnext : row.nextAttempt (w.choices 0).utc delay with
  | ok nextAttemptAt =>
    have hst := Database.settled_settled hrow detail (w.choices 0).utc.isoformat nextAttemptAt
    simpa using hst
  | error exc => simp

theorem exec_currentAttempt {w : World} {id : String} {row : RequestRow} {result : AutomationResult}
    (hrow : w.db.row? id = some row) (hres : toResult row = .ok result) :
    (AutomationWorker.currentAttempt id).exec w = (.ok result.attemptCount, w.next) := by
  have hget := exec_get id w
  simp only [hrow, hres, Except.map] at hget
  rw [AutomationWorker.currentAttempt, Py.exec_bind, hget]
  rfl

/-- The row of a claim: it is RUNNING, and its channel is one that the program knows. -/
structure ClaimedRow (db : Database) (requestId : String) (row : RequestRow) : Prop where
  stored : db.row? requestId = some row
  running : row.status = AutomationStatus.running.value
  channel : ∃ channel, ExecutionChannel.ofValue row.executionChannel = .ok channel

omit [JsonCodec] in
theorem ClaimedRow.result {db : Database} {id : String} {row : RequestRow}
    (hc : ClaimedRow db id row) :
    ∃ result, toResult row = .ok result ∧ result.attemptCount = row.attemptCount := by
  obtain ⟨channel, hchannel⟩ := hc.channel
  rw [toResult, hc.running, AutomationStatus.ofValue_value, hchannel]
  exact ⟨_, rfl, rfl⟩

theorem Claimed.row {db db' : Database} {id now : String} {request : AutomationRequest}
    (hc : Claimed db db' id request now) : ∃ row, ClaimedRow db' id row := by
  obtain ⟨row, hrow, -, hreq, rfl⟩ := hc
  refine ⟨_, Database.row?_move_self _ hrow, rfl, ?_⟩
  change ∃ channel, ExecutionChannel.ofValue row.executionChannel = .ok channel
  cases hchannel : ExecutionChannel.ofValue row.executionChannel with
  | ok channel => exact ⟨channel, rfl⟩
  | error x =>
    rw [RequestRow.toRequest, hchannel] at hreq
    cases hreq

theorem claimNext_row {w w' : World} {id : String} {request : AutomationRequest}
    (h : claimNext.exec w = (.ok (some (id, request)), w')) : ∃ row, ClaimedRow w'.db id row := by
  obtain ⟨now, w₁, -, h⟩ := Py.exec_bind_ok h
  rw [Py.exec_transaction] at h
  obtain ⟨hr, rfl⟩ := Prod.mk.inj h
  exact Claimed.row (outcome_of_commit (Prod.ext hr rfl))

theorem claim_row {w w' : World} {message id : String} {request : AutomationRequest}
    (h : (claim message).exec w = (.ok (some (id, request)), w')) :
    ∃ row, ClaimedRow w'.db id row := by
  obtain ⟨now, w₁, -, h⟩ := Py.exec_bind_ok h
  rw [Py.exec_transaction] at h
  obtain ⟨hr, rfl⟩ := Prod.mk.inj h
  obtain ⟨rfl, hc⟩ : id = message ∧ _ := outcome_of_commit (Prod.ext hr rfl)
  exact Claimed.row hc

theorem claimWork_row {worker : AutomationWorker} {w w' : World} {id : String}
    {request : AutomationRequest}
    (h : worker.claimWork.exec w = (.ok (some (id, request)), w')) :
    ∃ row, ClaimedRow w'.db id row := by
  obtain ⟨dispatcher, w₁, -, h⟩ := Py.exec_bind_ok h
  cases dispatcher with
  | database => exact claimNext_row h
  | redis redisUrl queueName client =>
    obtain ⟨message, w₂, -, h⟩ := Py.exec_bind_ok h
    cases message with
    | none => exact claimNext_row h
    | some message =>
      obtain ⟨claimed, w₃, hclaim, h⟩ := Py.exec_bind_ok h
      cases claimed with
      | none => exact claimNext_row h
      | some claimed =>
        cases h
        exact claim_row hclaim

namespace AutomationWorker

variable (worker : AutomationWorker) {w : World} {id : String} {row : RequestRow}
variable {request : AutomationRequest}

/-- The jitter ratio is a number, and nothing on the way to the back-off is out of range. -/
structure BackoffFits (attempt : Int) (draw ratio : ℚ) : Prop where
  number : worker.jitterRatio = .fin ratio
  base : (worker.backoffBase attempt).natAbs < Float64.limit
  scaled : |worker.backoffBase attempt * ratio| < Float64.limit
  jitter : |worker.backoffBase attempt * ratio * draw| < Float64.limit
  sum : |worker.backoffBase attempt + worker.backoffBase attempt * ratio * draw| < Float64.limit

def jittered (attempt : Int) (draw ratio : ℚ) : Int :=
  max 0 ⌊worker.backoffBase attempt + worker.backoffBase attempt * ratio * draw⌋

/-- When a claimed row gets settled: no number that the exit taken computes is out of range.
The decisions of the surroundings are numbered as `processClaimed` asks for them. -/
def Settleable (row : RequestRow) (request : AutomationRequest) (w : World) : Prop :=
  let cooldown := (w.cooldowns request.target).getD (.fin 0)
  if Float64.lt (.fin (w.choices 1).monotonic) cooldown then
    ∃ deadline, cooldown = .fin deadline ∧
      |deadline - (w.choices 2).monotonic| < Float64.limit ∧
      row.Schedulable (w.choices 3).utc (max 1 ⌊deadline - (w.choices 2).monotonic⌋)
  else
    match (w.choices 2).outcome with
    | .ok _ => True
    | .error (.retryableAdapterError _ (some hint)) =>
      hint.natAbs < Float64.limit ∧ row.Schedulable (w.choices 6).utc hint
    | .error _ => ∃ ratio, worker.BackoffFits row.attemptCount (w.choices 4).random ratio ∧
        row.Schedulable (w.choices 5).utc
          (worker.jittered row.attemptCount (w.choices 4).random ratio)

omit [JsonCodec] in
theorem deferralDelay_eq_ok {cooldown : Float64} {monotonic : ℚ} {delay : Int} :
    deferralDelay cooldown monotonic = .ok delay ↔
      ∃ deadline, cooldown = .fin deadline ∧ |deadline - monotonic| < Float64.limit ∧
        delay = max 1 ⌊deadline - monotonic⌋ := by
  have hbind : deferralDelay cooldown monotonic = .ok delay ↔
      ∃ m, (cooldown.sub (.fin monotonic)).toInt = .ok m ∧ delay = max 1 m := by
    rw [deferralDelay, bind_eq_ok]
    simp [pure, Except.pure, eq_comm]
  rw [hbind, Float64.toInt_max (by decide)]
  constructor
  · intro h
    obtain ⟨q, hq, rfl⟩ := h
    obtain ⟨deadline, p, rfl, hp, hlt, rfl⟩ := Float64.add_eq_fin.mp hq
    obtain rfl : -monotonic = p := by simpa [Float64.neg] using hp
    rw [← sub_eq_add_neg] at hlt ⊢
    exact ⟨deadline, rfl, hlt, rfl⟩
  · intro h
    obtain ⟨deadline, rfl, hlt, rfl⟩ := h
    refine ⟨deadline - monotonic, ?_, rfl⟩
    rw [sub_eq_add_neg] at hlt ⊢
    exact Float64.add_eq_fin.mpr ⟨_, _, rfl, rfl, hlt, rfl⟩

omit [JsonCodec] in
theorem backoffFor_eq_ok {attempt delay : Int} {draw : ℚ} :
    worker.backoffFor attempt draw = .ok delay ↔
      ∃ ratio, worker.BackoffFits attempt draw ratio ∧
        delay = worker.jittered attempt draw ratio := by
  have hbind : worker.backoffFor attempt draw = .ok delay ↔
      (worker.backoffBase attempt).natAbs < Float64.limit ∧
      ∃ m, ((Float64.fin (worker.backoffBase attempt)).add
        (((Float64.fin (worker.backoffBase attempt)).mul worker.jitterRatio).mul
          (.fin draw))).toInt = .ok m ∧ delay = max 0 m := by
    simp only [backoffFor, bind_eq_ok, Float64.ofInt_eq_ok]
    constructor
    · intro h
      obtain ⟨-, ⟨hbase, rfl⟩, -, ⟨-, rfl⟩, m, hm, hdelay⟩ := h
      exact ⟨hbase, m, hm, (Except.ok.inj hdelay).symm⟩
    · intro h
      obtain ⟨hbase, m, hm, rfl⟩ := h
      exact ⟨_, ⟨hbase, rfl⟩, _, ⟨hbase, rfl⟩, m, hm, rfl⟩
  rw [hbind, Float64.toInt_max (by decide)]
  constructor
  · intro h
    obtain ⟨hbase, q, hq, rfl⟩ := h
    obtain ⟨b, j, hb, hj, hsum, rfl⟩ := Float64.add_eq_fin.mp hq
    obtain rfl : (worker.backoffBase attempt : ℚ) = b := by simpa using hb
    obtain ⟨p, d, hp, hd, hjitter, rfl⟩ := Float64.mul_eq_fin.mp hj
    obtain rfl : draw = d := by simpa using hd
    obtain ⟨b', ratio, hb', hratio, hscaled, rfl⟩ := Float64.mul_eq_fin.mp hp
    obtain rfl : (worker.backoffBase attempt : ℚ) = b' := by simpa using hb'
    exact ⟨ratio, ⟨hratio, hbase, hscaled, hjitter, hsum⟩, rfl⟩
  · intro h
    obtain ⟨ratio, hfits, rfl⟩ := h
    refine ⟨hfits.base, _, ?_, rfl⟩
    have hscaled := Float64.mul_eq_fin.mpr ⟨_, _, rfl, hfits.number, hfits.scaled, rfl⟩
    have hjitter := Float64.mul_eq_fin.mpr ⟨_, draw, hscaled, rfl, hfits.jitter, rfl⟩
    exact Float64.add_eq_fin.mpr ⟨_, _, rfl, hjitter, hfits.sum, rfl⟩

theorem deferTarget_settles (hc : ClaimedRow w.db id row) (cooldown : Float64) :
    (deferTarget id request cooldown).Settles w id ↔
      ∃ deadline, cooldown = .fin deadline ∧
        |deadline - (w.choices 0).monotonic| < Float64.limit ∧
        row.Schedulable (w.choices 1).utc (max 1 ⌊deadline - (w.choices 0).monotonic⌋) := by
  have hdelay : (deferTarget id request cooldown).Settles w id ↔
      ∃ delay, deferralDelay cooldown (w.choices 0).monotonic = .ok delay ∧
        row.Schedulable (w.choices 1).utc delay := by
    rw [deferTarget, Py.settles_bind_ok (Py.exec_ask_monotonic w)]
    cases deferralDelay cooldown (w.choices 0).monotonic with
    | error x => simpa using Py.not_settles_bind (Py.exec_ofFloat (.error x) w.next)
    | ok delay =>
      rw [Py.settles_bind_ok (Py.exec_ofFloat (.ok delay) w.next),
        failOrRetry_settles (w := w.next) hc.stored]
      simp
  rw [hdelay]
  constructor
  · intro h
    obtain ⟨delay, hok, hsched⟩ := h
    obtain ⟨deadline, rfl, hlt, rfl⟩ := deferralDelay_eq_ok.mp hok
    exact ⟨deadline, rfl, hlt, hsched⟩
  · intro h
    obtain ⟨deadline, rfl, hlt, hsched⟩ := h
    exact ⟨_, deferralDelay_eq_ok.mpr ⟨deadline, rfl, hlt, rfl⟩, hsched⟩

theorem backoff_settles (hc : ClaimedRow w.db id row) (detail : String) :
    (do let attempt ← currentAttempt id
        let retryDelay ← worker.backoff attempt
        failOrRetry id detail retryDelay : Py Unit).Settles w id ↔
      ∃ ratio, worker.BackoffFits row.attemptCount (w.choices 1).random ratio ∧
        row.Schedulable (w.choices 2).utc
          (worker.jittered row.attemptCount (w.choices 1).random ratio) := by
  obtain ⟨result, hresult, hattempt⟩ := hc.result
  rw [Py.settles_bind_ok (exec_currentAttempt hc.stored hresult), hattempt]
  have hbackoff : (worker.backoff row.attemptCount).exec w.next =
      ((worker.backoffFor row.attemptCount (w.choices 1).random).mapError PyExc.ofFloat,
        w.next.next) := rfl
  cases hdelay : worker.backoffFor row.attemptCount (w.choices 1).random with
  | error x =>
    rw [hdelay] at hbackoff
    apply iff_of_false (Py.not_settles_bind hbackoff)
    intro h
    obtain ⟨ratio, hfits, -⟩ := h
    have hok := worker.backoffFor_eq_ok.mpr ⟨ratio, hfits, rfl⟩
    rw [hdelay] at hok
    cases hok
  | ok delay =>
    rw [hdelay] at hbackoff
    rw [Py.settles_bind_ok hbackoff, failOrRetry_settles (w := w.next.next) hc.stored]
    obtain ⟨ratio, hfits, rfl⟩ := worker.backoffFor_eq_ok.mp hdelay
    constructor
    · intro hsched
      exact ⟨ratio, hfits, hsched⟩
    · intro h
      obtain ⟨ratio', hfits', hsched⟩ := h
      obtain rfl : ratio = ratio' := by simpa [hfits.number] using hfits'.number
      exact hsched

theorem rateLimited_settles (hc : ClaimedRow w.db id row) (text : String) (hint : Int) :
    (worker.rateLimited id request text (some hint)).Settles w id ↔
      hint.natAbs < Float64.limit ∧ row.Schedulable (w.choices 3).utc hint := by
  obtain ⟨result, hresult, -⟩ := hc.result
  rw [rateLimited, Py.settles_bind_ok (exec_currentAttempt hc.stored hresult)]
  simp only
  rw [Py.settles_bind_ok (Py.exec_ask_monotonic _)]
  by_cases hlimit : hint.natAbs < Float64.limit
  · have hdeadline : cooldownUntil (w.choices 1).monotonic hint =
        .ok ((Float64.fin (w.choices 1).monotonic).add (.fin hint)) := by
      rw [cooldownUntil, Float64.ofInt, if_pos hlimit]
      rfl
    rw [next_choices, hdeadline, Py.settles_bind_ok (Py.exec_ofFloat (.ok _) _),
      Py.settles_bind_ok (Py.exec_ask (.cooldownSet ..) _)]
    apply (failOrRetry_settles (by exact hc.stored) text hint).trans
    simp [hlimit, World.answer]
  · have hdeadline : cooldownUntil (w.choices 1).monotonic hint = .error .overflow := by
      rw [cooldownUntil, Float64.ofInt, if_neg hlimit]
      rfl
    rw [next_choices, hdeadline]
    simpa [hlimit] using Py.not_settles_bind (Py.exec_ofFloat (.error .overflow) w.next.next)

theorem complete_settles (hc : ClaimedRow w.db id row) (detail : String) :
    (complete id detail).Settles w id := by
  have hcommit : (updateStatusTx (w.choices 1).connection id .completed detail
      (w.choices 0).utc.isoformat).exec w.db =
      .ok ((), w.db.move id (.completed .completed detail (w.choices 0).utc.isoformat)) :=
    updateStatusTx_eq _ _ _ _ hc.stored
  rw [complete, updateStatus, Py.settles_bind_ok (Py.exec_utcNow w)]
  refine ⟨⟨(), ?_⟩, .inl ?_⟩
  · rw [Py.exec_transaction]
    exact congrArg Prod.fst (Tx.commit_of_ok hcommit)
  · rw [Py.exec_transaction]
    simp only [TransactionOp.body, withDb_db]
    rw [show w.next.db = w.db from rfl, show w.next.choices 0 = w.choices 1 from rfl,
      Tx.commit_of_ok hcommit]
    exact ⟨_, Database.row?_move_self _ hc.stored, rfl⟩

theorem runAdapter_settles (hc : ClaimedRow w.db id row) :
    (worker.runAdapter id request).Settles w id ↔
      match (w.choices 0).outcome with
      | .ok _ => True
      | .error (.retryableAdapterError _ (some hint)) =>
        hint.natAbs < Float64.limit ∧ row.Schedulable (w.choices 4).utc hint
      | .error _ => ∃ ratio, worker.BackoffFits row.attemptCount (w.choices 2).random ratio ∧
          row.Schedulable (w.choices 3).utc
            (worker.jittered row.attemptCount (w.choices 2).random ratio) := by
  have hexecute : (Py.ask (.execute id request)).exec w = (.ok (w.choices 0).outcome, w.next) := rfl
  have hc' : ClaimedRow w.next.db id row := hc
  rw [runAdapter, Py.settles_bind_ok hexecute]
  rcases (w.choices 0).outcome with exc | detail
  · cases exc with
    | retryableAdapterError text hint =>
      cases hint with
      | some hint => exact rateLimited_settles worker hc' text hint
      | none => exact backoff_settles worker hc' text
    | _ => exact backoff_settles worker hc' _
  · have hpop : (Py.ask (.cooldownPop request.target)).exec w.next =
        (.ok (), { w.next.next with
          cooldowns := Function.update w.cooldowns request.target none }) := rfl
    simp only [iff_true]
    rw [Py.settles_bind_ok hpop]
    apply complete_settles
    exact hc'

theorem processClaimed_settles (hc : ClaimedRow w.db id row) :
    (worker.processClaimed id request).Settles w id ↔ worker.Settleable row request w := by
  have hget : (Py.ask (.cooldownGet request.target)).exec w =
      (.ok (w.cooldowns request.target), w.next) := rfl
  have hc' : ClaimedRow w.next.next.db id row := hc
  rw [processClaimed, Py.settles_bind_ok hget, Py.settles_bind_ok (Py.exec_ask_monotonic _)]
  unfold Settleable
  simp only [next_choices, Nat.zero_add]
  split
  · exact deferTarget_settles hc' _
  · exact runAdapter_settles worker hc'

/-- `run_once` settles the row that it claimed exactly when it can compute what it needs. -/
theorem runOnce_settles_iff {w₁ : World}
    (hclaim : worker.claimWork.exec w = (.ok (some (id, request)), w₁)) :
    ((worker.runOnce.exec w).1 = .ok true ∧ (worker.runOnce.exec w).2.db.Settled id) ↔
      ∃ row, w₁.db.row? id = some row ∧ worker.Settleable row request w₁ := by
  obtain ⟨row, hc⟩ := claimWork_row hclaim
  have hrun : worker.runOnce.exec w =
      (do worker.processClaimed id request; return true : Py Bool).exec w₁ := by
    rw [runOnce, Py.exec_bind, hclaim]
  have hsettles : ((worker.runOnce.exec w).1 = .ok true ∧
      (worker.runOnce.exec w).2.db.Settled id) ↔
      (worker.processClaimed id request).Settles w₁ id := by
    rw [hrun, Py.exec_bind, Py.Settles]
    rcases (worker.processClaimed id request).exec w₁ with ⟨r, w₂⟩
    cases r <;> simp
  rw [hsettles, processClaimed_settles worker hc]
  constructor
  · intro h
    exact ⟨row, hc.stored, h⟩
  · intro h
    obtain ⟨row', hrow', h⟩ := h
    obtain rfl : row = row' := by simpa [hc.stored] using hrow'
    exact h

theorem claims_of_isSome (h : (worker.claimWork.exec w).1.toOption.join.isSome = true) :
    ∃ id request w₁, worker.claimWork.exec w = (.ok (some (id, request)), w₁) := by
  rcases hx : worker.claimWork.exec w with ⟨r, w₁⟩
  rw [hx] at h
  rcases r with exc | _ | ⟨id, request⟩
  · cases h
  · cases h
  · exact ⟨id, request, w₁, rfl⟩

/-- A request that may be attempted twice is waiting, and its target asks to come back in a
million million seconds. -/
def farHint : World where
  choices _ :=
    { Choice.calm with outcome := .error (.retryableAdapterError "rate limited" (some (10 ^ 12))) }
  shared := (inTurn [(0, fun _ => .calm, .submit ⟨some .database⟩ twiceRequest)]).2.shared
  cooldowns _ := none

omit [JsonCodec] in
theorem runOnce_settles_iff_sample : letI := emptyPayload
    ∃ id request w₁, sampleWorker.claimWork.exec farHint = (.ok (some (id, request)), w₁) ∧
      (((sampleWorker.runOnce.exec farHint).1 = .ok true ∧
        (sampleWorker.runOnce.exec farHint).2.db.Settled id) ↔
        ∃ row, w₁.db.row? id = some row ∧ sampleWorker.Settleable row request w₁) := by
  let _ := emptyPayload
  have hsome : (sampleWorker.claimWork.exec farHint).1.toOption.join.isSome = true := by
    decide +kernel
  obtain ⟨id, request, w₁, hclaim⟩ := sampleWorker.claims_of_isSome hsome
  exact ⟨id, request, w₁, hclaim, runOnce_settles_iff sampleWorker hclaim⟩

omit [JsonCodec] in
/-- The date of the next attempt is out of range: the exception escapes and the claimed row
stays RUNNING. -/
theorem runOnce_strands : letI := emptyPayload
    ∃ request w₁, sampleWorker.claimWork.exec farHint = (.ok (some ("a", request)), w₁) ∧
      (sampleWorker.runOnce.exec farHint).1 = .error (.overflowError "date value out of range") ∧
      ((sampleWorker.runOnce.exec farHint).2.db.row? "a").map (·.status) =
        some AutomationStatus.running.value := by
  let _ := emptyPayload
  have hid : (sampleWorker.claimWork.exec farHint).1.toOption.join.map Prod.fst = some "a" := by
    decide +kernel
  have hsome : (sampleWorker.claimWork.exec farHint).1.toOption.join.isSome = true := by
    decide +kernel
  obtain ⟨id, request, w₁, hclaim⟩ := sampleWorker.claims_of_isSome hsome
  rw [hclaim] at hid
  obtain rfl : id = "a" := by simpa [Except.toOption] using hid
  exact ⟨request, w₁, hclaim, by decide +kernel, by decide +kernel⟩

end AutomationWorker

end Orchestrator
