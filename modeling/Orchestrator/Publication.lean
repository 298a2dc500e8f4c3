import Orchestrator.Outcomes
import Orchestrator.Sequential

/-!
# Persist first, publish second

`submit` and `replay_dead_letter` commit to the tables before they choose a dispatcher
and publish. An error of the second stage reaches the caller after the commit, and the
replay endpoint answers by the class of the exception alone.
-/

namespace Orchestrator

open Interaction Library Transaction World
set_option autoImplicit false

section Stages

/-- `DISPATCH_BACKEND` as `get_dispatch_queue` compares it. -/
def Choice.backend (c : Choice) : String :=
  lower (strip ((c.env "DISPATCH_BACKEND").getD "database"))

/-- How publishing ends; a queue without a client first makes one from its URL. -/
def DispatchQueue.publication : DispatchQueue → World → Except PyExc Unit
  | database, _ => .ok ()
  | redis _ _ true, w => (w.choices 0).rpush
  | redis _ _ false, w => (w.choices 0).fromUrl.bind fun () => (w.choices 1).rpush

/-- How the second stage ends, from the configuration and the broker alone. -/
def AutomationService.publication (self : AutomationService) (w : World) : Except PyExc Unit :=
  match self.dispatch with
  | some dispatch => dispatch.publication w
  | none =>
    if (w.choices 0).backend = "database" then .ok ()
    else if (w.choices 0).backend = "redis" then
      (w.choices 3).fromUrl.bind fun () => (w.choices 4).rpush
    else .error (unsupportedBackend (w.choices 0).backend)

variable [JsonCodec]

theorem exec_rpush (queueName requestId : String) (w : World) :
    ∃ w', Py.exec (ExceptT.mk (Prog.perform (Eff.rpush queueName requestId))) w =
      ((w.choices 0).rpush, w') ∧ w'.db = w.db := by
  refine ⟨(World.answer (.rpush queueName requestId) w).2, ?_, ?_⟩
  · cases hpush : (w.choices 0).rpush <;> simp [Py.exec, World.answer, handle, hpush]
  · cases hpush : (w.choices 0).rpush <;> simp [World.answer, handle, hpush, World.db]

theorem exec_publish (dispatcher : DispatchQueue) (requestId : String) (w : World) :
    ∃ w', (dispatcher.publish requestId).exec w = (dispatcher.publication w, w') ∧
      w'.db = w.db := by
  cases dispatcher with
  | database => exact ⟨w, rfl, rfl⟩
  | redis redisUrl queueName client =>
    cases client with
    | true => exact exec_rpush queueName requestId w
    | false =>
      have hconnect : (DispatchQueue.connect redisUrl false).exec w =
          ((w.choices 0).fromUrl, w.next) := rfl
      rw [DispatchQueue.publish, Py.exec_bind, hconnect, DispatchQueue.publication]
      cases (w.choices 0).fromUrl with
      | error exc => exact ⟨w.next, rfl, rfl⟩
      | ok _ => exact exec_rpush queueName requestId w.next

theorem exec_getDispatchQueue (w : World) :
    getDispatchQueue.exec w =
      if (w.choices 0).backend = "database" then (.ok .database, w.next)
      else if (w.choices 0).backend = "redis" then
        (.ok (.redis (((w.choices 1).env "REDIS_URL").getD "redis://localhost:6379/0")
          (((w.choices 2).env "REDIS_QUEUE_NAME").getD "automation:requests") false),
          w.next.next.next)
      else (.error (unsupportedBackend (w.choices 0).backend), w.next) := by
  have hgetenv : ∀ (name : String) (w : World),
      (Py.ask (.getenv name)).exec w = (.ok ((w.choices 0).env name), w.next) := fun _ _ => rfl
  rw [getDispatchQueue, Py.exec_bind, hgetenv]
  simp only
  change Py.exec (if (w.choices 0).backend = "database" then _ else
    if (w.choices 0).backend = "redis" then _ else
      throw (unsupportedBackend (w.choices 0).backend)) w.next = _
  split
  · rfl
  · split <;> rfl

theorem exec_announce (self : AutomationService) (requestId : String) (w : World) :
    ∃ w', (self.announce requestId).exec w = (self.publication w, w') ∧ w'.db = w.db := by
  have hpublish : ∀ (dispatcher : DispatchQueue) (w : World),
      ∃ w', Py.exec (if dispatcher.brokered then dispatcher.publish requestId else pure ()) w =
        (dispatcher.publication w, w') ∧ w'.db = w.db := by
    intro dispatcher w
    cases dispatcher with
    | database => exact ⟨w, rfl, rfl⟩
    | redis redisUrl queueName client =>
      exact exec_publish (.redis redisUrl queueName client) requestId w
  obtain ⟨dispatch⟩ := self
  rw [AutomationService.announce, Py.exec_bind, AutomationService.publication]
  cases dispatch with
  | some dispatch => exact hpublish dispatch w
  | none =>
    simp only [dispatcherOr, exec_getDispatchQueue]
    by_cases hdatabase : (w.choices 0).backend = "database"
    · simp only [if_pos hdatabase]
      exact hpublish .database w.next
    · by_cases hredis : (w.choices 0).backend = "redis"
      · simp only [if_neg hdatabase, if_pos hredis]
        exact hpublish (.redis _ _ false) w.next.next.next
      · simp only [if_neg hdatabase, if_neg hredis]
        exact ⟨w.next, rfl, rfl⟩

end Stages

/-- The endpoint takes the exception for a refusal: it answers 404 or 409. -/
def PyExc.Refuses (exc : PyExc) : Prop := exc.isKeyError = true ∨ exc.isValueError = true

/-- The answer to a replay agrees with what the replay found and with what it did. -/
structure ReplayTruthful (before after : Database) (requestId : String) (statusCode : Nat) :
    Prop where
  notFound : statusCode = 404 ↔ before.row? requestId = none
  conflict : statusCode = 409 ↔ ∃ row, before.row? requestId = some row ∧
    row.status ≠ AutomationStatus.deadLetter.value
  unchanged : statusCode = 404 ∨ statusCode = 409 → after = before
  changed : after ≠ before → before.HasStatus requestId .deadLetter ∧
    (∃ now, after = before.move requestId (.replayed now)) ∧ statusCode ≠ 404 ∧ statusCode ≠ 409

/-- After the reset of the row an exception is raised that reads as a refusal. The decisions
of the surroundings are numbered as the endpoint asks for them. -/
def ReplayMisread (row : RequestRow) (w : World) : Prop :=
  (∀ channel, ExecutionChannel.ofValue row.executionChannel ≠ .ok channel) ∨
  ((w.choices 2).backend ≠ "database" ∧ (w.choices 2).backend ≠ "redis") ∨
  ((w.choices 2).backend = "redis" ∧ ∃ exc : PyExc, exc.Refuses ∧
    ((w.choices 5).fromUrl = .error exc ∨
      (w.choices 5).fromUrl = .ok () ∧ (w.choices 6).rpush = .error exc))

theorem ExecutionChannel.ofValue_error {s : String} {exc : PyExc}
    (h : ExecutionChannel.ofValue s = .error exc) : exc.isValueError = true := by
  unfold ExecutionChannel.ofValue at h
  split at h
  · cases h
  · split at h
    · cases h
    · cases h
      rfl

theorem AutomationService.publication_refuses {w : World} :
    (∃ exc, AutomationService.publication ⟨none⟩ w = .error exc ∧ exc.Refuses) ↔
      ((w.choices 0).backend ≠ "database" ∧ (w.choices 0).backend ≠ "redis") ∨
      ((w.choices 0).backend = "redis" ∧ ∃ exc : PyExc, exc.Refuses ∧
        ((w.choices 3).fromUrl = .error exc ∨
          (w.choices 3).fromUrl = .ok () ∧ (w.choices 4).rpush = .error exc)) := by
  unfold AutomationService.publication
  by_cases hdatabase : (w.choices 0).backend = "database"
  · simp [hdatabase]
  · by_cases hredis : (w.choices 0).backend = "redis"
    · simp only [hredis, if_true, ne_eq, not_true_eq_false, and_false, false_or, true_and]
      rw [if_neg (by decide)]
      cases (w.choices 3).fromUrl with
      | error exc => simp [Except.bind, and_comm, eq_comm]
      | ok _ => simp [Except.bind, and_comm]
    · simp [hdatabase, hredis, unsupportedBackend, PyExc.Refuses, PyExc.isValueError]

section Replay
variable [JsonCodec] {w : World} {id : String} {row : RequestRow}

theorem exec_replayDeadLetter (w : World) (id : String) :
    (AutomationRepository.replayDeadLetter id).exec w =
      match (replayDeadLetterTx (w.choices 1).connection id
        (w.choices 0).utc.isoformat).exec w.db with
      | .ok (updated, db) => (toResult updated, w.next.next.withDb db)
      | .error exc => (.error exc, w.next.next) := by
  rw [AutomationRepository.replayDeadLetter, Py.exec_bind, Py.exec_utcNow]
  simp only [Py.exec_bind, Py.exec_transaction, TransactionOp.body, next_choices, next_db,
    Nat.zero_add, Tx.commit, Py.exec_ofExcept]
  cases (replayDeadLetterTx (w.choices 1).connection id (w.choices 0).utc.isoformat).exec w.db with
  | ok r => rfl
  | error exc => rfl

theorem replay_refused (hdead : ¬ w.db.HasStatus id .deadLetter) :
    ∃ exc, (AutomationService.replayDeadLetter ⟨none⟩ id).exec w = (.error exc, w.next.next) ∧
      (exc.isKeyError = true ↔ w.db.row? id = none) ∧
      (exc.isValueError = true ↔ w.db.row? id ≠ none) := by
  rw [AutomationService.replayDeadLetter, Py.exec_bind, exec_replayDeadLetter]
  cases hrow : w.db.row? id with
  | none =>
    simp only [replayDeadLetterTx, Tx.exec_bind, Tx.exec_select, hrow, Tx.exec_raise]
    exact ⟨_, rfl, by simp [PyExc.isKeyError], by simp [PyExc.isValueError]⟩
  | some row =>
    have hst : row.status ≠ AutomationStatus.deadLetter.value := fun heq => hdead ⟨row, hrow, heq⟩
    simp only [replayDeadLetterTx, Tx.exec_bind, Tx.exec_select, hrow, if_pos hst, Tx.exec_raise]
    exact ⟨_, rfl, by simp [PyExc.isKeyError], by simp [PyExc.isValueError]⟩

theorem replay_of_deadLetter (hrow : w.db.row? id = some row)
    (hdead : row.status = AutomationStatus.deadLetter.value) :
    ∃ r w', (AutomationService.replayDeadLetter ⟨none⟩ id).exec w = (r, w') ∧
      w'.db = w.db.move id (.replayed (w.choices 0).utc.isoformat) ∧
      ((∃ exc, r = .error exc ∧ exc.Refuses) ↔ ReplayMisread row w) := by
  let reset := w.next.next.withDb (w.db.move id (.replayed (w.choices 0).utc.isoformat))
  have hresult : toResult (row.set (Transition.replayed (w.choices 0).utc.isoformat).values) =
      (ExecutionChannel.ofValue row.executionChannel).map fun channel =>
        ⟨row.requestId, .queued, channel, replayDetail, 0, row.maxAttempts, row.createdAt,
          (w.choices 0).utc.isoformat⟩ := by
    cases hchannel : ExecutionChannel.ofValue row.executionChannel <;>
      simp [toResult, RequestRow.set, Transition.replayed, Transition.values, hchannel] <;> rfl
  rw [AutomationService.replayDeadLetter, Py.exec_bind, exec_replayDeadLetter,
    replayDeadLetterTx_eq _ _ hrow hdead]
  simp only [hresult]
  cases hchannel : ExecutionChannel.ofValue row.executionChannel with
  | error exc =>
    have hrefuses : exc.Refuses := .inr (ExecutionChannel.ofValue_error hchannel)
    refine ⟨.error exc, reset, rfl, rfl, ?_⟩
    simp [ReplayMisread, hchannel, hrefuses]
  | ok channel =>
    obtain ⟨w', hannounce, hdb⟩ := exec_announce ⟨none⟩ id reset
    have hmisread : ReplayMisread row w ↔
        ∃ exc, AutomationService.publication ⟨none⟩ reset = .error exc ∧ exc.Refuses := by
      rw [AutomationService.publication_refuses]
      simp [ReplayMisread, hchannel, reset]
    have hreturn : ∀ result : AutomationResult,
        (do AutomationService.announce ⟨none⟩ id; return result : Py AutomationResult).exec reset =
          ((AutomationService.publication ⟨none⟩ reset).map fun _ => result, w') := by
      intro result
      rw [Py.exec_bind, hannounce]
      cases AutomationService.publication ⟨none⟩ reset <;> rfl
    refine ⟨_, w', hreturn _, hdb, ?_⟩
    rw [hmisread]
    cases AutomationService.publication ⟨none⟩ reset <;> simp [Except.map]

theorem exec_replayDeadLetterRequest {r : Except PyExc AutomationResult} {w' : World}
    (h : (AutomationService.replayDeadLetter ⟨none⟩ id).exec w = (r, w')) :
    ∃ answer, (replayDeadLetterRequest id).exec World.answer w = (answer, w') ∧
      (answer.statusCode = 404 ↔ ∃ exc, r = .error exc ∧ exc.isKeyError = true) ∧
      (answer.statusCode = 409 ↔ ∃ exc, r = .error exc ∧ exc.isValueError = true) := by
  unfold Py.exec at h
  rw [replayDeadLetterRequest, Prog.exec_bind, h]
  cases r with
  | ok result => exact ⟨_, rfl, by simp, by simp⟩
  | error exc =>
    by_cases hkey : exc.isKeyError = true
    · have hvalue : exc.isValueError = false := by cases exc <;> simp_all [PyExc.isKeyError,
        PyExc.isValueError]
      simp only [if_pos hkey]
      exact ⟨_, rfl, by simp [hkey], by simp [hvalue]⟩
    · simp only [if_neg hkey]
      by_cases hvalue : exc.isValueError = true
      · simp only [if_pos hvalue]
        exact ⟨_, rfl, by simp [hkey], by simp [hvalue]⟩
      · simp only [if_neg hvalue]
        exact ⟨_, rfl, by simp [hkey], by simp [hvalue]⟩

/-- The answer of the endpoint is wrong only when a dead letter is replayed and an error that
comes after the commit reads as a refusal. -/
theorem replay_truthful_iff (w : World) (id : String) :
    ReplayTruthful w.db ((replayDeadLetterRequest id).exec World.answer w).2.db id
        ((replayDeadLetterRequest id).exec World.answer w).1.statusCode ↔
      ∀ row, w.db.row? id = some row → row.status = AutomationStatus.deadLetter.value →
        ¬ ReplayMisread row w := by
  by_cases hdead : w.db.HasStatus id .deadLetter
  · obtain ⟨row, hrow, hst⟩ := hdead
    obtain ⟨r, w', hreplay, hdb, hmisread⟩ := replay_of_deadLetter hrow hst
    obtain ⟨answer, hexec, h404, h409⟩ := exec_replayDeadLetterRequest hreplay
    rw [hexec]
    have hanswer : (answer.statusCode = 404 ∨ answer.statusCode = 409) ↔ ReplayMisread row w := by
      rw [h404, h409, ← hmisread, ← exists_or]
      simp only [PyExc.Refuses, and_or_left]
    constructor
    · intro ht row' hrow' hst' hm
      obtain rfl : row = row' := by simpa [hrow] using hrow'
      rcases hanswer.mpr hm with hcode | hcode
      · simpa [hrow] using ht.notFound.mp hcode
      · obtain ⟨row', hrow', hne⟩ := ht.conflict.mp hcode
        obtain rfl : row = row' := by simpa [hrow] using hrow'
        exact hne hst
    · intro hm
      have hcodes := mt hanswer.mp (hm row hrow hst)
      rw [not_or] at hcodes
      exact
        { notFound := by simp [hcodes.1, hrow]
          conflict := by simp [hcodes.2, hrow, hst]
          unchanged := fun hcode => absurd hcode (not_or.mpr hcodes)
          changed := fun _ => ⟨⟨row, hrow, hst⟩, ⟨_, hdb⟩, hcodes⟩ }
  · obtain ⟨exc, hreplay, hkey, hvalue⟩ := replay_refused hdead
    obtain ⟨answer, hexec, h404, h409⟩ := exec_replayDeadLetterRequest hreplay
    rw [hexec]
    constructor
    · intro _ row hrow hst
      exact absurd ⟨row, hrow, hst⟩ hdead
    · intro _
      have hconflict : w.db.row? id ≠ none ↔ ∃ row, w.db.row? id = some row ∧
          row.status ≠ AutomationStatus.deadLetter.value := by
        constructor
        · intro hsome
          obtain ⟨row, hrow⟩ := Option.ne_none_iff_exists'.mp hsome
          exact ⟨row, hrow, fun hst => hdead ⟨row, hrow, hst⟩⟩
        · intro hstatus
          obtain ⟨row, hrow, -⟩ := hstatus
          simp [hrow]
      exact
        { notFound := by simp [h404, hkey]
          conflict := by simpa [h409, hvalue] using hconflict
          unchanged := fun _ => rfl
          changed := fun hne => absurd rfl hne }

end Replay

section Submit
variable [JsonCodec] {w : World} {id : String} {request : AutomationRequest}

theorem exec_selectByKey (key : String) (w : World) :
    (Py.transaction (.selectByKey key)).exec w = (.ok (w.db.selectByKey key), w.next) := rfl

theorem exec_findExisting (idempotencyKey : Option String) (w : World) :
    ∃ found w', (AutomationRepository.findExisting idempotencyKey).exec w = (.ok found, w') ∧
      w'.db = w.db := by
  unfold AutomationRepository.findExisting
  cases idempotencyKey.filter (· ≠ "") with
  | none => exact ⟨none, w, rfl, rfl⟩
  | some key => exact ⟨_, w.next, rfl, rfl⟩

/-- What `create` leaves in the tables, by its outcome. -/
def CreateOutcome (db db' : Database) (id : String) (request : AutomationRequest) (now : String) :
    Except PyExc String → Prop
  | .error _ => db' = db
  | .ok result => db' = db ∨ result = id ∧ Submitted db db' id request now

theorem exec_insertOrFind {now : String} {r : Except PyExc String} {w' : World}
    (h : (AutomationRepository.insertOrFind id request now).exec w = (r, w')) :
    CreateOutcome w.db w'.db id request now r := by
  rw [AutomationRepository.insertOrFind, Py.exec_bind, Py.exec_attempt, Py.exec_transaction] at h
  cases hcommit : ((TransactionOp.insertRequest id request now).body (w.choices 0).connection
      (w.choices 0).utc).commit w.db with
  | mk answer db =>
    have hout := outcome_of_commit hcommit
    rw [hcommit] at h
    cases answer with
    | ok u =>
      cases h
      exact .inr ⟨rfl, hout⟩
    | error exc =>
      obtain ⟨rfl, -, -⟩ := hout
      simp only at h
      split at h
      · split at h
        · cases h
          rfl
        · next key hkey =>
          rw [Py.exec_bind, exec_selectByKey] at h
          cases hfound : (w.next.withDb w.db).db.selectByKey key with
          | none =>
            rw [hfound] at h
            cases h
            rfl
          | some existing =>
            rw [hfound] at h
            cases h
            exact .inl rfl
      · cases h
        rfl

theorem exec_create {r : Except PyExc String} {w' : World}
    (h : (AutomationRepository.create id request).exec w = (r, w')) :
    CreateOutcome w.db w'.db id request (w.choices 0).utc.isoformat r := by
  obtain ⟨found, w₁, hfind, hdb⟩ := exec_findExisting request.idempotencyKey w.next
  rw [AutomationRepository.create, Py.exec_bind, Py.exec_utcNow] at h
  simp only [Py.exec_bind, hfind] at h
  rw [next_db] at hdb
  rw [← hdb]
  cases found with
  | none => exact exec_insertOrFind h
  | some existing =>
    cases h
    exact .inl rfl

theorem Submitted.get {db : Database} {now : String} (h : Submitted db w.db id request now) :
    ∃ result, (AutomationRepository.get id).exec w = (.ok (some result), w.next) := by
  have hchannel := ExecutionChannel.ofValue_value request.executionChannel
  have hst := AutomationStatus.ofValue_value .queued
  rw [exec_get, h.row?_self]
  simp only [toResult, submittedRow, hchannel, hst]
  exact ⟨_, rfl⟩

theorem readBack_raised {exc : PyExc} {w' : World}
    (h : (AutomationService.readBack id).exec w = (.error exc, w')) :
    w'.db = w.db ∧
      ∀ result, (AutomationRepository.get id).exec w ≠ (.ok (some result), w.next) := by
  rw [AutomationService.readBack, Py.exec_bind] at h
  have hget := exec_get id w
  cases hrow : w.db.row? id with
  | none =>
    simp only [hrow] at hget
    rw [hget] at h
    cases h
    exact ⟨rfl, by simp [hget]⟩
  | some row =>
    simp only [hrow] at hget
    rw [hget] at h
    cases hres : toResult row with
    | ok result =>
      rw [hres] at h
      cases h
    | error exc' =>
      rw [hres] at h hget
      cases h
      exact ⟨rfl, by simp [hget, Except.map]⟩

/-- A submission that raises has left the tables alone, or its request was accepted and then
the dispatch failed. -/
theorem submit_raised {self : AutomationService} {exc : PyExc} {w' : World}
    (h : (self.submit request).exec w = (.error exc, w')) :
    w'.db = w.db ∨
      Submitted w.db w'.db (w.choices 0).uuid request (w.choices 1).utc.isoformat ∧
        ∃ w₁, (AutomationRepository.create (w.choices 0).uuid request).exec w.next =
          (.ok (w.choices 0).uuid, w₁) ∧ self.publication w₁ = .error exc := by
  have hask : (Py.ask .uuid4).exec w = (.ok (w.choices 0).uuid, w.next) := rfl
  rw [AutomationService.submit, Py.exec_bind, hask] at h
  simp only at h
  rw [Py.exec_bind] at h
  cases hcreate : (AutomationRepository.create (w.choices 0).uuid request).exec w.next with
  | mk r w₁ =>
    have hcreated := exec_create hcreate
    rw [hcreate] at h
    cases r with
    | error exc' =>
      cases h
      exact .inl hcreated
    | ok requestId =>
      obtain ⟨w₂, hannounce, hdb⟩ := exec_announce self requestId w₁
      simp only at h
      rw [Py.exec_bind, hannounce] at h
      cases hpub : self.publication w₁ with
      | error exc' =>
        rw [hpub] at h
        cases h
        rcases hcreated with hsame | ⟨rfl, hsub⟩
        · exact .inl (hdb.trans hsame)
        · exact .inr ⟨hdb ▸ hsub, w₁, rfl, hpub⟩
      | ok _ =>
        rw [hpub] at h
        obtain ⟨hleft, hunread⟩ := readBack_raised h
        rcases hcreated with hsame | ⟨rfl, hsub⟩
        · exact .inl (hleft.trans (hdb.trans hsame))
        · rw [← hdb] at hsub
          obtain ⟨result, hget⟩ := hsub.get
          exact absurd hget (hunread result)

end Submit

section Samples

def connectionRefused : PyExc := .other "Error 111 connecting to redis:6379. Connection refused."

def brokerDown : World where
  choices _ :=
    { Choice.calm with
      env := fun name => if name = "DISPATCH_BACKEND" then some "redis" else none
      rpush := .error connectionRefused }
  shared := ⟨.empty, fun _ => []⟩
  cooldowns _ := none

def submitBrokerDown : Except PyExc AutomationResult × World :=
  letI := emptyPayload
  (AutomationService.submit ⟨none⟩ keylessRequest).exec brokerDown

theorem submit_raised_sample : letI := emptyPayload
    submitBrokerDown.1 = .error connectionRefused ∧
      (submitBrokerDown.2.db = brokerDown.db ∨
        Submitted brokerDown.db submitBrokerDown.2.db "a" keylessRequest
          (brokerDown.choices 1).utc.isoformat ∧
        ∃ w₁, (AutomationRepository.create "a" keylessRequest).exec brokerDown.next =
          (.ok "a", w₁) ∧ AutomationService.publication ⟨none⟩ w₁ = .error connectionRefused) := by
  let _ := emptyPayload
  have hraise : submitBrokerDown.1 = .error connectionRefused := by decide +kernel
  have hexec : submitBrokerDown = (.error connectionRefused, submitBrokerDown.2) :=
    Prod.ext hraise rfl
  exact ⟨hraise, submit_raised hexec⟩

/-- The caller gets an error, and a worker can claim the request. -/
theorem submit_accepts_and_raises : letI := emptyPayload
    submitBrokerDown.1 = .error connectionRefused ∧ submitBrokerDown.2.db ≠ brokerDown.db ∧
      (AutomationRepository.claimNext.exec submitBrokerDown.2).1.toOption.join.map Prod.fst =
        some "a" := by
  let _ := emptyPayload
  refine ⟨by decide +kernel, ?_, by decide +kernel⟩
  intro heq
  have hrow : (submitBrokerDown.2.db.row? "a").isSome = true := by decide +kernel
  rw [heq] at hrow
  cases hrow

/-- A dead letter of the sample, on a host whose `DISPATCH_BACKEND` names no queue. -/
def unsupportedHost : World where
  choices _ := { Choice.calm with env := fun name =>
    if name = "DISPATCH_BACKEND" then some "kafka" else none }
  shared := (sampleRun 2).2.shared
  cooldowns _ := none

/-- The row is QUEUED again, and the operator reads 409. -/
theorem replay_misleads : letI := emptyPayload
    ((replayDeadLetterRequest "a").exec World.answer unsupportedHost).1.statusCode = 409 ∧
      ((replayDeadLetterRequest "a").exec World.answer unsupportedHost).2.db.HasStatus "a" .queued ∧
      ¬ ReplayTruthful unsupportedHost.db
        ((replayDeadLetterRequest "a").exec World.answer unsupportedHost).2.db "a"
        ((replayDeadLetterRequest "a").exec World.answer unsupportedHost).1.statusCode := by
  let _ := emptyPayload
  have hcode : ((replayDeadLetterRequest "a").exec World.answer unsupportedHost).1.statusCode =
      409 := by
    decide +kernel
  have hafter :
      (((replayDeadLetterRequest "a").exec World.answer unsupportedHost).2.db.row? "a").map
        (·.status) = some AutomationStatus.queued.value := by
    decide +kernel
  have hbefore : (unsupportedHost.db.row? "a").map (·.status) =
      some AutomationStatus.deadLetter.value := by
    decide +kernel
  refine ⟨hcode, by simpa [Database.HasStatus] using hafter, ?_⟩
  intro ht
  rw [ht.unchanged (.inr hcode), hbefore] at hafter
  exact absurd hafter (by decide)

end Samples

end Orchestrator
