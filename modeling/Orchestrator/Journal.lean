import Orchestrator.Library.EventLog
import Orchestrator.Requests

/-!
# The audit log

The log of a request tells its whole story: it starts with the submission, goes on along
the legal transitions only, and its entries rebuild the columns of the row.
-/

namespace Orchestrator

open Interaction Job Table EventLog
set_option autoImplicit false

/-- The pairs of statuses that may follow each other in the log of a request. -/
def transitions : List (String × String) :=
  [(AutomationStatus.queued.value, AutomationStatus.running.value),
    (AutomationStatus.running.value, AutomationStatus.completed.value),
    (AutomationStatus.running.value, AutomationStatus.retrying.value),
    (AutomationStatus.running.value, AutomationStatus.deadLetter.value),
    (AutomationStatus.retrying.value, AutomationStatus.running.value),
    (AutomationStatus.deadLetter.value, AutomationStatus.queued.value)]

def EventRow.is (status : AutomationStatus) (e : EventRow) : Bool := e.status = status.value

def EventRow.Legal (a b : EventRow) : Prop := (a.status, b.status) ∈ transitions

/-- The attempts that a log counts: its RUNNING events after the last QUEUED one. -/
def attemptsOf (log : List EventRow) : ℕ :=
  (sinceLast (EventRow.is .queued) log).countP (EventRow.is .running)

/-- The steps of a log from a dead letter back to the queue. -/
def replaysOf (log : List EventRow) : ℕ :=
  adjacent (fun a b => a.is .deadLetter && b.is .queued) log

/-- The row is what its log says. -/
structure Recorded (row : RequestRow) (log : List EventRow) (ms : List Mark) : Prop where
  first : ∃ e, log.head? = some e ∧ e.status = AutomationStatus.queued.value ∧
    row.createdAt = e.createdAt
  last : ∃ e, log.getLast? = some e ∧ row.status = e.status ∧ row.detail = e.detail ∧
    row.updatedAt = e.createdAt
  legal : log.IsChain EventRow.Legal
  attempts : row.attemptCount = attemptsOf log
  replays : replaysOf log = requeues ms

theorem attemptsOf_snoc (log : List EventRow) (tr : Transition) (n : ℕ) (id : String) :
    attemptsOf (log ++ [tr.entry n id]) =
      if tr.status = .queued then 0
      else attemptsOf log + if tr.status = .running then 1 else 0 := by
  have his : ∀ status, (tr.entry n id).is status = decide (tr.status = status) := by
    intro status
    simp [EventRow.is, Transition.entry]
  rw [attemptsOf, sinceLast_snoc, his]
  by_cases hq : tr.status = .queued
  · simp [hq]
  · simp [hq, his, attemptsOf, List.countP_append, List.countP_cons]

/-- The counter that a transition should leave behind. -/
def Transition.Counts (tr : Transition) (row : RequestRow) : Prop :=
  tr.attemptCount.getD row.attemptCount =
    if tr.status = .queued then 0
    else row.attemptCount + if tr.status = .running then 1 else 0

theorem Transition.Counts.snoc {row : RequestRow} {log : List EventRow} {tr : Transition}
    (hcounts : tr.Counts row) (hattempts : row.attemptCount = attemptsOf log) (n : ℕ)
    (id : String) : (row.set tr.values).attemptCount = attemptsOf (log ++ [tr.entry n id]) := by
  have hcount : (row.set tr.values).attemptCount = tr.attemptCount.getD row.attemptCount := rfl
  rw [hcount, hcounts, attemptsOf_snoc, hattempts]
  by_cases hq : tr.status = .queued
  · simp [hq]
  · simp [hq]

theorem Recorded.snoc {row : RequestRow} {log : List EventRow} {ms : List Mark} {tr : Transition}
    (hr : Recorded row log ms) (n : Nat) (id : String) (m : Mark)
    (hlegal : (row.status, tr.status.value) ∈ transitions) (hcounts : tr.Counts row)
    (hm : requeues (m :: ms) = requeues ms +
      if row.status = AutomationStatus.deadLetter.value ∧ tr.status = .queued then 1 else 0) :
    Recorded (row.set tr.values) (log ++ [tr.entry n id]) (m :: ms) := by
  obtain ⟨e, hhead, hqueued, hcreated⟩ := hr.first
  obtain ⟨f, hlast, hstatus, -, -⟩ := hr.last
  refine ⟨⟨e, head?_snoc hhead, hqueued, hcreated⟩,
    ⟨tr.entry n id, List.getLast?_concat, rfl, rfl, rfl⟩, ?_, hcounts.snoc hr.attempts n id, ?_⟩
  · apply chain_snoc hr.legal hlast
    rw [EventRow.Legal, ← hstatus]
    exact hlegal
  · rw [hm, replaysOf, adjacent_snoc hlast]
    simp only [EventRow.is, ← hstatus, Transition.entry, AutomationStatus.value_inj,
      Nat.cast_add, ← hr.replays, replaysOf]
    simp

/-- A request without a row has no history; a row is recorded by its log. -/
def Journaled : Option RequestRow → List EventRow → List Mark → Prop
  | none, log, ms => log = [] ∧ ms = []
  | some row, log, ms => Recorded row log ms

theorem RequestRow.status_of_eligible {row : RequestRow} {now : String}
    (hel : row.eligible now = true) : row.status = AutomationStatus.queued.value ∨
      row.status = AutomationStatus.retrying.value := by
  simp only [eligible, Bool.and_eq_true, Bool.or_eq_true, decide_eq_true_eq] at hel
  exact hel.1

theorem RequestRow.failureStatus_cases (row : RequestRow) :
    row.failureStatus = .deadLetter ∨ row.failureStatus = .retrying := by
  unfold failureStatus
  split
  · exact .inl rfl
  · exact .inr rfl

variable [JsonCodec]

theorem Journaled.move {id : String} {row row' : Option RequestRow} {log entries : List EventRow}
    {ms : List Mark} {m : Mark} (hj : Journaled row log ms) (hm : Move id row ms m row' entries) :
    Journaled row' (log ++ entries) (m :: ms) := by
  cases hm with
  | enqueue request now n =>
    obtain ⟨rfl, rfl⟩ := hj
    exact ⟨⟨_, rfl, rfl, rfl⟩, ⟨_, rfl, rfl, rfl, rfl⟩, .singleton _, rfl, rfl⟩
  | @start _ row now n hel =>
    refine Recorded.snoc hj n id .start ?_ rfl (by simp [requeues, RequestRow.started])
    change (row.status, AutomationStatus.running.value) ∈ transitions
    rcases RequestRow.status_of_eligible hel with hst | hst <;> rw [hst] <;> decide
  | execute ok hrun hlast =>
    rw [List.append_nil]
    exact ⟨hj.first, hj.last, hj.legal, hj.attempts, hj.replays⟩
  | @settle _ row clock delay nextAttemptAt detail n hrun hlast hnext =>
    have hcases := row.failureStatus_cases
    apply Recorded.snoc hj n id .settle ?_ ?_ ?_
    · change (row.status, row.failureStatus.value) ∈ transitions
      rw [hrun]
      rcases hcases with hst | hst <;> rw [hst] <;> decide
    · rcases hcases with hst | hst <;> simp [Transition.Counts, RequestRow.settled, hst]
    · simp [requeues, hrun]
  | @finish _ row detail now n hrun hlast =>
    apply Recorded.snoc hj n id .finish ?_ ?_ ?_
    · change (row.status, AutomationStatus.completed.value) ∈ transitions
      rw [hrun]
      decide
    · simp [Transition.Counts, Transition.completed]
    · simp [requeues, hrun]
  | @requeue _ row now n hdead =>
    refine Recorded.snoc hj n id .requeue ?_ rfl ?_
    · change (row.status, AutomationStatus.queued.value) ∈ transitions
      rw [hdead]
      decide
    · simp [requeues, hdead, Transition.replayed]

/-- Event ids grow along the table. -/
def Database.Ordered (db : Database) : Prop :=
  db.events.Pairwise (fun a b => a.eventId < b.eventId) ∧
    ∀ e ∈ db.events, e.eventId ≤ db.lastEventId

omit [JsonCodec] in
theorem Database.Ordered.auditLog {db : Database} (ho : db.Ordered) (id : String) :
    db.auditLog id = entriesOf EventRow.requestId id db.events := by
  apply List.Pairwise.insertionSort_eq
  have hp := ho.1.sublist (List.filter_sublist (p := fun e : EventRow => e.requestId = id))
  exact hp.imp fun hlt => Nat.le_of_lt hlt

omit [JsonCodec] in
theorem Database.Ordered.snoc {db db' : Database} {e : EventRow} (ho : db.Ordered)
    (hev : db'.events = db.events ++ [e]) (hid : e.eventId = db.lastEventId + 1)
    (hlast : db'.lastEventId = db.lastEventId + 1) : db'.Ordered := by
  obtain ⟨hp, hle⟩ := ho
  rw [Ordered, hev, hlast]
  constructor
  · apply List.pairwise_append.mpr ⟨hp, List.pairwise_singleton _ _, ?_⟩
    intro a ha b hb
    obtain rfl : b = e := by simpa using hb
    have := hle a ha
    omega
  · intro a ha
    rcases List.mem_append.mp ha with ha | ha
    · have := hle a ha
      omega
    · obtain rfl : a = e := by simpa using ha
      omega

theorem Database.Ordered.step {db db' : Database} {ph ph' : Phase} {mark : Option (String × Mark)}
    (ho : db.Ordered) (hc : Change db ph mark db' ph') : db'.Ordered := by
  rcases hc.appends with ⟨hev, hlast⟩ | ⟨e, hev, hid, hlast⟩
  · rw [Ordered, hev, hlast]
    exact ho
  · exact ho.snoc hev hid hlast

/-- A call may replay the dead letter that it names, once. -/
def replaying : Interleaving.Protocol Eff Eff.Res Call (Option String) where
  allowed ph
    | .transaction (.replayDeadLetter id _) => ph = some id
    | _ => True
  admits _ _ _ := True
  next ph
    | .transaction (.replayDeadLetter ..), _ => none
    | _, _ => ph
  idle := none
  start
    | .replayDeadLetter _ id => some id
    | _ => none

omit [JsonCodec] in
theorem replaying_ignores {k : Eff.Kind} (hk : k ≠ .replays) : replaying.Ignores (·.kind = k) := by
  rintro e rfl ph
  cases e with
  | transaction op => cases op <;> first | exact absurd rfl hk | exact ⟨trivial, fun _ => rfl⟩
  | _ => exact ⟨trivial, fun _ => rfl⟩

omit [JsonCodec] in
theorem replaying_code (call : Call) :
    replaying.wp call.code (fun _ _ => True) (replaying.start call) := by
  have quiet : replaying.Ignores (·.kind = .quiet) := replaying_ignores (by decide)
  have submits : replaying.Ignores (·.kind = .submits) := replaying_ignores (by decide)
  cases call with
  | create id request =>
    have h := neutral_create (ignores_plain quiet) submits id request
    exact (Discipline.wp_bind ..).mpr (replaying.wp_mono (h _) fun _ _ _ => trivial)
  | submit service request =>
    have h := neutral_submit (ignores_plain quiet) submits service request
    exact (Discipline.wp_bind ..).mpr (replaying.wp_mono (h _) fun _ _ _ => trivial)
  | runOnce worker =>
    have h := worker.neutral_runOnce quiet (replaying_ignores (by decide))
    exact (Discipline.wp_bind ..).mpr (replaying.wp_mono (h _) fun _ _ _ => trivial)
  | replayDeadLetter service id =>
    apply (Discipline.wp_bind ..).mpr ((Discipline.wp_except_bind ..).mpr ?_)
    apply (neutral_utcNow (ignores_plain quiet)).wp_bind (fun now => ?_) fun _ => trivial
    refine (Discipline.wp_except_bind ..).mpr ⟨rfl, ?_⟩
    intro r _
    rcases r with x | updated
    · trivial
    · simp only [Py.wp_ofExcept, Discipline.wp_ret]
      cases toResult updated with
      | error x => trivial
      | ok result =>
        apply (neutral_announce (ignores_still quiet) service id).wp_bind ?_ ?_
        · exact fun _ => trivial
        · exact fun _ => trivial

section Runs
variable {T : Type} [DecidableEq T] {h : List (Event T)} {s s' : System T}

theorem Runs.ordered (hr : Runs h s) : s.shared.db.Ordered :=
  (hr.tracked (I := fun _ _ db => db.Ordered) ⟨.nil, by simp [Database.empty]⟩
    Database.Ordered.step fun ho => ho).2

theorem Runs.journaled (hr : Runs h s) (id : String) :
    Journaled (s.shared.db.row? id) (s.shared.db.auditLog id) (marks h id) := by
  rw [hr.ordered.auditLog]
  exact hr.each ⟨rfl, rfl⟩ Journaled.move

theorem Runs.events_step {ev : Event T} (hr : Runs h s) (hs : Step s ev s') :
    s.shared.db.events <+: s'.shared.db.events := by
  cases ev with
  | start t call => exact hs.start_shared ▸ List.prefix_rfl
  | stop t call reply => exact hs.stop_shared ▸ List.prefix_rfl
  | disturb =>
    have hdb : s'.shared.db = s.shared.db := hs.disturb_shared
    exact hdb ▸ List.prefix_rfl
  | did t c e r =>
    rcases (change_of_step (hr.follows.1.allowed hs) hs).appends with ⟨hev, -⟩ | ⟨e, hev, -⟩
    · exact hev ▸ List.prefix_rfl
    · rw [hev]
      exact List.prefix_append _ _

theorem Runs.auditLog_steps {evs : List (Event T)} (hr : Runs h s) (hl : Steps s evs s')
    (id : String) : s.shared.db.auditLog id <+: s'.shared.db.auditLog id := by
  have hr' : Runs (evs ++ h) s' := hr.append hl
  rw [hr.ordered.auditLog, hr'.ordered.auditLog]
  clear hr'
  apply List.IsPrefix.filter _
  induction hl with
  | refl => exact List.prefix_rfl
  | step hl hs ih =>
    have hr' : Runs _ _ := hr.append hl
    exact ih.trans (hr'.events_step hs)

/-- A replay commits only in a replay call for that request, and once in a call. -/
theorem Runs.replaying {t : T} {c : Choice} {id now : String} {r : Except PyExc RequestRow}
    (hr : Runs (.did t c (.transaction (.replayDeadLetter id now)) r :: h) s) :
    replaying.phase h t = some id := by
  cases hr with
  | step hr hs =>
    have hk : Orchestrator.replaying.Keeps machine Initial (fun _ _ _ => True) (fun _ => True)
        (fun (_ : List (Event T)) _ => True) := by
      refine ⟨replaying_code, fun _ => trivial, ?_, ?_, ?_, ?_, ?_⟩ <;> intros <;> trivial
    have hf := (hk.runs (fun _ hi => hi.2.1) hr trivial).1
    exact hf.allowed hs

end Runs

omit [JsonCodec] in
theorem EventRow.not_legal_of_completed {e : EventRow}
    (he : e.status = AutomationStatus.completed.value) (f : EventRow) : ¬ e.Legal f := by
  simp [Legal, transitions, he]

omit [JsonCodec] in
theorem EventRow.queued_of_deadLetter {e f : EventRow} (hl : e.Legal f)
    (he : e.is .deadLetter = true) : f.is .queued = true := by
  simp only [is, decide_eq_true_eq] at he ⊢
  simpa [Legal, transitions, he] using hl

omit [JsonCodec] in
/-- How often a request was dead-lettered: once for each replay, and once more if it still is. -/
theorem Recorded.deadLetters {row : RequestRow} {log : List EventRow} {ms : List Mark}
    (hr : Recorded row log ms) : log.countP (EventRow.is .deadLetter) =
      requeues ms + if row.status = AutomationStatus.deadLetter.value then 1 else 0 := by
  obtain ⟨e, hlast, hstatus, -, -⟩ := hr.last
  rw [countP_eq_adjacent hr.legal fun _ _ => EventRow.queued_of_deadLetter, hlast, ← hr.replays]
  simp [replaysOf, EventRow.is, hstatus]

section Runs
variable {T : Type} [DecidableEq T] {h : List (Event T)} {s : System T} {id : String}

/-- The audit log rebuilds the row. -/
theorem auditLog_rebuilds_row (hr : Runs h s) {row : RequestRow}
    (hrow : s.shared.db.row? id = some row) :
    (∃ e, (s.shared.db.auditLog id).getLast? = some e ∧ row.status = e.status ∧
      row.detail = e.detail ∧ row.updatedAt = e.createdAt) ∧
    (∃ e, (s.shared.db.auditLog id).head? = some e ∧ row.createdAt = e.createdAt) ∧
    row.attemptCount = attemptsOf (s.shared.db.auditLog id) := by
  have hj := hr.journaled id
  rw [hrow] at hj
  obtain ⟨e, hhead, -, hcreated⟩ := hj.first
  exact ⟨hj.last, ⟨e, hhead, hcreated⟩, hj.attempts⟩

omit [JsonCodec] in
theorem auditLog_rebuilds_row_sample :
    ∃ row, (sampleRun 3).2.shared.db.row? "a" = some row ∧
      row.attemptCount = attemptsOf ((sampleRun 3).2.shared.db.auditLog "a") := by
  let _ := emptyPayload
  have hsome : ((sampleRun 3).2.shared.db.row? "a").isSome = true := by decide +kernel
  obtain ⟨row, hrow⟩ := Option.isSome_iff_exists.mp hsome
  exact ⟨row, hrow, (auditLog_rebuilds_row (inTurn_runs _) hrow).2.2⟩

/-- The lifecycle language of the audit log, with the replays that its steps back to the
queue come from and the steps that only extend it. -/
theorem auditLog_language (hr : Runs h s) (id : String) :
    (s.shared.db.row? id = none → s.shared.db.auditLog id = []) ∧
    (∀ row, s.shared.db.row? id = some row →
      (∃ e, (s.shared.db.auditLog id).head? = some e ∧
        e.status = AutomationStatus.queued.value) ∧
      (s.shared.db.auditLog id).countP (EventRow.is .deadLetter) = requeues (marks h id) +
        if row.status = AutomationStatus.deadLetter.value then 1 else 0) ∧
    (s.shared.db.auditLog id).IsChain EventRow.Legal ∧
    (∀ pre e post, s.shared.db.auditLog id = pre ++ e :: post →
      e.status = AutomationStatus.completed.value → post = []) ∧
    replaysOf (s.shared.db.auditLog id) = requeues (marks h id) ∧
    (∀ h₂ t c now r h₁, h = h₂ ++ .did t c (.transaction (.replayDeadLetter id now)) r :: h₁ →
      replaying.phase h₁ t = some id) ∧
    ∀ evs s', Steps s evs s' → s.shared.db.auditLog id <+: s'.shared.db.auditLog id := by
  have hj := hr.journaled id
  have hreplays : ∀ h₂ t c now r h₁,
      h = h₂ ++ .did t c (.transaction (.replayDeadLetter id now)) r :: h₁ →
      replaying.phase h₁ t = some id := by
    intro h₂ t c now r h₁ hh
    obtain ⟨s₁, hr₁, -⟩ := (hh ▸ hr).split
    exact Runs.replaying hr₁
  have hsteps := fun evs s' (hl : Steps s evs s') => hr.auditLog_steps hl id
  cases hrow : s.shared.db.row? id with
  | none =>
    rw [hrow] at hj
    obtain ⟨hlog, hms⟩ := hj
    rw [hlog, hms]
    refine ⟨fun _ => rfl, by simp, .nil, ?_, rfl, hreplays, ?_⟩
    · simp
    · simp
  | some row =>
    rw [hrow] at hj
    obtain ⟨e, hhead, hqueued, -⟩ := hj.first
    refine ⟨by simp, ?_, hj.legal, ?_, hj.replays, hreplays, hsteps⟩
    · intro row' hrow'
      obtain rfl : row = row' := by simpa using hrow'
      exact ⟨⟨e, hhead, hqueued⟩, hj.deadLetters⟩
    · intro pre e post hlog he
      exact final_of_chain hj.legal (EventRow.not_legal_of_completed he) hlog

omit [JsonCodec] in
theorem auditLog_language_sample :
    ((sampleRun 3).2.shared.db.auditLog "a").map (·.status) =
      ["queued", "running", "dead_letter", "queued"] ∧
    replaysOf ((sampleRun 3).2.shared.db.auditLog "a") = requeues (marks (sampleRun 3).1 "a") := by
  let _ := emptyPayload
  exact ⟨by decide +kernel, (auditLog_language (inTurn_runs _) "a").2.2.2.2.1⟩

end Runs

end Orchestrator
