import Orchestrator.Requests

/-!
# The attempt budget

A row and the marks of its request are in step with a job whose budget is `max_attempts`.
What holds of every such job bounds the attempts and the executions of every request.
-/

namespace Orchestrator

open Interaction Job Table
set_option autoImplicit false

def RequestRow.At (row : RequestRow) : Stage → Prop
  | .waiting => row.nextAttemptAt.isSome = true ∧
      (row.status = AutomationStatus.queued.value ∧ row.attemptCount = 0 ∨
        row.status = AutomationStatus.retrying.value ∧ 1 ≤ row.attemptCount)
  | .claimed | .succeeded | .failed =>
      row.status = AutomationStatus.running.value ∧ 1 ≤ row.attemptCount
  | .done => row.status = AutomationStatus.completed.value ∧ 1 ≤ row.attemptCount ∧
      row.nextAttemptAt = none
  | .dead => row.status = AutomationStatus.deadLetter.value ∧ row.nextAttemptAt = none

/-- The row shows a job that went through these marks. -/
structure RequestRow.Shows (row : RequestRow) (ms : List Mark) (stage : Stage) : Prop where
  budget : 1 ≤ row.maxAttempts
  life : Life row.maxAttempts ms stage row.attemptCount
  columns : row.At stage

namespace RequestRow

variable {row : RequestRow} {stage : Stage} {ms : List Mark}

theorem At.waiting (h : row.At stage) (hst : row.status = AutomationStatus.queued.value ∨
    row.status = AutomationStatus.retrying.value) : stage = .waiting := by
  cases stage with
  | waiting => rfl
  | _ => rcases hst with hst | hst <;> simp [At, hst] at h

theorem At.dead (h : row.At stage) (hst : row.status = AutomationStatus.deadLetter.value) :
    stage = .dead := by
  cases stage with
  | dead => rfl
  | _ => simp [At, hst] at h

theorem Shows.start {now : String} (h : row.Shows ms .waiting) :
    (row.set (row.started now).values).Shows (.start :: ms) .claimed := by
  refine ⟨h.budget, h.life.start, rfl, ?_⟩
  have hn := (h.life.within h.budget).1
  change 1 ≤ row.attemptCount + 1
  omega

theorem Shows.settle {detail : String} {clock : Instant} {delay : Int}
    {nextAttemptAt : Option String} (h : row.Shows ms stage)
    (hst : stage = .claimed ∨ stage = .failed)
    (hnext : row.nextAttempt clock delay = .ok nextAttemptAt) :
    (row.set (row.settled detail nextAttemptAt clock.isoformat).values).Shows (.settle :: ms)
      (Job.settled row.maxAttempts row.attemptCount) := by
  have hlife : Life row.maxAttempts (.settle :: ms) (Job.settled row.maxAttempts row.attemptCount)
      row.attemptCount := by
    have hl := h.life
    rcases hst with rfl | rfl
    · exact hl.defer
    · exact hl.settle
  have hone : 1 ≤ row.attemptCount := by
    have hc := h.columns
    rcases hst with rfl | rfl <;> exact hc.2
  refine ⟨h.budget, hlife, ?_⟩
  rcases nextAttempt_ok hnext with ⟨hexhausted, rfl⟩ | ⟨hopen, at', -, rfl⟩
  · rw [Job.settled, if_pos (by simpa [exhausted] using hexhausted)]
    refine ⟨?_, rfl⟩
    change row.failureStatus.value = _
    rw [failureStatus, hexhausted]
    rfl
  · rw [Job.settled, if_neg (by simpa [exhausted] using hopen)]
    refine ⟨rfl, .inr ⟨?_, hone⟩⟩
    change row.failureStatus.value = _
    rw [failureStatus, hopen]
    rfl

end RequestRow

/-- A request has no marks before its row exists, and a row shows a job. -/
def Tracked : Option RequestRow → List Mark → Prop
  | none, ms => ms = []
  | some row, ms => ∃ stage, row.Shows ms stage

theorem head_cons {ms : List Mark} {m : Mark} (h : ms.head? = some m) : ∃ w, ms = m :: w := by
  cases ms with
  | nil => cases h
  | cons m' w =>
    obtain rfl : m' = m := by simpa using h
    exact ⟨w, rfl⟩

theorem Tracked.move [JsonCodec] {id : String} {row row' : Option RequestRow} {ms : List Mark}
    {m : Mark} {entries : List EventRow} (ht : Tracked row ms)
    (hm : Move id row ms m row' entries) : Tracked row' (m :: ms) := by
  cases hm with
  | enqueue request now n =>
    obtain rfl : ms = [] := ht
    exact ⟨.waiting, request.maxAttempts_range.1, .enqueue, rfl, .inl ⟨rfl, rfl⟩⟩
  | start n hel =>
    obtain ⟨stage, hs⟩ := ht
    simp only [RequestRow.eligible, Bool.and_eq_true, Bool.or_eq_true, decide_eq_true_eq] at hel
    obtain rfl := hs.columns.waiting hel.1
    exact ⟨.claimed, hs.start⟩
  | execute ok hrun hlast =>
    obtain ⟨stage, hs⟩ := ht
    obtain ⟨w, rfl⟩ := head_cons hlast
    obtain rfl := hs.life.stage_of_start
    cases ok with
    | true => exact ⟨.succeeded, hs.budget, hs.life.succeed, hs.columns⟩
    | false => exact ⟨.failed, hs.budget, hs.life.fail, hs.columns⟩
  | settle detail n hrun hlast hnext =>
    obtain ⟨stage, hs⟩ := ht
    refine ⟨_, hs.settle ?_ hnext⟩
    rcases hlast with hlast | hlast
    · obtain ⟨w, rfl⟩ := head_cons hlast
      exact .inl hs.life.stage_of_start
    · obtain ⟨w, rfl⟩ := head_cons hlast
      exact .inr hs.life.stage_of_execute
  | finish detail now n hrun hlast =>
    obtain ⟨stage, hs⟩ := ht
    obtain ⟨w, rfl⟩ := head_cons hlast
    obtain rfl : stage = .succeeded := hs.life.stage_of_execute
    exact ⟨.done, hs.budget, hs.life.finish, rfl, hs.columns.2, rfl⟩
  | requeue now n hdead =>
    obtain ⟨stage, hs⟩ := ht
    obtain rfl := hs.columns.dead hdead
    exact ⟨.waiting, hs.budget, hs.life.requeue, rfl, .inl ⟨rfl, rfl⟩⟩

/-- What each status says about the other columns. -/
structure RequestRow.Ok (row : RequestRow) : Prop where
  range : 0 ≤ row.attemptCount ∧ row.attemptCount ≤ row.maxAttempts
  queued : row.status = AutomationStatus.queued.value →
    row.attemptCount = 0 ∧ row.nextAttemptAt.isSome = true
  running : row.status = AutomationStatus.running.value → 1 ≤ row.attemptCount
  retrying : row.status = AutomationStatus.retrying.value → 1 ≤ row.attemptCount ∧
    row.attemptCount < row.maxAttempts ∧ row.nextAttemptAt.isSome = true
  deadLetter : row.status = AutomationStatus.deadLetter.value →
    row.attemptCount = row.maxAttempts ∧ row.nextAttemptAt = none
  completed : row.status = AutomationStatus.completed.value →
    1 ≤ row.attemptCount ∧ row.nextAttemptAt = none
  known : row.status ∈ [AutomationStatus.queued, .running, .retrying, .deadLetter,
    .completed].map AutomationStatus.value

theorem RequestRow.Shows.ok {row : RequestRow} {ms : List Mark} {stage : Stage}
    (hs : row.Shows ms stage) : row.Ok := by
  have hw := hs.life.within hs.budget
  have hb := hs.budget
  have hc := hs.columns
  cases stage with
  | waiting =>
    obtain ⟨hsome, ⟨hst, hn⟩ | ⟨hst, hn⟩⟩ := hc
    · constructor <;> simp_all [Stage.within]
      omega
    · constructor <;> simp_all [Stage.within]
      omega
  | dead =>
    constructor <;> simp_all [RequestRow.At, Stage.within]
    omega
  | _ => constructor <;> simp_all [RequestRow.At, Stage.within]

section Runs
variable [JsonCodec] {T : Type} [DecidableEq T] {h : List (Event T)} {s : System T}

theorem Runs.shows (hr : Runs h s) {id : String} {row : RequestRow}
    (hrow : s.shared.db.row? id = some row) : ∃ stage, row.Shows (marks h id) stage := by
  have ht : Tracked (s.shared.db.row? id) (marks h id) :=
    hr.each (R := fun row _ ms => Tracked row ms) rfl Tracked.move
  rw [hrow] at ht
  exact ht

theorem Runs.row_ok (hr : Runs h s) {id : String} {row : RequestRow}
    (hrow : s.shared.db.row? id = some row) : row.Ok := by
  obtain ⟨stage, hs⟩ := hr.shows hrow
  exact hs.ok

/-- The row invariant, and the executions that its budget and its replays allow. -/
theorem row_ok_and_executions (hr : Runs h s) {row : RequestRow}
    (hrow : row ∈ s.shared.db.requests) :
    row.Ok ∧ executions (marks h row.requestId) ≤
      row.maxAttempts * (1 + requeues (marks h row.requestId)) := by
  obtain ⟨stage, hs⟩ := hr.shows (Database.row?_of_mem hrow)
  exact ⟨hs.ok, hs.life.executions_le hs.budget⟩

omit [JsonCodec] in
theorem row_ok_and_executions_sample :
    ∃ row ∈ (sampleRun 3).2.shared.db.requests, row.Ok ∧
      executions (marks (sampleRun 3).1 row.requestId) ≤
        row.maxAttempts * (1 + requeues (marks (sampleRun 3).1 row.requestId)) := by
  let _ := emptyPayload
  have hne : (sampleRun 3).2.shared.db.requests ≠ [] := by decide +kernel
  obtain ⟨row, hrow⟩ := List.exists_mem_of_ne_nil _ hne
  exact ⟨row, hrow, row_ok_and_executions (inTurn_runs _) hrow⟩

/-- The request at a dead letter was executed, and failed, as often as it may be attempted. -/
def DeadLettersTried (h : List (Event T)) (s : System T) : Prop :=
  ∀ id row, s.shared.db.row? id = some row →
    row.status = AutomationStatus.deadLetter.value → tried (marks h id) = row.maxAttempts

/-- A worker settles the request that it claimed without having executed the adapter: the
cooldown branch of `run_once`. -/
def Deferral (h : List (Event T)) (ev : Event T) : Prop :=
  ∃ t c id detail delay r, ev = .did t c (.transaction (.failOrRetry id detail delay)) r ∧
    lifecycle.phase h t = .claimed id

def NeverDefers : List (Event T) → Prop
  | [] => True
  | ev :: h => ¬ Deferral h ev ∧ NeverDefers h

theorem deferred_step (hr : Runs h s) {s' : System T} {ev : Event T} (hs : Step s ev s')
    (hev : ¬ Deferral h ev) {id : String} (hd : deferred (marks h id) = 0) :
    deferred (marks (ev :: h) id) = 0 := by
  rw [marks]
  cases hm : markOf ev with
  | none => exact hd
  | some mark =>
    obtain ⟨id', m⟩ := mark
    by_cases hid : id = id'
    · subst hid
      simp only [record, Function.update_self]
      apply deferred_cons hd
      intro hmark hstart
      subst hmark
      obtain ⟨t, c, detail, delay, r, rfl⟩ := settle_of_markOf hm
      have hal : lifecycle.phase h t = .claimed id ∨ lifecycle.phase h t = .failed id :=
        hr.follows.1.allowed hs
      rcases hal with hph | hph
      · exact hev ⟨t, c, id, detail, delay, r, rfl, hph⟩
      · have hlast := hr.remembers t id (.execute false) (by rw [hph]; rfl)
        rw [hlast] at hstart
        cases hstart
    · simp only [record, Function.update_of_ne hid]
      exact hd

theorem deferred_eq_zero (hr : Runs h s) (hn : NeverDefers h) (id : String) :
    deferred (marks h id) = 0 := by
  induction hr with
  | init _ => rfl
  | step hr hs ih => exact deferred_step hr hs hn.1 (ih hn.2)

/-- A dead letter was really tried exactly when the request was not deferred since it was
last queued; so in a run without deferrals every dead letter was. -/
theorem deadLettersTried_iff (hr : Runs h s) :
    (∀ id row, s.shared.db.row? id = some row →
      row.status = AutomationStatus.deadLetter.value →
      (tried (marks h id) = row.maxAttempts ↔ deferred (marks h id) = 0)) ∧
    (NeverDefers h → DeadLettersTried h s) := by
  have hiff : ∀ id row, s.shared.db.row? id = some row →
      row.status = AutomationStatus.deadLetter.value →
      (tried (marks h id) = row.maxAttempts ↔ deferred (marks h id) = 0) := by
    intro id row hrow hdead
    obtain ⟨stage, hs⟩ := hr.shows hrow
    obtain rfl := hs.columns.dead hdead
    exact hs.life.tried_iff hs.budget
  refine ⟨hiff, ?_⟩
  intro hn id row hrow hdead
  exact (hiff id row hrow hdead).mpr (deferred_eq_zero hr hn id)

omit [JsonCodec] in
theorem deadLettersTried_iff_sample :
    ∃ row, (sampleRun 2).2.shared.db.row? "a" = some row ∧
      tried (marks (sampleRun 2).1 "a") = row.maxAttempts := by
  let _ := emptyPayload
  have hdead : ((sampleRun 2).2.shared.db.row? "a").map (·.status) =
      some AutomationStatus.deadLetter.value := by decide +kernel
  obtain ⟨row, hrow, hst⟩ := Option.map_eq_some_iff.mp hdead
  have hiff := (deadLettersTried_iff (inTurn_runs (sampleCalls.take 2))).1 "a" row hrow hst
  exact ⟨row, hrow, hiff.mpr (by decide +kernel)⟩

end Runs

/-- One worker, two requests to one target: the first is rate limited with a hint of a
minute, and the second, which may be attempted once, is claimed meanwhile. -/
def coolingCalls : List (ℕ × (ℕ → Choice) × Call) :=
  [(0, fun _ => .calm, .submit ⟨some .database⟩ twiceRequest),
    (1, fun _ =>
      { Choice.calm with outcome := .error (.retryableAdapterError "rate limited" (some 60)) },
      .runOnce sampleWorker),
    (0, fun _ => { Choice.calm with uuid := "b" }, .submit ⟨some .database⟩ keylessRequest),
    (1, fun _ => .calm, .runOnce sampleWorker)]

/-- A request can reach its dead letter without ever being executed. -/
theorem not_deadLettersTried : letI := emptyPayload
    ∃ (h : List (Event ℕ)) (s : System ℕ), Runs h s ∧ ¬ DeadLettersTried h s ∧
      executions (marks h "b") = 0 := by
  let _ := emptyPayload
  refine ⟨_, _, inTurn_runs coolingCalls, ?untried, by decide +kernel⟩
  case untried =>
    intro hall
    have hdead : ((inTurn coolingCalls).2.shared.db.row? "b").map
        (fun row => (row.status, row.maxAttempts)) =
        some (AutomationStatus.deadLetter.value, 1) := by decide +kernel
    obtain ⟨row, hrow, hst⟩ := Option.map_eq_some_iff.mp hdead
    obtain ⟨hst, hmax⟩ := Prod.mk.inj hst
    have htried := hall "b" row hrow hst
    rw [hmax] at htried
    exact absurd htried (by decide +kernel)

end Orchestrator
