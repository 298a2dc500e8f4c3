import Orchestrator.Views

/-!
# The audit view

The row and the events of a request are read in two transactions. Row and log agree in every
committed state, so the view is consistent exactly if the row that was read first is still the
row when the events are read.
-/

namespace Orchestrator

open Interaction EventLog Table
set_option autoImplicit false

section Lines

/-- What an event tells, beside its number and its request. -/
def EventRow.line (e : EventRow) : String × String × String := (e.status, e.detail, e.createdAt)

def AutomationEvent.line (e : AutomationEvent) : String × String × String :=
  (e.status.value, e.detail, e.createdAt)

/-- The attempts that the events of a view count, as `attemptsOf` does for a log. -/
def AutomationRequestDetails.attempts (details : AutomationRequestDetails) : ℕ :=
  (sinceLast (fun e => e.status = .queued) details.events).countP fun e => e.status = .running

/-- The row part of a view is what its events say. -/
structure AutomationRequestDetails.Consistent (details : AutomationRequestDetails) : Prop where
  last : ∃ e, details.events.getLast? = some e ∧ details.status = e.status ∧
    details.detail = e.detail ∧ details.updatedAt = e.createdAt
  attempts : details.attemptCount = details.attempts

end Lines

section Mirrors
variable {row : RequestRow} {log : List EventRow}

/-- The row is what the end of its log says; this needs no discipline of the callers. -/
structure Mirrors (row : RequestRow) (log : List EventRow) : Prop where
  last : ∃ e, log.getLast? = some e ∧ row.status = e.status ∧ row.detail = e.detail ∧
    row.updatedAt = e.createdAt
  attempts : row.attemptCount = attemptsOf log

theorem Mirrors.snoc {tr : Transition} (hm : Mirrors row log) (n : ℕ) (id : String)
    (hcounts : tr.Counts row) : Mirrors (row.set tr.values) (log ++ [tr.entry n id]) := by
  refine ⟨⟨tr.entry n id, List.getLast?_concat, rfl, rfl, rfl⟩, ?_⟩
  exact hcounts.snoc hm.attempts n id

theorem entriesOf_entry (events : List EventRow) (tr : Transition) (n : ℕ) (id id' : String) :
    entriesOf EventRow.requestId id' (events ++ [tr.entry n id]) =
      if id = id' then entriesOf EventRow.requestId id' events ++ [tr.entry n id]
      else entriesOf EventRow.requestId id' events := entriesOf_append_singleton

structure Database.Mirrored (db : Database) : Prop where
  rows : ∀ id row, db.row? id = some row →
    Mirrors row (entriesOf EventRow.requestId id db.events)
  events : ∀ e ∈ db.events, ∃ status : AutomationStatus, e.status = status.value

theorem Database.Mirrored.entry {db : Database} (hm : db.Mirrored) (tr : Transition) (n : ℕ)
    (id : String) : ∀ e ∈ db.events ++ [tr.entry n id],
      ∃ status : AutomationStatus, e.status = status.value := by
  intro e he
  rcases List.mem_append.mp he with he | he
  · exact hm.events e he
  · obtain rfl := List.mem_singleton.mp he
    exact ⟨tr.status, rfl⟩

theorem Database.Mirrored.move {db : Database} (hm : db.Mirrored) (id : String) {tr : Transition}
    (hcounts : ∀ row, db.row? id = some row → tr.Counts row) : (db.move id tr).Mirrored := by
  have hevents : (db.move id tr).events = db.events ++ [tr.entry (db.lastEventId + 1) id] := rfl
  constructor
  · intro id' row hrow
    rw [hevents, entriesOf_entry]
    by_cases hid : id = id'
    · subst hid
      rw [Database.row?_move, Option.map_eq_some_iff] at hrow
      obtain ⟨old, hold, rfl⟩ := hrow
      rw [if_pos rfl, if_pos rfl]
      exact (hm.rows id old hold).snoc _ id (hcounts old hold)
    · rw [Database.row?_move_of_ne tr (Ne.symm hid)] at hrow
      rw [if_neg hid]
      exact hm.rows id' row hrow
  · rw [hevents]
    exact hm.entry tr _ id

theorem Database.Mirrored.move_row {db : Database} {id : String} {row : RequestRow}
    {tr : Transition} (hm : db.Mirrored) (hrow : db.row? id = some row) (hcounts : tr.Counts row) :
    (db.move id tr).Mirrored := by
  apply hm.move
  intro row' hrow'
  obtain rfl : row = row' := by simpa [hrow] using hrow'
  exact hcounts

theorem Database.Mirrored.insert [JsonCodec] {db db' : Database} {id now : String}
    {request : AutomationRequest} (hm : db.Mirrored) (hsub : Submitted db db' id request now) :
    db'.Mirrored := by
  let tr : Transition := { status := .queued, detail := queuedDetail, time := now }
  have hevents : db'.events = db.events ++ [tr.entry (db.lastEventId + 1) id] := hsub.events
  constructor
  · intro id' row hrow
    rw [hevents, entriesOf_entry]
    rcases hsub.row_cases hrow with ⟨rfl, rfl⟩ | ⟨hid, hrow⟩
    · rw [if_pos rfl]
      refine ⟨⟨tr.entry _ _, List.getLast?_concat, rfl, rfl, rfl⟩, ?_⟩
      rw [attemptsOf_snoc]
      rfl
    · rw [if_neg (Ne.symm hid)]
      exact hm.rows id' row hrow
  · rw [hevents]
    exact hm.entry tr _ id

variable [JsonCodec] {T : Type} [DecidableEq T] {h : List (OpenEvent T)} {s s' : OpenSystem T}

theorem OpenRuns.mirrored (hr : OpenRuns h s) : s.shared.db.Mirrored := by
  apply Interleaving.Runs.invariant (I := fun _ s => s.shared.db.Mirrored) ?_ ?_ hr
  · intro s hi
    rw [hi.1]
    constructor
    · intro id row hrow
      cases hrow
    · intro e he
      cases he
  · intro h s s' ev hr hm hs
    rcases open_step hs with hdb | ⟨t, c, op, r, rfl, hw⟩
    · rwa [hdb]
    · generalize s'.shared.db = db' at hw ⊢
      cases hw with
      | nothing => exact hm
      | inserted hsub => exact hm.insert hsub
      | startedNext hrow hel hreq => exact hm.move_row hrow rfl
      | started hrow hel hreq => exact hm.move_row hrow rfl
      | @settled id detail delay row nextAttemptAt hrow hnext =>
        apply hm.move_row hrow
        rcases row.failureStatus_cases with hst | hst <;>
          simp [Transition.Counts, RequestRow.settled, hst]
      | finished =>
        obtain rfl := OpenRuns.finishes hr hs
        apply hm.move
        intro row _
        simp [Transition.Counts, Transition.completed]
      | requeued hrow hdead => exact hm.move_row hrow rfl

end Mirrors

section Views
variable {row row' : RequestRow} {log : List EventRow}

/-- Equal in every column that a transition of the request may change and the view shows. -/
structure RequestRow.Agrees (row row' : RequestRow) : Prop where
  status : row.status = row'.status
  detail : row.detail = row'.detail
  updatedAt : row.updatedAt = row'.updatedAt
  attemptCount : row.attemptCount = row'.attemptCount

theorem Mirrors.agrees_iff (hm : Mirrors row' log) : Mirrors row log ↔ row.Agrees row' := by
  obtain ⟨⟨e, hlast, hstatus, hdetail, hupdated⟩, hattempts⟩ := hm
  constructor
  · rintro ⟨⟨e', hlast', hstatus', hdetail', hupdated'⟩, hattempts'⟩
    obtain rfl : e = e' := by simpa [hlast] using hlast'
    exact ⟨hstatus'.trans hstatus.symm, hdetail'.trans hdetail.symm,
      hupdated'.trans hupdated.symm, hattempts'.trans hattempts.symm⟩
  · rintro ⟨hs, hd, hu, ha⟩
    exact ⟨⟨e, hlast, hs.trans hstatus, hd.trans hdetail, hu.trans hupdated⟩, ha.trans hattempts⟩

theorem Mirrors.last_line : (∃ e, log.getLast? = some e ∧ row.status = e.status ∧
    row.detail = e.detail ∧ row.updatedAt = e.createdAt) ↔
      (log.map EventRow.line).getLast? = some (row.status, row.detail, row.updatedAt) := by
  rw [List.getLast?_map, Option.map_eq_some_iff]
  simp only [EventRow.line, Prod.mk.injEq, eq_comm]

theorem attemptsOf_lines (log : List EventRow) : attemptsOf log =
    (sinceLast (fun line => line.1 = AutomationStatus.queued.value) (log.map EventRow.line)).countP
      fun line => line.1 = AutomationStatus.running.value := by
  rw [sinceLast_map, List.countP_map]
  rfl

namespace AutomationRequestDetails

variable (details : AutomationRequestDetails)

theorem last_line : (∃ e, details.events.getLast? = some e ∧ details.status = e.status ∧
    details.detail = e.detail ∧ details.updatedAt = e.createdAt) ↔
      (details.events.map AutomationEvent.line).getLast? =
        some (details.status.value, details.detail, details.updatedAt) := by
  rw [List.getLast?_map, Option.map_eq_some_iff]
  simp only [AutomationEvent.line, Prod.mk.injEq, AutomationStatus.value_inj, eq_comm]

theorem attempts_lines : details.attempts = (sinceLast
    (fun line => line.1 = AutomationStatus.queued.value)
      (details.events.map AutomationEvent.line)).countP
        fun line => line.1 = AutomationStatus.running.value := by
  rw [sinceLast_map, List.countP_map]
  simp only [AutomationEvent.line, AutomationStatus.value_inj, Function.comp_def]
  rfl

theorem consistent_iff (hstatus : row.status = details.status.value)
    (hdetail : row.detail = details.detail) (hupdated : row.updatedAt = details.updatedAt)
    (hattempts : row.attemptCount = details.attemptCount)
    (hlines : details.events.map AutomationEvent.line = log.map EventRow.line) :
    details.Consistent ↔ Mirrors row log := by
  have hsame : (details.events.map AutomationEvent.line).getLast? =
      some (details.status.value, details.detail, details.updatedAt) ↔
        (log.map EventRow.line).getLast? = some (row.status, row.detail, row.updatedAt) := by
    rw [hlines, hstatus, hdetail, hupdated]
  have hlast := (details.last_line.trans hsame).trans Mirrors.last_line.symm
  have hcount : details.attempts = attemptsOf log := by
    rw [details.attempts_lines, attemptsOf_lines, hlines]
  constructor
  · rintro ⟨h, ha⟩
    rw [← hattempts, hcount] at ha
    exact ⟨hlast.mp h, ha⟩
  · rintro ⟨h, ha⟩
    refine ⟨hlast.mpr h, ?_⟩
    rw [← hattempts, hcount]
    exact ha

end AutomationRequestDetails

theorem mapM_toEvent (hlog : ∀ e ∈ log, ∃ status : AutomationStatus, e.status = status.value) :
    ∃ events, log.mapM EventRow.toEvent = .ok events ∧
      events.map AutomationEvent.line = log.map EventRow.line := by
  induction log with
  | nil => exact ⟨[], rfl, rfl⟩
  | cons e log ih =>
    obtain ⟨status, hstatus⟩ := hlog e List.mem_cons_self
    obtain ⟨events, hmap, hlines⟩ := ih fun e he => hlog e (List.mem_cons_of_mem _ he)
    have he : e.toEvent = .ok ⟨status, e.detail, e.createdAt⟩ := by
      rw [EventRow.toEvent, hstatus, AutomationStatus.ofValue_value]
      rfl
    refine ⟨⟨status, e.detail, e.createdAt⟩ :: events, ?_, ?_⟩
    · rw [List.mapM_cons, he, hmap]
      rfl
    · simp [AutomationEvent.line, EventRow.line, hstatus, hlines]

end Views

section Runs
variable [JsonCodec] {T : Type} [DecidableEq T] {h evs : List (OpenEvent T)}
variable {s s' s₁ s₂ : OpenSystem T} {ev : OpenEvent T} {id : String} {row : RequestRow}

theorem kept_step (hs : OpenStep s ev s') (hrow : s.shared.db.row? id = some row) :
    ∃ row', s'.shared.db.row? id = some row' ∧ row'.submission = row.submission ∧
      row'.createdAt = row.createdAt := by
  have hmove : ∀ (id' : String) (tr : Transition), ∃ row',
      (s.shared.db.move id' tr).row? id = some row' ∧ row'.submission = row.submission ∧
        row'.createdAt = row.createdAt := by
    intro id' tr
    refine ⟨if id = id' then row.set tr.values else row, ?_, ?_⟩
    · rw [Database.row?_move, hrow]
      rfl
    · split <;> exact ⟨rfl, rfl⟩
  rcases open_step hs with hdb | ⟨t, c, op, r, rfl, hw⟩
  · exact ⟨row, by rw [hdb, hrow], rfl, rfl⟩
  · generalize s'.shared.db = db' at hw ⊢
    cases hw with
    | nothing => exact ⟨row, hrow, rfl, rfl⟩
    | inserted hsub => exact ⟨row, hsub.row? hrow, rfl, rfl⟩
    | _ => exact hmove _ _

theorem unwritten_step (hs : OpenStep s ev s') (hnone : timesOf id ev = []) :
    s'.shared.db.row? id = s.shared.db.row? id := by
  rcases (open_stamped hs).cases with ⟨hdb, -⟩ | ⟨id', time, -, hst, htimes⟩
  · rw [hdb]
  · refine hst.others id ?_
    rintro rfl
    rw [htimes, if_pos rfl] at hnone
    cases hnone

theorem kept_steps (hl : Interleaving.Steps openMachine s₁ evs s₂)
    (hrow : s₁.shared.db.row? id = some row) :
    ∃ row', s₂.shared.db.row? id = some row' ∧ row'.submission = row.submission ∧
      row'.createdAt = row.createdAt ∧ (writtenTo id evs = [] → row' = row) := by
  induction hl with
  | refl => exact ⟨row, hrow, rfl, rfl, fun _ => rfl⟩
  | @step evs s' s'' ev hl hs ih =>
    obtain ⟨row', hrow', hsub, hcreated, hsame⟩ := ih
    obtain ⟨row'', hrow'', hsub', hcreated'⟩ := kept_step hs hrow'
    refine ⟨row'', hrow'', hsub'.trans hsub, hcreated'.trans hcreated, ?_⟩
    intro hnone
    rw [writtenTo_cons, List.append_eq_nil_iff] at hnone
    have hstep := unwritten_step hs hnone.1
    rw [hrow', hrow'', Option.some.injEq] at hstep
    exact hstep.trans (hsame hnone.2)

theorem OpenRuns.legible (hr : OpenRuns h s) (hrow : s.shared.db.row? id = some row) :
    ∃ result, toResult row = .ok result ∧ row.status = result.status.value ∧
      row.detail = result.detail ∧ row.updatedAt = result.updatedAt ∧
      row.attemptCount = result.attemptCount := by
  obtain ⟨e, hlast, hstatus, -, -⟩ := (hr.mirrored.rows id row hrow).last
  have he : e ∈ s.shared.db.events := (List.mem_filter.mp (List.mem_of_getLast? hlast)).1
  obtain ⟨status, hvalue⟩ := hr.mirrored.events e he
  obtain ⟨request, hcreated⟩ := hr.provenance.created id row hrow
  obtain ⟨row', hrow', hsub⟩ := hr.provenance.kept id request hcreated
  obtain rfl : row = row' := by simpa [hrow] using hrow'
  have hchannel : row.executionChannel = request.executionChannel.value :=
    congrArg Submission.executionChannel hsub
  refine ⟨⟨row.requestId, status, request.executionChannel, row.detail, row.attemptCount,
    row.maxAttempts, row.createdAt, row.updatedAt⟩, ?_, hstatus.trans hvalue, rfl, rfl, rfl⟩
  rw [toResult, hstatus, hvalue, hchannel, AutomationStatus.ofValue_value,
    ExecutionChannel.ofValue_value]
  rfl

omit [JsonCodec] in
/-- A result shows no other columns than those that stay, and those that agree. -/
theorem toResult_congr {row row' : RequestRow} (hsub : row'.submission = row.submission)
    (hcreated : row'.createdAt = row.createdAt) (hagrees : row.Agrees row') :
    toResult row' = toResult row := by
  have hid := congrArg Submission.requestId hsub
  have hchannel := congrArg Submission.executionChannel hsub
  have hmax := congrArg Submission.maxAttempts hsub
  simp only [RequestRow.submission] at hid hchannel hmax
  unfold toResult
  rw [hid, hchannel, hmax, hcreated, ← hagrees.status, ← hagrees.detail, ← hagrees.updatedAt,
    ← hagrees.attemptCount]

/-- The view is consistent, and it is the view of the first or the second state that was read. -/
def AutomationRequestDetails.OfOneState (details : AutomationRequestDetails) (id : String)
    (glances : ℕ → Glance) : Prop :=
  details.Consistent ∧ ∃ n < 2,
    (AutomationRepository.getDetails id).seen (fun _ => glances n) = .ok (some details)

/-- In every interleaving of the two transactions with what others commit: the view is of one
committed state exactly if its row was read as it is when the events are read. That is so if
nothing was committed to the request in between, and not so if something was, at a new time. -/
theorem audit_view_iff (hr : OpenRuns h s₁) (hl : Interleaving.Steps openMachine s₁ evs s₂)
    {glances : ℕ → Glance} (h₁ : (glances 0).db = s₁.shared.db)
    (h₂ : (glances 1).db = s₂.shared.db) :
    (s₁.shared.db.row? id = none →
      (AutomationRepository.getDetails id).seen glances = .ok none) ∧
    ∀ row₁, s₁.shared.db.row? id = some row₁ → ∃ row₂ details,
      s₂.shared.db.row? id = some row₂ ∧
      (AutomationRepository.getDetails id).seen glances = .ok (some details) ∧
      (details.OfOneState id glances ↔ row₁.Agrees row₂) ∧
      (writtenTo id evs = [] → row₁.Agrees row₂) ∧
      (∀ time times, writtenTo id evs = time :: times → time ≠ row₁.updatedAt →
        ¬ row₁.Agrees row₂) := by
  have hr₂ : OpenRuns (evs ++ h) s₂ := hr.append hl
  constructor
  · intro hnone
    rw [AutomationRepository.seen_getDetails, h₁, hnone]
  · intro row₁ hrow₁
    obtain ⟨row₂, hrow₂, hsub, hcreated, hsame⟩ := kept_steps hl hrow₁
    obtain ⟨result, hresult, hstatus, hdetail, hupdated, hattempts⟩ := OpenRuns.legible hr hrow₁
    have hlog := hr₂.tells.ordered.auditLog id
    have hmirrors := hr₂.mirrored.rows id row₂ hrow₂
    rw [← hlog] at hmirrors
    have hlegible : ∀ e ∈ s₂.shared.db.auditLog id, ∃ status : AutomationStatus,
        e.status = status.value := by
      intro e he
      rw [hlog] at he
      exact hr₂.mirrored.events e (List.mem_filter.mp he).1
    obtain ⟨events, hevents, hlines⟩ := mapM_toEvent hlegible
    refine ⟨row₂, { result with events := events }, hrow₂, ?_, ?_, ?_, ?_⟩
    · rw [AutomationRepository.seen_getDetails, h₁, h₂, hrow₁]
      dsimp only
      rw [hresult, hevents]
      rfl
    · have hconsistent := AutomationRequestDetails.consistent_iff
        { result with events := events } hstatus hdetail hupdated hattempts hlines
      rw [hmirrors.agrees_iff] at hconsistent
      constructor
      · exact fun hone => hconsistent.mp hone.1
      · intro hagrees
        refine ⟨hconsistent.mpr hagrees, 1, Nat.one_lt_two, ?_⟩
        rw [AutomationRepository.seen_getDetails, h₂, hrow₂]
        dsimp only
        rw [toResult_congr hsub hcreated hagrees, hresult, hevents]
        rfl
    · intro hnone
      rw [hsame hnone]
      exact ⟨rfl, rfl, rfl, rfl⟩
    · intro time times hwritten hne hagrees
      have hdated := hr₂.tells.dated id row₂ hrow₂
      rw [writtenTo, List.flatMap_append] at hdated
      rw [writtenTo] at hwritten
      rw [hwritten, List.cons_append, List.head?_cons, Option.some.injEq] at hdated
      exact hne (hdated.trans hagrees.updatedAt.symm)

end Runs

section Sample

open Interleaving.Turn

/-- A request has been accepted, and its row is read. -/
def queuedOnce : OpenSystem ℕ :=
  (openPlay (start 0 (.repository (.create "a" keylessRequest)) ::
    List.replicate 4 (go 0 Choice.calm))).2

def meanwhile (call : RepositoryCall) : List (OpenEvent ℕ) × OpenSystem ℕ :=
  letI := emptyPayload
  Interleaving.State.play openMachine
    (start 1 (.repository call) :: List.replicate 4 (go 1 (.after ⟨1, by decide⟩)))
    ([], queuedOnce)

/-- Another process claims it before the events are read. -/
def claimedMeanwhile : List (OpenEvent ℕ) × OpenSystem ℕ := meanwhile (.claim "a")

def auditGlances (second : Database) : ℕ → Glance
  | 0 => ⟨queuedOnce.shared.db, Choice.calm.utc⟩
  | _ => ⟨second, Choice.calm.utc⟩

def acceptedMeanwhile : List (OpenEvent ℕ) × OpenSystem ℕ := meanwhile (.create "b" keylessRequest)

theorem audit_view_iff_sample : letI := emptyPayload
    acceptedMeanwhile.2.shared.db.requests.length = 2 ∧
    ∃ details, (AutomationRepository.getDetails "a").seen
        (auditGlances acceptedMeanwhile.2.shared.db) = .ok (some details) ∧
      details.OfOneState "a" (auditGlances acceptedMeanwhile.2.shared.db) := by
  let _ := emptyPayload
  have hsome : (queuedOnce.shared.db.row? "a").isSome = true := by decide +kernel
  obtain ⟨row, hrow⟩ := Option.isSome_iff_exists.mp hsome
  have hsteps : Interleaving.Steps openMachine queuedOnce acceptedMeanwhile.1
      acceptedMeanwhile.2 := Interleaving.Steps.play _ .refl
  have hother : writtenTo "a" acceptedMeanwhile.1 = [] := by decide +kernel
  have hfirst : (auditGlances acceptedMeanwhile.2.shared.db 0).db = queuedOnce.shared.db := rfl
  have hsecond : (auditGlances acceptedMeanwhile.2.shared.db 1).db =
      acceptedMeanwhile.2.shared.db := rfl
  obtain ⟨row₂, details, -, hseen, hiff, hquiet, -⟩ :=
    (audit_view_iff (openPlay_runs _) hsteps hfirst hsecond).2 row hrow
  exact ⟨by decide +kernel, details, hseen, hiff.mpr (hquiet hother)⟩

theorem ok_of_join {α : Type} {r : Except PyExc (Option α)} {a : α}
    (h : r.toOption.join = some a) : r = .ok (some a) := by
  rcases r with exc | _ | b <;> cases h
  rfl

/-- The view shows a queued request with no attempts, and an event that its first has started. -/
theorem audit_view_torn : letI := emptyPayload
    ∃ h details, OpenRuns h queuedOnce ∧
      Interleaving.Steps openMachine queuedOnce claimedMeanwhile.1 claimedMeanwhile.2 ∧
      (AutomationRepository.getDetails "a").seen (auditGlances claimedMeanwhile.2.shared.db) =
        .ok (some details) ∧ details.status = .queued ∧ details.attemptCount = 0 ∧
      details.events.map (·.status) = [.queued, .running] ∧ ¬ details.Consistent := by
  let _ := emptyPayload
  have hview : (((AutomationRepository.getDetails "a").seen
      (auditGlances claimedMeanwhile.2.shared.db)).toOption.join.map fun details =>
        (details.status, details.attemptCount, details.events.map (·.status))) =
      some (.queued, 0, [.queued, .running]) := by decide +kernel
  obtain ⟨details, hjoin, hfacts⟩ := Option.map_eq_some_iff.mp hview
  have hseen := ok_of_join hjoin
  obtain ⟨hstatus, hattempts, hevents⟩ := by simpa using hfacts
  refine ⟨_, details, openPlay_runs _, Interleaving.Steps.play _ .refl, hseen, hstatus,
    hattempts, hevents, ?_⟩
  rintro ⟨⟨e, hlast, heq, -⟩, -⟩
  have hrunning : (details.events.map (·.status)).getLast? = some .running := by
    rw [hevents]
    rfl
  rw [List.getLast?_map, hlast, Option.map_some, ← heq, hstatus] at hrunning
  cases hrunning

end Sample

end Orchestrator
