import Orchestrator.Draining

/-!
# Overtaking is bounded

`claim_next` takes the oldest request that is due. So while a request waits, each claim that
passes it over uses up an attempt of a request that was created no later; younger requests
never get ahead of it, however many of them are submitted.
-/

namespace Orchestrator

open Interaction Table
set_option autoImplicit false

section Rows

/-- The attempts that another row may make ahead of this one. -/
def RequestRow.ahead (row other : RequestRow) : Int :=
  if other.requestId ≠ row.requestId ∧ other.createdAt ≤ row.createdAt then other.left else 0

def Database.ahead (db : Database) (row : RequestRow) : Int := (db.requests.map row.ahead).sum

variable {row other : RequestRow} {db : Database} {id : String}

theorem RequestRow.ahead_set (row other : RequestRow) (tr : Transition) :
    row.ahead (other.set tr.values) =
      if other.requestId ≠ row.requestId ∧ other.createdAt ≤ row.createdAt then
        (other.set tr.values).left else 0 := rfl

theorem RequestRow.ahead_set_le (row : RequestRow) {tr : Transition} {n : Int} (hn : 0 ≤ n)
    (hle : (other.set tr.values).left ≤ other.left + n) :
    row.ahead (other.set tr.values) ≤ row.ahead other + n := by
  rw [ahead_set, ahead]
  split
  · exact hle
  · omega

theorem RequestRow.Ok.ahead_nonneg (hok : other.Ok) : 0 ≤ row.ahead other := by
  have hleft := hok.left_nonneg
  unfold RequestRow.ahead
  split <;> omega

theorem ahead_move {tr : Transition} (hrow : db.row? id = some other) :
    (db.move id tr).ahead row = db.ahead row - row.ahead other + row.ahead (other.set tr.values) :=
  sum_map_updateAt db.primaryKey hrow

variable {connection : Connection} {now : String}

theorem exists_oldestEligible (hrow : row ∈ db.requests)
    (hel : (row.eligible now && !connection.skips row) = true) :
    db.oldestEligible connection now ≠ none := by
  rw [Database.oldestEligible, ne_eq, firstBy_eq_none]
  exact List.ne_nil_of_mem (List.mem_filter.mpr ⟨hrow, hel⟩)

end Rows

section Events
variable {T : Type} (row : RequestRow)

/-- A `claim_next` that returns, at a time when the row is due and its lock is free. -/
def passes : Event T → Bool
  | .did _ c (.transaction (.claimNext now)) (.ok _) =>
    row.eligible now && !c.connection.skips row
  | _ => false

/-- The attempts that a step brings to requests created no later than the row. -/
def brings : Event T → Int
  | .did _ _ (.transaction (.insertRequest _ request now)) (.ok _) =>
    if now ≤ row.createdAt then request.maxAttempts else 0
  | .did _ _ (.transaction (.replayDeadLetter ..)) (.ok updated) =>
    if updated.createdAt ≤ row.createdAt then updated.maxAttempts else 0
  | _ => 0

end Events

section Changes
variable [JsonCodec] {db db' : Database} {ph ph' : Phase} {mark : Option (String × Job.Mark)}
variable {id : String} {row : RequestRow}

omit [JsonCodec] in
theorem RequestRow.not_running_of_waiting (hwait : row.waiting = true) :
    row.status ≠ AutomationStatus.running.value ∧
      row.status ≠ AutomationStatus.deadLetter.value := by
  simp only [waiting, Bool.or_eq_true, decide_eq_true_eq] at hwait
  rcases hwait with hst | hst <;> simp [hst]

theorem Change.waits (hc : Change db ph mark db' ph') (hrow : db.row? id = some row)
    (hwait : row.waiting = true) (hheld : ph.holding ≠ some id)
    (hnot : mark ≠ some (id, .start)) : db'.row? id = some row := by
  cases hc with
  | quiet | execute => exact hrow
  | enqueue hsub => exact hsub.row? hrow
  | @start id' now other hother hel =>
    rw [Database.row?_move_of_ne _ fun hid => hnot (by rw [hid]), hrow]
  | @settle id' detail other clock delay nextAttemptAt hph hother hnext =>
    rw [Database.row?_move_of_ne, hrow]
    rintro rfl
    rcases hph with hph | hph <;> exact hheld (by rw [hph]; rfl)
  | @finish id' detail now hph =>
    rw [Database.row?_move_of_ne, hrow]
    rintro rfl
    exact hheld (by rw [hph]; rfl)
  | @requeue id' now other hother hdead =>
    rw [Database.row?_move_of_ne, hrow]
    rintro rfl
    obtain rfl := Option.some.inj (hother.symm.trans hrow)
    exact (RequestRow.not_running_of_waiting hwait).2 hdead

end Changes

section Runs
variable {T : Type} [JsonCodec] [DecidableEq T] {h evs : List (Event T)} {s s' : System T}
variable {ev : Event T} {id : String} {row : RequestRow}

theorem Runs.ahead_nonneg (hr : Runs h s) (row : RequestRow) : 0 ≤ s.shared.db.ahead row := by
  apply List.sum_nonneg
  intro n hn
  obtain ⟨other, hother, rfl⟩ := List.mem_map.mp hn
  exact (hr.row_ok (Database.row?_of_mem hother)).ahead_nonneg

theorem waits_step (hr : Runs h s) (hs : Step s ev s') (hrow : s.shared.db.row? id = some row)
    (hwait : row.waiting = true) (hnot : markOf ev ≠ some (id, .start)) :
    s'.shared.db.row? id = some row := by
  cases ev with
  | start t call => rwa [hs.start_shared]
  | stop t call reply => rwa [hs.stop_shared]
  | disturb => rwa [show s'.shared.db = s.shared.db from hs.disturb_shared]
  | did t c e r =>
    apply (change_of_step (hr.follows.1.allowed hs) hs).waits hrow hwait ?_ hnot
    intro hold
    exact (RequestRow.not_running_of_waiting hwait).1 (hr.follows.2.running hold hrow)

theorem ahead_submitted {db db' : Database} {id now : String} {request : AutomationRequest}
    (hsub : Submitted db db' id request now) :
    db'.ahead row ≤ db.ahead row + if now ≤ row.createdAt then request.maxAttempts else 0 := by
  have hnew : row.ahead (submittedRow id request now) ≤
      if now ≤ row.createdAt then request.maxAttempts else 0 := by
    have hleft : (submittedRow id request now).left = request.maxAttempts - 0 :=
      if_neg (by simp [submittedRow])
    have hpos := request.maxAttempts_range.1
    rw [RequestRow.ahead, hleft, sub_zero]
    split
    · next h => exact (if_pos h.2).ge
    · split <;> omega
  rw [Database.ahead, hsub.requests, List.map_append, List.sum_append, List.map_singleton,
    List.sum_singleton]
  exact Int.add_le_add_left hnew _

omit [JsonCodec] [DecidableEq T] in
theorem ahead_claim (row : RequestRow) {db : Database} {other : RequestRow} {id' now : String}
    (hother : db.row? id' = some other) (hel : other.eligible now = true) :
    (db.move id' (other.started now)).ahead row +
      (if other.requestId ≠ row.requestId ∧ other.createdAt ≤ row.createdAt then 1 else 0) =
        db.ahead row := by
  rw [ahead_move hother, RequestRow.ahead_set, RequestRow.ahead, left_started hel]
  split <;> omega

omit [JsonCodec] [DecidableEq T] in
theorem ahead_move_le {db : Database} {other : RequestRow} {id' : String} {tr : Transition}
    (hother : db.row? id' = some other) (hle : (other.set tr.values).left ≤ other.left) :
    (db.move id' tr).ahead row ≤ db.ahead row := by
  have hset := RequestRow.ahead_set_le row (le_refl 0) (by rwa [add_zero])
  rw [ahead_move hother]
  omega

omit [JsonCodec] [DecidableEq T] in
theorem ahead_replayed (row : RequestRow) {db : Database} {other : RequestRow} {id' : String}
    (now : String)
    (hother : db.row? id' = some other) (hok : other.Ok)
    (hdead : other.status = AutomationStatus.deadLetter.value) :
    (db.move id' (.replayed now)).ahead row ≤
      db.ahead row + if other.createdAt ≤ row.createdAt then other.maxAttempts else 0 := by
  have hold : row.ahead other = 0 := by
    have hleft : other.left = 0 := if_pos (.inr hdead)
    rw [RequestRow.ahead, hleft, ite_self]
  have hnew : (other.set (Transition.replayed now).values).left = other.maxAttempts - 0 :=
    if_neg (by simp [RequestRow.set, Transition.values, Transition.replayed])
  have hrange := hok.range
  rw [ahead_move hother, hold, RequestRow.ahead_set, hnew]
  split
  · next h =>
    rw [if_pos h.2]
    omega
  · split <;> omega

omit [DecidableEq T] in
theorem ahead_claimNext {db db' : Database} {t : T} {c : Choice} {now : String}
    {answer : Option (String × AutomationRequest)}
    (hcommit : (claimNextTx c.connection now).commit db = (.ok answer, db'))
    (hrow : db.row? id = some row)
    (hnot : markOf (.did t c (.transaction (.claimNext now)) (.ok answer) : Event T) ≠
      some (id, .start)) :
    db'.ahead row +
      (if passes row (.did t c (.transaction (.claimNext now)) (.ok answer) : Event T) then 1
        else 0) ≤ db.ahead row := by
  have hexec := Transaction.Tx.exec_of_commit hcommit
  rcases claimed_ok ((claimNextTx_eq ..).symm.trans hexec) with
    ⟨hnone, rfl, rfl⟩ | ⟨other, request, hsel, -, rfl, rfl⟩
  · have hpass : passes row (.did t c (.transaction (.claimNext now)) (.ok none) : Event T) =
        false := by
      by_contra hpass
      rw [Bool.not_eq_false] at hpass
      exact exists_oldestEligible (Database.row?_mem hrow) hpass hnone
    rw [hpass]
    exact (add_zero _).le
  · obtain ⟨hother, hel⟩ := oldestEligible_spec hsel
    have hne : other.requestId ≠ row.requestId := by
      intro heq
      exact hnot (by rw [heq, Database.row?_requestId hrow]; rfl)
    have hclaim := ahead_claim row hother hel
    split
    · next hpass =>
      have hle := oldestEligible_le hsel (Database.row?_mem hrow) hpass
      rw [if_pos ⟨hne, hle⟩] at hclaim
      exact hclaim.le
    · split at hclaim <;> omega

theorem ahead_claimById {clock : Instant} {db db' : Database} {id' now : String}
    {answer : Option (String × AutomationRequest)}
    (ho : Outcome clock db db' (.claim id' now) (.ok answer)) : db'.ahead row ≤ db.ahead row := by
  rcases answer with _ | ⟨id'', request⟩
  · obtain rfl : db' = db := ho
    exact le_rfl
  · obtain ⟨rfl, other, hother, hel, -, rfl⟩ := ho
    have hclaim := ahead_claim row hother hel
    split at hclaim <;> omega

theorem ahead_failOrRetry {t : T} {clock : Instant} {db' : Database} {id' detail : String}
    {delay : Int} {a : Unit} (hr : Runs h s)
    (hal : lifecycle.allowed (lifecycle.phase h t) (.transaction (.failOrRetry id' detail delay)))
    (ho : Outcome clock s.shared.db db' (.failOrRetry id' detail delay) (.ok a)) :
    db'.ahead row ≤ s.shared.db.ahead row := by
  obtain ⟨other, nextAttemptAt, hother, hnext, rfl⟩ := ho
  have hrun : other.status = AutomationStatus.running.value := by
    apply hr.follows.2.running (t := t) ?_ hother
    rcases hal with hal | hal <;> rw [hal] <;> rfl
  exact ahead_move_le hother (left_settled (hr.row_ok hother) hrun ..)

theorem ahead_updateStatus {t : T} {clock : Instant} {db' : Database} {id' detail now : String}
    {status : AutomationStatus} {a : Unit} (hr : Runs h s)
    (hal : lifecycle.allowed (lifecycle.phase h t)
      (.transaction (.updateStatus id' status detail now)))
    (ho : Outcome clock s.shared.db db' (.updateStatus id' status detail now) (.ok a)) :
    db'.ahead row ≤ s.shared.db.ahead row := by
  obtain ⟨hph, rfl⟩ := hal
  obtain rfl : db' = _ := ho
  obtain ⟨other, hother, -⟩ := hr.follows.2.marked t id' (by rw [hph]; rfl)
  exact ahead_move_le hother (left_completed (hr.row_ok hother) ..)

theorem ahead_transaction (hr : Runs h s) {t : T} {c : Choice} {op : TransactionOp}
    {r : Except PyExc op.Result} (hs : Step s (.did t c (.transaction op) r) s')
    (hrow : s.shared.db.row? id = some row)
    (hnot : markOf (.did t c (.transaction op) r) ≠ some (id, .start)) :
    s'.shared.db.ahead row +
      (if passes row (.did t c (.transaction op) r : Event T) then 1 else 0) ≤
      s.shared.db.ahead row + brings row (.did t c (.transaction op) r : Event T) := by
  have ho := step_outcome hs
  have hal := hr.follows.1.allowed hs
  have hcommit := step_commit hs
  generalize s'.shared.db = db' at ho hcommit ⊢
  cases r with
  | error exc =>
    have hdb : db' = s.shared.db := by
      cases op <;> first | exact ho | exact ho.1
    rw [hdb]
    cases op <;> exact le_rfl
  | ok a =>
    -- what passes nothing over and brings nothing only has to leave no more ahead
    have nothing {n m : ℤ} (hle : n ≤ m) : n + 0 ≤ m + 0 := by omega
    cases op with
    | selectByKey key =>
      obtain ⟨-, rfl⟩ := ho
      exact le_rfl
    | get id' =>
      obtain ⟨-, rfl⟩ := ho
      exact le_rfl
    | insertRequest id' request now => exact (add_zero _).le.trans (ahead_submitted ho)
    | claimNext now => exact (ahead_claimNext hcommit hrow hnot).trans (add_zero _).ge
    | claim id' now => exact nothing (ahead_claimById ho)
    | failOrRetry id' detail delay => exact nothing (ahead_failOrRetry hr hal ho)
    | updateStatus id' status detail now => exact nothing (ahead_updateStatus hr hal ho)
    | replayDeadLetter id' now =>
      obtain ⟨other, hother, hdead, rfl, hupdated⟩ := ho
      have hnew := Option.some.inj ((Database.row?_move_self _ hother).symm.trans hupdated)
      have hreplayed := ahead_replayed row now hother (hr.row_ok hother) hdead
      rw [← hnew]
      exact (add_zero _).le.trans hreplayed

/-- What is ahead of a waiting row grows only by what a step brings, and shrinks when it is
passed over. -/
theorem ahead_step (hr : Runs h s) (hs : Step s ev s') (hrow : s.shared.db.row? id = some row)
    (hnot : markOf ev ≠ some (id, .start)) :
    s'.shared.db.ahead row + (if passes row ev then 1 else 0) ≤
      s.shared.db.ahead row + brings row ev := by
  cases ev with
  | start t call =>
    rw [hs.start_shared]
    exact le_rfl
  | stop t call reply =>
    rw [hs.stop_shared]
    exact le_rfl
  | disturb =>
    rw [show s'.shared.db = s.shared.db from hs.disturb_shared]
    exact le_rfl
  | did t c e r =>
    cases e with
    | transaction op => exact ahead_transaction hr hs hrow hnot
    | _ =>
      rw [step_same_db hs (by simp)]
      exact le_rfl

/-- Overtaking is bounded: while a request waits, it stays as it is, and the calls of `claim_next`
that find it due and pass it over are no more than the attempts left to requests created no later
than it, with those that submissions and replays of such requests bring in the meantime. -/
theorem overtaking_bounded (hr : Runs h s) (hl : Steps s evs s')
    (hrow : s.shared.db.row? id = some row) (hwait : row.waiting = true)
    (hnot : ∀ ev ∈ evs, markOf ev ≠ some (id, .start)) :
    s'.shared.db.row? id = some row ∧
      (evs.countP (passes row) : ℤ) ≤ s.shared.db.ahead row + (evs.map (brings row)).sum := by
  suffices h : s'.shared.db.row? id = some row ∧
      s'.shared.db.ahead row + (evs.countP (passes row) : ℤ) ≤
        s.shared.db.ahead row + (evs.map (brings row)).sum by
    have hnonneg := Runs.ahead_nonneg (hr.append hl) row
    exact ⟨h.1, by omega⟩
  induction hl with
  | refl => exact ⟨hrow, le_rfl⟩
  | @step evs s' s'' ev hl hs ih =>
    obtain ⟨hrow', hahead⟩ := ih fun ev' hev' => hnot ev' (List.mem_cons_of_mem _ hev')
    have hr' : Runs (evs ++ h) s' := hr.append hl
    have hself := hnot ev List.mem_cons_self
    have hstep := ahead_step hr' hs hrow' hself
    refine ⟨waits_step hr' hs hrow' hwait hself, ?_⟩
    rw [List.countP_cons, List.map_cons, List.sum_cons]
    push_cast
    omega

omit [JsonCodec] in
/-- Two requests of the same time, and a worker that takes the first of them. -/
theorem overtaking_bounded_sample : letI := emptyPayload
    ∃ (s : System ℕ) (evs : List (Event ℕ)) (row : RequestRow),
      s.shared.db.row? "b" = some row ∧ row.waiting = true ∧ evs ≠ [] ∧
        (evs.countP (passes row) : ℤ) ≤ s.shared.db.ahead row + (evs.map (brings row)).sum := by
  let _ := emptyPayload
  let before := inTurn [(0, fun _ => .calm, .create "a" sampleRequest),
    (0, fun _ => .calm, .create "b" keylessRequest)]
  have hwaits : (before.2.shared.db.row? "b").map RequestRow.waiting = some true := by
    decide +kernel
  obtain ⟨row, hrow, hwait⟩ := Option.map_eq_some_iff.mp hwaits
  have hl := Steps.alone (s := before.2) (t := 1) rfl (fun _ => .calm) (.runOnce sampleWorker)
  have hbound := overtaking_bounded (inTurn_runs _) hl hrow hwait (by decide +kernel)
  exact ⟨before.2, _, row, hrow, hwait, List.cons_ne_nil _ _, hbound.2⟩

end Runs

end Orchestrator
