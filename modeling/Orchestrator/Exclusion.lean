import Orchestrator.Changes
import Orchestrator.Library.Lease
import Orchestrator.Sequential

/-!
# Mutual exclusion of execution

A held request is RUNNING and held by one process. Claims need a waiting row, replays
a dead letter, and only the holder settles, so every step keeps this.
-/

namespace Orchestrator

open Interaction Lease
set_option autoImplicit false

/-- What each process holds is RUNNING, and nobody else holds it. -/
def Excludes {T : Type} (phases : T → Phase) (db : Database) : Prop :=
  Exclusive (fun t => (phases t).holding) fun id => db.HasStatus id .running

variable {T : Type} [DecidableEq T] {phases : T → Phase} {t : T} {ph : Phase} {db db' : Database}

theorem holding_update (phases : T → Phase) (t : T) (ph : Phase) :
    (fun t' => (Function.update phases t ph t').holding) =
      Function.update (fun t' => (phases t').holding) t ph.holding :=
  Function.comp_update Phase.holding phases t ph

theorem RequestRow.not_running_of_eligible (row : RequestRow) {now : String}
    (hel : row.eligible now = true) : row.status ≠ AutomationStatus.running.value := by
  intro hst
  simp [RequestRow.eligible, hst] at hel

namespace Excludes

omit [DecidableEq T] in
theorem running {id : String} {row : RequestRow} (hx : Excludes phases db)
    (hold : (phases t).holding = some id) (hrow : db.row? id = some row) :
    row.status = AutomationStatus.running.value := by
  obtain ⟨row', hrow', hst⟩ := hx.marked t id hold
  obtain rfl : row = row' := by simpa [hrow] using hrow'
  exact hst

theorem same (hx : Excludes phases db) (hold : ph.holding = (phases t).holding)
    (hdb : ∀ id, db.HasStatus id .running → db'.HasStatus id .running) :
    Excludes (Function.update phases t ph) db' := by
  rw [Excludes, holding_update, hold, Function.update_eq_self]
  exact hx.mono hdb

theorem settle {id : String} (tr : Transition) (hx : Excludes phases db)
    (hold : (phases t).holding = some id) :
    Excludes (Function.update phases t .idle) (db.move id tr) := by
  rw [Excludes, holding_update]
  apply hx.release hold
  intro id' hne hst
  exact hst.move_of_ne tr hne

theorem stop (hx : Excludes phases db) : Excludes (Function.update phases t .idle) db := by
  rw [Excludes, holding_update]
  exact hx.drop t

variable [JsonCodec] {mark : Option (String × Job.Mark)}

theorem step (hx : Excludes phases db) (hc : Change db (phases t) mark db' ph) :
    Excludes (Function.update phases t ph) db' := by
  cases hc with
  | quiet => exact hx.same rfl fun _ => id
  | enqueue hsub => exact hx.same rfl fun _ => hsub.hasStatus
  | @start id now row hrow hel =>
    rw [Excludes, holding_update]
    apply hx.acquire ?_ ⟨_, Database.row?_move_self _ hrow, rfl⟩ fun id' hne hst =>
      hst.move_of_ne _ hne
    intro hstatus
    obtain ⟨row', hrow', hst⟩ := hstatus
    obtain rfl : row = row' := by simpa [hrow] using hrow'
    exact row.not_running_of_eligible hel hst
  | execute ok hph =>
    apply hx.same ?_ fun _ => id
    rw [hph]
    cases ok <;> rfl
  | settle hph hrow hnext =>
    apply hx.settle _
    rcases hph with hph | hph <;> rw [hph] <;> rfl
  | finish hph =>
    apply hx.settle _
    rw [hph]
    rfl
  | @requeue id now row hrow hdead =>
    apply hx.same rfl
    intro id' hst
    apply hst.move_of_ne _
    rintro rfl
    obtain ⟨row', hrow', hst⟩ := hst
    obtain rfl : row = row' := by simpa [hrow] using hrow'
    simp [hdead] at hst

end Excludes

variable [JsonCodec] {h : List (Event T)} {s : System T}

theorem Runs.follows (hr : Runs h s) :
    lifecycle.Follows (fun _ _ _ => True) h s ∧ Excludes (lifecycle.phase h) s.shared.db :=
  hr.tracked (I := fun phases _ db => Excludes phases db) (.of_free fun _ => rfl)
    Excludes.step Excludes.stop

/-- The request that a process has claimed and has not yet completed or failed. -/
def holding (h : List (Event T)) (t : T) : Option String := (lifecycle.phase h t).holding

def Executing (s : System T) (t : T) (requestId : String) : Prop :=
  ∃ call request k, s.running t = some (call, .call (.execute requestId request) k)

theorem Executing.holding {id : String} (hr : Runs h s) (he : Executing s t id) :
    Orchestrator.holding h t = some id := by
  obtain ⟨call, request, k, hrun⟩ := he
  have hph : lifecycle.phase h t = .claimed id := ((hr.follows.1 t).2 _ _ hrun).1
  rw [Orchestrator.holding, hph]
  rfl

/-- Mutual exclusion of execution, after every run. -/
theorem mutual_exclusion (hr : Runs h s) :
    (∀ t t' id, holding h t = some id → holding h t' = some id → t = t') ∧
    (∀ t id, holding h t = some id →
      ∃ row, s.shared.db.row? id = some row ∧ row.status = AutomationStatus.running.value) ∧
    (∀ t id, Executing s t id → holding h t = some id) ∧
    (∀ t t' id, Executing s t id → Executing s t' id → t = t') := by
  have hx := hr.follows.2
  refine ⟨hx.unique, hx.marked, fun t id he => he.holding hr, ?_⟩
  intro t t' id he he'
  exact hx.unique t t' id (he.holding hr) (he'.holding hr)

omit [JsonCodec] in
/-- A worker that has just claimed the request of an earlier submission. -/
theorem mutual_exclusion_sample : letI := emptyPayload
    ∃ (h : List (Event ℕ)) (s : System ℕ), Runs h s ∧ holding h 1 = some "a" ∧
      (∀ t, holding h t = some "a" → t = 1) ∧
      ∃ row, s.shared.db.row? "a" = some row ∧ row.status = AutomationStatus.running.value := by
  let _ := emptyPayload
  have hr := (inTurn_runs (sampleCalls.take 1)).step (.start 1 (.runOnce sampleWorker) rfl)
  have hr := (hr.step (.did 1 .calm rfl)).step (.did 1 .calm rfl)
  have hx := mutual_exclusion hr
  refine ⟨_, _, hr, ?held, ?unique, ?running⟩
  case held => decide +kernel
  case unique => exact fun t ht => hx.1 t 1 "a" ht (by decide +kernel)
  case running => exact hx.2.1 1 "a" (by decide +kernel)

end Orchestrator
