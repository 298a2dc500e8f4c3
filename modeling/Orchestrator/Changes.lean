import Orchestrator.Library.Job
import Orchestrator.Lifecycle
import Orchestrator.Outcomes

/-!
# What one step of the system changes

Every step leaves at most one mark on one request. `Change` lists what a step of a
process in a given phase may do to the tables, and `Runs.tracked` reduces an invariant
of all runs to one case for each line of that list.
-/

namespace Orchestrator

open Interaction Job
set_option autoImplicit false

/-- What a step does to a request, if it concerns one. -/
def markOf {T : Type} : Event T → Option (String × Mark)
  | .did _ _ (.execute id _) r => some (id, .execute r.isOk)
  | .did _ _ (.transaction (.insertRequest id _ _)) (.ok _) => some (id, .enqueue)
  | .did _ _ (.transaction (.claimNext _)) (.ok (some (id, _))) => some (id, .start)
  | .did _ _ (.transaction (.claim ..)) (.ok (some (id, _))) => some (id, .start)
  | .did _ _ (.transaction (.failOrRetry id _ _)) (.ok _) => some (id, .settle)
  | .did _ _ (.transaction (.updateStatus id ..)) (.ok _) => some (id, .finish)
  | .did _ _ (.transaction (.replayDeadLetter id _)) (.ok _) => some (id, .requeue)
  | _ => none

theorem settle_of_markOf {T : Type} {ev : Event T} {id : String}
    (hm : markOf ev = some (id, .settle)) :
    ∃ t c detail delay r, ev = .did t c (.transaction (.failOrRetry id detail delay)) r := by
  unfold markOf at hm
  split at hm <;> simp only [Option.some.injEq, Prod.mk.injEq, reduceCtorEq, and_false] at hm
  obtain ⟨rfl, -⟩ := hm
  exact ⟨_, _, _, _, _, rfl⟩

theorem enqueue_of_markOf {T : Type} {ev : Event T} {id : String}
    (hm : markOf ev = some (id, .enqueue)) :
    ∃ t c request now, ev = .did t c (.transaction (.insertRequest id request now)) (.ok ()) := by
  unfold markOf at hm
  split at hm <;> simp only [Option.some.injEq, Prod.mk.injEq, reduceCtorEq, and_false] at hm
  obtain ⟨rfl, -⟩ := hm
  exact ⟨_, _, _, _, rfl⟩

def record (mark : Option (String × Mark)) (marks : String → List Mark) : String → List Mark :=
  match mark with
  | none => marks
  | some (id, m) => Function.update marks id (m :: marks id)

/-- The marks that a history leaves on each request, the latest first. -/
def marks {T : Type} : List (Event T) → String → List Mark
  | [] => fun _ => []
  | ev :: h => record (markOf ev) (marks h)

variable [JsonCodec]

/-- What a process may do to the tables in one step, with its phase before and after. -/
inductive Change (db : Database) (ph : Phase) :
    Option (String × Mark) → Database → Phase → Prop where
  | quiet : Change db ph none db ph
  | enqueue {db' : Database} {id now : String} {request : AutomationRequest}
      (hsub : Submitted db db' id request now) : Change db ph (some (id, .enqueue)) db' ph
  | start {id now : String} {row : RequestRow} (hrow : db.row? id = some row)
      (hel : row.eligible now = true) :
      Change db ph (some (id, .start)) (db.move id (row.started now)) (.claimed id)
  | execute {id : String} (ok : Bool) (hph : ph = .claimed id) :
      Change db ph (some (id, .execute ok)) db (if ok then .succeeded id else .failed id)
  | settle {id detail : String} {row : RequestRow} {clock : Instant} {delay : Int}
      {nextAttemptAt : Option String} (hph : ph = .claimed id ∨ ph = .failed id)
      (hrow : db.row? id = some row) (hnext : row.nextAttempt clock delay = .ok nextAttemptAt) :
      Change db ph (some (id, .settle))
        (db.move id (row.settled detail nextAttemptAt clock.isoformat)) .idle
  | finish {id detail now : String} (hph : ph = .succeeded id) :
      Change db ph (some (id, .finish)) (db.move id (.completed .completed detail now)) .idle
  | requeue {id now : String} {row : RequestRow} (hrow : db.row? id = some row)
      (hdead : row.status = AutomationStatus.deadLetter.value) :
      Change db ph (some (id, .requeue)) (db.move id (.replayed now)) ph

theorem Change.appends {db db' : Database} {ph ph' : Phase} {mark : Option (String × Mark)}
    (hc : Change db ph mark db' ph') :
    (db'.events = db.events ∧ db'.lastEventId = db.lastEventId) ∨
      ∃ e, db'.events = db.events ++ [e] ∧ e.eventId = db.lastEventId + 1 ∧
        db'.lastEventId = db.lastEventId + 1 := by
  cases hc with
  | quiet => exact .inl ⟨rfl, rfl⟩
  | execute ok hph => exact .inl ⟨rfl, rfl⟩
  | @enqueue db' id now request hsub =>
    obtain ⟨db₁, hins, rfl⟩ := hsub
    obtain ⟨-, -, -, hev, hlast⟩ := Database.insertRequest_ok hins
    refine .inr ⟨⟨db.lastEventId + 1, id, AutomationStatus.queued.value, queuedDetail, now⟩,
      ?_, rfl, ?_⟩
    · simp [Database.appendEvent, hev, hlast]
    · simp [Database.appendEvent, hlast]
  | _ => exact .inr ⟨_, rfl, rfl, rfl⟩

variable {T : Type} [DecidableEq T] {h : List (Event T)} {s s' : System T}

theorem step_outcome {t : T} {c : Choice} {op : TransactionOp} {r : Except PyExc op.Result}
    (hs : Step s (.did t c (.transaction op) r) s') :
    Outcome c.utc s.shared.db s'.shared.db op r := handle_outcome hs.did_handle

theorem step_same_db {t : T} {c : Choice} {e : Eff} {r : e.Res}
    (hs : Step s (.did t c e r) s') (he : ∀ op, e ≠ .transaction op) :
    s'.shared.db = s.shared.db := by
  rcases handle_db hs.did_handle with hdb | ⟨op, rfl⟩
  · exact hdb
  · exact absurd rfl (he op)

omit [DecidableEq T] in
theorem change_transaction {ph : Phase} {t : T} {c : Choice} {db db' : Database}
    {op : TransactionOp} {r : Except PyExc op.Result} (hal : ph.allows (.transaction op))
    (ho : Outcome c.utc db db' op r) :
    Change db ph (markOf (T := T) (.did t c (.transaction op) r)) db'
      (ph.next (.transaction op) r) := by
  cases r with
  | error x =>
    cases op with
    | insertRequest id request now =>
      obtain ⟨rfl, -⟩ := ho
      exact .quiet
    | _ =>
      obtain rfl : db' = db := ho
      exact .quiet
  | ok a =>
    cases op with
    | selectByKey key =>
      obtain ⟨-, rfl⟩ := ho
      exact .quiet
    | get id =>
      obtain ⟨-, rfl⟩ := ho
      exact .quiet
    | insertRequest id request now => exact .enqueue ho
    | claimNext now =>
      rcases a with _ | ⟨id, request⟩
      · obtain rfl : db' = db := ho
        exact .quiet
      · obtain ⟨row, hrow, hel, -, rfl⟩ := ho
        exact .start hrow hel
    | claim id now =>
      rcases a with _ | ⟨id', request⟩
      · obtain rfl : db' = db := ho
        exact .quiet
      · obtain ⟨rfl, row, hrow, hel, -, rfl⟩ := ho
        exact .start hrow hel
    | failOrRetry id detail delay =>
      obtain ⟨row, nextAttemptAt, hrow, hnext, rfl⟩ := ho
      exact .settle hal hrow hnext
    | updateStatus id status detail now =>
      obtain ⟨hph, rfl⟩ := hal
      obtain rfl : db' = _ := ho
      exact .finish hph
    | replayDeadLetter id now =>
      obtain ⟨row, hrow, hdead, rfl, -⟩ := ho
      exact .requeue hrow hdead

/-- A step that keeps to the lifecycle changes the tables in one of the listed ways. -/
theorem change_of_step {ph : Phase} {t : T} {c : Choice} {e : Eff} {r : e.Res}
    (hal : ph.allows e) (hs : Step s (.did t c e r) s') :
    Change s.shared.db ph (markOf (.did t c e r)) s'.shared.db (ph.next e r) := by
  cases e with
  | transaction op => exact change_transaction hal (step_outcome hs)
  | execute id request =>
    obtain rfl : ph = .claimed id := hal
    rw [step_same_db hs (by simp)]
    cases r with
    | ok detail => exact .execute true rfl
    | error x => exact .execute false rfl
  | _ =>
    rw [step_same_db hs (by simp)]
    exact .quiet

/-- The induction over runs, for invariants of the phases, the marks and the tables. -/
theorem Runs.tracked {I : (T → Phase) → (String → List Mark) → Database → Prop}
    (init : I (fun _ => .idle) (fun _ => []) .empty)
    (step : ∀ {ph marks db t mark db' ph'}, I ph marks db → Change db (ph t) mark db' ph' →
      I (Function.update ph t ph') (record mark marks) db')
    (stop : ∀ {ph marks db t}, I ph marks db → I (Function.update ph t .idle) marks db)
    (hr : Runs h s) :
    lifecycle.Follows (fun _ _ _ => True) h s ∧ I (lifecycle.phase h) (marks h) s.shared.db := by
  have hk : lifecycle.Keeps machine Initial (fun _ _ _ => True) (fun _ => True)
      (fun (h : List (Event T)) s => I (lifecycle.phase h) (marks h) s.shared.db) := by
    refine ⟨lifecycle_code, id, ?_, ?_, ?_, ?_, ?_⟩
    · intro s hi
      rw [hi.1]
      exact init
    · intro h s s' t call _ _ hI hidle hs
      have hph : Function.update (lifecycle.phase h) t (lifecycle.start call) =
          lifecycle.phase h := by
        rw [show lifecycle.start call = lifecycle.phase h t from hidle.symm,
          Function.update_eq_self]
      rw [lifecycle.phase_start, hph, hs.start_shared]
      exact hI
    · intro h s s' t c e r _ _ hI hal hs
      rw [lifecycle.phase_did]
      exact ⟨trivial, step hI (change_of_step hal hs)⟩
    · intro h s s' t call reply _ _ hI _ hs
      rw [lifecycle.phase_stop, hs.stop_shared]
      exact stop hI
    · intro h s s' _ _ hI hs
      rw [show s'.shared.db = s.shared.db from hs.disturb_shared]
      exact hI
  exact hk.runs (fun _ hi => hi.2.1) hr trivial

end Orchestrator
