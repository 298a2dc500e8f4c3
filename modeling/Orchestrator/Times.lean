import Orchestrator.Callers
import Orchestrator.Journal
import Orchestrator.Writes

/-!
# The times that a history writes

A step writes to one request at most, with one time: the time of the event and of the row. So
the tables tell of each request the times that the history wrote to it, in their order.
-/

namespace Orchestrator

open Interaction Discipline Table
set_option autoImplicit false

/-- The steps of a history by what they write: the request and the time. -/
class Stamping (Ev : Type) where
  written : Ev → Option (String × String)

section Histories
variable {Ev : Type} [Stamping Ev]

def timesOf (id : String) (ev : Ev) : List String :=
  ((Stamping.written ev).filter fun w => w.1 = id).toList.map fun w => w.2

def writtenTo (id : String) (h : List Ev) : List String := h.flatMap (timesOf id)

theorem writtenTo_cons (id : String) (ev : Ev) (h : List Ev) :
    writtenTo id (ev :: h) = timesOf id ev ++ writtenTo id h := rfl

theorem timesOf_of_none {ev : Ev} (hw : Stamping.written ev = none) (id : String) :
    timesOf id ev = [] := by
  rw [timesOf, hw]
  rfl

theorem timesOf_of_some {ev : Ev} {id time : String} (hw : Stamping.written ev = some (id, time))
    (id' : String) : timesOf id' ev = if id = id' then [time] else [] := by
  rw [timesOf, hw]
  by_cases hid : id = id'
  · simp [hid, Option.filter]
  · simp [hid, Option.filter]

theorem mem_timesOf {ev : Ev} {id time : String} :
    time ∈ timesOf id ev ↔ Stamping.written ev = some (id, time) := by
  cases hw : Stamping.written ev with
  | none => simp [timesOf_of_none hw]
  | some w =>
    rw [timesOf_of_some hw id]
    by_cases hid : w.1 = id
    · subst hid
      simp [Prod.ext_iff, eq_comm]
    · simp [hid, Prod.ext_iff]

def Stamped (db db' : Database) (ev : Ev) : Prop :=
  match Stamping.written ev with
  | none => db' = db
  | some (id, time) => Stamps db db' id time

theorem Stamped.cases {db db' : Database} {ev : Ev} (hst : Stamped db db' ev) :
    (db' = db ∧ ∀ id, timesOf id ev = []) ∨ ∃ id time, Stamping.written ev = some (id, time) ∧
      Stamps db db' id time ∧ ∀ id', timesOf id' ev = if id = id' then [time] else [] := by
  unfold Stamped at hst
  split at hst
  · next hw => exact .inl ⟨hst, timesOf_of_none hw⟩
  · next id time hw => exact .inr ⟨id, time, hw, hst, timesOf_of_some hw⟩

/-- The tables tell of each request the times that the history wrote to it. -/
structure Tells (h : List Ev) (db : Database) : Prop where
  ordered : db.Ordered
  log : ∀ id, (entriesOf EventRow.requestId id db.events).map (·.createdAt) =
    (writtenTo id h).reverse
  dated : ∀ id row, db.row? id = some row → (writtenTo id h).head? = some row.updatedAt

variable {h : List Ev} {ev : Ev} {db db' : Database}

theorem Tells.same (ht : Tells h db) (hnone : ∀ id, timesOf id ev = []) : Tells (ev :: h) db := by
  have hw : ∀ id, writtenTo id (ev :: h) = writtenTo id h := by
    intro id
    rw [writtenTo_cons, hnone id, List.nil_append]
  exact ⟨ht.ordered, fun id => (hw id).symm ▸ ht.log id, fun id => (hw id).symm ▸ ht.dated id⟩

theorem Tells.stamps {id time : String} (ht : Tells h db) (hs : Stamps db db' id time)
    (hself : timesOf id ev = [time]) (hothers : ∀ id', id' ≠ id → timesOf id' ev = []) :
    Tells (ev :: h) db' := by
  obtain ⟨⟨e, hev, heid, rfl, rfl⟩, hcount, hdated, hrows⟩ := hs
  refine ⟨ht.ordered.snoc hev heid hcount, ?_, ?_⟩
  · intro id'
    rw [hev, entriesOf_append_singleton, writtenTo_cons, List.reverse_append, ← ht.log id']
    by_cases hid : e.requestId = id'
    · subst hid
      simp [hself]
    · simp [hid, hothers id' (Ne.symm hid)]
  · intro id' row hrow
    rw [writtenTo_cons]
    by_cases hid : id' = e.requestId
    · subst hid
      rw [hself, hdated row hrow]
      rfl
    · rw [hothers id' hid]
      exact ht.dated id' row (hrows id' hid ▸ hrow)

theorem Tells.step (ht : Tells h db) (hst : Stamped db db' ev) : Tells (ev :: h) db' := by
  rcases hst.cases with ⟨rfl, hnone⟩ | ⟨id, time, -, hst, htimes⟩
  · exact ht.same hnone
  · exact ht.stamps hst ((htimes id).trans (if_pos rfl))
      fun id' hne => (htimes id').trans (if_neg (Ne.symm hne))

theorem tells_empty : Tells ([] : List Ev) Database.empty :=
  ⟨⟨.nil, by simp [Database.empty]⟩, fun _ => rfl, fun _ _ hrow => by cases hrow⟩

end Histories

section Protocols

theorem openReadings_code (call : OpenCall) :
    (readings OpenCall).wp call.code (fun _ _ => True) ((readings OpenCall).start call) := by
  cases call with
  | program call =>
    apply (Discipline.wp_bind ..).mpr
    exact (readings Call).wp_mono (readings_code call) fun _ _ _ => trivial
  | repository call =>
    apply (Discipline.wp_bind ..).mpr
    have hsafe := repositoryCall_safe (D := (readings OpenCall).toDiscipline) safe_create safe_claim
      safe_claimNext safe_complete safe_failOrRetry safe_replayDeadLetter call none
    exact (readings OpenCall).wp_mono hsafe fun _ _ _ => trivial

/-- `update_status` is called by `complete` only. -/
def finishing : Interleaving.Protocol Eff Eff.Res OpenCall Unit where
  allowed
    | _, .transaction (.updateStatus _ status _ _) => status = .completed
    | _, _ => True
  admits _ _ _ := True
  next _ _ _ := ()
  idle := ()
  start _ := ()

theorem finishing_code (call : OpenCall) :
    finishing.wp call.code (fun _ _ => True) (finishing.start call) := by
  have free : ∀ k : Eff.Kind, k ≠ .works → finishing.Ignores (·.kind = k) := by
    rintro k hk e rfl ph
    cases e with
    | transaction op =>
      cases op <;> first | exact absurd rfl hk | exact ⟨trivial, fun _ => rfl⟩
    | _ => exact ⟨trivial, fun _ => rfl⟩
  cases call with
  | program call =>
    apply (Discipline.wp_bind ..).mpr
    refine finishing.wp_mono (lifecycle.wp_simulate (R := fun _ _ => True) ?_
      (fun _ _ _ => ⟨trivial, trivial⟩) (lifecycle_code call) trivial) fun _ _ _ => trivial
    intro ph ph' e _ hal
    cases e with
    | transaction op =>
      cases op with
      | updateStatus id status detail now => exact hal.2
      | _ => trivial
    | _ => trivial
  | repository call =>
    apply (Discipline.wp_bind ..).mpr
    have plain : finishing.Ignores Eff.Plain := ignores_plain (free .quiet (by decide))
    have clock : finishing.Safe Py.utcNow := (neutral_utcNow plain).safe
    have hsafe := repositoryCall_safe (D := finishing.toDiscipline)
      (fun id request =>
        (neutral_create plain (free .submits (by decide)) id request).safe)
      (fun _ => clock.bind fun _ _ => ⟨trivial, fun _ _ => trivial⟩)
      (clock.bind fun _ _ => ⟨trivial, fun _ _ => trivial⟩)
      (fun _ _ => clock.bind fun _ _ => ⟨rfl, fun _ _ => trivial⟩)
      (fun _ _ _ _ => ⟨trivial, fun _ _ => trivial⟩)
      (fun _ => clock.bind fun _ => Safe.bind (fun _ => ⟨trivial, fun _ _ => trivial⟩)
        fun _ => (Neutral.ofExcept _).safe) call ()
    exact finishing.wp_mono hsafe fun _ _ _ => trivial

end Protocols

instance {T : Type} : Stamping (OpenEvent T) where
  written
    | .did _ c (.transaction op) r => op.written c.utc r
    | _ => none

section Runs
variable [JsonCodec] {T : Type} [DecidableEq T] {h : List (OpenEvent T)} {s s' : OpenSystem T}
variable {ev : OpenEvent T} {t : T} {c : Choice} {op : TransactionOp}
variable {r : Except PyExc op.Result}

theorem OpenRuns.given {now : String} (hr : OpenRuns h s)
    (hs : OpenStep s (.did t c (.transaction op) r) s') (hop : op.given = some now) :
    ∃ reading, (readings OpenCall).phase h t = some reading ∧ now = reading.isoformat := by
  have hf := Interleaving.Protocol.follows_runs (P := readings OpenCall) openReadings_code
    (fun _ _ _ => trivial) (fun _ hi => hi.2.1) hr
  have hal := hf.allowed hs now hop
  simp only [Option.map_eq_some_iff] at hal
  obtain ⟨reading, hreading, htext⟩ := hal
  exact ⟨reading, hreading, htext.symm⟩

theorem OpenRuns.finishes {id detail now : String} {status : AutomationStatus}
    {r : Except PyExc Unit} (hr : OpenRuns h s)
    (hs : OpenStep s (.did t c (.transaction (.updateStatus id status detail now)) r) s') :
    status = .completed :=
  (Interleaving.Protocol.follows_runs (P := finishing) finishing_code (fun _ _ _ => trivial)
    (fun _ hi => hi.2.1) hr).allowed hs

theorem open_stamped (hs : OpenStep s ev s') : Stamped s.shared.db s'.shared.db ev := by
  rcases open_cases hs with ⟨hdb, hev⟩ | ⟨t, c, op, r, rfl⟩
  · have hw : Stamping.written ev = none := by
      cases ev with
      | did t c e r => cases e <;> first | rfl | exact absurd rfl (hev _ _ _ _)
      | _ => rfl
    unfold Stamped
    rw [hw]
    exact hdb
  · exact (open_outcome hs).stamps

theorem OpenRuns.tells (hr : OpenRuns h s) : Tells h s.shared.db := by
  refine hr.invariant (I := fun h s => Tells h s.shared.db) ?_
    fun _ ht hs => ht.step (open_stamped hs)
  intro s hi
  rw [hi.1]
  exact tells_empty

end Runs

end Orchestrator
