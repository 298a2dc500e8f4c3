import Orchestrator.Scheduling
import Orchestrator.Statements

/-!
# The order of audit times

The methods read the clock before they lock what they write, and other transactions may commit
in between. The times of a request stay in order exactly as long as no step writes an older
time than one that was committed since its process read the clock.
-/

namespace Orchestrator

open Interaction Discipline Table
set_option autoImplicit false

def Database.InOrder (db : Database) : Prop :=
  ∀ id, ((db.auditLog id).map (·.createdAt)).Pairwise (· ≤ ·)

/-- A step leaves the events in order and takes no `updated_at` back. -/
def Chronological {T : Type} (s s' : StatementSystem T) : Prop :=
  s'.shared.db.InOrder ∧ ∀ id row row', s.shared.db.row? id = some row →
    s'.shared.db.row? id = some row' → row.updatedAt ≤ row'.updatedAt

section Histories
variable {T : Type}

def readingOf : StatementEvent T → List Instant
  | .did _ _ (.program .utcNow) now => [now]
  | _ => []

def clockReadings (h : List (StatementEvent T)) : List Instant := h.flatMap readingOf

/-- One clock for all processes, which never goes back. -/
def SharedClock (h : List (StatementEvent T)) : Prop :=
  (clockReadings h).Pairwise fun later earlier => earlier ≤ later

instance (h : List (StatementEvent T)) : Decidable (SharedClock h) :=
  inferInstanceAs (Decidable ((clockReadings h).Pairwise fun later earlier => earlier ≤ later))

def rereads [DecidableEq T] (t : T) : StatementEvent T → Bool
  | .did t' _ (.program .utcNow) _ => t' = t
  | _ => false

/-- The times written to a request since the process last read the clock. -/
def writtenSince [DecidableEq T] (t : T) (id : String) : List (StatementEvent T) → List String
  | [] => []
  | ev :: h => if rereads t ev then [] else timesOf id ev ++ writtenSince t id h

theorem SharedClock.past {ev : StatementEvent T} {h : List (StatementEvent T)}
    (hc : SharedClock (ev :: h)) : SharedClock h :=
  (List.pairwise_append.mp hc).2.1

theorem SharedClock.le {ev : StatementEvent T} {h : List (StatementEvent T)}
    (hc : SharedClock (ev :: h)) {now earlier : Instant} (hnow : now ∈ readingOf ev)
    (hearlier : earlier ∈ clockReadings h) : earlier ≤ now :=
  (List.pairwise_append.mp hc).2.2 now hnow earlier hearlier

variable [DecidableEq T]

theorem mem_writtenTo {t : T} {id time : String} {h : List (StatementEvent T)}
    (hmem : time ∈ writtenSince t id h) : time ∈ writtenTo id h := by
  induction h with
  | nil => cases hmem
  | cons ev h ih =>
    rw [writtenSince] at hmem
    rw [writtenTo_cons, List.mem_append]
    split at hmem
    · cases hmem
    · exact (List.mem_append.mp hmem).imp_right ih

end Histories

section Protocols

/-- The phase is the last reading of the clock in the current call; what a call writes is dated
with it. The transaction of `fail_or_retry` is split. -/
def statementReadings : Interleaving.Protocol StatementEff StatementEff.Res OpenCall
    (Option Instant) where
  allowed reading
    | .program (.transaction op) => (∀ id detail delay, op ≠ .failOrRetry id detail delay) ∧
      ∀ now, op.given = some now → reading.map Instant.isoformat = some now
    | .writeFailure _ _ _ _ now => reading = some now
    | _ => True
  admits _ _ _ := True
  next reading
    | .program .utcNow, now => some now
    | _, _ => reading
  idle := none
  start _ := none

theorem statementReadings_effect {known reading : Option Instant} {e : Eff}
    (hR : ∀ now, known = some now → reading = some now)
    (hal : (readings OpenCall).allowed known e) :
    statementReadings.wp e.statements (fun reading r => (readings OpenCall).admits known e r ∧
      ∀ now, (readings OpenCall).next known e r = some now → reading = some now) reading := by
  have keep : ∀ {k : Option Instant}, k = known ∨ k = none →
      ∀ now, k = some now → reading = some now := by
    intro k hk now hnow
    rcases hk with rfl | rfl
    · exact hR now hnow
    · cases hnow
  cases e with
  | utcNow => exact ⟨trivial, fun now _ => ⟨trivial, fun _ h => h⟩⟩
  | transaction op =>
    have given : (∀ id detail delay, op ≠ .failOrRetry id detail delay) →
        statementReadings.allowed reading (.program (.transaction op)) := by
      intro hop
      refine ⟨hop, ?_⟩
      intro now hgiven
      obtain ⟨instant, hinstant, htext⟩ := Option.map_eq_some_iff.mp (hal now hgiven)
      rw [hR instant hinstant, Option.map_some, htext]
    cases op with
    | failOrRetry id detail delay =>
      refine ⟨trivial, fun r _ => ?_⟩
      cases r with
      | error exc => exact ⟨trivial, keep (.inr rfl)⟩
      | ok seen =>
        exact ⟨trivial, fun now _ => ⟨rfl, fun _ _ => ⟨trivial, fun _ h => by cases h⟩⟩⟩
    | _ => exact ⟨given (by simp), fun _ _ => ⟨trivial, keep (.inl rfl)⟩⟩
  | _ => exact ⟨trivial, fun _ _ => ⟨trivial, keep (.inl rfl)⟩⟩

theorem statementReadings_code (call : OpenCall) :
    statementReadings.wp (statementCode call) (fun _ _ => True)
      (statementReadings.start call) := by
  have hknown : statementReadings.wp (statementCode call)
      (fun reading _ => ∃ known, (∀ now, known = some now → reading = some now) ∧ True) none := by
    refine Discipline.wp_expand (R := fun known reading => ∀ now, known = some now →
      reading = some now) ?_ (openReadings_code call) fun _ h => h
    exact fun hR hal => statementReadings_effect hR hal
  exact statementReadings.wp_mono hknown fun _ _ _ => trivial

/-- `update_status` is called by `complete` only. -/
def statementFinishing : Interleaving.Protocol StatementEff StatementEff.Res OpenCall Unit where
  allowed
    | _, .program (.transaction (.updateStatus _ status _ _)) => status = .completed
    | _, _ => True
  admits _ _ _ := True
  next _ _ _ := ()
  idle := ()
  start _ := ()

theorem statementFinishing_code (call : OpenCall) :
    statementFinishing.wp (statementCode call) (fun _ _ => True) () := by
  refine statementFinishing.wp_mono (Discipline.wp_expand (R := fun _ _ => True) ?_
    (finishing_code call) trivial) fun _ _ _ => trivial
  intro _ _ e _ hal
  cases e with
  | transaction op =>
    cases op with
    | failOrRetry id detail delay =>
      refine ⟨trivial, fun r _ => ?_⟩
      cases r with
      | error exc => exact ⟨trivial, trivial⟩
      | ok seen => exact ⟨trivial, fun _ _ => ⟨trivial, fun _ _ => ⟨trivial, trivial⟩⟩⟩
    | updateStatus id status detail now => exact ⟨hal, fun _ _ => ⟨trivial, trivial⟩⟩
    | _ => exact ⟨trivial, fun _ _ => ⟨trivial, trivial⟩⟩
  | _ => exact ⟨trivial, fun _ _ => ⟨trivial, trivial⟩⟩

end Protocols

section Runs
variable [JsonCodec] {T : Type} [DecidableEq T] {h : List (StatementEvent T)}
variable {s s' : StatementSystem T} {ev : StatementEvent T} {t : T} {c : Choice}
variable {op : TransactionOp} {r : Except PyExc op.Result}

theorem StatementRuns.follows (hr : StatementRuns h s) :
    statementReadings.Follows (fun _ _ _ => True) h s :=
  Interleaving.Protocol.follows_runs statementReadings_code (fun _ _ _ => trivial)
    (fun _ hi => hi.2.1) hr

theorem StatementRuns.finishes {id detail now : String} {status : AutomationStatus}
    {r : Except PyExc Unit} (hr : StatementRuns h s)
    (hs : StatementStep s
      (.did t c (.program (.transaction (.updateStatus id status detail now))) r) s') :
    status = .completed :=
  (Interleaving.Protocol.follows_runs (P := statementFinishing) statementFinishing_code
    (fun _ _ _ => trivial) (fun _ hi => hi.2.1) hr).allowed hs

omit [JsonCodec] in
theorem reading_before {ev : StatementEvent T} {reading : Instant} (hev : rereads t ev = false)
    (hp : statementReadings.phase (ev :: h) t = some reading) :
    statementReadings.phase h t = some reading := by
  cases ev with
  | start t' call =>
    by_cases ht : t' = t
    · simp [Interleaving.Protocol.phase, ht, statementReadings] at hp
    · simpa [Interleaving.Protocol.phase, ht] using hp
  | stop t' call reply =>
    by_cases ht : t' = t
    · simp [Interleaving.Protocol.phase, ht, statementReadings] at hp
    · simpa [Interleaving.Protocol.phase, ht] using hp
  | disturb => exact hp
  | did t' c e r =>
    by_cases ht : t' = t
    · cases e with
      | program e =>
        cases e with
        | utcNow => simp [rereads, ht] at hev
        | _ => simpa [Interleaving.Protocol.phase, ht, statementReadings] using hp
      | _ => simpa [Interleaving.Protocol.phase, ht, statementReadings] using hp
    · simpa [Interleaving.Protocol.phase, ht] using hp

omit [JsonCodec] in
theorem reading_of_rereads {ev : StatementEvent T} (hev : rereads t ev = true) :
    ∃ c now, ev = .did t c (.program .utcNow) now := by
  unfold rereads at hev
  split at hev
  · obtain rfl := of_decide_eq_true hev
    exact ⟨_, _, rfl⟩
  · cases hev

omit [JsonCodec] in
theorem reading_mem {reading : Instant} (hp : statementReadings.phase h t = some reading) :
    reading ∈ clockReadings h := by
  induction h with
  | nil => cases hp
  | cons ev h ih =>
    rw [clockReadings, List.flatMap_cons, List.mem_append]
    cases hev : rereads t ev with
    | false => exact .inr (ih (reading_before hev hp))
    | true =>
      obtain ⟨c, now, rfl⟩ := reading_of_rereads hev
      obtain rfl : now = reading := by
        simpa [Interleaving.Protocol.phase, statementReadings] using hp
      exact .inl (List.mem_singleton_self _)

omit [JsonCodec] in
theorem written_given {id time : String}
    (hop : ∀ id detail delay, op ≠ .failOrRetry id detail delay)
    (hw : op.written c.utc r = some (id, time)) : op.given = some time := by
  cases r with
  | error exc => cases op <;> cases hw
  | ok answer =>
    cases op with
    | claimNext now =>
      rcases answer with _ | ⟨id', request⟩ <;> cases hw
      rfl
    | claim id' now =>
      rcases answer with _ | ⟨id', request⟩ <;> cases hw
      rfl
    | failOrRetry id' detail delay => exact absurd rfl (hop _ _ _)
    | selectByKey key => cases hw
    | get id' => cases hw
    | _ =>
      cases hw
      rfl

theorem StatementRuns.dated {e : StatementEff} {r : e.Res} {id time : String}
    (hr : StatementRuns h s) (hs : StatementStep s (.did t c e r) s')
    (hw : Stamping.written (.did t c e r : StatementEvent T) = some (id, time)) :
    ∃ reading, statementReadings.phase h t = some reading ∧ time = reading.isoformat := by
  have hal := (StatementRuns.follows hr).allowed hs
  cases e with
  | program e =>
    cases e with
    | transaction op =>
      have hgiven := written_given (c := c) hal.1 hw
      obtain ⟨reading, hreading, htext⟩ := Option.map_eq_some_iff.mp (hal.2 time hgiven)
      exact ⟨reading, hreading, htext.symm⟩
    | _ => cases hw
  | selectAttempts id => cases hw
  | writeFailure id' detail delay seen now =>
    cases r with
    | error exc => cases hw
    | ok _ =>
      cases hw
      exact ⟨now, hal, rfl⟩

theorem StatementRuns.timesRead (hr : StatementRuns h s) {id time : String}
    (hmem : time ∈ writtenTo id h) : ∃ reading ∈ clockReadings h, time = reading.isoformat := by
  induction hr with
  | init hi => cases hmem
  | @step h s s' ev hr hs ih =>
    rw [writtenTo_cons, List.mem_append] at hmem
    have later : ∀ {u}, u ∈ clockReadings h → u ∈ clockReadings (ev :: h) := by
      intro u hu
      exact List.mem_append.mpr (.inr hu)
    rcases hmem with hnew | hold
    · have hw := mem_timesOf.mp hnew
      cases ev with
      | did t c e r =>
        obtain ⟨reading, hreading, rfl⟩ := StatementRuns.dated hr hs hw
        exact ⟨reading, later (reading_mem hreading), rfl⟩
      | _ => cases hw
    · obtain ⟨reading, hreading, rfl⟩ := ih hold
      exact ⟨reading, later hreading, rfl⟩

/-- What was written before a process read the clock is not later than its reading. -/
theorem StatementRuns.written_before (hr : StatementRuns h s) (hclock : SharedClock h)
    {reading : Instant} (hp : statementReadings.phase h t = some reading) {id time : String}
    (hmem : time ∈ writtenTo id h) : time ∈ writtenSince t id h ∨ time ≤ reading.isoformat := by
  induction hr with
  | init hi => cases hmem
  | @step h s s' ev hr hs ih =>
    rw [writtenSince]
    cases hev : rereads t ev with
    | false =>
      rw [if_neg Bool.false_ne_true, List.mem_append]
      rw [writtenTo_cons, List.mem_append] at hmem
      rcases hmem with hnew | hold
      · exact .inl (.inl hnew)
      · exact (ih hclock.past (reading_before hev hp) hold).imp_left .inr
    | true =>
      obtain ⟨c, now, rfl⟩ := reading_of_rereads hev
      obtain rfl : now = reading := by
        simpa [Interleaving.Protocol.phase, statementReadings] using hp
      obtain ⟨earlier, hearlier, rfl⟩ := StatementRuns.timesRead hr hmem
      right
      rw [Instant.isoformat_le_isoformat]
      exact hclock.le (List.mem_singleton_self _) hearlier

/-- The process writes no older time than one committed since it read the clock. -/
def Fresh (h : List (StatementEvent T)) (s : StatementSystem T) : StatementEvent T → Prop
  | .did t c e _ => ∀ id time, e.writes c s.shared.db = some (id, time) →
      ∀ time' ∈ writtenSince t id h, time' ≤ time
  | _ => True

omit [JsonCodec] [DecidableEq T] in
theorem Tells.inOrder_iff {db : Database} (ht : Tells h db) :
    db.InOrder ↔ ∀ id, (writtenTo id h).Pairwise fun later earlier => earlier ≤ later := by
  apply forall_congr'
  intro id
  rw [ht.ordered.auditLog, ht.log, List.pairwise_reverse]

theorem latest_of_fresh (hr : StatementRuns h s) (hs : StatementStep s ev s')
    (hclock : SharedClock h) {id time : String} (hw : Stamping.written ev = some (id, time))
    (hfresh : Fresh h s ev) {time' : String} (hmem : time' ∈ writtenTo id h) : time' ≤ time := by
  cases ev with
  | did t c e r =>
    obtain ⟨reading, hreading, rfl⟩ := StatementRuns.dated hr hs hw
    rcases StatementRuns.written_before hr hclock hreading hmem with hsince | hle
    · exact hfresh id _ ((statement_writes hs).symm.trans hw) time' hsince
    · exact hle
  | _ => cases hw

omit [JsonCodec] [DecidableEq T] in
theorem chronological_same (hdb : s'.shared.db = s.shared.db) (hord : s.shared.db.InOrder) :
    Chronological s s' := by
  refine ⟨hdb ▸ hord, ?_⟩
  intro id row row' hrow hrow'
  rw [hdb, hrow] at hrow'
  cases hrow'
  exact le_rfl

theorem chronological_of_fresh (hr : StatementRuns h s) (hs : StatementStep s ev s')
    (hclock : SharedClock h) (hord : s.shared.db.InOrder) (hfresh : Fresh h s ev) :
    Chronological s s' := by
  rcases (statement_stamped hs).cases with ⟨hdb, -⟩ | ⟨id, time, hw, hst, htimes⟩
  · exact chronological_same hdb hord
  · have ht := StatementRuns.tells hr
    have ht' := StatementRuns.tells (hr.step hs)
    have hlatest : ∀ time' ∈ writtenTo id h, time' ≤ time :=
      fun time' => latest_of_fresh hr hs hclock hw hfresh
    constructor
    · rw [ht'.inOrder_iff]
      intro id'
      rw [writtenTo_cons, htimes]
      by_cases hid : id = id'
      · subst hid
        rw [if_pos rfl]
        exact List.pairwise_cons.mpr ⟨hlatest, ht.inOrder_iff.mp hord id⟩
      · rw [if_neg hid, List.nil_append]
        exact ht.inOrder_iff.mp hord id'
    · intro id' row row' hrow hrow'
      by_cases hid : id' = id
      · subst hid
        rw [hst.dated row' hrow']
        exact hlatest _ (List.mem_of_head? (ht.dated id' row hrow))
      · rw [hst.others id' hid, hrow] at hrow'
        cases hrow'
        exact le_rfl

/-- A step that keeps the order is fresh: an older time would come last. -/
theorem fresh_of_chronological (hr : StatementRuns h s) (hs : StatementStep s ev s')
    (hch : Chronological s s') : Fresh h s ev := by
  have ht' := StatementRuns.tells (hr.step hs)
  cases ev with
  | did t c e r =>
    intro id time hw time' hsince
    have hpair := ht'.inOrder_iff.mp hch.1 id
    rw [writtenTo_cons, timesOf_of_some ((statement_writes hs).trans hw), if_pos rfl] at hpair
    exact (List.pairwise_cons.mp hpair).1 time' (mem_writtenTo hsince)
  | _ => trivial

omit [JsonCodec] in
theorem Instant.le_addSeconds {now at' : Instant} {seconds : Int} (h : 0 ≤ seconds)
    (hadd : now.addSeconds seconds = .ok at') : now ≤ at' := by
  have hus := Instant.addSeconds_us hadd
  change now.us ≤ at'.us
  omega

def RequestRow.DueAfterWrite (row : RequestRow) : Prop :=
  row.waiting = true → ∃ next, row.nextAttemptAt = some next ∧ row.updatedAt ≤ next

def delaysOf : StatementEvent T → List Int
  | .did _ _ (.writeFailure _ _ delay _ _) _ => [delay]
  | _ => []

/-- The step schedules no retry into the past. -/
def Forward (ev : StatementEvent T) : Prop := ∀ delay ∈ delaysOf ev, 0 ≤ delay

instance (ev : StatementEvent T) : Decidable (Forward ev) :=
  inferInstanceAs (Decidable (∀ delay ∈ delaysOf ev, 0 ≤ delay))

omit [JsonCodec] in
theorem dueAfterWrite_set (row : RequestRow) {tr : Transition}
    (h : (tr.status ≠ .queued ∧ tr.status ≠ .retrying) ∨
      ∃ next, tr.nextAttemptAt = some (some next) ∧ tr.time ≤ next) :
    (row.set tr.values).DueAfterWrite := by
  intro hwait
  rcases h with ⟨hq, hr⟩ | ⟨next, hnext, hle⟩
  · have hst : (row.set tr.values).status = tr.status.value := rfl
    simp [RequestRow.waiting, hst, hq, hr] at hwait
  · refine ⟨next, ?_, hle⟩
    change tr.nextAttemptAt.getD _ = _
    rw [hnext]
    rfl

omit [JsonCodec] in
/-- The row may have changed since it was seen: what is written is the same. -/
theorem dueAfterWrite_settled {row seen : RequestRow} {clock : Instant} {delay : Int}
    {nextAttemptAt : Option String} (hdelay : 0 ≤ delay)
    (hnext : seen.nextAttempt clock delay = .ok nextAttemptAt) (detail : String) :
    (row.set (seen.settled detail nextAttemptAt clock.isoformat).values).DueAfterWrite := by
  apply dueAfterWrite_set
  rcases RequestRow.nextAttempt_ok hnext with ⟨hexhausted, -⟩ | ⟨-, at', hadd, rfl⟩
  · have hst : seen.failureStatus = .deadLetter := if_pos hexhausted
    simp [RequestRow.settled, hst]
  · refine .inr ⟨at'.isoformat, rfl, ?_⟩
    exact Instant.isoformat_le_isoformat.mpr (Instant.le_addSeconds hdelay hadd)

omit [JsonCodec] in
theorem dueAfterWrite_move {db : Database} {id id' : String} {row : RequestRow} {tr : Transition}
    (hdue : ∀ {id row}, db.row? id = some row → row.DueAfterWrite)
    (hset : ∀ old : RequestRow, (old.set tr.values).DueAfterWrite)
    (hrow : (db.move id' tr).row? id = some row) : row.DueAfterWrite := by
  rw [Database.row?_move, Option.map_eq_some_iff] at hrow
  obtain ⟨old, hold, rfl⟩ := hrow
  split
  · exact hset old
  · exact hdue hold

theorem StatementRuns.dueAfterWrite (hr : StatementRuns h s) (hforward : ∀ ev ∈ h, Forward ev)
    {id : String} {row : RequestRow} (hrow : s.shared.db.row? id = some row) :
    row.DueAfterWrite := by
  induction hr generalizing id row with
  | init hi =>
    rw [hi.1] at hrow
    cases hrow
  | @step h s s' ev hr hs ih =>
    have ih := fun {id row} => @ih (fun ev hev => hforward ev (List.mem_cons_of_mem _ hev)) id row
    rcases statement_cases hs with ⟨hdb, -⟩ | ⟨t, c, op, r, rfl⟩ |
      ⟨t, c, id', detail, delay, seen, now, r, rfl⟩
    · exact ih (hdb ▸ hrow)
    · have hal := (StatementRuns.follows hr).allowed hs
      have hw := (statement_outcome hs).2.wrote
      generalize s'.shared.db = db' at hw hrow
      cases hw with
      | nothing => exact ih hrow
      | @inserted _ id' now request hsub =>
        rcases hsub.row_cases hrow with ⟨-, rfl⟩ | ⟨-, hrow⟩
        · exact fun _ => ⟨now, rfl, le_rfl⟩
        · exact ih hrow
      | startedNext hold hel hreq =>
        exact dueAfterWrite_move ih
          (fun old => dueAfterWrite_set old (by simp [RequestRow.started])) hrow
      | started hold hel hreq =>
        exact dueAfterWrite_move ih
          (fun old => dueAfterWrite_set old (by simp [RequestRow.started])) hrow
      | settled hold hnext => exact absurd rfl (hal.1 _ _ _)
      | finished =>
        obtain rfl := StatementRuns.finishes hr hs
        exact dueAfterWrite_move ih
          (fun old => dueAfterWrite_set old (by simp [Transition.completed])) hrow
      | requeued hold hdead =>
        exact dueAfterWrite_move ih (fun old => dueAfterWrite_set old (.inr ⟨_, rfl, le_rfl⟩)) hrow
    · have hdelay := hforward _ List.mem_cons_self delay (List.mem_singleton_self _)
      rcases writeFailure_cases hs with ⟨nextAttemptAt, hnext, -, -, hdb⟩ | ⟨-, -, hdb⟩
      · rw [hdb] at hrow
        exact dueAfterWrite_move ih (fun old => dueAfterWrite_settled hdelay hnext detail) hrow
      · exact ih (hdb ▸ hrow)

/-- The effects whose WHERE clause compares no times with the reading. -/
def StatementEff.unchecked : StatementEff → Bool
  | .program (.transaction op) =>
    match op with
    | .insertRequest .. | .replayDeadLetter .. | .updateStatus .. => true
    | _ => false
  | .writeFailure .. => true
  | _ => false

/-- Fresh as far as nothing else compares the times. -/
def FreshUnchecked (h : List (StatementEvent T)) (s : StatementSystem T) : StatementEvent T → Prop
  | .did t c e r => e.unchecked = true → Fresh h s (.did t c e r)
  | _ => True

omit [DecidableEq T] in
theorem claims_eq {now id time : String} {row : RequestRow}
    (hw : TransactionOp.claims now row = some (id, time)) : row.requestId = id ∧ now = time := by
  unfold TransactionOp.claims at hw
  split at hw
  · exact Prod.mk.inj (Option.some.inj hw)
  · cases hw

theorem written_before_due (hr : StatementRuns h s) (hord : s.shared.db.InOrder)
    (hforward : ∀ ev ∈ h, Forward ev) {row : RequestRow} {now time : String}
    (hrow : s.shared.db.row? row.requestId = some row) (hel : row.eligible now = true)
    (hmem : time ∈ writtenTo row.requestId h) : time ≤ now := by
  have ht := StatementRuns.tells hr
  rw [RequestRow.eligible_eq, Bool.and_eq_true] at hel
  obtain ⟨next, hnext, hle⟩ := StatementRuns.dueAfterWrite hr hforward hrow hel.1
  have hdue : next ≤ now := by simpa [hnext] using hel.2
  have hlast : time ≤ row.updatedAt := by
    have hhead := ht.dated row.requestId row hrow
    have hpair := ht.inOrder_iff.mp hord row.requestId
    obtain ⟨times, heq⟩ := List.head?_eq_some_iff.mp hhead
    rw [heq] at hpair hmem
    rcases List.mem_cons.mp hmem with rfl | hmem
    · exact le_rfl
    · exact (List.pairwise_cons.mp hpair).1 time hmem
  exact (hlast.trans hle).trans hdue

theorem fresh_of_checked {e : StatementEff} {r : e.Res} (hr : StatementRuns h s)
    (hs : StatementStep s (.did t c e r) s') (hord : s.shared.db.InOrder)
    (hforward : ∀ ev ∈ h, Forward ev) (hop : e.unchecked = false) :
    Fresh h s (.did t c e r) := by
  intro id time hw time' hsince
  have hmem := mem_writtenTo hsince
  have hal := (StatementRuns.follows hr).allowed hs
  cases e with
  | selectAttempts id => cases hw
  | writeFailure => cases hop
  | program e =>
    cases e with
    | transaction op =>
      cases op with
      | claimNext now =>
        obtain ⟨row, hsel, hclaims⟩ := Option.bind_eq_some_iff.mp hw
        obtain ⟨rfl, rfl⟩ := claims_eq hclaims
        obtain ⟨hrow, hel⟩ := oldestEligible_spec hsel
        exact written_before_due hr hord hforward hrow hel hmem
      | claim id' now =>
        obtain ⟨row, hsel, hclaims⟩ := Option.bind_eq_some_iff.mp hw
        obtain ⟨rfl, rfl⟩ := claims_eq hclaims
        obtain ⟨hrow, hel⟩ := eligibleRow_spec hsel
        obtain rfl := Database.row?_requestId hrow
        exact written_before_due hr hord hforward hrow hel hmem
      | failOrRetry id' detail delay => exact absurd rfl (hal.1 _ _ _)
      | selectByKey key => cases hw
      | get id' => cases hw
      | _ => cases hop
    | _ => cases hw

omit [JsonCodec] [DecidableEq T] in
theorem inOrder_empty : Database.empty.InOrder := fun _ => .nil

theorem fresh_of_unchecked (hr : StatementRuns h s) (hs : StatementStep s ev s')
    (hord : s.shared.db.InOrder) (hforward : ∀ ev ∈ h, Forward ev)
    (hfresh : FreshUnchecked h s ev) : Fresh h s ev := by
  cases ev with
  | did t c e r =>
    cases hop : e.unchecked with
    | true => exact hfresh hop
    | false => exact fresh_of_checked hr hs hord hforward hop
  | _ => trivial

theorem unchecked_of_fresh (hfresh : Fresh h s ev) : FreshUnchecked h s ev := by
  unfold FreshUnchecked
  split
  · exact fun _ => hfresh
  · trivial

theorem inOrder_of_within (hr : StatementRunsWithin (fun _ s _ s' => Chronological s s') h s) :
    s.shared.db.InOrder := by
  cases hr with
  | init hi =>
    rw [hi.1]
    exact inOrder_empty
  | step _ _ hch => exact hch.1

/-- In every run with one clock that never goes back, for any callers in any interleaving: the
times stay in order in every state exactly as long as every step is fresh; and where no retry is
scheduled into the past, claims always are. -/
theorem audit_time_ordered_iff (hclock : SharedClock h) :
    (StatementRunsWithin (fun h s ev _ => Fresh h s ev) h s ↔
      StatementRunsWithin (fun _ s _ s' => Chronological s s') h s) ∧
    ((∀ ev ∈ h, Forward ev) →
      (StatementRunsWithin (fun h s ev _ => FreshUnchecked h s ev) h s ↔
        StatementRunsWithin (fun _ s _ s' => Chronological s s') h s)) := by
  refine ⟨⟨?_, ?_⟩, fun hforward => ⟨?_, ?_⟩⟩
  · intro hr
    refine hr.weaken (A := SharedClock) .past ?_ hclock
    intro h s s' ev hr hr' hclock hs hfresh
    exact chronological_of_fresh hr.runs hs hclock.past (inOrder_of_within hr') hfresh
  · intro hr
    refine hr.weaken (A := SharedClock) .past ?_ hclock
    intro h s s' ev hr _ _ hs hch
    exact fresh_of_chronological hr.runs hs hch
  · intro hr
    refine hr.weaken (A := fun h => SharedClock h ∧ ∀ ev ∈ h, Forward ev) ?_ ?_ ⟨hclock, hforward⟩
    · intro ev h hA
      exact ⟨hA.1.past, fun ev' hev' => hA.2 ev' (List.mem_cons_of_mem _ hev')⟩
    · intro h s s' ev hr hr' hA hs hfresh
      have hord := inOrder_of_within hr'
      have hpast : ∀ ev' ∈ h, Forward ev' := fun ev' hev' => hA.2 ev' (List.mem_cons_of_mem _ hev')
      have hfresh := fresh_of_unchecked hr.runs hs hord hpast hfresh
      exact chronological_of_fresh hr.runs hs hA.1.past hord hfresh
  · intro hr
    refine hr.weaken (A := SharedClock) .past ?_ hclock
    intro h s s' ev hr _ _ hs hch
    exact unchecked_of_fresh (fresh_of_chronological hr.runs hs hch)

end Runs

section Sample

def Choice.after (seconds : Fin 60) : Choice :=
  { Choice.calm with
    utc := ⟨63839664000000000 + seconds * 1000000, by unfold endOfTime; omega⟩ }

open Interleaving.Turn

def claimedOnce : List (Interleaving.Turn ℕ OpenCall Choice) :=
  [start 0 (.repository (.create "a" keylessRequest)), go 0 (.after 0), go 0 (.after 0),
    go 0 (.after 0), start 0 (.repository (.claim "a")), go 0 (.after 1), go 0 (.after 1),
    go 0 (.after 1)]

/-- A replay reads the clock while the last attempt runs; the attempt fails before the replay
opens its transaction. -/
def staleReplay : List (Interleaving.Turn ℕ OpenCall Choice) :=
  claimedOnce ++ [start 1 (.repository (.replayDeadLetter "a")), go 1 (.after 2),
    start 0 (.repository (.failOrRetry "a" "boom" 5)), go 0 (.after 3), go 0 (.after 3),
    go 0 (.after 3), go 1 (.after 4)]

/-- A failure reads the clock; another one is recorded before its UPDATE. -/
def staleFailure : List (Interleaving.Turn ℕ OpenCall Choice) :=
  claimedOnce ++ [start 0 (.repository (.failOrRetry "a" "boom" 5)), go 0 (.after 2),
    go 0 (.after 2), start 1 (.repository (.failOrRetry "a" "boom" 5)), go 1 (.after 3),
    go 1 (.after 3), go 1 (.after 3), go 0 (.after 4)]

def staleTimes : List String :=
  ["2024-01-01T00:00:00+00:00", "2024-01-01T00:00:01+00:00", "2024-01-01T00:00:03+00:00",
    "2024-01-01T00:00:02+00:00"]

/-- The replay is the step of this run that is not fresh. -/
theorem audit_time_ordered_sample : letI := emptyPayload
    ¬ StatementRunsWithin (fun h s ev _ => FreshUnchecked h s ev) (statementPlay staleReplay).1
      (statementPlay staleReplay).2 := by
  let _ := emptyPayload
  intro hr
  have hclock : SharedClock (statementPlay staleReplay).1 := by decide +kernel
  have hforward : ∀ ev ∈ (statementPlay staleReplay).1, Forward ev := by decide +kernel
  have hord := inOrder_of_within (((audit_time_ordered_iff hclock).2 hforward).mp hr) "a"
  revert hord
  decide +kernel

theorem not_inOrder_of_stale {db : Database}
    (htimes : (db.auditLog "a").map (·.createdAt) = staleTimes) : ¬ db.InOrder := by
  intro hord
  have hpair := htimes ▸ hord "a"
  revert hpair
  decide +kernel

/-- The last event of the request is older than the one before, and so is its row. -/
structure TurnsBack (turns : List (Interleaving.Turn ℕ OpenCall Choice)) : Prop where
  runs : @StatementRuns emptyPayload ℕ _ (statementPlay turns).1 (statementPlay turns).2
  clock : SharedClock (statementPlay turns).1
  forward : ∀ ev ∈ (statementPlay turns).1, Forward ev
  times : ((statementPlay turns).2.shared.db.auditLog "a").map (·.createdAt) = staleTimes
  disordered : ¬ (statementPlay turns).2.shared.db.InOrder
  before : ((statementPlay turns.dropLast).2.shared.db.row? "a").map (·.updatedAt) =
    some "2024-01-01T00:00:03+00:00"
  after : ((statementPlay turns).2.shared.db.row? "a").map (·.updatedAt) =
    some "2024-01-01T00:00:02+00:00"

/-- A replay turns the time of its request back, and so does a failure. -/
theorem replay_turns_time_back : TurnsBack staleReplay ∧ TurnsBack staleFailure := by
  let _ := emptyPayload
  have htimes : ((statementPlay staleReplay).2.shared.db.auditLog "a").map (·.createdAt) =
      staleTimes := by decide +kernel
  have htimes' : ((statementPlay staleFailure).2.shared.db.auditLog "a").map (·.createdAt) =
      staleTimes := by decide +kernel
  exact ⟨⟨statementPlay_runs _, by decide +kernel, by decide +kernel, htimes,
      not_inOrder_of_stale htimes, by decide +kernel, by decide +kernel⟩,
    ⟨statementPlay_runs _, by decide +kernel, by decide +kernel, htimes',
      not_inOrder_of_stale htimes', by decide +kernel, by decide +kernel⟩⟩

end Sample

end Orchestrator
