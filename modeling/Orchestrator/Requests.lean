import Orchestrator.Exclusion

/-!
# The life of one request

What the steps of all processes do to a single request: to its row, to its part of the
audit log and to its marks. Mutual exclusion makes this a state machine of its own, so
the laws about rows and logs are proved on it and hold in every run.
-/

namespace Orchestrator

open Interaction Job Table
set_option autoImplicit false

/-- The mark that a process left on the request it holds. -/
def Phase.last : Phase → Option (String × Mark)
  | .idle => none
  | .claimed id => some (id, .start)
  | .succeeded id => some (id, .execute true)
  | .failed id => some (id, .execute false)

theorem Phase.holding_of_last {ph : Phase} {id : String} {m : Mark}
    (h : ph.last = some (id, m)) : ph.holding = some id := by
  cases ph <;> simp_all [Phase.last, Phase.holding]

def Transition.entry (tr : Transition) (eventId : Nat) (requestId : String) : EventRow :=
  ⟨eventId, requestId, tr.status.value, tr.detail, tr.time⟩

/-- The state machine of one request, with the events it writes. -/
inductive Move [JsonCodec] (id : String) :
    Option RequestRow → List Mark → Mark → Option RequestRow → List EventRow → Prop where
  | enqueue {ms : List Mark} (request : AutomationRequest) (now : String) (n : Nat) :
      Move id none ms .enqueue (some (submittedRow id request now))
        [⟨n, id, AutomationStatus.queued.value, queuedDetail, now⟩]
  | start {ms : List Mark} {row : RequestRow} {now : String} (n : Nat)
      (hel : row.eligible now = true) : Move id (some row) ms .start
        (some (row.set (row.started now).values)) [(row.started now).entry n id]
  | execute {ms : List Mark} {row : RequestRow} (ok : Bool)
      (hrun : row.status = AutomationStatus.running.value) (hlast : ms.head? = some .start) :
      Move id (some row) ms (.execute ok) (some row) []
  | settle {ms : List Mark} {row : RequestRow} {clock : Instant} {delay : Int}
      {nextAttemptAt : Option String} (detail : String) (n : Nat)
      (hrun : row.status = AutomationStatus.running.value)
      (hlast : ms.head? = some .start ∨ ms.head? = some (.execute false))
      (hnext : row.nextAttempt clock delay = .ok nextAttemptAt) : Move id (some row) ms .settle
        (some (row.set (row.settled detail nextAttemptAt clock.isoformat).values))
        [(row.settled detail nextAttemptAt clock.isoformat).entry n id]
  | finish {ms : List Mark} {row : RequestRow} (detail now : String) (n : Nat)
      (hrun : row.status = AutomationStatus.running.value)
      (hlast : ms.head? = some (.execute true)) : Move id (some row) ms .finish
        (some (row.set (Transition.completed .completed detail now).values))
        [(Transition.completed .completed detail now).entry n id]
  | requeue {ms : List Mark} {row : RequestRow} (now : String) (n : Nat)
      (hdead : row.status = AutomationStatus.deadLetter.value) : Move id (some row) ms .requeue
        (some (row.set (Transition.replayed now).values)) [(Transition.replayed now).entry n id]

variable {T : Type} [DecidableEq T] {phases : T → Phase} {marks : String → List Mark}
variable {t : T} {ph : Phase} {db db' : Database} {mark : Option (String × Mark)}

/-- Each process finds the mark it left still the latest one. -/
def Remembers (phases : T → Phase) (marks : String → List Mark) : Prop :=
  ∀ t id m, (phases t).last = some (id, m) → (marks id).head? = some m

omit [DecidableEq T] in
theorem Excludes.not_held {id : String} (hx : Excludes phases db)
    (hfree : ¬ db.HasStatus id .running) (t : T) (m : Mark) :
    (phases t).last ≠ some (id, m) :=
  fun hlast => hfree (hx.marked t id (Phase.holding_of_last hlast))

theorem Remembers.leave {id : String} {m : Mark} (hm : Remembers phases marks)
    (hself : ∀ id' m', ph.last = some (id', m') →
      (record (some (id, m)) marks id').head? = some m')
    (hother : ∀ t' m', t' ≠ t → (phases t').last ≠ some (id, m')) :
    Remembers (Function.update phases t ph) (record (some (id, m)) marks) := by
  intro t' id' m' hlast
  by_cases ht : t' = t
  · subst ht
    rw [Function.update_self] at hlast
    exact hself id' m' hlast
  · rw [Function.update_of_ne ht] at hlast
    have hne : id' ≠ id := by
      rintro rfl
      exact hother t' m' ht hlast
    simpa [record, Function.update_of_ne hne] using hm t' id' m' hlast

theorem Remembers.keep {id : String} {m : Mark} (hm : Remembers phases marks)
    (hfree : ∀ t' m', (phases t').last ≠ some (id, m')) :
    Remembers (Function.update phases t (phases t)) (record (some (id, m)) marks) := by
  apply hm.leave ?_ fun t' m' _ => hfree t' m'
  intro id' m' hlast
  have hne : id' ≠ id := by
    rintro rfl
    exact hfree t m' hlast
  simpa [record, Function.update_of_ne hne] using hm t id' m' hlast

variable [JsonCodec]

theorem Remembers.step (hx : Excludes phases db) (hm : Remembers phases marks)
    (hc : Change db (phases t) mark db' ph) :
    Remembers (Function.update phases t ph) (record mark marks) := by
  have mine : ∀ {id}, (phases t).holding = some id → ∀ t' m', t' ≠ t →
      (phases t').last ≠ some (id, m') := by
    intro id hold t' m' hne hlast
    exact hne (hx.unique t' t id (Phase.holding_of_last hlast) hold)
  cases hc with
  | quiet => simpa [record, Function.update_eq_self] using hm
  | @enqueue db' id now request hsub =>
    apply hm.keep (hx.not_held ?_)
    intro hstatus
    obtain ⟨row, hrow, -⟩ := hstatus
    obtain ⟨db₁, hins, -⟩ := hsub
    have hnone := (Database.insertRequest_ok hins).1
    rw [show (submittedRow id request now).requestId = id from rfl, hrow] at hnone
    cases hnone
  | @start id now row hrow hel =>
    have hfree : ¬ db.HasStatus id .running := by
      intro hstatus
      obtain ⟨row', hrow', hst⟩ := hstatus
      obtain rfl : row = row' := by simpa [hrow] using hrow'
      exact row.not_running_of_eligible hel hst
    apply hm.leave ?_ fun t' m' _ => hx.not_held hfree t' m'
    intro id' m' hlast
    obtain ⟨rfl, rfl⟩ : id = id' ∧ Mark.start = m' := by simpa [Phase.last] using hlast
    simp [record]
  | @execute id ok hph =>
    apply hm.leave ?_ (mine (by rw [hph]; rfl))
    intro id' m' hlast
    cases ok
    · obtain ⟨rfl, rfl⟩ : id = id' ∧ Mark.execute false = m' := by simpa [Phase.last] using hlast
      simp [record]
    · obtain ⟨rfl, rfl⟩ : id = id' ∧ Mark.execute true = m' := by simpa [Phase.last] using hlast
      simp [record]
  | settle hph hrow hnext =>
    apply hm.leave (by simp [Phase.last]) (mine ?_)
    rcases hph with hph | hph <;> rw [hph] <;> rfl
  | finish hph => exact hm.leave (by simp [Phase.last]) (mine (by rw [hph]; rfl))
  | @requeue id now row hrow hdead =>
    apply hm.keep (hx.not_held ?_)
    intro hstatus
    obtain ⟨row', hrow', hst⟩ := hstatus
    obtain rfl : row = row' := by simpa [hrow] using hrow'
    simp [hdead] at hst

omit [JsonCodec] in
theorem Remembers.stop (hm : Remembers phases marks) :
    Remembers (Function.update phases t .idle) marks := by
  intro t' id m hlast
  by_cases ht : t' = t
  · subst ht
    simp [Phase.last] at hlast
  · rw [Function.update_of_ne ht] at hlast
    exact hm t' id m hlast

omit [JsonCodec] in
theorem Database.entriesOf_move (db : Database) (id id' : String) (tr : Transition) :
    entriesOf EventRow.requestId id' (db.move id tr).events =
      entriesOf EventRow.requestId id' db.events ++
        (if id' = id then [tr.entry (db.lastEventId + 1) id] else []) := by
  change entriesOf EventRow.requestId id' (db.events ++ [tr.entry (db.lastEventId + 1) id]) = _
  rw [entriesOf_append_singleton]
  by_cases hid : id' = id
  · subst hid
    simp [Transition.entry]
  · simp [Transition.entry, hid, Ne.symm hid]

/-- The row, the events and the marks of a request as one step leaves them. -/
def Database.Moves (db db' : Database) (marks : String → List Mark) (id : String) (m : Mark) :
    Prop :=
  ∃ entries, Move id (db.row? id) (marks id) m (db'.row? id) entries ∧
    db'.events = db.events ++ entries ∧
    entriesOf EventRow.requestId id db'.events =
      entriesOf EventRow.requestId id db.events ++ entries ∧
    ∀ id', id' ≠ id → db'.row? id' = db.row? id' ∧
      entriesOf EventRow.requestId id' db'.events = entriesOf EventRow.requestId id' db.events

theorem Database.moves_move {id : String} {m : Mark} {row : RequestRow} {tr : Transition}
    (hrow : db.row? id = some row)
    (hm : Move id (some row) (marks id) m (some (row.set tr.values))
      [tr.entry (db.lastEventId + 1) id]) : db.Moves (db.move id tr) marks id m := by
  refine ⟨[tr.entry (db.lastEventId + 1) id], ?_, rfl, ?_, ?_⟩
  · rw [row?_move_self tr hrow, hrow]
    exact hm
  · rw [entriesOf_move, if_pos rfl]
  · intro id' hne
    refine ⟨row?_move_of_ne tr hne, ?_⟩
    rw [entriesOf_move, if_neg hne, List.append_nil]

omit [DecidableEq T] in
theorem Change.moves (hx : Excludes phases db) (hr : Remembers phases marks)
    (hc : Change db (phases t) mark db' ph) :
    (mark = none ∧ db' = db) ∨ ∃ id m, mark = some (id, m) ∧ db.Moves db' marks id m := by
  cases hc with
  | quiet => exact .inl ⟨rfl, rfl⟩
  | @enqueue db' id now request hsub =>
    refine .inr ⟨id, .enqueue, rfl, ?_⟩
    refine ⟨[⟨db.lastEventId + 1, id, AutomationStatus.queued.value, queuedDetail, now⟩],
      ?_, ?_, ?_, ?_⟩
    · rw [hsub.fresh, hsub.row?_self]
      exact .enqueue request now _
    · exact hsub.events
    · rw [hsub.events, entriesOf_append_singleton, if_pos rfl]
    · intro id' hne
      refine ⟨hsub.row?_of_ne hne, ?_⟩
      rw [hsub.events, entriesOf_append_singleton, if_neg (Ne.symm hne)]
  | @start id now row hrow hel =>
    exact .inr ⟨id, .start, rfl, Database.moves_move hrow (.start _ hel)⟩
  | @execute id ok hph =>
    have hlast := hr t id .start (by rw [hph]; rfl)
    obtain ⟨row, hrow, hrun⟩ := hx.marked t id (by rw [hph]; rfl)
    refine .inr ⟨id, .execute ok, rfl, [], ?_, by simp, by simp, fun _ _ => ⟨rfl, rfl⟩⟩
    rw [hrow]
    exact .execute ok hrun hlast
  | @settle id detail row clock delay nextAttemptAt hph hrow hnext =>
    refine .inr ⟨id, .settle, rfl, Database.moves_move hrow (.settle detail _ ?_ ?_ hnext)⟩
    · apply hx.running (t := t) ?_ hrow
      rcases hph with hph | hph <;> rw [hph] <;> rfl
    · rcases hph with hph | hph
      · exact .inl (hr t id .start (by rw [hph]; rfl))
      · exact .inr (hr t id (.execute false) (by rw [hph]; rfl))
  | @finish id detail now hph =>
    have hlast := hr t id (.execute true) (by rw [hph]; rfl)
    obtain ⟨row, hrow, hrun⟩ := hx.marked t id (by rw [hph]; rfl)
    exact .inr ⟨id, .finish, rfl, Database.moves_move hrow (.finish detail now _ hrun hlast)⟩
  | @requeue id now row hrow hdead =>
    exact .inr ⟨id, .requeue, rfl, Database.moves_move hrow (.requeue now _ hdead)⟩

theorem Runs.remembers {h : List (Event T)} {s : System T} (hr : Runs h s) :
    Remembers (lifecycle.phase h) (Orchestrator.marks h) := by
  have hI := hr.tracked
    (I := fun phases marks db => Excludes phases db ∧ Remembers phases marks) ?init ?step ?stop
  case init => exact ⟨.of_free fun _ => rfl, fun _ _ _ hlast => by cases hlast⟩
  case step => exact fun hI hc => ⟨hI.1.step hc, hI.2.step hI.1 hc⟩
  case stop => exact fun hI => ⟨hI.1.stop, hI.2.stop⟩
  exact hI.2.2

/-- A law about one request holds in every run when its state machine keeps it. -/
theorem Runs.each {R : Option RequestRow → List EventRow → List Mark → Prop} {id : String}
    (init : R none [] [])
    (step : ∀ {row row' log entries ms m}, R row log ms → Move id row ms m row' entries →
      R row' (log ++ entries) (m :: ms))
    {h : List (Event T)} {s : System T} (hr : Runs h s) :
    R (s.shared.db.row? id) (entriesOf EventRow.requestId id s.shared.db.events)
      (Orchestrator.marks h id) := by
  have hI := hr.tracked (I := fun phases marks db => (Excludes phases db ∧ Remembers phases marks) ∧
    R (db.row? id) (entriesOf EventRow.requestId id db.events) (marks id)) ?init ?step ?stop
  case init => exact ⟨⟨.of_free fun _ => rfl, fun _ _ _ hlast => by cases hlast⟩, init⟩
  case stop => exact fun hI => ⟨⟨hI.1.1.stop, hI.1.2.stop⟩, hI.2⟩
  case step =>
    intro phases marks db t mark db' ph' hI hc
    obtain ⟨⟨hx, hm⟩, hR⟩ := hI
    refine ⟨⟨hx.step hc, hm.step hx hc⟩, ?_⟩
    rcases hc.moves hx hm with ⟨rfl, rfl⟩ | ⟨id₀, m, rfl, entries, hmove, -, hlog, hother⟩
    · exact hR
    · by_cases hid : id = id₀
      · subst hid
        rw [hlog]
        simpa [record] using step hR hmove
      · obtain ⟨hrow, hentries⟩ := hother id hid
        rw [hrow, hentries]
        simpa [record, Function.update_of_ne hid] using hR
  exact hI.2.2

end Orchestrator
