import Orchestrator.Readings
import Orchestrator.Sequential

/-!
# Scheduling by stored times

Every time in the tables is the text of an instant. Since these texts order like time,
the queries find what is due, the oldest request that is due, and the oldest one waiting.
-/

namespace Orchestrator

open Table TextOrder
set_option autoImplicit false

/-- The statuses that `metrics` and `_eligible_clause` count as waiting. -/
def RequestRow.waiting (row : RequestRow) : Bool :=
  row.status = AutomationStatus.queued.value || row.status = AutomationStatus.retrying.value

/-- The third SELECT of `metrics`: `min(created_at)` over the waiting rows. -/
def Database.oldestCreatedAt (db : Database) : Option String :=
  ((db.requests.filter RequestRow.waiting).map (·.createdAt)).min?

/-- The instants that the texts of a table stand for. -/
structure Database.Dated (db : Database) (created : RequestRow → Instant)
    (due : RequestRow → Option Instant) : Prop where
  created_at : ∀ row ∈ db.requests, row.createdAt = (created row).isoformat
  next_attempt_at : ∀ row ∈ db.requests, row.nextAttemptAt = (due row).map Instant.isoformat

def RequestRow.Stamped (row : RequestRow) : Prop :=
  (∃ created : Instant, row.createdAt = created.isoformat) ∧
    ∃ due : Option Instant, row.nextAttemptAt = due.map Instant.isoformat

/-- Waiting, and not scheduled after `now`, as instants. -/
def RequestRow.Due (row : RequestRow) (due : RequestRow → Option Instant) (now : Instant) : Prop :=
  row.waiting = true ∧ ∀ at' ∈ due row, at' ≤ now

/-- What the queries on a table mean when its texts order like time. -/
structure Database.Schedules (db : Database) (created : RequestRow → Instant)
    (due : RequestRow → Option Instant) : Prop where
  eligible : ∀ now, ∀ row ∈ db.requests, row.eligible now.isoformat = true ↔ row.Due due now
  claim : ∀ connection id now row, db.eligibleRow connection id now.isoformat = some row ↔
    db.row? id = some row ∧ row.Due due now ∧ connection.skips row = false
  claim_next : ∀ connection now row, db.oldestEligible connection now.isoformat = some row →
    row ∈ db.requests ∧ row.Due due now ∧ connection.skips row = false ∧
      ∀ row' ∈ db.requests, row'.Due due now → connection.skips row' = false →
        created row ≤ created row'
  claim_next_none : ∀ connection now, db.oldestEligible connection now.isoformat = none ↔
    ∀ row ∈ db.requests, row.Due due now → connection.skips row = true
  metrics : ∀ text, db.oldestCreatedAt = some text ↔ ∃ row ∈ db.requests, row.waiting = true ∧
    text = (created row).isoformat ∧
      ∀ row' ∈ db.requests, row'.waiting = true → created row ≤ created row'

theorem RequestRow.eligible_eq (row : RequestRow) (now : String) :
    row.eligible now = (row.waiting && row.nextAttemptAt.all fun at' => at' ≤ now) := rfl

theorem Database.row?_mem {db : Database} {id : String} {row : RequestRow}
    (h : db.row? id = some row) : row ∈ db.requests := List.mem_of_find?_eq_some h

/-- A row that is due and not locked is passed over for an older one, or one of its time. -/
theorem oldestEligible_le {db : Database} {connection : Connection} {now : String}
    {row other : RequestRow} (hsel : db.oldestEligible connection now = some other)
    (hrow : row ∈ db.requests) (hel : (row.eligible now && !connection.skips row) = true) :
    other.createdAt ≤ row.createdAt := by
  apply firstBy_le connection.before (f := RequestRow.createdAt) ?_ ?_ hsel
  · exact List.mem_filter.mpr ⟨hrow, hel⟩
  · intro a b hb
    simp only [Connection.before, Bool.or_eq_true, Bool.and_eq_true, decide_eq_true_eq] at hb
    rcases hb with hlt | ⟨heq, -⟩
    · exact le_of_lt hlt
    · exact le_of_eq heq
  · intro a b hb
    simp only [Connection.before, Bool.or_eq_false_iff, decide_eq_false_iff_not] at hb
    exact not_lt.mp hb.1

namespace Database.Dated

variable {db : Database} {created : RequestRow → Instant} {due : RequestRow → Option Instant}
variable {row : RequestRow} {now : Instant} {connection : Connection}

theorem eligible (hd : db.Dated created due) (hrow : row ∈ db.requests) :
    row.eligible now.isoformat = true ↔ row.Due due now := by
  rw [RequestRow.eligible_eq, hd.next_attempt_at row hrow, RequestRow.Due, Bool.and_eq_true]
  cases due row with
  | none => simp
  | some at' => simp

theorem created_le (hd : db.Dated created due) {row' : RequestRow} (hrow : row ∈ db.requests)
    (hrow' : row' ∈ db.requests) : created row ≤ created row' ↔ row.createdAt ≤ row'.createdAt := by
  rw [hd.created_at row hrow, hd.created_at row' hrow', Instant.isoformat_le_isoformat]

theorem mem_candidates (hd : db.Dated created due) :
    row ∈ db.requests.filter (fun row => row.eligible now.isoformat && !connection.skips row) ↔
      row ∈ db.requests ∧ row.Due due now ∧ connection.skips row = false := by
  simp only [List.mem_filter, Bool.and_eq_true, Bool.not_eq_true']
  constructor
  · intro h
    exact ⟨h.1, (hd.eligible h.1).mp h.2.1, h.2.2⟩
  · intro h
    exact ⟨h.1, (hd.eligible h.1).mpr h.2.1, h.2.2⟩

theorem schedules (hd : db.Dated created due) : db.Schedules created due := by
  refine ⟨fun now row hrow => hd.eligible hrow, ?_, ?_, ?_, ?_⟩
  · intro connection id now row
    simp only [eligibleRow, Option.filter_eq_some_iff, Bool.and_eq_true, Bool.not_eq_true']
    constructor
    · intro h
      exact ⟨h.1, (hd.eligible (row?_mem h.1)).mp h.2.1, h.2.2⟩
    · intro h
      exact ⟨h.1, (hd.eligible (row?_mem h.1)).mpr h.2.1, h.2.2⟩
  · intro connection now row h
    obtain ⟨hrow, hdue, hskip⟩ := hd.mem_candidates.mp (firstBy_mem _ h)
    refine ⟨hrow, hdue, hskip, ?_⟩
    intro row' hrow' hdue' hskip'
    have hcandidate := hd.mem_candidates.mpr ⟨hrow', hdue', hskip'⟩
    rw [hd.created_le hrow hrow']
    exact oldestEligible_le h hrow' (List.mem_filter.mp hcandidate).2
  · intro connection now
    rw [oldestEligible, firstBy_eq_none, List.eq_nil_iff_forall_not_mem]
    constructor
    · intro h row hrow hdue
      by_contra hskip
      exact h row (hd.mem_candidates.mpr ⟨hrow, hdue, by simpa using hskip⟩)
    · intro h row hmem
      obtain ⟨hrow, hdue, hskip⟩ := hd.mem_candidates.mp hmem
      rw [h row hrow hdue] at hskip
      cases hskip
  · intro text
    simp only [oldestCreatedAt, List.min?_eq_some_iff, List.mem_map, List.mem_filter]
    constructor
    · intro h
      obtain ⟨⟨row, ⟨hrow, hw⟩, rfl⟩, hmin⟩ := h
      refine ⟨row, hrow, hw, hd.created_at row hrow, ?_⟩
      intro row' hrow' hw'
      rw [hd.created_le hrow hrow']
      exact hmin _ ⟨row', ⟨hrow', hw'⟩, rfl⟩
    · intro h
      obtain ⟨row, hrow, hw, rfl, hmin⟩ := h
      rw [← hd.created_at row hrow]
      refine ⟨⟨row, ⟨hrow, hw⟩, rfl⟩, ?_⟩
      intro text' h'
      obtain ⟨row', ⟨hrow', hw'⟩, rfl⟩ := h'
      exact (hd.created_le hrow hrow').mp (hmin row' hrow' hw')

end Database.Dated

theorem RequestRow.Stamped.set {row : RequestRow} (h : row.Stamped) {tr : Transition}
    (hnext : ∀ next, tr.nextAttemptAt = some next → ∃ due : Option Instant,
      next = due.map Instant.isoformat) : (row.set tr.values).Stamped := by
  refine ⟨h.1, ?_⟩
  change ∃ due : Option Instant, tr.nextAttemptAt.getD row.nextAttemptAt = _
  cases hcase : tr.nextAttemptAt with
  | none => exact h.2
  | some next => exact hnext next hcase

def Database.AllStamped (db : Database) : Prop :=
  ∀ id row, db.row? id = some row → row.Stamped

theorem Database.AllStamped.move {db : Database} (h : db.AllStamped) (id : String)
    {tr : Transition} (hnext : ∀ next, tr.nextAttemptAt = some next →
      ∃ due : Option Instant, next = due.map Instant.isoformat) : (db.move id tr).AllStamped := by
  intro id' row hrow
  rw [row?_move, Option.map_eq_some_iff] at hrow
  obtain ⟨old, hold, rfl⟩ := hrow
  split
  · exact (h id' old hold).set hnext
  · exact h id' old hold

section Runs
variable [JsonCodec] {T : Type} [DecidableEq T] {h : List (Event T)} {s : System T}

theorem Runs.allStamped (hr : Runs h s) : s.shared.db.AllStamped := by
  apply hr.each_write
  · intro id row hrow
    cases hrow
  · intro clock db op r db' hgiven hI hw
    cases hw with
    | nothing => exact hI
    | @inserted _ id now request hsub =>
      obtain ⟨reading, rfl⟩ := hgiven now rfl
      intro id' row hrow
      rcases hsub.row_cases hrow with ⟨-, rfl⟩ | ⟨-, hrow⟩
      · exact ⟨⟨reading, rfl⟩, some reading, rfl⟩
      · exact hI id' row hrow
    | startedNext hrow hel hreq => exact hI.move _ fun next hnext => by cases hnext
    | started hrow hel hreq => exact hI.move _ fun next hnext => by cases hnext
    | @settled id detail delay row nextAttemptAt hrow hnext =>
      apply hI.move
      intro next heq
      obtain rfl : nextAttemptAt = next := Option.some.inj heq
      rcases RequestRow.nextAttempt_ok hnext with ⟨-, rfl⟩ | ⟨-, at', -, rfl⟩
      · exact ⟨none, rfl⟩
      · exact ⟨some at', rfl⟩
    | finished =>
      apply hI.move
      intro next heq
      exact ⟨none, (Option.some.inj heq).symm⟩
    | @requeued id now row updated hrow hdead =>
      obtain ⟨reading, rfl⟩ := hgiven now rfl
      apply hI.move
      intro next heq
      exact ⟨some reading, (Option.some.inj heq).symm⟩

theorem Runs.dated (hr : Runs h s) : ∃ created due, s.shared.db.Dated created due := by
  classical
  have hall : ∀ row ∈ s.shared.db.requests, row.Stamped :=
    fun row hrow => hr.allStamped _ row (Database.row?_of_mem hrow)
  let created : RequestRow → Instant := fun row =>
    if hrow : row ∈ s.shared.db.requests then (hall row hrow).1.choose else .earliest
  let due : RequestRow → Option Instant := fun row =>
    if hrow : row ∈ s.shared.db.requests then (hall row hrow).2.choose else none
  refine ⟨created, due, ?_, ?_⟩
  · intro row hrow
    simp only [created, dif_pos hrow]
    exact (hall row hrow).1.choose_spec
  · intro row hrow
    simp only [due, dif_pos hrow]
    exact (hall row hrow).2.choose_spec

end Runs

end Orchestrator
