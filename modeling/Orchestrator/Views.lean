import Orchestrator.Chronology
import Orchestrator.Contents
import Orchestrator.Conversions

/-!
# Views of the tables

`get_details` and `metrics` only read. Each of their SELECTs sees the state that is committed
when it runs, and between two of them other processes may commit.
-/

namespace Orchestrator

open Interaction Calendar TextOrder
set_option autoImplicit false

namespace Instant

/-- A decimal field of fixed width, and what follows it. -/
def readField (width : ℕ) (l : List Char) : Option (ℕ × List Char) :=
  if (l.take width).length = width ∧ (l.take width).all Char.isDigit then
    some (readDigits (l.take width), l.drop width)
  else none

def expect (c : Char) : List Char → Option (List Char)
  | c' :: l => if c' = c then some l else none
  | [] => none

def readFraction : List Char → Option (ℕ × List Char)
  | '.' :: l => readField 6 l
  | l => some (0, l)

/-- `datetime.fromisoformat`, as far as `isoformat` writes; a
time without a zone is taken as UTC. -/
def readStamp (l : List Char) : Option ℕ := do
  let (year, l) ← readField 4 l
  let (month, l) ← readField 2 (← expect '-' l)
  let (day, l) ← readField 2 (← expect '-' l)
  let (hour, l) ← readField 2 (← expect 'T' l)
  let (minute, l) ← readField 2 (← expect ':' l)
  let (second, l) ← readField 2 (← expect ':' l)
  let (fraction, l) ← readFraction l
  if (l = [] ∨ l = "+00:00".toList) ∧ 1 ≤ year ∧ 1 ≤ month ∧ month ≤ 12 ∧ 1 ≤ day ∧
      day ≤ daysIn (leap year) month ∧ hour < 24 ∧ minute < 60 ∧ second < 60 then
    some (((dayNumber year month day * 24 + hour) * 60 + minute) * 60000000 + second * 1000000 +
      fraction)
  else none

def fromIsoformat (text : String) : Except PyExc Instant :=
  match readStamp text.toList with
  | some us =>
    if h : us < endOfTime then .ok ⟨us, h⟩
    else .error (.valueError s!"Invalid isoformat string: '{text}'")
  | none => .error (.valueError s!"Invalid isoformat string: '{text}'")

theorem readDigits_digits {width n : ℕ} (hn : n < 10 ^ width) :
    readDigits (digits width n) = n := by
  have hdigit : ∀ k < 10, (Nat.digitChar k).toNat - 0x30 = k := by decide
  induction width generalizing n with
  | zero =>
    have hzero : n = 0 := by omega
    rw [hzero]
    rfl
  | succ width ih =>
    have hdiv : n / 10 < 10 ^ width := by
      apply Nat.div_lt_of_lt_mul
      rwa [pow_succ, mul_comm] at hn
    have hlast := hdigit (n % 10) (by omega)
    have hfirst := ih hdiv
    unfold readDigits at hfirst ⊢
    rw [digits, List.foldl_append, hfirst, List.foldl_cons, List.foldl_nil, hlast]
    omega

theorem isDigit_digits (width n : ℕ) : (digits width n).all Char.isDigit = true := by
  have hdigit : ∀ k < 10, (Nat.digitChar k).isDigit = true := by decide
  induction width generalizing n with
  | zero => rfl
  | succ width ih =>
    rw [digits, List.all_append, ih, List.all_cons, hdigit (n % 10) (by omega)]
    rfl

theorem readField_digits {width n : ℕ} (hn : n < 10 ^ width) (l : List Char) :
    readField width (digits width n ++ l) = some (n, l) := by
  have htake : (digits width n ++ l).take width = digits width n :=
    List.take_left' (length_digits width n)
  have hdrop : (digits width n ++ l).drop width = l := List.drop_left' (length_digits width n)
  rw [readField, htake, hdrop, if_pos ⟨length_digits width n, isDigit_digits width n⟩,
    readDigits_digits hn]

theorem readFraction_ending {fraction : ℕ} (hn : fraction < 1000000) :
    readFraction (ending fraction) = some (fraction, "+00:00".toList) := by
  unfold ending
  split
  · next hzero =>
    rw [hzero]
    rfl
  · exact readField_digits hn _

theorem bind_readField {α : Type} {width n : ℕ} (hn : n < 10 ^ width) (l : List Char)
    (f : ℕ × List Char → Option α) : (readField width (digits width n ++ l) >>= f) = f (n, l) := by
  rw [readField_digits hn]
  rfl

theorem bind_expect {α : Type} (c : Char) (l : List Char) (f : List Char → Option α) :
    (expect c (c :: l) >>= f) = f l := by
  rw [expect, if_pos rfl]
  rfl

theorem bind_readFraction {α : Type} {fraction : ℕ} (hn : fraction < 1000000)
    (f : ℕ × List Char → Option α) :
    (readFraction (ending fraction) >>= f) = f (fraction, "+00:00".toList) := by
  rw [readFraction_ending hn]
  rfl

theorem readStamp_stamp {y m d hour minute second fraction : ℕ} (hv : ValidDate y m d)
    (hy : y < 10 ^ 4) (hhour : hour < 24) (hminute : minute < 60) (hsecond : second < 60)
    (hfraction : fraction < 1000000) :
    readStamp (stamp y m d hour minute second fraction) =
      some (((dayNumber y m d * 24 + hour) * 60 + minute) * 60000000 + second * 1000000 +
        fraction) := by
  have hm := hv.inYear
  have hd := hv.day_lt
  have hmonth : m < 10 ^ 2 := by omega
  have hday : d < 10 ^ 2 := by omega
  have hhour' : hour < 10 ^ 2 := by omega
  have hminute' : minute < 10 ^ 2 := by omega
  have hsecond' : second < 10 ^ 2 := by omega
  -- one field after the other, each read before what follows it is looked at
  simp only [stamp, readStamp, ↓bind_readField hy, ↓bind_readField hmonth, ↓bind_readField hday,
    ↓bind_readField hhour', ↓bind_readField hminute', ↓bind_readField hsecond',
    ↓bind_readFraction hfraction, ↓bind_expect]
  rw [if_pos]
  exact ⟨.inr trivial, hv.positive, hm.1, hm.2, hv.inMonth.1, hv.inMonth.2, hhour, hminute, hsecond⟩

theorem fromIsoformat_isoformat (t : Instant) : fromIsoformat t.isoformat = .ok t := by
  obtain ⟨y, m, d, hdate, hv, hnumber⟩ := ordinalToDate_spec (t.us / 86400000000)
  have hrange := t.inRange
  unfold endOfTime at hrange
  have hy : y < 10000 := year_lt (by omega) hnumber
  have hread : readStamp t.isoformat.toList = some t.us := by
    rw [toList_isoformat hdate hv hy, readStamp_stamp hv hy (by omega) (by omega) (by omega)
      (by omega), hnumber]
    congr 1
    omega
  have hus : t.us < endOfTime := t.inRange
  rw [fromIsoformat, hread]
  exact dif_pos hus

end Instant

inductive Question where
  | row (requestId : String)
  | events (requestId : String)
  | total
  | byStatus
  | oldest
  | utcNow

abbrev Question.Res : Question → Type
  | row _ => Option RequestRow
  | events _ => List EventRow
  | total => Nat
  | byStatus => List (String × Nat)
  | oldest => Option String
  | utcNow => Instant

/-- What a question finds: the committed tables, and the clock. -/
structure Glance where
  db : Database
  utc : Instant

/-- `SELECT status, count(*) … GROUP BY status`. -/
def Database.statusCounts (db : Database) : List (String × Nat) :=
  Table.groupCounts (db.requests.map (·.status))

def Question.answer (g : Glance) : (q : Question) → q.Res
  | row requestId => g.db.row? requestId
  | events requestId => g.db.auditLog requestId
  | total => g.db.requests.length
  | byStatus => g.db.statusCounts
  | oldest => g.db.oldestCreatedAt
  | utcNow => g.utc

/-- One question meets one glance; the questions after it meet the later ones. -/
def Question.meets (q : Question) (seen : ℕ → Glance) : q.Res × (ℕ → Glance) :=
  (q.answer (seen 0), fun n => seen (n + 1))

abbrev View := ExceptT PyExc (Prog Question Question.Res)

namespace View

def ask (q : Question) : View q.Res := ExceptT.lift (Prog.perform q)

def ofExcept {α : Type} (x : Except PyExc α) : View α := ExceptT.mk (pure x)

variable {α β : Type} (glances : ℕ → Glance)

/-- What a reader answers when its questions meet these glances, and the glances left. -/
def meets (view : View α) : Except PyExc α × (ℕ → Glance) := view.run.exec Question.meets glances

def seen (view : View α) : Except PyExc α := (view.meets glances).1

theorem meets_ask_bind (q : Question) (f : q.Res → View α) :
    (ask q >>= f).meets glances = (f (q.answer (glances 0))).meets fun n => glances (n + 1) := rfl

theorem meets_ofExcept_bind (x : Except PyExc β) (f : β → View α) :
    (ofExcept x >>= f).meets glances =
      match x with
      | .ok b => (f b).meets glances
      | .error exc => (.error exc, glances) := by
  cases x <;> rfl

theorem meets_bind (x : View β) (f : β → View α) :
    (x >>= f).meets glances =
      match x.meets glances with
      | (.ok b, later) => (f b).meets later
      | (.error exc, later) => (.error exc, later) := by
  have h : (x >>= f).meets glances = _ := Prog.exec_bind Question.meets x.run _ glances
  rw [h]
  unfold meets
  generalize x.run.exec Question.meets glances = r
  obtain ⟨exc | b, later⟩ := r <;> rfl

end View

structure AutomationEvent where
  status : AutomationStatus
  detail : String
  createdAt : String
deriving DecidableEq

structure AutomationRequestDetails extends AutomationResult where
  events : List AutomationEvent
deriving DecidableEq

def EventRow.toEvent (row : EventRow) : Except PyExc AutomationEvent := do
  let status ← AutomationStatus.ofValue row.status
  return { status := status, detail := row.detail, createdAt := row.createdAt }

structure MetricsSnapshot where
  totalRequests : Nat
  byStatus : List (String × Nat)
  queueDepth : Nat
  retryingCount : Nat
  deadLetterCount : Nat
  oldestQueuedAgeSeconds : Option ℚ
deriving DecidableEq

/-- `max(0.0, (now - oldest).total_seconds())`. -/
def ageSeconds (now oldest : Instant) : ℚ := max 0 (totalSeconds (now.us - oldest.us))

namespace AutomationRepository

/-- `get`, as the first of the two transactions of `get_details`. -/
def getResult (requestId : String) : View (Option AutomationResult) := do
  match ← View.ask (.row requestId) with
  | none => return none
  | some row => return some (← View.ofExcept (toResult row))

def getDetails (requestId : String) : View (Option AutomationRequestDetails) := do
  match ← getResult requestId with
  | none => return none
  | some result =>
    let rows ← View.ask (.events requestId)
    let events ← View.ofExcept (rows.mapM EventRow.toEvent)
    return some { result with events := events }

def metrics : View MetricsSnapshot := do
  let total ← View.ask .total
  let byStatus ← View.ask .byStatus
  let oldest ← View.ask .oldest
  let count (status : AutomationStatus) := (byStatus.lookup status.value).getD 0
  let oldestAge ←
    match oldest.filter (· ≠ "") with
    | none => pure none
    | some text => do
      let oldest ← View.ofExcept (Instant.fromIsoformat text)
      let now ← View.ask .utcNow
      pure (some (ageSeconds now oldest))
  return {
    totalRequests := total
    byStatus := byStatus
    queueDepth := count .queued + count .retrying
    retryingCount := count .retrying
    deadLetterCount := count .deadLetter
    oldestQueuedAgeSeconds := oldestAge }

theorem meets_getResult (requestId : String) (glances : ℕ → Glance) :
    (getResult requestId).meets glances =
      (match (glances 0).db.row? requestId with
        | none => .ok none
        | some row => (toResult row).map some, fun n => glances (n + 1)) := by
  rw [getResult, View.meets_ask_bind]
  simp only [Question.answer]
  cases (glances 0).db.row? requestId with
  | none => rfl
  | some row =>
    dsimp only
    rw [View.meets_ofExcept_bind]
    cases toResult row <;> rfl

theorem seen_getDetails (requestId : String) (glances : ℕ → Glance) :
    (getDetails requestId).seen glances =
      match (glances 0).db.row? requestId with
      | none => .ok none
      | some row => do
        let result ← toResult row
        let events ← ((glances 1).db.auditLog requestId).mapM EventRow.toEvent
        return some { result with events := events } := by
  rw [View.seen, getDetails, View.meets_bind, meets_getResult]
  cases (glances 0).db.row? requestId with
  | none => rfl
  | some row =>
    dsimp only
    cases toResult row with
    | error exc => rfl
    | ok result =>
      change ((View.ask (.events requestId) >>= _).meets fun n => glances (n + 1)).1 = _
      rw [View.meets_ask_bind, View.meets_ofExcept_bind]
      simp only [Question.answer]
      cases ((glances 1).db.auditLog requestId).mapM EventRow.toEvent <;> rfl

/-- The age that a view shows, from the glance that found the oldest and the one of the clock. -/
def oldestAge (oldest : Option String) (now : Instant) : Except PyExc (Option ℚ) :=
  match oldest.filter (· ≠ "") with
  | none => .ok none
  | some text => (Instant.fromIsoformat text).map fun oldest => some (ageSeconds now oldest)

theorem seen_metrics (glances : ℕ → Glance) :
    metrics.seen glances =
      (oldestAge (glances 2).db.oldestCreatedAt (glances 3).utc).map fun age =>
        let count (status : AutomationStatus) :=
          ((glances 1).db.statusCounts.lookup status.value).getD 0
        { totalRequests := (glances 0).db.requests.length
          byStatus := (glances 1).db.statusCounts
          queueDepth := count .queued + count .retrying
          retryingCount := count .retrying
          deadLetterCount := count .deadLetter
          oldestQueuedAgeSeconds := age } := by
  rw [View.seen, metrics, View.meets_ask_bind, View.meets_ask_bind, View.meets_ask_bind]
  simp only [Question.answer]
  unfold oldestAge
  cases (glances 2).db.oldestCreatedAt.filter (· ≠ "") with
  | none => rfl
  | some text =>
    dsimp only
    cases Instant.fromIsoformat text <;> rfl

end AutomationRepository

section Ages

def Database.SomeWaiting (db : Database) : Prop := ∃ row ∈ db.requests, row.waiting = true

theorem not_someWaiting {db : Database} :
    ¬ db.SomeWaiting ↔ ∀ row ∈ db.requests, ¬ row.waiting = true := by
  constructor
  · intro hnone row hrow hw
    exact hnone ⟨row, hrow, hw⟩
  · rintro hnone ⟨row, hrow, hw⟩
    exact hnone row hrow hw

theorem oldestCreatedAt_eq_none {db : Database} : db.oldestCreatedAt = none ↔ ¬ db.SomeWaiting := by
  rw [Database.oldestCreatedAt, List.min?_eq_none_iff, List.map_eq_nil_iff, List.filter_eq_nil_iff,
    not_someWaiting]

theorem isoformat_ne_empty (t : Instant) : t.isoformat ≠ "" := by
  intro hempty
  have hread := Instant.fromIsoformat_isoformat t
  rw [hempty] at hread
  cases hread

def Database.OldestAge (db : Database) (now : Instant) : Option ℚ → Prop
  | none => ¬ db.SomeWaiting
  | some age => ∃ row ∈ db.requests, row.waiting = true ∧
      (∀ row' ∈ db.requests, row'.waiting = true → row.createdAt ≤ row'.createdAt) ∧
      ∃ created : Instant, row.createdAt = created.isoformat ∧ age = ageSeconds now created

theorem Database.OldestAge.none_iff {db : Database} {now : Instant} {age : Option ℚ}
    (hage : db.OldestAge now age) : age = none ↔ ¬ db.SomeWaiting := by
  cases age with
  | none => exact ⟨fun _ => hage, fun _ => rfl⟩
  | some age =>
    obtain ⟨row, hrow, hwaiting, -⟩ := hage
    exact ⟨fun h => (by cases h), fun hnone => absurd ⟨row, hrow, hwaiting⟩ hnone⟩

/-- On tables whose times are texts of instants, `metrics` finds the age of the oldest. -/
theorem oldestAge_spec {db : Database}
    (hcreated : ∀ row ∈ db.requests, ∃ t : Instant, row.createdAt = t.isoformat) (now : Instant) :
    ∃ age, AutomationRepository.oldestAge db.oldestCreatedAt now = .ok age ∧
      db.OldestAge now age := by
  unfold AutomationRepository.oldestAge
  cases hold : db.oldestCreatedAt with
  | none => exact ⟨none, rfl, oldestCreatedAt_eq_none.mp hold⟩
  | some text =>
    simp only [Database.oldestCreatedAt, List.min?_eq_some_iff, List.mem_map,
      List.mem_filter] at hold
    obtain ⟨⟨row, ⟨hrow, hwaiting⟩, rfl⟩, hmin⟩ := hold
    obtain ⟨t, ht⟩ := hcreated row hrow
    have hfilter : (some row.createdAt).filter (· ≠ "") = some row.createdAt := by
      simp [Option.filter, ht, isoformat_ne_empty]
    refine ⟨some (ageSeconds now t), ?_, row, hrow, hwaiting, ?_, t, ht, rfl⟩
    · rw [hfilter, ht]
      dsimp only
      rw [Instant.fromIsoformat_isoformat]
      rfl
    · exact fun row' hrow' hwaiting' => hmin _ ⟨row', ⟨hrow', hwaiting'⟩, rfl⟩

end Ages

section Times
variable [JsonCodec]

/-- What claims and `metrics` do on a table when its texts order like time. -/
structure Database.ServesByTime (db : Database) (created : RequestRow → Instant)
    (due : RequestRow → Option Instant) : Prop where
  claim : ∀ connection now row, row ∈ db.requests → row.Due due now →
    connection.skips row = false →
    (claimTx connection row.requestId now.isoformat).exec db = row.toRequest.map fun request =>
      (some (row.requestId, request), db.move row.requestId (row.started now.isoformat))
  claim_none : ∀ connection id now, (claimTx connection id now.isoformat).exec db =
    .ok (none, db) ↔ ∀ row, db.row? id = some row → row.Due due now → connection.skips row = true
  claim_next : ∀ connection now, (∃ row ∈ db.requests, row.Due due now ∧
      connection.skips row = false) →
    ∃ row ∈ db.requests, row.Due due now ∧ connection.skips row = false ∧
      (∀ row' ∈ db.requests, row'.Due due now → connection.skips row' = false →
        created row ≤ created row') ∧
      (claimNextTx connection now.isoformat).exec db = row.toRequest.map fun request =>
        (some (row.requestId, request), db.move row.requestId (row.started now.isoformat))
  claim_next_none : ∀ connection now, (claimNextTx connection now.isoformat).exec db =
    .ok (none, db) ↔ ∀ row ∈ db.requests, row.Due due now → connection.skips row = true
  metrics : ∀ glances : ℕ → Glance, (glances 2).db = db →
    ∃ snapshot, AutomationRepository.metrics.seen glances = .ok snapshot ∧
      (snapshot.oldestQueuedAgeSeconds = none ↔ ¬ db.SomeWaiting) ∧
      ∀ age, snapshot.oldestQueuedAgeSeconds = some age → ∃ row ∈ db.requests,
        row.waiting = true ∧ age = ageSeconds (glances 3).utc (created row) ∧
        ∀ row' ∈ db.requests, row'.waiting = true → created row ≤ created row'

theorem claimed_eq_none {db : Database} {now : String} {found : Option RequestRow} :
    db.claimed now found = .ok (none, db) ↔ found = none := by
  cases found with
  | none => exact ⟨fun _ => rfl, fun _ => rfl⟩
  | some row =>
    rw [Database.claimed]
    cases row.toRequest <;> simp [Except.map]

theorem Database.Dated.servesByTime {db : Database} {created : RequestRow → Instant}
    {due : RequestRow → Option Instant} (hd : db.Dated created due) :
    db.ServesByTime created due := by
  have hs := hd.schedules
  refine ⟨?_, ?_, ?_, ?_, ?_⟩
  · intro connection now row hrow hdue hskip
    have hsel := (hs.claim connection row.requestId now row).mpr
      ⟨Database.row?_of_mem hrow, hdue, hskip⟩
    rw [claimTx_eq, hsel]
    rfl
  · intro connection id now
    rw [claimTx_eq, claimed_eq_none, Option.eq_none_iff_forall_ne_some]
    constructor
    · intro hnone row hrow hdue
      by_contra hskip
      exact hnone row ((hs.claim connection id now row).mpr ⟨hrow, hdue, by simpa using hskip⟩)
    · intro hskips row hsel
      obtain ⟨hrow, hdue, hskip⟩ := (hs.claim connection id now row).mp hsel
      rw [hskips row hrow hdue] at hskip
      cases hskip
  · intro connection now hsome
    obtain ⟨row', hrow', hdue', hskip'⟩ := hsome
    cases hsel : db.oldestEligible connection now.isoformat with
    | none =>
      rw [(hs.claim_next_none connection now).mp hsel row' hrow' hdue'] at hskip'
      cases hskip'
    | some row =>
      obtain ⟨hrow, hdue, hskip, holdest⟩ := hs.claim_next connection now row hsel
      refine ⟨row, hrow, hdue, hskip, holdest, ?_⟩
      rw [claimNextTx_eq, hsel]
      rfl
  · intro connection now
    rw [claimNextTx_eq, claimed_eq_none]
    exact hs.claim_next_none connection now
  · intro glances hdb
    have htexts : ∀ row ∈ db.requests, ∃ t : Instant, row.createdAt = t.isoformat :=
      fun row hrow => ⟨created row, hd.created_at row hrow⟩
    obtain ⟨age, hage, hoffered⟩ := oldestAge_spec htexts (glances 3).utc
    have hseen := AutomationRepository.seen_metrics glances
    rw [hdb, hage] at hseen
    refine ⟨_, hseen, hoffered.none_iff, ?_⟩
    rintro _ rfl
    obtain ⟨row, hrow, hwaiting, hmin, t, ht, rfl⟩ := hoffered
    obtain rfl : created row = t :=
      Instant.isoformat_inj.mp ((hd.created_at row hrow).symm.trans ht)
    refine ⟨row, hrow, hwaiting, rfl, ?_⟩
    intro row' hrow' hwaiting'
    exact (hd.created_le hrow hrow').mpr (hmin row' hrow' hwaiting')

/-- Stored times compare, byte by byte, as the instants do; so in every reachable state, and
on every table of such texts, the queries schedule by time, and so do claims and `metrics`. -/
theorem timestamps_order_like_time :
    (∀ a b : Instant, bytes a.isoformat ≤ bytes b.isoformat ↔ a ≤ b) ∧
    (∀ (T : Type) [DecidableEq T] (h : List (Event T)) (s : System T), Runs h s →
      ∃ created due, s.shared.db.Dated created due) ∧
    ∀ db created due, Database.Dated db created due →
      db.Schedules created due ∧ db.ServesByTime created due :=
  ⟨fun _ _ => Instant.bytes_isoformat_le, fun _ _ _ _ hr => hr.dated,
    fun _ _ _ hd => ⟨hd.schedules, hd.servesByTime⟩⟩

omit [JsonCodec] in
theorem timestamps_order_like_time_sample : letI := emptyPayload
    ∃ created due, (sampleRun 3).2.shared.db.Dated created due ∧
      (sampleRun 3).2.shared.db.Schedules created due ∧
      (sampleRun 3).2.shared.db.ServesByTime created due := by
  let _ := emptyPayload
  obtain ⟨-, hdated, hserves⟩ := timestamps_order_like_time
  obtain ⟨created, due, hd⟩ := hdated ℕ _ _ (inTurn_runs (sampleCalls.take 3))
  exact ⟨created, due, hd, hserves _ created due hd⟩

end Times

end Orchestrator
