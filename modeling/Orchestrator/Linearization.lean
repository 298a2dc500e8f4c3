import Orchestrator.Library.AtomicObject
import Orchestrator.Statements
import Orchestrator.Submission

/-!
# The repository as an atomic object

Each method of the repository reads the clock, looks rows up and writes them in up to three
transactions, and other callers commit in between; in `fail_or_retry`, even between the two
statements of its one transaction. To its callers it is nevertheless an object that does all of
this at once: `Method.atomic` is that object, and a history of concurrent calls is one of its
histories, if nobody claims or replays a request while a failure of it is being recorded.
-/

namespace Orchestrator

open Interaction Transaction AtomicObject
set_option autoImplicit false

/-- A method of the repository, which writes or reads one request. -/
inductive Method where
  | call (call : RepositoryCall)
  | get (requestId : String)

inductive MethodReply where
  | call (reply : RepositoryReply)
  | got (r : Except PyExc (Option AutomationResult))

def Method.code : Method → Prog Eff Eff.Res MethodReply
  | .call inner => return .call (← inner.code)
  | .get requestId => return .got (← (AutomationRepository.get requestId).run)

def repositoryMachine [JsonCodec] :
    Interleaving.Machine StatementEff StatementEff.Res Method Choice Shared Cooldowns
      MethodReply where
  code method := method.code.expand Eff.statements
  handle := statementHandle
  disturbs s s' := s'.db = s.db

/-- What an operation takes from its surroundings: the time that its call has read, and the
connection of its transaction. -/
structure Moment where
  now : Instant
  connection : Connection

section Object
variable [JsonCodec]

/-- `create` in a single transaction. -/
def createTx (connection : Connection) (requestId : String) (request : AutomationRequest)
    (now : String) : Sql String := do
  match ← Tx.select fun db => request.idempotencyKey.bind db.selectByKey with
  | some existing => return existing
  | none =>
    insertRequestTx connection requestId request now
    return requestId

/-- The result that `get` makes of a row. -/
def foundResult : Option RequestRow → Except PyExc (Option AutomationResult)
  | none => .ok none
  | some row => (toResult row).map some

def RepositoryCall.atomic (m : Moment) (db : Database) :
    RepositoryCall → RepositoryReply × Database
  | create requestId request =>
    let (r, db') := (createTx m.connection requestId request m.now.isoformat).commit db
    (.created r, db')
  | claim requestId =>
    let (r, db') := (claimTx m.connection requestId m.now.isoformat).commit db
    (.claimed r, db')
  | claimNext =>
    let (r, db') := (claimNextTx m.connection m.now.isoformat).commit db
    (.claimed r, db')
  | complete requestId detail =>
    let (r, db') :=
      (updateStatusTx m.connection requestId .completed detail m.now.isoformat).commit db
    (.written r, db')
  | failOrRetry requestId detail delay =>
    let (r, db') := (failOrRetryTx m.connection requestId detail delay m.now).commit db
    (.written r, db')
  | replayDeadLetter requestId =>
    let (r, db') := (replayDeadLetterTx m.connection requestId m.now.isoformat).commit db
    (.replayed (r >>= toResult), db')

/-- The repository as an object: what each method does and answers at one moment. -/
def Method.atomic (method : Method) (m : Moment) (db : Database) : MethodReply × Database :=
  match method with
  | .call inner =>
    let (reply, db') := inner.atomic m db
    (.call reply, db')
  | .get requestId => (.got (foundResult (db.row? requestId)), db)

end Object

/-- What a call has found out before it takes effect: the time, that its row was refused, or the
attempts that its request has had. -/
inductive Note where
  | fresh
  | timed (now : Instant)
  | refused (now : Instant) (exc : PyExc)
  | seen (row : RequestRow)
  | seenAt (row : RequestRow) (now : Instant)

def Note.now : Note → Option Instant
  | fresh | seen _ => none
  | timed now | refused now _ | seenAt _ now => some now

abbrev MethodStage := Stage Method Note MethodReply

open RepositoryCall in
/-- The effects that a call performs before it has answered, by what it knows. -/
inductive Asks : Method → Note → StatementEff → Prop where
  | clock (method : Method) : Asks method .fresh (.program .utcNow)
  | find {id key : String} {now : Instant} {request : AutomationRequest}
      (hkey : request.idempotencyKey = some key) :
      Asks (.call (create id request)) (.timed now) (.program (.transaction (.selectByKey key)))
  | insert {id : String} {now : Instant} {request : AutomationRequest} :
      Asks (.call (create id request)) (.timed now)
        (.program (.transaction (.insertRequest id request now.isoformat)))
  | findAgain {id key : String} {now : Instant} {exc : PyExc} {request : AutomationRequest}
      (hkey : request.idempotencyKey = some key) :
      Asks (.call (create id request)) (.refused now exc)
        (.program (.transaction (.selectByKey key)))
  | claim {id : String} {now : Instant} :
      Asks (.call (claim id)) (.timed now) (.program (.transaction (.claim id now.isoformat)))
  | claimNext {now : Instant} :
      Asks (.call claimNext) (.timed now) (.program (.transaction (.claimNext now.isoformat)))
  | complete {id detail : String} {now : Instant} :
      Asks (.call (complete id detail)) (.timed now)
        (.program (.transaction (.updateStatus id .completed detail now.isoformat)))
  | attempts {id detail : String} {delay : Int} :
      Asks (.call (failOrRetry id detail delay)) .fresh (.selectAttempts id)
  | failedAt {id detail : String} {delay : Int} {row : RequestRow} :
      Asks (.call (failOrRetry id detail delay)) (.seen row) (.program .utcNow)
  | writeFailure {id detail : String} {delay : Int} {row : RequestRow} {now : Instant} :
      Asks (.call (failOrRetry id detail delay)) (.seenAt row now)
        (.writeFailure id detail delay row now)
  | replayDeadLetter {id : String} {now : Instant} :
      Asks (.call (replayDeadLetter id)) (.timed now)
        (.program (.transaction (.replayDeadLetter id now.isoformat)))
  | get {id : String} : Asks (.get id) .fresh (.program (.transaction (.get id)))

/-- What a call makes of an answer: it knows more, or it has its own answer. -/
def Note.next (method : Method) (note : Note) : (e : StatementEff) → e.Res → MethodStage
  | .program .utcNow, now =>
    match note with
    | seen row => .pending method (.seenAt row now)
    | _ => .pending method (.timed now)
  | .program (.transaction (.selectByKey _)), .ok (some existing) =>
    match note with
    | refused .. => .answered method (.call (.created (.ok existing)))
    | _ =>
      if existing = "" then .pending method note
      else .answered method (.call (.created (.ok existing)))
  | .program (.transaction (.selectByKey _)), .ok none =>
    match note with
    | refused _ exc => .answered method (.call (.created (.error exc)))
    | _ => .pending method note
  | .program (.transaction (.insertRequest id _ _)), .ok _ =>
    .answered method (.call (.created (.ok id)))
  | .program (.transaction (.insertRequest _ request _)), .error exc =>
    match request.idempotencyKey, note.now with
    | some _, some now => .pending method (.refused now exc)
    | _, _ => .answered method (.call (.created (.error exc)))
  | .program (.transaction (.claim ..)), r => .answered method (.call (.claimed r))
  | .program (.transaction (.claimNext _)), r => .answered method (.call (.claimed r))
  | .program (.transaction (.updateStatus ..)), r => .answered method (.call (.written r))
  | .selectAttempts _, .ok row => .pending method (.seen row)
  | .selectAttempts _, .error exc => .answered method (.call (.written (.error exc)))
  | .writeFailure .., r => .answered method (.call (.written r))
  | .program (.transaction (.replayDeadLetter ..)), r =>
    .answered method (.call (.replayed (Except.bind r toResult)))
  | .program (.transaction (.get _)), r => .answered method (.got (Except.bind r foundResult))
  | _, _ => .pending method note

/-- A look-up answers, and an insertion that fails clashes with a constraint. -/
def Admits : (e : StatementEff) → e.Res → Prop
  | .program (.transaction (.selectByKey _)), r => ∃ found, r = .ok found
  | .program (.transaction (.insertRequest ..)), .error exc => exc.isIntegrityError = true
  | _, _ => True

def linearization : Interleaving.Protocol StatementEff StatementEff.Res Method MethodStage where
  allowed
    | .pending method note, e => Asks method note e
    | _, _ => False
  admits _ := Admits
  next
    | .pending method note, e, r => note.next method e r
    | stage, _, _ => stage
  idle := .idle
  start method := .pending method .fresh

/-- What it asks of the effects that the program performs as they are. -/
def plain : Discipline Eff Eff.Res MethodStage where
  allowed ph e := linearization.allowed ph (.program e)
  admits ph e := linearization.admits ph (.program e)
  next ph e := linearization.next ph (.program e)

@[simp] theorem plain_next (method : Method) (note : Note) (e : Eff) (r : e.Res) :
    plain.next (.pending method note) e r = note.next method (.program e) r := rfl

/-- A program that keeps to it has no `fail_or_retry`, so none of its effects has statements of
its own. -/
theorem wp_statements {α : Type} {p : Prog Eff Eff.Res α} {Q : MethodStage → α → Prop}
    {ph : MethodStage} (h : plain.wp p Q ph) : linearization.wp (p.expand Eff.statements) Q ph := by
  have hperform : ∀ {ph' ph : MethodStage} {e : Eff}, ph' = ph → plain.allowed ph' e →
      linearization.wp e.statements
        (fun ph r => plain.admits ph' e r ∧ plain.next ph' e r = ph) ph := by
    rintro ph _ e rfl hal
    have hdirect : linearization.wp (Prog.perform (StatementEff.program e))
        (fun ph' r => plain.admits ph e r ∧ plain.next ph e r = ph') ph :=
      ⟨hal, fun r hr => ⟨hr, rfl⟩⟩
    cases e with
    | transaction op =>
      cases op with
      | failOrRetry id detail delay =>
        cases ph with
        | pending method note => cases (show Asks .. from hal)
        | _ => cases hal
      | _ => exact hdirect
    | _ => exact hdirect
  refine linearization.wp_mono (linearization.wp_expand hperform h rfl) ?_
  rintro ph r ⟨_, rfl, hq⟩
  exact hq

open Discipline

section Code
open AutomationRepository

variable {id : String} {request : AutomationRequest}

/-- The code of a call has its answer when it ends. -/
abbrev Answers {α : Type} (method : Method) (reply : Except PyExc α → RepositoryReply)
    (stage : MethodStage) (r : Except PyExc α) : Prop :=
  stage = .answered method (.call (reply r))

theorem answers_insertOrFind (now : Instant) :
    plain.wp (insertOrFind id request (Instant.isoformat now)).run
      (Answers (.call (.create id request)) .created)
      (.pending (.call (.create id request)) (.timed now)) := by
  rw [insertOrFind, wp_except_bind, Py.wp_attempt, Py.wp_transaction]
  refine ⟨.insert, ?_⟩
  intro r hr
  cases r with
  | ok _ => exact rfl
  | error exc =>
    have hexc : exc.isIntegrityError = true := hr
    simp only [hexc, if_true, filter_key, plain_next, Note.next, Note.now]
    cases hkey : request.idempotencyKey with
    | none => exact rfl
    | some key =>
      refine (wp_except_bind ..).mpr ⟨.findAgain hkey, ?_⟩
      intro r hr
      obtain ⟨found, rfl⟩ := hr
      cases found <;> exact rfl

theorem answers_timed {α : Type} {method : Method} {code : String → Py α}
    {Q : MethodStage → Except PyExc α → Prop}
    (h : ∀ now : Instant, plain.wp (code now.isoformat).run Q (.pending method (.timed now))) :
    plain.wp (Py.utcNow >>= code).run Q (.pending method .fresh) := by
  rw [wp_except_bind, Py.wp_utcNow]
  exact ⟨.clock _, fun now _ => h _⟩

theorem answers_create :
    plain.wp (create id request).run (Answers (.call (.create id request)) .created)
      (.pending (.call (.create id request)) .fresh) := by
  apply answers_timed
  intro now
  rw [findExisting, filter_key]
  cases hkey : request.idempotencyKey with
  | none => exact answers_insertOrFind _
  | some key =>
    refine (wp_except_bind ..).mpr ((wp_except_bind ..).mpr ⟨.find hkey, ?_⟩)
    intro r hr
    obtain ⟨found, rfl⟩ := hr
    cases found with
    | none => exact answers_insertOrFind _
    | some existing =>
      by_cases he : existing = ""
      · subst he
        exact answers_insertOrFind _
      · have hf : Option.filter (fun x => decide (x ≠ "")) (some existing) = some existing := by
          simp [he]
        simp only [wp_ret, wp_except_pure, hf, plain_next, Note.next, if_neg he]

theorem answers_replayDeadLetter :
    plain.wp (replayDeadLetter id).run (Answers (.call (.replayDeadLetter id)) .replayed)
      (.pending (.call (.replayDeadLetter id)) .fresh) := by
  apply answers_timed
  intro now
  refine (wp_except_bind ..).mpr ⟨.replayDeadLetter, ?_⟩
  intro r _
  cases r <;> exact rfl

theorem answers_get :
    plain.wp (get id).run (fun stage r => stage = .answered (.get id) (.got r))
      (.pending (.get id) .fresh) := by
  refine (wp_except_bind ..).mpr ⟨.get, ?_⟩
  intro r _
  rcases r with exc | _ | row
  · exact rfl
  · exact rfl
  · refine (wp_except_bind ..).mpr ?_
    simp only [Py.wp_ofExcept, plain_next, Note.next, Except.bind, foundResult]
    cases toResult row <;> exact rfl

theorem answers_failOrRetry (id detail : String) (delay : Int) :
    linearization.wp ((Method.call (.failOrRetry id detail delay)).code.expand Eff.statements)
      (fun stage reply => stage = .answered (.call (.failOrRetry id detail delay)) reply)
      (.pending (.call (.failOrRetry id detail delay)) .fresh) := by
  refine ⟨.attempts, ?_⟩
  intro r _
  cases r with
  | error exc => exact rfl
  | ok row => exact ⟨.failedAt, fun now _ => ⟨.writeFailure, fun r _ => rfl⟩⟩

theorem linearization_code (method : Method) :
    linearization.wp (method.code.expand Eff.statements)
      (fun stage reply => stage = .answered method reply) (linearization.start method) := by
  cases method with
  | get id => exact wp_statements ((wp_bind ..).mpr answers_get)
  | call inner =>
    have called (h : plain.wp inner.code (fun stage reply => stage = .answered (.call inner)
        (.call reply)) (.pending (.call inner) .fresh)) :
        linearization.wp ((Method.call inner).code.expand Eff.statements)
          (fun stage reply => stage = .answered (.call inner) reply)
          (.pending (.call inner) .fresh) :=
      wp_statements ((wp_bind ..).mpr h)
    cases inner with
    | create id request => exact called ((wp_bind ..).mpr answers_create)
    | claim id => exact called ((wp_bind ..).mpr (answers_timed fun _ => ⟨.claim, fun _ _ => rfl⟩))
    | claimNext =>
      exact called ((wp_bind ..).mpr (answers_timed fun _ => ⟨.claimNext, fun _ _ => rfl⟩))
    | complete id detail =>
      exact called ((wp_bind ..).mpr (answers_timed fun _ => ⟨.complete, fun _ _ => rfl⟩))
    | failOrRetry id detail delay => exact answers_failOrRetry id detail delay
    | replayDeadLetter id => exact called ((wp_bind ..).mpr answers_replayDeadLetter)

end Code

section Invariant
variable [JsonCodec] {clock : Instant} {connection : Connection} {db db' : Database}
variable {id now : String} {request : AutomationRequest}

theorem insertRequestTx_eq (connection : Connection) (id : String) (request : AutomationRequest)
    (now : String) (db : Database) :
    (insertRequestTx connection id request now).exec db =
      (db.insertRequest (submittedRow id request now)).map fun db₁ =>
        ((), db₁.appendEvent id .queued queuedDetail now) := by
  simp only [insertRequestTx, Sql.appendEvent, Tx.exec_bind, Tx.exec_execute]
  cases hins : db.insertRequest (submittedRow id request now) with
  | error exc => rfl
  | ok db₁ =>
    have hrow : db₁.row? id = some (submittedRow id request now) := by
      rw [Database.row?_insertRequest hins]
      exact if_pos rfl
    simp only [Except.map, Database.insertEvent_of_row connection hrow]

theorem createTx_eq (connection : Connection) (id : String) (request : AutomationRequest)
    (now : String) (db : Database) :
    (createTx connection id request now).commit db =
      match request.idempotencyKey.bind db.selectByKey with
      | some existing => (.ok existing, db)
      | none =>
        let (r, db') := (insertRequestTx connection id request now).commit db
        (r.map fun _ => id, db') := by
  simp only [Tx.commit, createTx, Tx.exec_bind, Tx.exec_select]
  cases request.idempotencyKey.bind db.selectByKey with
  | some existing => rfl
  | none =>
    simp only [Tx.exec_bind]
    cases (insertRequestTx connection id request now).exec db <;> rfl

omit [JsonCodec] in
theorem Database.keyTaken_iff (db : Database) (key : String) :
    db.keyTaken (some key) = true ↔ ∃ existing, db.selectByKey key = some existing := by
  rw [← Option.ne_none_iff_exists', ne_eq, selectByKey_eq, findKey, Registry.find_eq_none, not_not,
    submissions_key, keyTaken, decide_eq_true_eq]

theorem Submitted.unregistered (hsub : Submitted db db' id request now) :
    request.idempotencyKey.bind db.selectByKey = none := by
  cases hkey : request.idempotencyKey with
  | none => rfl
  | some key =>
    have hfree := hsub.submissions.2 key hkey
    rw [Option.bind_some, Database.selectByKey_eq]
    exact Registry.find_eq_none.mpr hfree

/-- The row of a call is refused for good: its id has a row, or its key has one. -/
def Refused (db : Database) (id : String) (request : AutomationRequest) (exc : PyExc) : Prop :=
  (db.row? id ≠ none ∧ exc = .integrityError "automation_requests_pkey") ∨
    ∃ key existing, request.idempotencyKey = some key ∧ db.selectByKey key = some existing

theorem refused_of_insert {exc : PyExc}
    (h : db.insertRequest (submittedRow id request now) = .error exc) :
    Refused db id request exc := by
  unfold Database.insertRequest at h
  split at h
  · next hpk =>
    cases h
    exact .inl ⟨fun hnone => Table.lookup_eq_none.mp hnone hpk, rfl⟩
  · split at h
    · next huk =>
      cases h
      change db.keyTaken request.idempotencyKey = true at huk
      cases hkey : request.idempotencyKey with
      | none => simp [hkey, Database.keyTaken] at huk
      | some key =>
        rw [hkey] at huk
        obtain ⟨existing, hfind⟩ := (db.keyTaken_iff key).mp huk
        exact .inr ⟨key, existing, hkey, hfind⟩
    · cases h

theorem refused_of_commit {connection : Connection} {exc : PyExc} {db' : Database}
    (h : (insertRequestTx connection id request now).commit db = (.error exc, db')) :
    Refused db id request exc := by
  have hexec := Tx.exec_of_commit_error h
  rw [insertRequestTx_eq] at hexec
  cases hins : db.insertRequest (submittedRow id request now) with
  | ok db₁ =>
    rw [hins] at hexec
    cases hexec
  | error exc' =>
    rw [hins] at hexec
    cases hexec
    exact refused_of_insert hins

/-- What the note of a call says about the tables. -/
def Note.Holds (db : Database) (method : Method) : Note → Prop
  | refused _ exc => ∀ id request, method = .call (.create id request) → Refused db id request exc
  | _ => True

theorem Wrote.submissions_grow {op : TransactionOp} {r : Except PyExc op.Result}
    (hw : Wrote clock db op r db') : db.submissions <+: db'.submissions := by
  cases hw with
  | nothing => exact List.prefix_rfl
  | inserted hsub =>
    rw [hsub.submissions.1]
    exact List.prefix_append _ _
  | _ =>
    rw [Database.submissions_move]

omit [JsonCodec] in
theorem Refused.later {exc : PyExc} (hr : Refused db id request exc)
    (hgrow : db.submissions <+: db'.submissions) : Refused db' id request exc := by
  rcases hr with ⟨hrow, hexc⟩ | ⟨key, existing, hkey, hfind⟩
  · refine .inl ⟨?_, hexc⟩
    rw [ne_eq, Database.row?_eq_none, not_not] at hrow ⊢
    exact (hgrow.map _).subset hrow
  · rw [Database.selectByKey_eq] at hfind
    refine .inr ⟨key, existing, hkey, ?_⟩
    rw [Database.selectByKey_eq]
    exact Registry.find_prefix hgrow hfind

omit [JsonCodec] in
theorem Note.Holds.later {method : Method} {note : Note} (hn : note.Holds db method)
    (hgrow : db.submissions <+: db'.submissions) : note.Holds db' method := by
  cases note with
  | refused now exc => exact fun id request heq => (hn id request heq).later hgrow
  | _ => trivial

/-- The second look-up finds the row of the key, or the id alone was refused. -/
theorem createTx_of_refused {key : String} {exc : PyExc} (hkey : request.idempotencyKey = some key)
    (hr : Refused db id request exc) (connection : Connection) (now : String) :
    (createTx connection id request now).commit db =
      match db.selectByKey key with
      | some existing => (.ok existing, db)
      | none => (.error exc, db) := by
  rw [createTx_eq, hkey, Option.bind_some]
  cases hfind : db.selectByKey key with
  | some existing => rfl
  | none =>
    rcases hr with ⟨hrow, rfl⟩ | ⟨key', existing, hkey', hfound⟩
    · have hpk : id ∈ db.requests.map (·.requestId) := by
        rw [ne_eq, Database.row?, Table.lookup_eq_none, not_not] at hrow
        exact hrow
      have hins : db.insertRequest (submittedRow id request now) =
          .error (.integrityError "automation_requests_pkey") := dif_pos hpk
      have hexec := insertRequestTx_eq connection id request now db
      rw [hins] at hexec
      simp only [Tx.commit_of_error hexec]
      rfl
    · rw [hkey] at hkey'
      cases hkey'
      rw [hfind] at hfound
      cases hfound

/-- The moment of a step, by the note of its call. -/
def Note.moment (note : Note) (c : Choice) : Moment :=
  ⟨note.now.getD .earliest, c.connection⟩

/-- The time that an effect reads. -/
def readBy : (e : StatementEff) → e.Res → Option Instant
  | .program .utcNow, now => some now
  | _, _ => none

/-- Where a failure is written, its request has had as many attempts as have been seen, and may
have as many. -/
def StatementEff.Current (db : Database) : StatementEff → Prop
  | writeFailure id _ _ seen _ => ∃ row ∈ db.row? id,
    row.attemptCount = seen.attemptCount ∧ row.maxAttempts = seen.maxAttempts
  | _ => True

instance (db : Database) (e : StatementEff) : Decidable (e.Current db) :=
  match e with
  | .writeFailure id _ _ seen _ => inferInstanceAs (Decidable (∃ row ∈ db.row? id,
      row.attemptCount = seen.attemptCount ∧ row.maxAttempts = seen.maxAttempts))
  | .program _ | .selectAttempts _ => .isTrue trivial

/-- A step of a call does what it should and keeps what the next note says. -/
structure Proceeds (c : Choice) (method : Method) (note : Note) (e : StatementEff) (r : e.Res)
    (db db' : Database) : Prop where
  admits : Admits e r
  advances : e.Current db → Advances Method.atomic (note.moment c) (.pending method note)
    (note.next method e r) db db'
  noted : ∀ method' note', note.next method e r = .pending method' note' →
    method' = method ∧ note'.Holds db' method ∧ note'.now = (readBy e r).or note.now

variable {c : Choice} {s s' : Shared} {l l' : Cooldowns}

theorem statementHandle_transaction {op : TransactionOp} {r : Except PyExc op.Result}
    (hh : statementHandle c (.program (.transaction op)) s l = (r, s', l')) :
    (op.body c.connection c.utc).commit s.db = (r, s'.db) := by
  have hhandle : handle c (.transaction op) s l = (r, s', l') := hh
  exact handle_commit hhandle

theorem statementHandle_writeFailure {detail : String} {delay : Int} {seen : RequestRow}
    {now : Instant} {r : Except PyExc Unit}
    (hh : statementHandle c (.writeFailure id detail delay seen now) s l = (r, s', l')) :
    (writeFailureTx c.connection id detail delay seen now).commit s.db = (r, s'.db) := by
  simp only [statementHandle, Prod.mk.injEq] at hh
  rw [← hh.1, ← hh.2.1]

theorem Proceeds.answered {method : Method} {note : Note} {e : StatementEff} {r : e.Res}
    {db db' : Database} {reply : MethodReply} (hadmits : Admits e r)
    (hnext : note.next method e r = .answered method reply)
    (hatomic : e.Current db → method.atomic (note.moment c) db = (reply, db')) :
    Proceeds c method note e r db db' := by
  refine ⟨hadmits, ?_, ?_⟩
  · intro hcurrent
    rw [hnext]
    exact .commits (hatomic hcurrent)
  · intro method' note' heq
    cases hnext.symm.trans heq

theorem Proceeds.waiting {method : Method} {note note' : Note} {e : StatementEff} {r : e.Res}
    {db : Database} (hadmits : Admits e r) (hnext : note.next method e r = .pending method note')
    (hholds : note'.Holds db method) (hnow : note'.now = (readBy e r).or note.now) :
    Proceeds c method note e r db db := by
  refine ⟨hadmits, ?_, ?_⟩
  · intro _
    rw [hnext]
    exact .waits
  · intro method₁ note₁ heq
    cases hnext.symm.trans heq
    exact ⟨rfl, hholds, hnow⟩

theorem proceeds_insert {now : Instant} {r : Except PyExc Unit}
    (hh : handle c (.transaction (.insertRequest id request now.isoformat)) s l = (r, s', l')) :
    Proceeds c (.call (.create id request)) (.timed now)
      (.program (.transaction (.insertRequest id request now.isoformat))) r s.db s'.db := by
  have hcommit : (insertRequestTx c.connection id request now.isoformat).commit s.db =
      (r, s'.db) := handle_commit hh
  have ho : Outcome c.utc s.db s'.db (.insertRequest id request now.isoformat) r :=
    handle_outcome hh
  -- where no row has the key, the insertion is all that `create` does
  have hcreate : request.idempotencyKey.bind s.db.selectByKey = none →
      (createTx c.connection id request now.isoformat).commit s.db =
        (r.map fun _ => id, s'.db) := by
    intro hfree
    rw [createTx_eq, hfree, hcommit]
  cases r with
  | ok _ =>
    refine .answered trivial rfl fun _ => ?_
    simp only [Method.atomic, RepositoryCall.atomic, Note.moment, Note.now, Option.getD_some,
      hcreate (Submitted.unregistered ho)]
    rfl
  | error exc =>
    obtain ⟨hdb, hexc, -⟩ := ho
    cases hkey : request.idempotencyKey with
    | none =>
      have hnext : Note.next (.call (.create id request)) (.timed now)
          (.program (.transaction (.insertRequest id request now.isoformat))) (.error exc) =
          .answered (.call (.create id request)) (.call (.created (.error exc))) := by
        simp only [Note.next, hkey]
      refine .answered hexc hnext fun _ => ?_
      simp only [Method.atomic, RepositoryCall.atomic, Note.moment, Note.now, Option.getD_some,
        hcreate (by rw [hkey]; rfl)]
      rfl
    | some key =>
      rw [hdb]
      have hnext : Note.next (.call (.create id request)) (.timed now)
          (.program (.transaction (.insertRequest id request now.isoformat))) (.error exc) =
          .pending (.call (.create id request)) (.refused now exc) := by
        simp only [Note.next, Note.now, hkey]
      refine .waiting hexc hnext ?_ rfl
      intro id' request' heq
      cases heq
      exact refused_of_commit hcommit

theorem handle_selectByKey {key : String} {r : Except PyExc (Option String)}
    (hh : handle c (.transaction (.selectByKey key)) s l = (r, s', l')) :
    r = .ok (s.db.selectByKey key) ∧ s'.db = s.db := by
  have hcommit : (Except.ok (s.db.selectByKey key), s.db) = (r, s'.db) := handle_commit hh
  obtain ⟨hr, hdb⟩ := Prod.mk.inj hcommit
  exact ⟨hr.symm, hdb.symm⟩

theorem proceeds_find {now : Instant} {key : String} (hkey : request.idempotencyKey = some key)
    {r : Except PyExc (Option String)}
    (hh : handle c (.transaction (.selectByKey key)) s l = (r, s', l')) :
    Proceeds c (.call (.create id request)) (.timed now)
      (.program (.transaction (.selectByKey key))) r s.db s'.db := by
  obtain ⟨rfl, hdb⟩ := handle_selectByKey hh
  rw [hdb]
  cases hfind : s.db.selectByKey key with
  | none => exact .waiting ⟨_, rfl⟩ rfl trivial rfl
  | some existing =>
    by_cases he : existing = ""
    · have hnext : Note.next (.call (.create id request)) (.timed now)
          (.program (.transaction (.selectByKey key))) (.ok (some existing)) =
          .pending (.call (.create id request)) (.timed now) := if_pos he
      exact .waiting ⟨_, rfl⟩ hnext trivial rfl
    · refine .answered ⟨_, rfl⟩ (if_neg he) fun _ => ?_
      simp only [Method.atomic, RepositoryCall.atomic, createTx_eq, hkey, Option.bind_some, hfind]

theorem proceeds_findAgain {now : Instant} {key : String} {exc : PyExc}
    (hkey : request.idempotencyKey = some key) (hrefused : Refused s.db id request exc)
    {r : Except PyExc (Option String)}
    (hh : handle c (.transaction (.selectByKey key)) s l = (r, s', l')) :
    Proceeds c (.call (.create id request)) (.refused now exc)
      (.program (.transaction (.selectByKey key))) r s.db s'.db := by
  obtain ⟨rfl, hdb⟩ := handle_selectByKey hh
  have hcreate := createTx_of_refused hkey hrefused c.connection now.isoformat
  rw [hdb]
  cases hfind : s.db.selectByKey key with
  | none =>
    rw [hfind] at hcreate
    refine .answered ⟨_, rfl⟩ rfl fun _ => ?_
    simp only [Method.atomic, RepositoryCall.atomic, Note.moment, Note.now, Option.getD_some,
      hcreate]
  | some existing =>
    rw [hfind] at hcreate
    refine .answered ⟨_, rfl⟩ rfl fun _ => ?_
    simp only [Method.atomic, RepositoryCall.atomic, Note.moment, Note.now, Option.getD_some,
      hcreate]

/-- The SELECT of `fail_or_retry` has answered for it if there is no such request. -/
theorem proceeds_attempts {detail : String} {delay : Int} {r : Except PyExc RequestRow}
    (hh : statementHandle c (.selectAttempts id) s l = (r, s', l')) :
    Proceeds c (.call (.failOrRetry id detail delay)) .fresh (.selectAttempts id) r s.db s'.db := by
  have hsame := statementHandle_selectAttempts c id s l
  rw [hh] at hsame
  obtain rfl : s' = s := congrArg Prod.fst hsame
  cases hrow : s'.db.row? id with
  | none =>
    simp only [statementHandle, hrow] at hh
    cases hh
    refine .answered trivial rfl fun _ => ?_
    simp only [Method.atomic, RepositoryCall.atomic, failOrRetryTx_unknown hrow]
  | some row =>
    simp only [statementHandle, hrow] at hh
    cases hh
    exact .waiting trivial rfl trivial rfl

omit [JsonCodec] in
theorem writeFailureTx_congr {row seen : RequestRow} (hcount : row.attemptCount = seen.attemptCount)
    (hmax : row.maxAttempts = seen.maxAttempts) (connection : Connection) (id detail : String)
    (delay : Int) (now : Instant) :
    writeFailureTx connection id detail delay seen now =
      writeFailureTx connection id detail delay row now := by
  have hexhausted : seen.exhausted = row.exhausted := by
    simp only [RequestRow.exhausted, hcount, hmax]
  simp only [writeFailureTx, RequestRow.nextAttempt, RequestRow.failureStatus,
    RequestRow.failureMessage, hexhausted, hcount]

/-- The UPDATE of `fail_or_retry` is all that the transaction does, if the attempts are as they
were seen. -/
theorem proceeds_writeFailure {detail : String} {delay : Int} {seen : RequestRow} {now : Instant}
    {r : Except PyExc Unit}
    (hh : statementHandle c (.writeFailure id detail delay seen now) s l = (r, s', l')) :
    Proceeds c (.call (.failOrRetry id detail delay)) (.seenAt seen now)
      (.writeFailure id detail delay seen now) r s.db s'.db := by
  have hcommit := statementHandle_writeFailure hh
  refine .answered trivial rfl ?_
  rintro ⟨row, hrow, hcount, hmax⟩
  have hatomic : (failOrRetryTx c.connection id detail delay now).commit s.db = (r, s'.db) := by
    rw [← hcommit, writeFailureTx_congr hcount hmax]
    simp only [Tx.commit, failOrRetryTx, Tx.exec_bind, Tx.exec_select, Option.mem_def.mp hrow]
  simp only [Method.atomic, RepositoryCall.atomic, Note.moment, Note.now, Option.getD_some, hatomic]

theorem proceeds {method : Method} {note : Note} {e : StatementEff} {r : e.Res}
    (ha : Asks method note e) (hn : note.Holds s.db method)
    (hh : statementHandle c e s l = (r, s', l')) :
    Proceeds c method note e r s.db s'.db := by
  cases ha with
  | clock | failedAt =>
    cases hh
    exact .waiting trivial rfl trivial rfl
  | find hkey => exact proceeds_find hkey hh
  | insert => exact proceeds_insert hh
  | findAgain hkey => exact proceeds_findAgain hkey (hn _ _ rfl) hh
  | attempts => exact proceeds_attempts hh
  | writeFailure => exact proceeds_writeFailure hh
  | @get id =>
    have hcommit : (Except.ok (s.db.row? id), s.db) = (r, s'.db) := statementHandle_transaction hh
    obtain ⟨rfl, hdb⟩ := Prod.mk.inj hcommit
    rw [← hdb]
    exact .answered trivial rfl fun _ => rfl
  | replayDeadLetter =>
    have hcommit := statementHandle_transaction hh
    refine .answered trivial rfl fun _ => ?_
    simp only [Method.atomic, RepositoryCall.atomic, Note.moment, Note.now, Option.getD_some]
    simp only [TransactionOp.body] at hcommit
    rw [hcommit]
    rfl
  | _ =>
    have hcommit := statementHandle_transaction hh
    refine .answered trivial rfl fun _ => ?_
    simp only [Method.atomic, RepositoryCall.atomic, Note.moment, Note.now, Option.getD_some]
    simp only [TransactionOp.body] at hcommit
    rw [hcommit]

end Invariant

variable {T : Type} [DecidableEq T]

abbrev MethodEvent (T : Type) :=
  Interleaving.Event T StatementEff StatementEff.Res Method Choice MethodReply

abbrev RepositorySystem (T : Type) :=
  Interleaving.State T StatementEff StatementEff.Res Method Shared Cooldowns MethodReply

def timeRead (t : T) : List (MethodEvent T) → Option Instant
  | [] => none
  | .start t' _ :: h => if t' = t then none else timeRead t h
  | .did t' _ e r :: h => if t' = t then (readBy e r).or (timeRead t h) else timeRead t h
  | _ :: h => timeRead t h

/-- What a step takes from its surroundings. -/
def momentOf (h : List (MethodEvent T)) (t : T) (c : Choice) : Moment :=
  ⟨(timeRead t h).getD .earliest, c.connection⟩

/-- A failure that is written now is of the attempt that has been seen: nobody has claimed or
replayed the request since. -/
def Undisturbed (s : RepositorySystem T) : MethodEvent T → Prop
  | .did _ _ e _ => e.Current s.shared.db
  | _ => True

instance (s : RepositorySystem T) (ev : MethodEvent T) : Decidable (Undisturbed s ev) :=
  match ev with
  | .did _ _ e _ => inferInstanceAs (Decidable (e.Current s.shared.db))
  | .start .. | .stop .. | .disturb => .isTrue trivial

variable [JsonCodec]

def RepositoryInitial (s : RepositorySystem T) : Prop :=
  s.shared.db = .empty ∧ ∀ t, s.running t = none

/-- Concurrent calls of the methods, from empty tables, whose failures are undisturbed. -/
abbrev RepositoryRuns (h : List (MethodEvent T)) (s : RepositorySystem T) : Prop :=
  Interleaving.RunsWithin repositoryMachine RepositoryInitial (fun _ s ev _ => Undisturbed s ev) h s

/-- The notes of the calls are true of the tables and of their histories. -/
def Noted (h : List (MethodEvent T)) (db : Database) : Prop :=
  ∀ t method note, linearization.phase h t = .pending method note →
    note.Holds db method ∧ note.now = timeRead t h

variable {h : List (MethodEvent T)} {s s' : RepositorySystem T}

theorem submissions_grow_handle {c : Choice} {e : StatementEff} {r : e.Res} {s s' : Shared}
    {l l' : Cooldowns} (hh : statementHandle c e s l = (r, s', l')) :
    s.db.submissions <+: s'.db.submissions := by
  cases e with
  | program e =>
    have hhandle : handle c e s l = (r, s', l') := hh
    rcases handle_db hhandle with hdb | ⟨op, rfl⟩
    · rw [hdb]
    · exact (handle_outcome hhandle).wrote.submissions_grow
  | selectAttempts id =>
    have hsame := statementHandle_selectAttempts c id s l
    rw [hh] at hsame
    rw [show s' = s from congrArg Prod.fst hsame]
  | writeFailure id detail delay seen now =>
    rcases commit_writeFailureTx (statementHandle_writeFailure hh) with
      ⟨_, -, -, -, hdb⟩ | ⟨-, -, hdb⟩
    · rw [hdb, Database.submissions_move]
    · rw [hdb]

theorem linearization_proceeds {t : T} {c : Choice} {e : StatementEff} {r : e.Res}
    (hI : Noted h s.shared.db) (hal : linearization.allowed (linearization.phase h t) e)
    (hs : Interleaving.Step repositoryMachine s (.did t c e r) s') :
    ∃ method note, linearization.phase h t = .pending method note ∧
      Proceeds c method note e r s.shared.db s'.shared.db := by
  cases hph : linearization.phase h t with
  | pending method note =>
    rw [hph] at hal
    exact ⟨method, note, rfl, proceeds hal (hI t method note hph).1 hs.did_handle⟩
  | _ =>
    rw [hph] at hal
    cases hal

theorem linearization_keeps :
    linearization.Keeps repositoryMachine (RepositoryInitial (T := T))
      (fun method stage reply => stage = .answered method reply) (fun _ => True)
      (fun h s => Noted h s.shared.db) where
  code := linearization_code
  past _ := trivial
  init := by
    intro s hi t method note hph
    cases hph
  start := by
    intro h s s' t method _ _ hI hidle hs t' method' note hph
    rw [hs.start_shared]
    rw [linearization.phase_start] at hph
    by_cases ht : t' = t
    · subst ht
      rw [Function.update_self] at hph
      cases hph
      exact ⟨trivial, (if_pos rfl).symm⟩
    · rw [Function.update_of_ne ht] at hph
      have hnote := hI t' method' note hph
      simpa only [timeRead, if_neg (Ne.symm ht)] using hnote
  did := by
    intro h s s' t c e r _ _ hI hal hs
    obtain ⟨method, note, hph, hp⟩ := linearization_proceeds hI hal hs
    refine ⟨hp.admits, ?_⟩
    intro t' method' note' hph'
    rw [linearization.phase_did] at hph'
    by_cases ht : t' = t
    · subst ht
      rw [Function.update_self, hph] at hph'
      obtain ⟨rfl, hholds, hnow⟩ := hp.noted method' note' hph'
      refine ⟨hholds, ?_⟩
      rw [hnow, (hI t' method' note hph).2]
      exact (if_pos rfl).symm
    · rw [Function.update_of_ne ht] at hph'
      have hnote := hI t' method' note' hph'
      refine ⟨hnote.1.later (submissions_grow_handle hs.did_handle), ?_⟩
      simpa only [timeRead, if_neg (Ne.symm ht)] using hnote.2
  stop := by
    intro h s s' t method reply _ _ hI _ hs t' method' note hph
    rw [hs.stop_shared]
    rw [linearization.phase_stop] at hph
    by_cases ht : t' = t
    · subst ht
      rw [Function.update_self] at hph
      cases hph
    · rw [Function.update_of_ne ht] at hph
      exact hI t' method' note hph
  disturb := by
    intro h s s' _ _ hI hs t' method' note hph
    rw [show s'.shared.db = s.shared.db from hs.disturb_shared]
    exact hI t' method' note hph

theorem linearization_implements :
    Implements repositoryMachine (RepositoryInitial (T := T)) (fun _ s ev _ => Undisturbed s ev)
      (·.db) Method.atomic .empty linearization momentOf where
  idle := rfl
  start _ := ⟨.fresh, rfl⟩
  follows hr := (linearization_keeps.runs (fun _ hi => hi.2) hr trivial).1
  advances := by
    intro h s s' t c e r hr hs hok
    obtain ⟨hf, hI⟩ := linearization_keeps.runs (fun _ hi => hi.2) hr trivial
    obtain ⟨method, note, hph, hp⟩ := linearization_proceeds hI (hf.allowed hs) hs
    have hmoment : note.moment c = momentOf h t c := by
      rw [Note.moment, momentOf, (hI t method note hph).2]
    rw [hph, ← hmoment]
    exact hp.advances hok
  init _ hi := hi.1
  disturb _ _ hd := hd

/-- Concurrent calls of the repository are linearizable, as long as nobody claims or replays a
request while a failure of it is being recorded: some order of its operations, each between the
start and the end of its call and at the time that the call has read, explains every answer and
the tables. -/
theorem repository_linearizable (hr : RepositoryRuns h s) :
    ∃ ops, Linearizes Method.atomic momentOf .empty h ops s.shared.db :=
  ⟨_, linearization_implements.linearizes hr⟩

open Interleaving.Turn in
/-- Two callers submit under one key; both look it up before either inserts. Then the first
claims the request and records a failure, and the second reads between its statements. -/
def concurrentCalls : List (Interleaving.Turn ℕ Method Choice) :=
  [start 0 (.call (.create "a" sampleRequest)), start 1 (.call (.create "b" sampleRequest)),
    go 0 .calm, go 1 .calm, go 0 .calm, go 1 .calm, go 0 .calm, go 1 .calm, go 1 .calm,
    go 1 .calm, go 0 .calm, start 0 (.call (.claim "a")), go 0 .calm, go 0 .calm, go 0 .calm,
    start 0 (.call (.failOrRetry "a" "boom" 5)), go 0 .calm, start 1 (.get "a"), go 1 .calm,
    go 1 .calm, go 0 .calm, go 0 .calm, go 0 .calm]

omit [JsonCodec] in
/-- All of them are answered; one row is stored, and has failed once. -/
theorem repository_linearizable_sample : letI := emptyPayload
    ∃ (h : List (MethodEvent ℕ)) (db : Database),
      (Interleaving.ended 0 h).length = 3 ∧ (Interleaving.ended 1 h).length = 2 ∧
      db.requests.map (fun row => (row.requestId, row.detail)) =
        [("a", "Moved to dead letter after 1 attempts: boom")] ∧
      ∃ ops, Linearizes Method.atomic momentOf .empty h ops db := by
  let _ := emptyPayload
  let s₀ : RepositorySystem ℕ := ⟨⟨.empty, fun _ => []⟩, fun _ _ => none, fun _ => none⟩
  have hr : RepositoryRuns [] s₀ := .init ⟨rfl, fun _ => rfl⟩
  have hpasses : s₀.passes repositoryMachine (fun s ev => decide (Undisturbed s ev))
      concurrentCalls = true := by decide +kernel
  have hrun := hr.play of_decide_eq_true concurrentCalls hpasses
  refine ⟨_, _, ?_, ?_, ?_, repository_linearizable hrun⟩
  all_goals decide +kernel

end Orchestrator
