import Orchestrator.Callers
import Orchestrator.Submission

/-!
# What is executed is what was submitted

The columns that a submission writes are never written again, and the request that a claim
rebuilds depends on these columns only. So a claim hands out the request of the call that
inserted the row, however many attempts and replays lie in between.
-/

namespace Orchestrator

open Interaction Discipline AutomationRepository Table
set_option autoImplicit false

/-- The calls of `create` for a request; `submit` makes the id itself. -/
def OpenCall.Creates : OpenCall → String → AutomationRequest → Prop
  | program (.create id request), id', request' => id' = id ∧ request' = request
  | program (.submit _ request), _, request' => request' = request
  | repository (.create id request), id', request' => id' = id ∧ request' = request
  | _, _, _ => False

theorem creating_repository (call : RepositoryCall) :
    (creating OpenCall.Creates).wp call.code (fun _ _ => True) (some (.repository call)) := by
  have works : (creating OpenCall.Creates).Ignores (·.kind = .works) :=
    creating_ignores (by decide)
  cases call with
  | create id request =>
    have hcall : (OpenCall.repository (.create id request)).Creates id request := ⟨rfl, rfl⟩
    have hcreate := creating_create hcall
    exact (wp_bind ..).mpr ((creating OpenCall.Creates).wp_mono hcreate fun _ _ _ => trivial)
  | claim id => exact (neutral_claim creating_quiet (ignores_claims works) id).safe.map _ _
  | claimNext => exact (neutral_claimNext creating_quiet (ignores_claims works)).safe.map _ _
  | complete id detail => exact (neutral_complete creating_quiet works id detail).safe.map _ _
  | failOrRetry id detail delay => exact (neutral_failOrRetry works id detail delay).safe.map _ _
  | replayDeadLetter id =>
    have h : (creating OpenCall.Creates).Neutral (AutomationRepository.replayDeadLetter id) := by
      refine .bind (neutral_utcNow creating_plain) fun now => .bind ?_ fun _ => .ofExcept _
      exact .effect (.transaction (.replayDeadLetter id now)) (fun _ => ⟨trivial, fun _ => rfl⟩) rfl
    exact h.safe.map _ _

theorem creating_code (call : OpenCall) :
    (creating OpenCall.Creates).wp call.code (fun _ _ => True) (some call) := by
  have hprogram : ∀ {call : Call} {id request}, call.Submits id request →
      (OpenCall.program call).Creates id request := by
    intro call id request hsubmits
    cases call <;> exact hsubmits
  cases call with
  | program call =>
    exact (wp_bind ..).mpr ((creating OpenCall.Creates).wp_mono
      (creating_program OpenCall.program hprogram call) fun _ _ _ => trivial)
  | repository call =>
    exact (wp_bind ..).mpr ((creating OpenCall.Creates).wp_mono
      (creating_repository call) fun _ _ _ => trivial)

section Rebuilding
variable [JsonCodec]

/-- The `json` module gives the payload back. -/
def AutomationRequest.RoundTrips (request : AutomationRequest) : Prop :=
  JsonCodec.loads (JsonCodec.dumps request.payload) = .ok (.obj request.payload)

/-- The request depends on the columns of the submission only. -/
def Submission.toRequest (sub : Submission) : Except PyExc AutomationRequest := do
  let executionChannel ← ExecutionChannel.ofValue sub.executionChannel
  let payload ← JsonCodec.loads sub.payloadJson
  AutomationRequest.validate sub.process sub.target executionChannel payload sub.idempotencyKey
    sub.maxAttempts

theorem toRequest_submissionOf (id : String) {request : AutomationRequest}
    (hjson : request.RoundTrips) : (submissionOf id request).toRequest = .ok request := by
  have hchannel : ExecutionChannel.ofValue (submissionOf id request).executionChannel =
      .ok request.executionChannel := ExecutionChannel.ofValue_value _
  have hpayload : JsonCodec.loads (submissionOf id request).payloadJson =
      .ok (.obj request.payload) := hjson
  rw [Submission.toRequest, hchannel, hpayload]
  exact dif_pos request.valid

theorem toRequest_of_submission {row : RequestRow} {id : String} {request : AutomationRequest}
    (hsub : row.submission = submissionOf id request) (hjson : request.RoundTrips) :
    row.toRequest = .ok request := by
  change row.submission.toRequest = .ok request
  rw [hsub]
  exact toRequest_submissionOf id hjson

theorem claim_error {clock : Instant} {connection : Connection} {db db' : Database}
    {op : TransactionOp} {exc : PyExc}
    (hop : (∃ now, op = .claimNext now) ∨ ∃ id now, op = .claim id now)
    (h : (op.body connection clock).commit db = (.error exc, db')) :
    ∃ row ∈ db.requests, row.toRequest = .error exc := by
  have hexec := Transaction.Tx.exec_of_commit_error h
  rcases hop with ⟨now, rfl⟩ | ⟨id, now, rfl⟩
  · obtain ⟨row, hsel, hreq⟩ := claimed_error ((claimNextTx_eq connection now db).symm.trans hexec)
    exact ⟨row, List.mem_of_find?_eq_some (oldestEligible_spec hsel).1, hreq⟩
  · obtain ⟨row, hsel, hreq⟩ := claimed_error ((claimTx_eq connection id now db).symm.trans hexec)
    exact ⟨row, List.mem_of_find?_eq_some (eligibleRow_spec hsel).1, hreq⟩

end Rebuilding

section Runs
variable [JsonCodec] {T : Type} [DecidableEq T] {h : List (OpenEvent T)} {s s' : OpenSystem T}

/-- The call that inserted a row, and the request it was given, read off the history. -/
def CreatedBy : List (OpenEvent T) → String → AutomationRequest → Prop
  | [], _, _ => False
  | ev :: h, id, request => CreatedBy h id request ∨ ∃ t c now call,
      ev = .did t c (.transaction (.insertRequest id request now)) (.ok ()) ∧
      (creating OpenCall.Creates).phase h t = some call ∧ call.Creates id request

theorem OpenRuns.creating (hr : OpenRuns h s) :
    (creating OpenCall.Creates).Follows (fun _ _ _ => True) h s :=
  Interleaving.Protocol.follows_runs creating_code (fun _ _ _ => trivial) (fun _ hi => hi.2.1) hr

/-- Every row was inserted by one call, and still has the columns of its request. -/
structure Provenance (h : List (OpenEvent T)) (db : Database) : Prop where
  created : ∀ id row, db.row? id = some row → ∃ request, CreatedBy h id request
  kept : ∀ id request, CreatedBy h id request →
    ∃ row, db.row? id = some row ∧ row.submission = submissionOf id request

theorem Provenance.move {db : Database} (hrec : Provenance h db) (id : String) (tr : Transition) :
    Provenance h (db.move id tr) := by
  constructor
  · intro id' row hrow
    rw [Database.row?_move, Option.map_eq_some_iff] at hrow
    obtain ⟨old, hold, -⟩ := hrow
    exact hrec.created id' old hold
  · intro id' request hcreated
    obtain ⟨row, hrow, hsub⟩ := hrec.kept id' request hcreated
    refine ⟨if id' = id then row.set tr.values else row, ?_, ?_⟩
    · rw [Database.row?_move, hrow]
      rfl
    · split
      · exact hsub
      · exact hsub

theorem Provenance.insert {db db' : Database} {t : T} {c : Choice} {id now : String}
    {request : AutomationRequest} {call : OpenCall} (hrec : Provenance h db)
    (hphase : (Orchestrator.creating OpenCall.Creates).phase h t = some call)
    (hcall : call.Creates id request) (hsub : Submitted db db' id request now) :
    Provenance (.did t c (.transaction (.insertRequest id request now)) (.ok ()) :: h) db' := by
  constructor
  · intro id' row hrow
    rcases hsub.row_cases hrow with ⟨rfl, -⟩ | ⟨-, hrow⟩
    · exact ⟨request, .inr ⟨t, c, now, call, rfl, hphase, hcall⟩⟩
    · obtain ⟨request', hcreated⟩ := hrec.created id' row hrow
      exact ⟨request', .inl hcreated⟩
  · intro id' request' hcreated
    rcases hcreated with hold | ⟨t', c', now', call', hev, -, -⟩
    · obtain ⟨row, hrow, hkept⟩ := hrec.kept id' request' hold
      exact ⟨row, hsub.row? hrow, hkept⟩
    · cases hev
      exact ⟨_, hsub.row?_self, rfl⟩

theorem Provenance.quiet {ev : OpenEvent T} {db : Database} (hrec : Provenance h db)
    (hev : ∀ t c id request now,
      ev ≠ .did t c (.transaction (.insertRequest id request now)) (.ok ())) :
    Provenance (ev :: h) db := by
  constructor
  · intro id row hrow
    obtain ⟨request, hcreated⟩ := hrec.created id row hrow
    exact ⟨request, .inl hcreated⟩
  · intro id request hcreated
    rcases hcreated with hold | ⟨t, c, now, call, heq, -, -⟩
    · exact hrec.kept id request hold
    · exact absurd heq (hev t c id request now)

theorem OpenRuns.provenance (hr : OpenRuns h s) : Provenance h s.shared.db := by
  apply Interleaving.Runs.invariant (I := fun h s => Provenance h s.shared.db) ?_ ?_ hr
  · intro s hi
    rw [hi.1]
    constructor
    · intro id row hrow
      cases hrow
    · intro id request hcreated
      exact False.elim hcreated
  · intro h s s' ev hr hrec hs
    by_cases hev : ∃ t c id request now,
        ev = .did t c (.transaction (.insertRequest id request now)) (.ok ())
    · obtain ⟨t, c, id, request, now, rfl⟩ := hev
      obtain ⟨call, hphase, hcall⟩ := (OpenRuns.creating hr).allowed hs
      exact hrec.insert hphase hcall (open_outcome hs)
    · have hquiet : Provenance (ev :: h) s.shared.db := by
        apply hrec.quiet
        intro t c id request now heq
        exact hev ⟨t, c, id, request, now, heq⟩
      rcases open_step hs with hdb | ⟨t, c, op, r, rfl, hw⟩
      · rwa [hdb]
      · generalize s'.shared.db = db' at hw ⊢
        cases hw with
        | nothing => exact hquiet
        | inserted => exact absurd ⟨_, _, _, _, _, rfl⟩ hev
        | _ => exact hquiet.move _ _

def TransactionOp.claimed : (op : TransactionOp) → Except PyExc op.Result →
    Option (String × AutomationRequest)
  | claim .., .ok answer | claimNext _, .ok answer => answer
  | _, _ => none

def TransactionOp.isClaim : TransactionOp → Bool
  | claim .. | claimNext _ => true
  | _ => false

theorem Outcome.claimed {clock : Instant} {db db' : Database} {op : TransactionOp}
    {r : Except PyExc op.Result} {id : String} {request : AutomationRequest}
    (ho : Outcome clock db db' op r) (hclaimed : op.claimed r = some (id, request)) :
    ∃ now, Claimed db db' id request now := by
  cases r with
  | error exc => cases op <;> cases hclaimed
  | ok answer =>
    cases op with
    | claimNext now =>
      obtain rfl : answer = some (id, request) := hclaimed
      exact ⟨now, ho⟩
    | claim id' now =>
      obtain rfl : answer = some (id, request) := hclaimed
      obtain ⟨rfl, hc⟩ := ho
      exact ⟨now, hc⟩
    | _ => cases hclaimed

def TransactionOp.subject : (op : TransactionOp) → Except PyExc op.Result → Option String
  | insertRequest id _ _, _ | claim id _, _ | failOrRetry id _ _, _ => some id
  | updateStatus id _ _ _, _ | replayDeadLetter id _, _ => some id
  | claimNext _, .ok (some (id, _)) => some id
  | _, _ => none

def SameRequest (db db' : Database) (id : String) : Prop :=
  db'.row? id = db.row? id ∧
    entriesOf EventRow.requestId id db'.events = entriesOf EventRow.requestId id db.events

omit [JsonCodec] in
theorem sameRequest_move (db : Database) {id id' : String} (tr : Transition) (hne : id' ≠ id) :
    SameRequest db (db.move id tr) id' := by
  refine ⟨Database.row?_move_of_ne tr hne, ?_⟩
  rw [Database.entriesOf_move, if_neg hne, List.append_nil]

theorem Wrote.sameRequest {clock : Instant} {db db' : Database} {op : TransactionOp}
    {r : Except PyExc op.Result} (hw : Wrote clock db op r db') {id : String}
    (hne : op.subject r ≠ some id) : SameRequest db db' id := by
  cases hw with
  | nothing => exact ⟨rfl, rfl⟩
  | @inserted db' id' now request hsub =>
    have hne : id ≠ id' := fun heq => hne (heq ▸ rfl)
    constructor
    · exact hsub.row?_of_ne hne
    · rw [hsub.events, entriesOf_append_singleton, if_neg (Ne.symm hne)]
  | _ => exact sameRequest_move _ _ fun heq => hne (heq ▸ rfl)

/-- In every run of any callers: each row can be rebuilt, into the request of the call that
inserted it; a claim hands this request out and raises for no other reason than a payload that
the `json` module does not give back; and no step touches a request that it is not about. -/
theorem executed_as_submitted (hr : OpenRuns h s) :
    (∀ row ∈ s.shared.db.requests, (∃ request, CreatedBy h row.requestId request) ∧
      ∀ request, CreatedBy h row.requestId request → request.RoundTrips →
        row.toRequest = .ok request) ∧
    ∀ ev s', OpenStep s ev s' →
      (s'.shared.db = s.shared.db ∨ ∃ t c op r, ev = .did t c (.transaction op) r) ∧
      ∀ t c op r, ev = .did t c (.transaction op) r →
        (∀ id request, op.claimed r = some (id, request) →
          (∃ submitted, CreatedBy h id submitted) ∧
          ∀ submitted, CreatedBy h id submitted → submitted.RoundTrips → request = submitted) ∧
        (∀ exc, op.isClaim = true → r = .error exc →
          ∃ id submitted, CreatedBy h id submitted ∧ ¬ submitted.RoundTrips) ∧
        ∀ id, op.subject r ≠ some id → SameRequest s.shared.db s'.shared.db id := by
  have hrec := hr.provenance
  have hrebuilt : ∀ {id row request}, s.shared.db.row? id = some row → CreatedBy h id request →
      request.RoundTrips → row.toRequest = .ok request := by
    intro id row request hrow hcreated hjson
    obtain ⟨row', hrow', hsub⟩ := hrec.kept id request hcreated
    obtain rfl : row' = row := Option.some.inj (hrow'.symm.trans hrow)
    exact toRequest_of_submission hsub hjson
  refine ⟨?_, ?_⟩
  · intro row hmem
    have hrow := Database.row?_of_mem hmem
    exact ⟨hrec.created _ _ hrow, fun request hcreated => hrebuilt hrow hcreated⟩
  intro ev s' hs
  refine ⟨?_, ?_⟩
  · rcases open_step hs with hdb | ⟨t, c, op, r, rfl, -⟩
    · exact .inl hdb
    · exact .inr ⟨t, c, op, r, rfl⟩
  intro t c op r hev
  subst hev
  have hout := open_outcome hs
  refine ⟨?_, ?_, fun id hne => hout.wrote.sameRequest hne⟩
  · intro id request hclaimed
    obtain ⟨now, row, hrow, -, hreq, -⟩ := hout.claimed hclaimed
    refine ⟨hrec.created id row hrow, ?_⟩
    intro submitted hcreated hjson
    rw [hrebuilt hrow hcreated hjson] at hreq
    cases hreq
    rfl
  · intro exc hclaim herror
    subst herror
    have hop : (∃ now, op = .claimNext now) ∨ ∃ id now, op = .claim id now := by
      cases op with
      | claimNext now => exact .inl ⟨now, rfl⟩
      | claim id now => exact .inr ⟨id, now, rfl⟩
      | _ => cases hclaim
    obtain ⟨row, hmem, hraise⟩ := claim_error hop (open_commit hs)
    have hrow := Database.row?_of_mem hmem
    obtain ⟨request, hcreated⟩ := hrec.created _ _ hrow
    refine ⟨row.requestId, request, hcreated, ?_⟩
    intro hjson
    rw [hrebuilt hrow hcreated hjson] at hraise
    cases hraise

def invoiceRequest : AutomationRequest :=
  { keylessRequest with payload := [("invoice", .int 17)], valid := by decide }

@[reducible] def invoicePayload : JsonCodec :=
  { readingCodec fun s =>
      if s = "\x7b\"invoice\": 17\x7d" then .ok (.obj invoiceRequest.payload)
      else .error (.jsonDecodeError "Expecting value") with
    dumps := fun _ => "\x7b\"invoice\": 17\x7d" }

open Interleaving.Turn in
/-- The request has been submitted, and a worker is about to claim it. -/
def invoiceOffered : List (OpenEvent ℕ) × OpenSystem ℕ :=
  letI := invoicePayload
  Interleaving.State.play openMachine
    [start 0 (.repository (.create "a" invoiceRequest)), go 0 .calm, go 0 .calm, go 0 .calm,
      start 1 (.program (.runOnce sampleWorker)), go 1 .calm] ([], OpenSystem.initial)

omit [JsonCodec] in
/-- What the worker claims is what was submitted. -/
theorem executed_as_submitted_sample : letI := invoicePayload
    invoiceRequest.RoundTrips ∧
      ∃ (now : String) (r : Except PyExc (Option _)) (s' : OpenSystem ℕ),
        OpenStep invoiceOffered.2 (.did 1 .calm (.transaction (.claimNext now)) r) s' ∧
        (TransactionOp.claimNext now).claimed r = some ("a", invoiceRequest) := by
  let _ := invoicePayload
  have hinitial : OpenRuns [] OpenSystem.initial := .init ⟨rfl, fun _ => rfl, fun _ _ => rfl⟩
  have hr : OpenRuns invoiceOffered.1 invoiceOffered.2 := Interleaving.Runs.play _ hinitial
  have hjson : invoiceRequest.RoundTrips := if_pos rfl
  have hcreated : CreatedBy invoiceOffered.1 "a" invoiceRequest :=
    .inl (.inl (.inl (.inr ⟨0, .calm, _, _, rfl, rfl, rfl, rfl⟩)))
  have hpending : invoiceOffered.2.pending 1 =
      some (.transaction (.claimNext Choice.calm.utc.isoformat)) := rfl
  obtain ⟨s', hs, -⟩ := Interleaving.State.pending_step hpending Choice.calm
  refine ⟨hjson, _, _, s', hs, ?_⟩
  have hid : (TransactionOp.claimed (.claimNext Choice.calm.utc.isoformat)
      (openMachine.handle Choice.calm (.transaction (.claimNext Choice.calm.utc.isoformat))
        invoiceOffered.2.shared (invoiceOffered.2.locals 1)).1).map Prod.fst = some "a" := by
    decide +kernel
  obtain ⟨⟨id, request⟩, hclaimed, rfl⟩ := Option.map_eq_some_iff.mp hid
  have hsubmitted := ((executed_as_submitted hr).2 _ s' hs).2 1 .calm _ _ rfl
  obtain rfl := (hsubmitted.1 _ request hclaimed).2 invoiceRequest hcreated hjson
  exact hclaimed

end Runs

end Orchestrator
