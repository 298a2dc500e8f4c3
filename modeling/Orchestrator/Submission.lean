import Orchestrator.Library.Registry
import Orchestrator.Requests

/-!
# Idempotent submission

The columns that an INSERT writes and no UPDATE touches form an append-only registry
under the idempotency keys. `create` looks a key up, inserts, and looks it up again when
the insertion clashes; whatever other processes do in between, it finds its entry.
-/

namespace Orchestrator

open Interaction Lease Registry
set_option autoImplicit false

/-- The columns of a request that never change. -/
structure Submission where
  requestId : String
  idempotencyKey : Option String
  process : String
  target : String
  executionChannel : String
  payloadJson : String
  maxAttempts : Int
deriving DecidableEq

def RequestRow.submission (row : RequestRow) : Submission where
  requestId := row.requestId
  idempotencyKey := row.idempotencyKey
  process := row.process
  target := row.target
  executionChannel := row.executionChannel
  payloadJson := row.payloadJson
  maxAttempts := row.maxAttempts

def Database.submissions (db : Database) : List Submission := db.requests.map (·.submission)

/-- The id that a list of submissions has under a key. -/
abbrev findKey (key : String) (subs : List Submission) : Option String :=
  find Submission.idempotencyKey Submission.requestId key subs

theorem Database.selectByKey_eq (db : Database) (key : String) :
    db.selectByKey key = findKey key db.submissions := by
  rw [findKey, find, submissions, List.find?_map, Option.map_map]
  rfl

theorem Database.submissions_key (db : Database) :
    db.submissions.filterMap (·.idempotencyKey) = db.requests.filterMap (·.idempotencyKey) := by
  rw [submissions, List.filterMap_map]
  rfl

theorem Database.findKey_of_mem (db : Database) {row : RequestRow} {key : String}
    (hrow : row ∈ db.requests) (hkey : row.idempotencyKey = some key) :
    findKey key db.submissions = some row.requestId := by
  have hn : (db.submissions.filterMap (·.idempotencyKey)).Nodup := by
    rw [submissions_key]
    exact db.uniqueKey
  exact find_of_mem hn (List.mem_map.mpr ⟨row, hrow, rfl⟩) hkey

theorem Database.row?_eq_none {db : Database} {id : String} :
    db.row? id = none ↔ id ∉ db.submissions.map (·.requestId) := by
  rw [row?, Table.lookup_eq_none, submissions, List.map_map]
  rfl

theorem Database.submissions_move (db : Database) (id : String) (tr : Transition) :
    (db.move id tr).submissions = db.submissions := by
  change ((db.requests.map fun row => if row.requestId = id then row.set tr.values else row).map
    RequestRow.submission) = _
  rw [List.map_map]
  apply List.map_congr_left
  intro row _
  simp only [Function.comp_apply]
  split <;> rfl

section Changes
variable [JsonCodec]

/-- What a call for a request registers under its id. -/
def submissionOf (requestId : String) (request : AutomationRequest) : Submission :=
  (submittedRow requestId request "").submission

@[simp] theorem submissionOf_requestId (id : String) (request : AutomationRequest) :
    (submissionOf id request).requestId = id := rfl

@[simp] theorem submissionOf_idempotencyKey (id : String) (request : AutomationRequest) :
    (submissionOf id request).idempotencyKey = request.idempotencyKey := rfl

/-- The columns of a row are the fields of a request. -/
structure RequestRow.Carries (row : RequestRow) (request : AutomationRequest) : Prop where
  idempotencyKey : row.idempotencyKey = request.idempotencyKey
  process : row.process = request.process
  target : row.target = request.target
  executionChannel : row.executionChannel = request.executionChannel.value
  payloadJson : row.payloadJson = JsonCodec.dumps request.payload
  maxAttempts : row.maxAttempts = request.maxAttempts

theorem RequestRow.carries {row : RequestRow} {id : String} {request : AutomationRequest}
    (h : row.submission = submissionOf id request) : row.Carries request where
  idempotencyKey := congrArg Submission.idempotencyKey h
  process := congrArg Submission.process h
  target := congrArg Submission.target h
  executionChannel := congrArg Submission.executionChannel h
  payloadJson := congrArg Submission.payloadJson h
  maxAttempts := congrArg Submission.maxAttempts h

theorem Submitted.submissions {db db' : Database} {id now : String} {request : AutomationRequest}
    (hsub : Submitted db db' id request now) :
    db'.submissions = db.submissions ++ [submissionOf id request] ∧
      ∀ key, request.idempotencyKey = some key →
        key ∉ db.submissions.filterMap (·.idempotencyKey) := by
  obtain ⟨db₁, hins, rfl⟩ := hsub
  obtain ⟨-, hkey, hreq, -, -⟩ := Database.insertRequest_ok hins
  constructor
  · change db₁.requests.map _ = _
    rw [hreq, List.map_append]
    rfl
  · intro key hk hmem
    rw [Database.submissions_key] at hmem
    rw [show (submittedRow id request now).idempotencyKey = some key from hk] at hkey
    simp only [Database.keyTaken, decide_eq_false_iff_not] at hkey
    exact hkey hmem

theorem Change.submissions {db db' : Database} {ph ph' : Phase} {mark : Option (String × Job.Mark)}
    (hc : Change db ph mark db' ph') (hm : ∀ id, mark ≠ some (id, .enqueue)) :
    db'.submissions = db.submissions := by
  cases hc with
  | quiet | execute => rfl
  | enqueue hsub => exact absurd rfl (hm _)
  | _ => exact Database.submissions_move _ _ _

theorem Change.submissions_grow {db db' : Database} {ph ph' : Phase}
    {mark : Option (String × Job.Mark)} (hc : Change db ph mark db' ph') :
    db.submissions <+: db'.submissions := by
  by_cases hm : ∃ id, mark = some (id, .enqueue)
  · obtain ⟨id, rfl⟩ := hm
    cases hc with
    | enqueue hsub =>
      rw [hsub.submissions.1]
      exact List.prefix_append _ _
  · have hsame := hc.submissions fun id heq => hm ⟨id, heq⟩
    exact hsame ▸ List.prefix_rfl

end Changes

/-- How far a call has got with the submission it was given. -/
inductive Submitting where
  | idle
  | awaiting (request : AutomationRequest)
  | creating (requestId : String) (request : AutomationRequest)
  | conflict (requestId : String) (request : AutomationRequest)
  | created (requestId : String) (request : AutomationRequest) (result : String)

namespace Submitting

/-- The id that a call may still insert. -/
def candidate : Submitting → Option String
  | creating id _ | conflict id _ => some id
  | _ => none

def allows (ph : Submitting) : Eff → Prop
  | .uuid4 => ∃ request, ph = awaiting request
  | .transaction (.selectByKey key) => ∃ id request, request.idempotencyKey = some key ∧
      (ph = creating id request ∨ ph = conflict id request)
  | .transaction (.insertRequest id request _) => ph = creating id request
  | _ => True

/-- A pre-check answers; an insertion is done or clashes with its key; then the key is found. -/
def admits (ph : Submitting) : (e : Eff) → e.Res → Prop
  | .transaction (.selectByKey _), r => ∃ found, r = .ok found ∧
      ∀ id request, ph = conflict id request → found ≠ none
  | .transaction (.insertRequest _ request _), r =>
      r = .ok () ∨ ∃ x, r = .error x ∧ x.isIntegrityError = true ∧ request.idempotencyKey ≠ none
  | _, _ => True

def next (ph : Submitting) : (e : Eff) → e.Res → Submitting
  | .uuid4, id =>
    match ph with
    | awaiting request => creating id request
    | _ => ph
  | .transaction (.selectByKey _), .ok (some existing) =>
    match ph with
    | creating id request => if existing = "" then ph else created id request existing
    | conflict id request => created id request existing
    | _ => ph
  | .transaction (.insertRequest ..), r =>
    match ph with
    | creating id request => if r.isOk then created id request id else conflict id request
    | _ => ph
  | _, _ => ph

end Submitting

def submission : Interleaving.Protocol Eff Eff.Res Call Submitting where
  allowed := Submitting.allows
  admits := Submitting.admits
  next := Submitting.next
  idle := .idle
  start
    | .create id request => .creating id request
    | .submit _ request => .awaiting request
    | _ => .idle

def Returns (call : Call) (ph : Submitting) (reply : Reply) : Prop :=
  ∀ id request, call = .create id request →
    ∃ result, ph = .created id request result ∧ reply = .created (.ok result)

open Discipline AutomationRepository

theorem submission_ignores {k : Eff.Kind} (hk : k ≠ .submits) :
    submission.Ignores (·.kind = k) := by
  rintro e rfl ph
  cases e with
  | uuid4 => exact absurd rfl hk
  | transaction op => cases op <;> first | exact absurd rfl hk | exact ⟨trivial, fun _ => rfl⟩
  | _ => exact ⟨trivial, fun _ => rfl⟩

theorem submission_quiet : submission.Ignores (·.kind = .quiet) := submission_ignores (by decide)

def Settled (id : String) (request : AutomationRequest) (ph : Submitting)
    (r : Except PyExc String) : Prop :=
  ∃ result, ph = .created id request result ∧ r = .ok result

theorem filter_key (request : AutomationRequest) :
    request.idempotencyKey.filter (· ≠ "") = request.idempotencyKey := by
  cases hk : request.idempotencyKey with
  | none => rfl
  | some key => simp [request.key_ne_empty hk]

theorem wp_insertOrFind (id : String) (request : AutomationRequest) (now : String) :
    submission.wp (insertOrFind id request now).run (Settled id request)
      (.creating id request) := by
  rw [insertOrFind, wp_except_bind, Py.wp_attempt, Py.wp_transaction]
  refine ⟨rfl, ?_⟩
  intro r hr
  rcases hr with rfl | ⟨x, rfl, hx, hne⟩
  · exact ⟨id, rfl, rfl⟩
  · obtain ⟨key, hkey⟩ := Option.ne_none_iff_exists'.mp hne
    simp only [hx, if_true]
    rw [filter_key, hkey]
    refine (wp_except_bind ..).mpr ⟨⟨id, request, hkey, .inr rfl⟩, ?_⟩
    intro r hr
    obtain ⟨found, rfl, hfound⟩ := hr
    cases found with
    | none => exact absurd rfl (hfound id request rfl)
    | some existing => exact ⟨existing, rfl, rfl⟩

theorem wp_create (id : String) (request : AutomationRequest) :
    submission.wp (create id request).run (Settled id request) (.creating id request) := by
  rw [create, wp_except_bind, Py.wp_utcNow]
  refine ⟨trivial, ?_⟩
  intro now _
  rw [findExisting, filter_key]
  cases hkey : request.idempotencyKey with
  | none => exact wp_insertOrFind id request _
  | some key =>
    refine (wp_except_bind ..).mpr ((wp_except_bind ..).mpr ⟨⟨id, request, hkey, .inl rfl⟩, ?_⟩)
    intro r hr
    obtain ⟨found, rfl, -⟩ := hr
    cases found with
    | none => exact wp_insertOrFind id request _
    | some existing =>
      by_cases he : existing = ""
      · subst he
        exact wp_insertOrFind id request _
      · have hf : Option.filter (fun x => decide (x ≠ "")) (some existing) = some existing := by
          simp [he]
        simp only [wp_ret, wp_except_pure, hf]
        exact ⟨existing, if_neg he, rfl⟩

theorem submission_code (call : Call) :
    submission.wp call.code (Returns call) (submission.start call) := by
  cases call with
  | create id request =>
    apply (wp_bind ..).mpr (submission.wp_mono (wp_create id request) ?_)
    intro ph r hr id' request' heq
    obtain ⟨result, rfl, rfl⟩ := hr
    cases heq
    exact ⟨result, rfl, rfl⟩
  | submit service request =>
    have hrest : ∀ id, submission.Neutral (do
        service.announce id
        AutomationService.readBack id) := by
      intro id
      exact .bind (neutral_announce (ignores_still submission_quiet) _ _) fun _ =>
        neutral_readBack (ignores_still submission_quiet) id
    refine (wp_bind ..).mpr ((wp_except_bind ..).mpr ⟨⟨request, rfl⟩, ?_⟩)
    intro id _
    apply (wp_except_bind ..).mpr (submission.wp_mono (wp_create id request) ?_)
    intro ph r hr
    obtain ⟨result, rfl, rfl⟩ := hr
    apply submission.wp_mono (hrest result _)
    intro _ _ _ _ _ heq
    cases heq
  | replayDeadLetter service id =>
    have h := neutral_replayDeadLetter (ignores_plain submission_quiet)
      (submission_ignores (by decide)) service id
    apply (wp_bind ..).mpr (submission.wp_mono (h _) ?_)
    intro _ _ _ _ _ heq
    cases heq
  | runOnce worker =>
    have h := worker.neutral_runOnce submission_quiet (submission_ignores (by decide))
    apply (wp_bind ..).mpr (submission.wp_mono (h _) ?_)
    intro _ _ _ _ _ heq
    cases heq

/-- The call hands a request in: `create` under an id, `submit` under one that it draws. -/
def Call.Submits : Call → String → AutomationRequest → Prop
  | create id request, id', request' => id' = id ∧ request' = request
  | submit _ request, _, request' => request' = request
  | _, _, _ => False

/-- The phase is the call in progress; it inserts only what it was given. -/
def creating {κ : Type} (Creates : κ → String → AutomationRequest → Prop) :
    Interleaving.Protocol Eff Eff.Res κ (Option κ) where
  allowed ph
    | .transaction (.insertRequest id request _) => ∃ call, ph = some call ∧ Creates call id request
    | _ => True
  admits _ _ _ := True
  next ph _ _ := ph
  idle := none
  start call := some call

section Creating
variable {κ : Type} {Creates : κ → String → AutomationRequest → Prop}

theorem creating_ignores {k : Eff.Kind} (hk : k ≠ .submits) :
    (creating Creates).Ignores (·.kind = k) := by
  intro e he ph
  cases e with
  | transaction op =>
    cases op with
    | insertRequest id request now => exact absurd he.symm hk
    | _ => exact ⟨trivial, fun _ => rfl⟩
  | _ => exact ⟨trivial, fun _ => rfl⟩

theorem creating_quiet : (creating Creates).Ignores (·.kind = .quiet) :=
  creating_ignores (by decide)

theorem creating_plain : (creating Creates).Ignores Eff.Plain := ignores_plain creating_quiet

theorem creating_selectByKey (key : String) :
    (creating Creates).Neutral (Py.transaction (.selectByKey key)) :=
  .effect (.transaction (.selectByKey key)) (fun _ => ⟨trivial, fun _ => rfl⟩) rfl

theorem creating_create {call : κ} {id : String} {request : AutomationRequest}
    (hcall : Creates call id request) :
    (creating Creates).wp (create id request).run (fun ph _ => ph = some call) (some call) := by
  apply (neutral_utcNow creating_plain).wp_bind ?_ fun _ => rfl
  intro now
  have hfind : (creating Creates).Neutral (findExisting request.idempotencyKey) := by
    unfold findExisting
    split
    · exact .ret _
    · exact .bind (creating_selectByKey _) fun _ => .ret _
  apply hfind.wp_bind ?_ fun _ => rfl
  intro existing
  cases existing with
  | some existing => rfl
  | none =>
    have hinsert : (creating Creates).wp (Py.transaction (.insertRequest id request now)).run
        (fun ph _ => ph = some call) (some call) := ⟨⟨call, rfl, hcall⟩, fun _ _ => rfl⟩
    rw [insertOrFind, wp_except_bind, Py.wp_attempt]
    apply (creating Creates).wp_mono hinsert
    intro ph r hph
    subst hph
    rcases r with exc | ⟨⟩
    · simp only
      split
      · split
        · rfl
        · apply (creating_selectByKey _).wp_bind ?_ fun _ => rfl
          intro existing
          cases existing with
          | none => rfl
          | some existing => rfl
      · rfl
    · rfl

theorem creating_program (lift : Call → κ)
    (hlift : ∀ {call id request}, call.Submits id request → Creates (lift call) id request)
    (call : Call) : (creating Creates).wp call.code (fun _ _ => True) (some (lift call)) := by
  cases call with
  | create id request =>
    have hcall : Creates (lift (.create id request)) id request := hlift ⟨rfl, rfl⟩
    exact (wp_bind ..).mpr ((creating Creates).wp_mono (creating_create hcall)
      fun _ _ _ => trivial)
  | submit service request =>
    refine (wp_bind ..).mpr ((wp_except_bind ..).mpr ⟨trivial, ?_⟩)
    intro id _
    have hcall : Creates (lift (.submit service request)) id request := hlift rfl
    apply (wp_except_bind ..).mpr ((creating Creates).wp_mono (creating_create hcall) ?_)
    intro ph r _
    cases r with
    | error exc => trivial
    | ok id =>
      have hrest : (creating Creates).Neutral (service.announce id >>= fun _ =>
          AutomationService.readBack id) :=
        .bind (neutral_announce (ignores_still creating_quiet) _ _) fun _ =>
          neutral_readBack (ignores_still creating_quiet) id
      exact (creating Creates).wp_mono (hrest ph) fun _ _ _ => trivial
  | replayDeadLetter service id =>
    have h := neutral_replayDeadLetter (D := (creating Creates).toDiscipline) creating_plain
      (creating_ignores (by decide)) service id
    exact h.safe.map _ _
  | runOnce worker =>
    have h := worker.neutral_runOnce (D := (creating Creates).toDiscipline) creating_quiet
      (creating_ignores (by decide))
    exact h.safe.map _ _

end Creating

/-- What a call that asked for a submission has been promised by a registry. -/
abbrev Promised [JsonCodec] (subs : List Submission) (id : String) (request : AutomationRequest)
    (result : String) : Prop :=
  Registered Submission.idempotencyKey Submission.requestId subs (submissionOf id request) result

section Invariant
variable {T : Type} {phases : T → Submitting} {cands cands' : List String}
variable {subs subs' : List Submission}

/-- An id that was handed to a call and that no row has. -/
def Free (cands : List String) (subs : List Submission) (id : String) : Prop :=
  id ∈ cands ∧ id ∉ subs.map (·.requestId)

/-- The phases of the calls agree with the registry: the ids still to be inserted are free and
distinct, a clash has its winner, and what was settled stays registered. -/
structure Consistent [JsonCodec] (phases : T → Submitting) (cands : List String)
    (subs : List Submission) : Prop where
  exclusive : Exclusive (fun t => (phases t).candidate) (Free cands subs)
  known : ∀ id ∈ subs.map (·.requestId), id ∈ cands
  conflict : ∀ t id request, phases t = .conflict id request →
    ∃ key winner, request.idempotencyKey = some key ∧ findKey key subs = some winner
  created : ∀ t id request result, phases t = .created id request result →
    Promised subs id request result

variable [DecidableEq T] {t : T}

theorem candidate_update (phases : T → Submitting) (t : T) (ph : Submitting) :
    (fun t' => (Function.update phases t ph t').candidate) =
      Function.update (fun t' => (phases t').candidate) t ph.candidate :=
  Function.comp_update Submitting.candidate phases t ph

namespace Consistent
variable [JsonCodec]

theorem update (ph : Submitting) (hc : Consistent phases cands subs) (hp : subs <+: subs')
    (hx : Exclusive (Function.update (fun t' => (phases t').candidate) t ph.candidate)
      (Free cands' subs'))
    (hknown : ∀ id ∈ subs'.map (·.requestId), id ∈ cands')
    (hconf : ∀ id request, ph = .conflict id request →
      ∃ key winner, request.idempotencyKey = some key ∧ findKey key subs' = some winner)
    (hcreated : ∀ id request result, ph = .created id request result →
      Promised subs' id request result) :
    Consistent (Function.update phases t ph) cands' subs' := by
  constructor
  · rw [candidate_update]
    exact hx
  · exact hknown
  · intro t' id request hph
    by_cases ht : t' = t
    · subst ht
      rw [Function.update_self] at hph
      exact hconf id request hph
    · rw [Function.update_of_ne ht] at hph
      obtain ⟨key, winner, hkey, hfind⟩ := hc.conflict t' id request hph
      exact ⟨key, winner, hkey, find_prefix hp hfind⟩
  · intro t' id request result hph
    by_cases ht : t' = t
    · subst ht
      rw [Function.update_self] at hph
      exact hcreated id request result hph
    · rw [Function.update_of_ne ht] at hph
      exact (hc.created t' id request result hph).mono hp

theorem unchanged (hc : Consistent phases cands subs) :
    Consistent (Function.update phases t (phases t)) cands subs := by
  rw [Function.update_eq_self]
  exact hc

theorem leave (hc : Consistent phases cands subs) :
    Consistent (Function.update phases t .idle) cands subs :=
  hc.update .idle List.prefix_rfl (hc.exclusive.drop t) hc.known (by simp) (by simp)

theorem wait (hc : Consistent phases cands subs) (request : AutomationRequest) :
    Consistent (Function.update phases t (.awaiting request)) cands subs :=
  hc.update _ List.prefix_rfl (hc.exclusive.drop t) hc.known (by simp) (by simp)

theorem enter (hc : Consistent phases cands subs) {id : String} (request : AutomationRequest)
    (hfresh : id ∉ cands) :
    Consistent (Function.update phases t (.creating id request)) (id :: cands) subs := by
  apply hc.update _ List.prefix_rfl ?_ ?_ (by simp) (by simp)
  · apply hc.exclusive.acquire (fun hfree => hfresh hfree.1) ?_ ?_
    · exact ⟨List.mem_cons_self, fun hmem => hfresh (hc.known id hmem)⟩
    · intro id' _ hfree
      exact ⟨List.mem_cons_of_mem _ hfree.1, hfree.2⟩
  · intro id' hmem
    exact List.mem_cons_of_mem _ (hc.known id' hmem)

theorem settle (hc : Consistent phases cands subs) {id result : String}
    {request : AutomationRequest} (hreg : Promised subs id request result) :
    Consistent (Function.update phases t (.created id request result)) cands subs := by
  apply hc.update _ List.prefix_rfl (hc.exclusive.drop t) hc.known (by simp)
  intro id' request' result' heq
  cases heq
  exact hreg

theorem clash (hc : Consistent phases cands subs) {id key winner : String}
    {request : AutomationRequest} (hph : phases t = .creating id request)
    (hkey : request.idempotencyKey = some key) (hfind : findKey key subs = some winner) :
    Consistent (Function.update phases t (.conflict id request)) cands subs := by
  apply hc.update _ List.prefix_rfl ?_ hc.known ?_ (by simp)
  · have hself : Submitting.candidate (.conflict id request) = (phases t).candidate := by
      rw [hph]
      rfl
    rw [hself, Function.update_eq_self]
    exact hc.exclusive
  · intro id' request' heq
    cases heq
    exact ⟨key, winner, hkey, hfind⟩

theorem insert (hc : Consistent phases cands subs) {id : String} {request : AutomationRequest}
    (hph : phases t = .creating id request)
    (hkey : ∀ key, request.idempotencyKey = some key →
      key ∉ subs.filterMap (·.idempotencyKey)) :
    Consistent (Function.update phases t (.created id request id)) cands
      (subs ++ [submissionOf id request]) := by
  have hold : (phases t).candidate = some id := by
    rw [hph]
    rfl
  apply hc.update _ (List.prefix_append _ _) ?_ ?_ (by simp) ?_
  · apply hc.exclusive.release hold
    intro id' hne hfree
    refine ⟨hfree.1, ?_⟩
    intro hmem
    rw [List.map_append, List.mem_append] at hmem
    rcases hmem with hmem | hmem
    · exact hfree.2 hmem
    · exact hne (by simpa using hmem)
  · intro id' hmem
    rw [List.map_append, List.mem_append] at hmem
    rcases hmem with hmem | hmem
    · exact hc.known id' hmem
    · obtain rfl : id' = id := by simpa using hmem
      exact (hc.exclusive.marked t id' hold).1
  · intro id' request' result' heq
    cases heq
    exact Registered.inserted hkey

end Consistent

end Invariant

end Orchestrator
