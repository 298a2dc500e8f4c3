import Mathlib.Data.Finset.Card
import Orchestrator.Execution
import Orchestrator.Reports

/-!
# What reaches the downstream services

Each claim posts at most one job, and what it posts is the request that is stored. So the
attempt budget bounds the jobs that a request starts downstream, whatever the services answer.
-/

namespace Orchestrator

open Interaction Library
set_option autoImplicit false

section Posting
variable [JsonCodec]

def Carries (request : AutomationRequest) (body : Json) : Prop :=
  match request.executionChannel with
  | .api => body = .obj request.payload
  | .rpa => body = gatewayBody request ∨ ∃ releaseKey, body = startInfo releaseKey request

/-- At most one job, and for the request; the form for a token is no job. -/
def sending (request : AutomationRequest) : Discipline HttpEff HttpEff.Res Bool where
  allowed sent
    | .post _ payload _ _ => sent = false ∧ Carries request payload
    | _ => True
  admits _ _ _ := True
  next sent e _ :=
    match e with
    | .post .. => true
    | _ => sent

variable {request : AutomationRequest} {α β : Type}

theorem sending_ask (e : HttpEff) (he : ∀ url payload headers timeout,
    e ≠ .post url payload headers timeout) : (sending request).Neutral (Http.ask e) := by
  intro sent
  cases e with
  | post url payload headers timeout => exact absurd rfl (he _ _ _ _)
  | _ => exact ⟨trivial, fun _ _ => rfl⟩

theorem sending_orGetenv (configured : Option String) (name : String) :
    (sending request).Neutral (Http.orGetenv configured name) := by
  unfold Http.orGetenv
  split
  · exact .ret _
  · exact sending_ask _ (by simp)

theorem sending_timeout (configured : Option Float64) (name default : String) :
    (sending request).Neutral (Http.timeout configured name default) := by
  unfold Http.timeout
  split
  · exact .ret _
  · exact .bind (sending_ask _ (by simp)) fun _ => .ofExcept _

theorem sending_accepted (response : AdapterResponse) (context : String) :
    (sending request).Neutral (accepted response context) := by
  have hlimit : (sending request).Neutral (raiseForRateLimit response context) := by
    unfold raiseForRateLimit
    split
    · refine .bind (.bind (.ofExcept _) fun asked => ?_) fun _ => .raise _
      cases asked with
      | date retryAt => exact .bind (sending_ask _ (by simp)) fun _ => .ret _
      | _ => exact .ret _
    · exact .ret _
  exact .bind hlimit fun _ => .bind (.ofExcept _) fun _ => .ret _

theorem sends_post {url : String} {body : Json} {headers : List (String × String)}
    {timeout : Float64} {f : AdapterResponse → Http α} (hbody : Carries request body)
    (hf : ∀ response, (sending request).Neutral (f response)) :
    (sending request).wp (Http.post url body headers timeout >>= f).run
      (fun _ _ => True) false := by
  refine ⟨⟨rfl, hbody⟩, fun r _ => ?_⟩
  cases r with
  | ok response => exact (hf response).safe true
  | error exc => trivial

theorem sends_bind {x : Http α} {f : α → Http β}
    (hx : (sending request).wp x.run (fun _ _ => True) false)
    (hf : ∀ a, (sending request).Neutral (f a)) :
    (sending request).wp (x >>= f).run (fun _ _ => True) false := by
  rw [Discipline.wp_except_bind]
  apply (sending request).wp_mono hx
  intro sent r _
  cases r with
  | ok a => exact (hf a).safe sent
  | error exc => trivial

theorem sends_catching {x : Http α} {handler : PyExc → PyExc}
    (hx : (sending request).wp x.run (fun _ _ => True) false) :
    (sending request).wp (x.catching handler).run (fun _ _ => True) false := by
  change (sending request).wp (x.run >>= fun r => pure (r.mapError handler)) _ false
  rw [Discipline.wp_bind]
  exact hx

variable [JsonText]

theorem sends_api (self : ApiAdapter) (hchannel : request.executionChannel = .api) :
    (sending request).wp (self.execute request).run (fun _ _ => True) false := by
  have hbody : Carries request (.obj request.payload) := by
    rw [Carries, hchannel]
  apply (sending_orGetenv _ _).wp_bind ?_ fun _ => trivial
  intro baseUrl
  split
  · trivial
  · apply (sending_orGetenv _ _).wp_bind ?_ fun _ => trivial
    intro token
    apply (sending_timeout _ _ _).wp_bind ?_ fun _ => trivial
    intro timeout
    refine sends_bind (sends_catching ?_) fun _ => .ofExcept _
    exact sends_post hbody fun _ => sending_accepted _ _

theorem sends_gateway (self : RpaAdapter) (hchannel : request.executionChannel = .rpa) :
    (sending request).wp (self.submit request).run (fun _ _ => True) false := by
  have hbody : Carries request (gatewayBody request) := by
    rw [Carries, hchannel]
    exact .inl rfl
  apply (sending_orGetenv _ _).wp_bind ?_ fun _ => trivial
  intro submitUrl
  split
  · trivial
  · apply (sending_orGetenv _ _).wp_bind ?_ fun _ => trivial
    intro token
    apply (sending_timeout _ _ _).wp_bind ?_ fun _ => trivial
    intro timeout
    refine sends_bind (sends_catching ?_) fun _ => .ofExcept _
    exact sends_post hbody fun _ => sending_accepted _ _

theorem sends_uiPath (hchannel : request.executionChannel = .rpa) :
    (sending request).wp (UiPathOrchestratorAdapter.execute request).run
      (fun _ _ => True) false := by
  have hbody : ∀ releaseKey, Carries request (startInfo releaseKey request) := by
    intro releaseKey
    rw [Carries, hchannel]
    exact .inr ⟨releaseKey, rfl⟩
  have hask : ∀ name, (sending request).Neutral (Http.ask (.getenv name)) :=
    fun name => sending_ask _ (by simp)
  unfold UiPathOrchestratorAdapter.execute
  refine (hask _).wp_bind (fun tokenUrl => ?_) fun _ => trivial
  refine (hask _).wp_bind (fun orchestratorUrl => ?_) fun _ => trivial
  refine (hask _).wp_bind (fun clientId => ?_) fun _ => trivial
  refine (hask _).wp_bind (fun clientSecret => ?_) fun _ => trivial
  refine (hask _).wp_bind (fun releaseKey => ?_) fun _ => trivial
  refine (hask _).wp_bind (fun folderId => ?_) fun _ => trivial
  refine (sending_timeout _ _ _).wp_bind (fun timeout => ?_) fun _ => trivial
  simp only
  split
  · trivial
  · refine sends_bind (sends_catching ?_) fun _ => .ret _
    have htoken : (sending request).Neutral (do
        let response ← Http.postForm (tokenUrl.getD "") (tokenForm (clientId.getD "")
          (clientSecret.getD "")) timeout
        accepted response "UiPath token endpoint") :=
      .bind (fun _ => ⟨trivial, fun _ _ => rfl⟩) fun _ => sending_accepted _ _
    refine htoken.wp_bind (fun response => ?_) fun _ => trivial
    refine (Discipline.Neutral.ofExcept _).wp_bind (fun token => ?_) fun _ => trivial
    exact sends_bind (sends_post (hbody _) fun _ => sending_accepted _ _) fun _ => .ret _

theorem sends_adapters (request : AutomationRequest) :
    (sending request).wp (adapters request).run (fun _ _ => True) false := by
  unfold adapters
  split
  · next hchannel => exact sends_api _ hchannel
  · next hchannel =>
    refine (sending_ask (.getenv "RPA_PROVIDER") (by simp)).wp_bind ?_ fun _ => trivial
    intro provider
    split
    · exact sends_uiPath hchannel
    · exact sends_gateway _ hchannel

end Posting

/-- What a process has sent since its latest claim. -/
inductive Delivery where
  | free
  | claimed (requestId : String) (request : AutomationRequest)
  | posted (requestId : String) (request : AutomationRequest)

namespace Delivery

def next (ph : Delivery) : (e : WorkerEff) → e.Res → Delivery
  | .program (.transaction (.claim ..)), .ok (some (id, request)) => claimed id request
  | .program (.transaction (.claimNext _)), .ok (some (id, request)) => claimed id request
  | .program (.transaction (.failOrRetry ..)), .ok _ => free
  | .program (.transaction (.updateStatus ..)), .ok _ => free
  | .http (.post ..), _ =>
    match ph with
    | claimed id request => posted id request
    | ph => ph
  | _, _ => ph

/-- The request that the process works on, since a claim. -/
def holds : Delivery → Option (String × AutomationRequest)
  | free => none
  | claimed id request | posted id request => some (id, request)

variable [JsonCodec]

/-- A job is posted once for each claim, and for the request that was claimed. -/
def allows (ph : Delivery) : WorkerEff → Prop
  | .http (.post _ payload _ _) => ∃ id request, ph = claimed id request ∧ Carries request payload
  | _ => True

/-- Before its execution a claimed request has not been posted. -/
def Agrees : Report → Delivery → Prop
  | .claimed id request, ph => ph = claimed id request
  | _, _ => True

end Delivery

section Protocol
variable [JsonCodec]

def delivering : Interleaving.Protocol WorkerEff WorkerEff.Res Call Delivery where
  allowed := Delivery.allows
  admits _ _ _ := True
  next := Delivery.next
  idle := .free
  start _ := .free

variable [JsonText]

theorem delivers_adapters (id : String) (request : AutomationRequest) :
    delivering.wp ((adapters request).run.embed WorkerEff.http fun _ r => r) (fun _ _ => True)
      (.claimed id request) := by
  rw [Prog.embed_eq_expand]
  refine delivering.wp_mono (Discipline.wp_expand
    (R := fun sent ph => sent = false → ph = .claimed id request) ?_ (sends_adapters request)
    fun _ => rfl) fun _ _ _ => trivial
  intro sent ph e hR hallowed
  cases e with
  | post url body headers timeout =>
    obtain ⟨hsent, hbody⟩ := hallowed
    exact ⟨⟨id, request, hR hsent, hbody⟩, fun r _ => ⟨trivial, fun h => by cases h⟩⟩
  | _ => exact ⟨trivial, fun r _ => ⟨trivial, hR⟩⟩

theorem delivers_impl {report : Report} {ph : Delivery} {e : Eff} (ha : Delivery.Agrees report ph)
    (hallowed : report.allows e) :
    delivering.wp e.impl (fun ph r => True ∧ Delivery.Agrees (report.next e r) ph) ph := by
  cases e with
  | execute id request =>
    obtain rfl : report = .claimed id request := hallowed
    obtain rfl : ph = .claimed id request := ha
    apply delivering.wp_mono (delivers_adapters id request)
    intro ph r _
    cases r <;> exact ⟨trivial, trivial⟩
  | transaction op =>
    refine ⟨trivial, fun r _ => ⟨trivial, ?_⟩⟩
    cases op with
    | claim id now => rcases r with exc | _ | ⟨id, request⟩ <;> first | exact ha | rfl
    | claimNext now => rcases r with exc | _ | ⟨id, request⟩ <;> first | exact ha | rfl
    | failOrRetry id detail delay => cases r <;> first | exact ha | trivial
    | updateStatus id status detail now => cases r <;> first | exact ha | trivial
    | _ => exact ha
  | _ => exact ⟨trivial, fun r _ => ⟨trivial, ha⟩⟩

theorem delivering_code (call : Call) :
    delivering.wp (workerMachine.code call) (fun _ _ => True) (delivering.start call) := by
  have hstart : Delivery.Agrees (reporting.start call) (delivering.start call) := trivial
  have hwp := Discipline.wp_expand (R := Delivery.Agrees) (fun ha hal => delivers_impl ha hal)
    (reporting_code call) hstart
  exact delivering.wp_mono hwp fun _ _ _ => trivial

variable {T : Type} [DecidableEq T] {h : List (WorkerEvent T)} {s : WorkerSystem T}

theorem WorkerRuns.delivers (hr : WorkerRuns h s) :
    delivering.Follows (fun _ _ _ => True) h s :=
  Interleaving.Protocol.follows_runs delivering_code (fun _ _ _ => trivial) (fun _ hi => hi.2.1) hr

end Protocol

section Stored
variable [JsonCodec] {db db' : Database} {id : String} {request : AutomationRequest}

/-- The columns of a row are those of the request. -/
def Database.Stores (db : Database) (id : String) (request : AutomationRequest) : Prop :=
  ∃ row, db.row? id = some row ∧ row.toRequest = .ok request

theorem Database.Stores.move (hst : db.Stores id request) (id' : String) (tr : Transition) :
    (db.move id' tr).Stores id request := by
  obtain ⟨row, hrow, hreq⟩ := hst
  refine ⟨if id = id' then row.set tr.values else row, ?_, ?_⟩
  · rw [Database.row?_move, hrow]
    rfl
  · split <;> exact hreq

theorem Database.Stores.outcome {clock : Instant} {op : TransactionOp}
    {r : Except PyExc op.Result} (hst : db.Stores id request) (ho : Outcome clock db db' op r) :
    db'.Stores id request := by
  cases r with
  | error exc =>
    have hdb : db' = db := by
      cases op <;> first | exact ho | exact ho.1
    rwa [hdb]
  | ok a =>
    cases op with
    | selectByKey key =>
      obtain ⟨-, rfl⟩ := ho
      exact hst
    | get id' =>
      obtain ⟨-, rfl⟩ := ho
      exact hst
    | insertRequest id' request' now =>
      obtain ⟨row, hrow, hreq⟩ := hst
      exact ⟨row, Submitted.row? ho hrow, hreq⟩
    | claimNext now =>
      rcases a with _ | ⟨id', request'⟩
      · obtain rfl : db' = db := ho
        exact hst
      · obtain ⟨row, -, -, -, rfl⟩ := ho
        exact hst.move ..
    | claim id' now =>
      rcases a with _ | ⟨id'', request'⟩
      · obtain rfl : db' = db := ho
        exact hst
      · obtain ⟨rfl, row, -, -, -, rfl⟩ := ho
        exact hst.move ..
    | failOrRetry id' detail delay =>
      obtain ⟨row, nextAttemptAt, -, -, rfl⟩ := ho
      exact hst.move ..
    | updateStatus id' status detail now =>
      obtain rfl : db' = _ := ho
      exact hst.move ..
    | replayDeadLetter id' now =>
      obtain ⟨row, -, -, rfl, -⟩ := ho
      exact hst.move ..

theorem Database.Stores.claimed {now : String} (hc : Claimed db db' id request now) :
    db'.Stores id request := by
  obtain ⟨row, hrow, -, hreq, rfl⟩ := hc
  exact Stores.move ⟨row, hrow, hreq⟩ id (row.started now)

end Stored

section Posts
variable {T : Type} [DecidableEq T] [JsonCodec]

def postsJob : WorkerEvent T → Bool
  | .did _ _ (.http (.post ..)) _ => true
  | _ => false

/-- The request for which a step posts a job. -/
def postFor (h : List (WorkerEvent T)) : WorkerEvent T → Option String
  | .did t _ (.http (.post ..)) _ => (delivering.phase h t).holds.map Prod.fst
  | _ => none

/-- The jobs that all processes have posted for a request. -/
def posts : List (WorkerEvent T) → String → ℕ
  | [], _ => 0
  | ev :: h, id => posts h id + if postFor h ev = some id then 1 else 0

variable [JsonText] {h : List (WorkerEvent T)} {s s' : WorkerSystem T} {ev : WorkerEvent T}

theorem stores_did {t : T} {c : WorkerChoice} {e : WorkerEff} {r : e.Res} {id : String}
    {request : AutomationRequest} (hs : Interleaving.Step workerMachine s (.did t c e r) s')
    (hst : s.shared.db.Stores id request) : s'.shared.db.Stores id request := by
  have hhandle := hs.did_handle
  cases e with
  | http e =>
    have hshared : s'.shared = s.shared := (congrArg (fun a => a.2.1) hhandle).symm
    rwa [hshared]
  | program e =>
    rcases handle_db hhandle with hdb | ⟨op, rfl⟩
    · rwa [hdb]
    · exact hst.outcome (handle_outcome hhandle)

theorem stores_claim {t : T} {c : WorkerChoice} {e : WorkerEff} {r : e.Res} {id : String}
    {request : AutomationRequest} {ph : Delivery}
    (hs : Interleaving.Step workerMachine s (.did t c e r) s')
    (hold : ∀ id request, ph.holds = some (id, request) → s.shared.db.Stores id request)
    (hnext : (ph.next e r).holds = some (id, request)) : s'.shared.db.Stores id request := by
  have kept : ph.holds = some (id, request) → s'.shared.db.Stores id request :=
    fun h => stores_did hs (hold id request h)
  cases e with
  | http e =>
    cases e with
    | post url body headers timeout =>
      cases ph with
      | free => cases hnext
      | _ => exact kept hnext
    | _ => exact kept hnext
  | program e =>
    cases e with
    | transaction op =>
      have ho := handle_outcome hs.did_handle
      cases op with
      | claim id' now =>
        rcases r with exc | _ | ⟨id'', request'⟩
        · exact kept hnext
        · exact kept hnext
        · obtain ⟨rfl, hclaimed⟩ := ho
          cases hnext
          exact Database.Stores.claimed hclaimed
      | claimNext now =>
        rcases r with exc | _ | ⟨id', request'⟩
        · exact kept hnext
        · exact kept hnext
        · cases hnext
          exact Database.Stores.claimed ho
      | failOrRetry id' detail delay =>
        cases r with
        | error exc => exact kept hnext
        | ok _ => cases hnext
      | updateStatus id' status detail now =>
        cases r with
        | error exc => exact kept hnext
        | ok _ => cases hnext
      | _ => exact kept hnext
    | _ => exact kept hnext

/-- What the processes work on and what they have posted is stored. -/
structure Delivered (h : List (WorkerEvent T)) (db : Database) : Prop where
  held : ∀ t id request, (delivering.phase h t).holds = some (id, request) → db.Stores id request
  sent : ∀ h₂ t c url body headers timeout r h₁,
    h = h₂ ++ .did t c (.http (.post url body headers timeout)) r :: h₁ →
      ∃ id request, delivering.phase h₁ t = .claimed id request ∧ Carries request body ∧
        db.Stores id request

theorem stores_step {id : String} {request : AutomationRequest}
    (hs : Interleaving.Step workerMachine s ev s') (hst : s.shared.db.Stores id request) :
    s'.shared.db.Stores id request := by
  cases ev with
  | start t call => rwa [hs.start_shared]
  | stop t call reply => rwa [hs.stop_shared]
  | disturb => rwa [show s'.shared.db = s.shared.db from hs.disturb_shared]
  | did t c e r => exact stores_did hs hst

/-- The induction for `held`: only a claim gives a process something to work on. -/
theorem Delivered.holds_step (hd : Delivered h s.shared.db)
    (hs : Interleaving.Step workerMachine s ev s') {t : T} {id : String}
    {request : AutomationRequest}
    (hold : (delivering.phase (ev :: h) t).holds = some (id, request)) :
    s'.shared.db.Stores id request := by
  rcases delivering.phase_cons h t ev with hph | hph | ⟨call, rfl, hph⟩ | ⟨c, e, r, rfl, hph⟩
  · rw [hph] at hold
    exact stores_step hs (hd.held t id request hold)
  · rw [hph] at hold
    cases hold
  · rw [hph] at hold
    cases hold
  · rw [hph] at hold
    exact stores_claim hs (hd.held t) hold

theorem WorkerRuns.delivered (hr : WorkerRuns h s) : Delivered h s.shared.db := by
  apply Interleaving.Runs.invariant (I := fun h s => Delivered h s.shared.db) ?_ ?_ hr
  · intro s _
    constructor
    · intro t id request hold
      cases hold
    · intro h₂ t c url body headers timeout r h₁ heq
      simp at heq
  · intro h s s' ev hr hd hs
    refine ⟨fun t id request hold => hd.holds_step hs hold, ?_⟩
    intro h₂ t c url body headers timeout r h₁ heq
    cases h₂ with
    | nil =>
      obtain ⟨rfl, rfl⟩ := List.cons.inj heq
      obtain ⟨id, request, hph, hbody⟩ := (WorkerRuns.delivers hr).allowed hs
      have hst := hd.held t id request (by rw [hph]; rfl)
      exact ⟨id, request, hph, hbody, stores_step hs hst⟩
    | cons ev' h₂ =>
      obtain ⟨rfl, rfl⟩ := List.cons.inj heq
      obtain ⟨id, request, hph, hbody, hst⟩ := hd.sent h₂ t c url body headers timeout r h₁ rfl
      exact ⟨id, request, hph, hbody, stores_step hs hst⟩

/-- What is posted downstream is what is stored: in every run, each job that a worker posts
carries the request that it has claimed and not posted since, and the row of this request has
these contents, then and ever after. -/
theorem posted_as_stored {t : T} {c : WorkerChoice} {url : String} {body : Json}
    {headers : List (String × String)} {timeout : Float64} {r : Except PyExc AdapterResponse}
    {h₁ h₂ : List (WorkerEvent T)}
    (hr : WorkerRuns (h₂ ++ .did t c (.http (.post url body headers timeout)) r :: h₁) s) :
    ∃ id request row, delivering.phase h₁ t = .claimed id request ∧ Carries request body ∧
      s.shared.db.row? id = some row ∧ row.toRequest = .ok request := by
  obtain ⟨id, request, hph, hbody, row, hrow, hreq⟩ := hr.delivered.sent h₂ t c url body headers
    timeout r h₁ rfl
  exact ⟨id, request, row, hph, hbody, hrow, hreq⟩

omit [JsonCodec] [JsonText] [DecidableEq T] in
theorem posted_as_stored_sample : letI := emptyPayload; letI := noText
    ∃ h₂ t c url body headers timeout r h₁,
      WorkerRuns (h₂ ++ .did t c (.http (.post url body headers timeout)) r :: h₁) postedRun.2 ∧
        ∃ id request row, delivering.phase h₁ t = .claimed id request ∧ Carries request body ∧
          postedRun.2.shared.db.row? id = some row ∧ row.toRequest = .ok request := by
  let _ := emptyPayload
  let _ := noText
  obtain ⟨ev, hmem, hjob⟩ := List.any_eq_true.mp (show postedRun.1.any postsJob = true by
    decide +kernel)
  obtain ⟨h₂, h₁, heq⟩ := List.append_of_mem hmem
  have hr := postedRun_runs
  rw [heq] at hr
  unfold postsJob at hjob
  split at hjob
  · exact ⟨_, _, _, _, _, _, _, _, _, hr, posted_as_stored hr⟩
  · cases hjob

end Posts

section Counting
variable {T : Type}

/-- The step as one of the core system; it does not see the HTTP effects. -/
def coreEvent : WorkerEvent T → Option (Event T)
  | .start t call => some (.start t call)
  | .did t c (.program e) r => some (.did t c.toChoice e r)
  | .did _ _ (.http _) _ => none
  | .stop t call reply => some (.stop t call reply)
  | .disturb => some .disturb

/-- The claims, settlements and replays of a request, the latest first. -/
def workerMarks (h : List (WorkerEvent T)) : String → List Job.Mark := marks (h.filterMap coreEvent)

namespace Delivery

def unposted : Delivery → Option String
  | claimed id _ => some id
  | _ => none

theorem unposted_next {ph : Delivery} {e : WorkerEff} {r : e.Res} {id : String} {t : T}
    {c : WorkerChoice} (hnext : (ph.next e r).unposted = some id) :
    ph.unposted = some id ∨
      ∃ ev, coreEvent (.did t c e r) = some ev ∧ markOf ev = some (id, .start) := by
  cases e with
  | http e =>
    cases e with
    | post url body headers timeout => cases ph <;> cases hnext
    | _ => exact .inl hnext
  | program e =>
    cases e with
    | transaction op =>
      cases op with
      | claim id' now =>
        rcases r with exc | _ | ⟨id'', request⟩
        · exact .inl hnext
        · exact .inl hnext
        · cases hnext
          exact .inr ⟨_, rfl, rfl⟩
      | claimNext now =>
        rcases r with exc | _ | ⟨id', request⟩
        · exact .inl hnext
        · exact .inl hnext
        · cases hnext
          exact .inr ⟨_, rfl, rfl⟩
      | failOrRetry id' detail delay =>
        cases r with
        | error exc => exact .inl hnext
        | ok _ => cases hnext
      | updateStatus id' status detail now =>
        cases r with
        | error exc => exact .inl hnext
        | ok _ => cases hnext
      | _ => exact .inl hnext
    | _ => exact .inl hnext

end Delivery

variable [DecidableEq T] [JsonCodec]

/-- The processes that have claimed the request and have yet to post it. -/
def unposted (id : String) : List (WorkerEvent T) → Finset T
  | [] => ∅
  | ev :: h =>
    match ev with
    | .start t _ | .did t _ _ _ | .stop t _ _ =>
      if (delivering.phase (ev :: h) t).unposted = some id then insert t (unposted id h)
      else (unposted id h).erase t
    | .disturb => unposted id h

theorem mem_unposted {id : String} {h : List (WorkerEvent T)} {t : T} :
    t ∈ unposted id h ↔ (delivering.phase h t).unposted = some id := by
  induction h generalizing t with
  | nil => simp [unposted, Interleaving.Protocol.phase, delivering, Delivery.unposted]
  | cons ev h ih =>
    have moved : ∀ {t'}, (t ≠ t' → delivering.phase (ev :: h) t = delivering.phase h t) →
        (t ∈ (if (delivering.phase (ev :: h) t').unposted = some id then
            insert t' (unposted id h) else (unposted id h).erase t') ↔
          (delivering.phase (ev :: h) t).unposted = some id) := by
      intro t' hother
      by_cases ht : t = t'
      · subst ht
        split
        · next hph => simp [hph]
        · next hph => simp [hph]
      · rw [hother ht, ← ih]
        split
        · simp [ht]
        · simp [ht]
    cases ev with
    | disturb => exact ih
    | _ =>
      refine moved fun ht => ?_
      simp only [Interleaving.Protocol.phase, if_neg (Ne.symm ht)]

omit [DecidableEq T] [JsonCodec] in
theorem workerMarks_cons (ev : WorkerEvent T) (h : List (WorkerEvent T)) :
    workerMarks (ev :: h) = record ((coreEvent ev).bind markOf) (workerMarks h) := by
  rw [workerMarks, List.filterMap_cons]
  cases coreEvent ev <;> rfl

omit [DecidableEq T] [JsonCodec] in
theorem started_record (mark : Option (String × Job.Mark)) (marks : String → List Job.Mark)
    (id : String) : Job.started (marks id) + (if mark = some (id, .start) then 1 else 0) =
      Job.started (record mark marks id) := by
  cases mark with
  | none => simp [record]
  | some mark =>
    obtain ⟨id', m⟩ := mark
    by_cases hid : id = id'
    · subst hid
      rw [record, Function.update_self]
      cases m <;> simp [Job.started]
    · simp [record, Function.update_of_ne hid, Ne.symm hid]

theorem card_unposted (ev : WorkerEvent T) (h : List (WorkerEvent T)) (id : String) :
    (unposted id (ev :: h)).card ≤ (unposted id h).card +
      if (coreEvent ev).bind markOf = some (id, .start) then 1 else 0 := by
  have erased : ∀ t, ((unposted id h).erase t).card ≤ (unposted id h).card +
      if (coreEvent ev).bind markOf = some (id, .start) then 1 else 0 :=
    fun t => Finset.card_erase_le.trans (Nat.le_add_right ..)
  cases ev with
  | disturb => exact Nat.le_add_right ..
  | start t call =>
    rw [unposted, delivering.phase_start, Function.update_self, if_neg (by simp [delivering,
      Delivery.unposted])]
    exact erased t
  | stop t call reply =>
    rw [unposted, delivering.phase_stop, Function.update_self, if_neg (by simp [delivering,
      Delivery.unposted])]
    exact erased t
  | did t c e r =>
    rw [unposted, delivering.phase_did, Function.update_self]
    split
    · next hnext =>
      rcases Delivery.unposted_next (t := t) (c := c) hnext with hph | ⟨ev, hev, hmark⟩
      · rw [Finset.insert_eq_self.mpr (mem_unposted.mpr hph)]
        exact Nat.le_add_right ..
      · rw [hev, Option.bind_some, if_pos hmark]
        exact Finset.card_insert_le t _
    · exact erased t

variable [JsonText] {h : List (WorkerEvent T)} {s s' : WorkerSystem T} {ev : WorkerEvent T}

theorem posts_step (hr : WorkerRuns h s) (hs : Interleaving.Step workerMachine s ev s')
    (id : String)
    (ih : posts h id + (unposted id h).card ≤ Job.started (workerMarks h id)) :
    posts (ev :: h) id + (unposted id (ev :: h)).card ≤ Job.started (workerMarks (ev :: h) id) := by
  have hcard := card_unposted ev h id
  have hstarted := started_record ((coreEvent ev).bind markOf) (workerMarks h) id
  rw [← workerMarks_cons] at hstarted
  by_cases hpost : postFor h ev = some id
  · rw [posts, if_pos hpost]
    unfold postFor at hpost
    split at hpost
    · next t c url body headers timeout r =>
      obtain ⟨id', request, hph, -⟩ := (WorkerRuns.delivers hr).allowed hs
      rw [hph] at hpost
      obtain rfl : id' = id := Option.some.inj hpost
      have hmem : t ∈ unposted id' h := mem_unposted.mpr (by rw [hph]; rfl)
      have herased : unposted id' (.did t c (.http (.post url body headers timeout)) r :: h) =
          (unposted id' h).erase t := by
        rw [unposted, delivering.phase_did, Function.update_self, hph]
        exact if_neg (by simp [delivering, Delivery.next, Delivery.unposted])
      have hone := Finset.card_erase_add_one hmem
      rw [herased]
      split at hstarted <;> omega
    · cases hpost
  · rw [posts, if_neg hpost]
    split at hcard <;> split at hstarted <;> omega

theorem WorkerRuns.posts_le_started (hr : WorkerRuns h s) (id : String) :
    posts h id ≤ Job.started (workerMarks h id) := by
  have hcount : posts h id + (unposted id h).card ≤ Job.started (workerMarks h id) :=
    Interleaving.Runs.invariant (I := fun h _ =>
      posts h id + (unposted id h).card ≤ Job.started (workerMarks h id)) (fun _ _ => le_rfl)
      (fun hr ih hs => posts_step hr hs id ih) hr
  omega

omit [DecidableEq T] [JsonCodec] [JsonText] in
theorem markOf_choice (t : T) (c c' : Choice) (e : Eff) (r : e.Res) :
    markOf (.did t c e r) = markOf (.did t c' e r) := by
  cases e with
  | transaction op => cases op <;> rcases r with exc | _ | a <;> rfl
  | _ => rfl

omit [JsonCodec] [JsonText] in
theorem counts_record {ms ms' : String → List Job.Mark} {id : String}
    (h : Job.started (ms id) = Job.started (ms' id) ∧ Job.requeues (ms id) = Job.requeues (ms' id))
    (mark : Option (String × Job.Mark)) :
    Job.started (record mark ms id) = Job.started (record mark ms' id) ∧
      Job.requeues (record mark ms id) = Job.requeues (record mark ms' id) := by
  cases mark with
  | none => exact h
  | some mark =>
    obtain ⟨id', m⟩ := mark
    by_cases hid : id = id'
    · subst hid
      rw [record, record, Function.update_self, Function.update_self]
      cases m <;> simp [Job.started, Job.requeues, h]
    · rw [record, record, Function.update_of_ne hid, Function.update_of_ne hid]
      exact h

theorem joint_marks {h' : List (Event T)} {s' : System T}
    (hj : expansion.Joint WorkersInitial Initial h s h' s') (id : String) :
    Job.started (marks h' id) = Job.started (workerMarks h id) ∧
      Job.requeues (marks h' id) = Job.requeues (workerMarks h id) := by
  induction hj with
  | init hi hi' hshared => exact ⟨rfl, rfl⟩
  | start hj hs hs' ih => exact ih
  | stop hj hs hs' ih => exact ih
  | disturb hj hs hs' hshared ih => exact ih
  | quiet hj hs hrun hpath himpl hshared ih =>
    rcases impl_path hpath with ⟨-, e₂, rfl⟩ | ⟨r, -, rfl⟩
    · exact ih
    · exact himpl.elim
  | @commit h s s₁ h' s' s₁' hj t c e r c' e' r' answers hs hs' hpath hanswers hshared ih =>
    rcases impl_path hpath with ⟨⟨id', request, rfl⟩, e₂, rfl⟩ | ⟨r₁, heq, hret⟩
    · rw [workerMarks_cons]
      change Job.started (record (some (id', .execute r'.isOk)) (marks h') id) = _ ∧
        Job.requeues (record (some (id', .execute r'.isOk)) (marks h') id) = _
      by_cases hid : id = id'
      · subst hid
        rw [record, Function.update_self]
        exact ih
      · rw [record, Function.update_of_ne hid]
        exact ih
    · cases heq
      cases hret
      rw [workerMarks_cons]
      change Job.started (record (markOf (.did t c' e' r')) (marks h') id) = _ ∧
        Job.requeues (record (markOf (.did t c' e' r')) (marks h') id) = _
      rw [markOf_choice t c' c.toChoice]
      exact counts_record ih _

/-- The attempt budget bounds what happens downstream: in every run of any number of workers, the
jobs that are posted for a request, whatever the services answer, are at most `max_attempts` for
its submission and for each replay of it. -/
theorem posts_bounded (hr : WorkerRuns h s) {id : String} {row : RequestRow}
    (hrow : s.shared.db.row? id = some row) :
    posts h id ≤ row.maxAttempts * (1 + Job.requeues (workerMarks h id)) := by
  obtain ⟨h', s', hj, hm⟩ := hr.joint
  have hrow' : s'.shared.db.row? id = some row := by
    rw [hm.shared]
    exact hrow
  obtain ⟨stage, hshows⟩ := Runs.shows hj.runs.2 hrow'
  have hstarted := hshows.life.started_le hshows.budget
  obtain ⟨hstarts, hrequeues⟩ := joint_marks hj id
  rw [hstarts, hrequeues] at hstarted
  exact (hr.posts_le_started id).trans hstarted

omit [JsonCodec] [JsonText] [DecidableEq T] in
theorem posts_bounded_sample : letI := emptyPayload; letI := noText
    ∃ row, postedRun.2.shared.db.row? "a" = some row ∧ posts postedRun.1 "a" = 1 ∧
      posts postedRun.1 "a" ≤
        row.maxAttempts * (1 + Job.requeues (workerMarks postedRun.1 "a")) := by
  let _ := emptyPayload
  let _ := noText
  have hsome : (postedRun.2.shared.db.row? "a").isSome = true := by decide +kernel
  obtain ⟨row, hrow⟩ := Option.isSome_iff_exists.mp hsome
  exact ⟨row, hrow, by decide +kernel, posts_bounded postedRun_runs hrow⟩

end Counting

end Orchestrator
