import Orchestrator.Acceptance
import Orchestrator.AuditView
import Orchestrator.Library.Moments

/-!
# What the reading endpoints answer

The status and the audit of a request are answered from the tables as they were at moments of
the call that asks. A client that has been told an id therefore finds its request from then on,
whatever else the system does.
-/

namespace Orchestrator

open Interaction Interleaving Discipline
set_option autoImplicit false

section Opening
variable [JsonCodec]

/-- The calls of the core system are calls of a program of the open system. -/
def opening : Interleaving.Hosting machine openMachine where
  shared := id
  own := id
  choice := id
  effect := id
  answer _ r := r
  handles _ _ _ _ := rfl
  disturbs h := h
  enters call e call' := e = none ∧ call' = .program call
  ends call returned reply := returned = some (.program call, .program reply)

theorem opens_code (call : Call) : opening.Hosts call call.code
    (.inside (.program call) (OpenCall.program call).code) := by
  have hends : ∀ reply, opening.Hosts call (pure reply)
      (.after (.program call) (.program reply)) := fun reply => .ret reply rfl rfl
  have hinside : opening.Hosts call
      (call.code.embed id (fun _ r => r) >>= fun reply => Prog.ret reply)
      (.inside (.program call) (OpenCall.program call).code) := Hosting.hosts_inside call.code hends
  rwa [Prog.embed_self, Prog.bind_ret] at hinside

theorem Runs.opened {T : Type} [DecidableEq T] {h : List (Event T)} {s : System T}
    (hr : Runs h s) : ∃ (h' : List (OpenEvent T)) (s' : OpenSystem T),
      OpenRuns h' s' ∧ s'.shared = s.shared := by
  have hinitial : ∀ s : System T, Initial s → OpenInitial ⟨s.shared, s.locals, fun _ => none⟩ :=
    fun _ hi => ⟨hi.1, fun _ => rfl, hi.2.2⟩
  obtain ⟨h', s', ha, -⟩ := opening.shows
    (fun call => .inr ⟨_, ⟨rfl, rfl⟩, opens_code call⟩) (fun _ hi => hi.2.1) hinitial hr
  exact ⟨h', s', ha.runs.2, ha.shared⟩

end Opening

/-- What a request for one row has found so far: its row, and then the events. -/
inductive Sight where
  | nothing
  | row (requestId : String) (row : Option RequestRow)
  | log (requestId : String) (row : RequestRow) (logId : String) (events : List EventRow)

namespace Sight

def admits : (e : ServerEff) → e.Res → Prop
  | .question (.row _), found => ∀ row, found = some row → ∃ result, toResult row = .ok result
  | .question (.events _), rows => ∃ events, rows.mapM EventRow.toEvent = .ok events
  | _, _ => True

def next : Sight → (e : ServerEff) → e.Res → Sight
  | _, .question (.row requestId), found => row requestId found
  | row requestId (some found), .question (.events logId), events =>
    log requestId found logId events
  | ph, _, _ => ph

end Sight

def sights : Interleaving.Protocol ServerEff ServerEff.Res ServerCall Sight where
  allowed _ _ := True
  admits _ := Sight.admits
  next := Sight.next
  idle := .nothing
  start _ := .nothing

def ShowsRow : Option RequestRow → HttpAnswer → Prop
  | none, answer => answer = Server.notFound
  | some row, answer => ∃ result, toResult row = .ok result ∧
    answer = { statusCode := 200, content := .result result }

def ShowsLog (row : RequestRow) (rows : List EventRow) (answer : HttpAnswer) : Prop :=
  ∃ result events, toResult row = .ok result ∧ rows.mapM EventRow.toEvent = .ok events ∧
    answer = { statusCode := 200, content := .details { result with events := events } }

/-- What a client is shown is the request with the id that it asked for. -/
def ShowsId (id : String) (answer : HttpAnswer) : Prop :=
  answer.statusCode = 200 ∧ ((∃ result, answer.content = .result result ∧ result.requestId = id) ∨
    ∃ details, answer.content = .details details ∧ details.requestId = id)

theorem ShowsRow.showsId {db : Database} {id : String} {row : RequestRow} {answer : HttpAnswer}
    (hrow : db.row? id = some row)
    (h : ShowsRow (some row) answer) : ShowsId id answer := by
  obtain ⟨result, hresult, rfl⟩ := h
  exact ⟨rfl, .inl ⟨result, rfl,
    (toResult_requestId hresult).trans (Database.row?_requestId hrow)⟩⟩

theorem ShowsLog.showsId {db : Database} {id : String} {row : RequestRow} {rows : List EventRow}
    {answer : HttpAnswer} (hrow : db.row? id = some row) (h : ShowsLog row rows answer) :
    ShowsId id answer := by
  obtain ⟨result, events, hresult, -, rfl⟩ := h
  exact ⟨rfl, .inr ⟨_, rfl, (toResult_requestId hresult).trans (Database.row?_requestId hrow)⟩⟩

/-- What the two endpoints that ask for one request make of what they find. -/
def Endpoint.Saw : Endpoint → Sight → Except PyExc HttpAnswer → Prop
  | getAutomationRequest requestId, ph, r =>
    ∃ row answer, ph = .row requestId row ∧ r = .ok answer ∧ ShowsRow row answer
  | getAutomationRequestAudit requestId, ph, r =>
    (ph = .row requestId none ∧ r = .ok Server.notFound) ∨
      ∃ row rows answer, ph = .log requestId row requestId rows ∧ r = .ok answer ∧
        ShowsLog row rows answer
  | _, _, _ => True

theorem sights_getResult (requestId : String) (ph : Sight) :
    sights.wp (Server.ofView (AutomationRepository.getResult requestId)).run
      (fun ph' r => ∃ row, ph' = .row requestId row ∧
        match row with
        | none => r = .ok none
        | some row => ∃ result, toResult row = .ok result ∧ r = .ok (some result)) ph := by
  refine ⟨trivial, ?_⟩
  intro row had
  cases row with
  | none => exact ⟨none, rfl, rfl⟩
  | some row =>
    have hlegible : ∀ found, some row = some found → ∃ result, toResult found = .ok result := had
    obtain ⟨result, hresult⟩ := hlegible row rfl
    change sights.wp (Prog.embed ServerEff.question (fun _ r => r)
      (View.ofExcept (toResult row) >>= fun result => pure (some result)).run) _ _
    rw [hresult]
    exact ⟨some row, rfl, result, hresult, rfl⟩

theorem ofView_bind {α β : Type} (x : View α) (f : α → View β) :
    Server.ofView (x >>= f) = Server.ofView x >>= fun a => Server.ofView (f a) := by
  refine (Prog.embed_bind x.run _).trans (congrArg (Server.ofView x).run.bind (funext fun r => ?_))
  cases r <;> rfl

theorem sights_getDetails (requestId : String) (ph : Sight) :
    sights.wp (Server.ofView (AutomationRepository.getDetails requestId)).run
      (fun ph' r => (ph' = .row requestId none ∧ r = .ok none) ∨
        ∃ row rows result events, ph' = .log requestId row requestId rows ∧
          toResult row = .ok result ∧ rows.mapM EventRow.toEvent = .ok events ∧
          r = .ok (some { result with events := events })) ph := by
  rw [AutomationRepository.getDetails, ofView_bind, wp_except_bind]
  refine sights.wp_mono (sights_getResult requestId ph) ?_
  rintro _ r ⟨row, rfl, hr⟩
  cases row with
  | none =>
    cases hr
    exact .inl ⟨rfl, rfl⟩
  | some row =>
    obtain ⟨result, hresult, rfl⟩ := hr
    refine ⟨trivial, ?_⟩
    intro rows had
    obtain ⟨events, hevents⟩ : ∃ events, rows.mapM EventRow.toEvent = .ok events := had
    change sights.wp (Server.ofView (View.ofExcept (rows.mapM EventRow.toEvent) >>= fun events =>
      pure (some ({ result with events := events } : AutomationRequestDetails)))).run _ _
    rw [hevents]
    exact .inr ⟨row, rows, result, events, rfl, hresult, hevents, rfl⟩

section Code
variable [JsonCodec]

theorem sights_endpoint (endpoint : Endpoint) (ph : Sight) :
    sights.wp endpoint.code.run (endpoint.Saw) ph := by
  cases endpoint with
  | getAutomationRequest requestId =>
    refine (wp_except_bind ..).mpr (sights.wp_mono (sights_getResult requestId ph) ?_)
    rintro _ r ⟨row, rfl, hr⟩
    cases row with
    | none =>
      cases hr
      exact ⟨none, _, rfl, rfl, rfl⟩
    | some row =>
      obtain ⟨result, hresult, rfl⟩ := hr
      exact ⟨some row, _, rfl, rfl, result, hresult, rfl⟩
  | getAutomationRequestAudit requestId =>
    refine (wp_except_bind ..).mpr (sights.wp_mono (sights_getDetails requestId ph) ?_)
    rintro _ r (⟨rfl, rfl⟩ | ⟨row, rows, result, events, rfl, hresult, hevents, rfl⟩)
    · exact .inl ⟨rfl, rfl⟩
    · exact .inr ⟨row, rows, _, rfl, rfl, result, events, hresult, hevents, rfl⟩
  | _ => exact sights.wp_free (fun _ _ => trivial) _ ph

end Code

section Watching
variable {Phase : Type}

abbrev apiKey : ServerEff := .program (.getenv "ORCHESTRATOR_API_KEY")

/-- The API key that a request has read, after one more effect. -/
def keyAfter (key : Option (Option String)) : (e : ServerEff) → e.Res → Option (Option String)
  | .program (.getenv "ORCHESTRATOR_API_KEY"), expected => some expected
  | _, _ => key

/-- A protocol that also remembers the API key that a request has read. -/
def keyed (P : Interleaving.Protocol ServerEff ServerEff.Res ServerCall Phase) :
    Interleaving.Protocol ServerEff ServerEff.Res ServerCall (Option (Option String) × Phase) where
  allowed ph := P.allowed ph.2
  admits ph := P.admits ph.2
  next ph e r := (keyAfter ph.1 e r, P.next ph.2 e r)
  idle := (none, P.idle)
  start call := (none, P.start call)

theorem keyAfter_of_ne {key : Option (Option String)} {e : ServerEff} (r : e.Res)
    (hne : e ≠ apiKey) : keyAfter key e r = key := by
  unfold keyAfter
  split
  · exact absurd rfl hne
  · rfl

theorem keyed_wp {P : Interleaving.Protocol ServerEff ServerEff.Res ServerCall Phase} {α : Type}
    {p : Prog ServerEff ServerEff.Res α} {Q : Phase → α → Prop} {key : Option (Option String)}
    {ph : Phase} (h : P.wp p Q ph) : (keyed P).wp p (fun ph' a => Q ph'.2 a) (key, ph) := by
  induction p generalizing key ph with
  | ret a => exact h
  | call e k ih => exact ⟨h.1, fun r hr => ih r (h.2 r hr)⟩

/-- What the middlewares do around an endpoint. -/
def ServerEff.Around : ServerEff → Prop
  | program .uuid4 | program (.getenv _) | perfCounter | setCorrelationId _ | resetCorrelationId _
  | observeRequest _ | logInfo .. => True
  | _ => False

/-- A protocol that follows what the endpoints find: it is free, and does not mind what happens
around them. -/
structure Watches [JsonCodec] (P : Interleaving.Protocol ServerEff ServerEff.Res ServerCall Phase)
    (Saw : Endpoint → Phase → Except PyExc HttpAnswer → Prop) : Prop where
  free : ∀ ph e, P.allowed ph e
  around : P.Ignores ServerEff.Around
  endpoint : ∀ (endpoint : Endpoint) ph, P.wp endpoint.code.run (Saw endpoint) ph

variable (Saw : Endpoint → Phase → Except PyExc HttpAnswer → Prop)

/-- How the middlewares answer a request that the key does not let through to its endpoint. -/
def TurnedAway (request : HttpRequest) (expected : Option String) (answer : HttpAnswer) : Prop :=
  match admits request expected with
  | .ok true => False
  | .ok false => ∃ correlationId, answer = answered correlationId (.ok unauthorized)
  | .error _ => answer = internalServerError

/-- A request is answered by the middlewares, as the key says that it has read, or with what its
endpoint has seen. -/
def Answering [Framework] (request : HttpRequest) (ph : Option (Option String) × Phase)
    (answer : HttpAnswer) : Prop :=
  (∃ expected, ph.1 = some expected ∧ TurnedAway request expected answer) ∨
    ∃ correlationId r, answer = answered correlationId r ∧
      ∀ endpoint, Framework.route request = .ok endpoint → Saw endpoint ph.2 r

def Sighted [Framework] : ServerCall → Option (Option String) × Phase → ServerReply → Prop
  | .http request, ph, .http answer => Answering Saw request ph answer
  | .http _, _, .process _ => False
  | .process _, _, _ => True

variable {Saw} [JsonCodec] [Framework]
variable {P : Interleaving.Protocol ServerEff ServerEff.Res ServerCall Phase}

theorem Watches.routed (hw : Watches P Saw) (request : HttpRequest) (ph : Phase) :
    P.wp (application request).run (fun ph' r => ∀ endpoint,
      Framework.route request = .ok endpoint → Saw endpoint ph' r) ph := by
  unfold application
  cases hroute : Framework.route request with
  | error answer => exact fun endpoint heq => by cases heq
  | ok endpoint =>
    refine P.wp_mono (hw.endpoint endpoint ph) ?_
    rintro ph' r hsaw _ ⟨⟩
    exact hsaw

theorem Watches.dispatch (hw : Watches P Saw) (request : HttpRequest) (correlationId : String)
    (ph : Option (Option String) × Phase) :
    (keyed P).wp (ApiKeyMiddleware.dispatch request (application request)).run
      (fun ph' r => Answering Saw request ph' (answered correlationId r)) ph := by
  refine (wp_except_bind ..).mpr ⟨hw.free _ _, ?_⟩
  intro expected _
  change (keyed P).wp (Server.ofExcept (admits request expected) >>= fun passes =>
    if passes then application request else pure unauthorized).run _
    (some expected, P.next ph.2 apiKey expected)
  cases hadmits : admits request expected with
  | error exc =>
    refine .inl ⟨expected, rfl, ?_⟩
    rw [TurnedAway, hadmits]
    rfl
  | ok passes =>
    cases passes with
    | false =>
      refine .inl ⟨expected, rfl, ?_⟩
      rw [TurnedAway, hadmits]
      exact ⟨correlationId, rfl⟩
    | true =>
      refine (keyed P).wp_mono (keyed_wp (hw.routed request _)) ?_
      exact fun ph' r hsaw => .inr ⟨correlationId, r, rfl, hsaw⟩

theorem Watches.code (hw : Watches P Saw) (call : ServerCall) :
    (keyed P).wp call.code (Sighted Saw call) ((keyed P).start call) := by
  have hfree : ∀ ph e, (keyed P).allowed ph e := fun ph e => hw.free ph.2 e
  have hkept : ∀ (e : ServerEff), e.Around → e ≠ apiKey → ∀ ph r, (keyed P).next ph e r = ph := by
    intro e he hne ph r
    exact Prod.ext (keyAfter_of_ne r hne) ((hw.around e he ph.2).2 r)
  cases call with
  | http request =>
    have hid : ∀ ph, (keyed P).wp (CorrelationIdMiddleware.correlationIdOf request).run
        (fun _ r => ∃ correlationId, r = .ok correlationId) ph := by
      intro ph
      unfold CorrelationIdMiddleware.correlationIdOf
      split
      · exact ⟨_, rfl⟩
      · exact ⟨hfree _ _, fun r _ => ⟨r, rfl⟩⟩
    have hserve : (ServerCall.http request).code = _ := serve_eq request
    rw [hserve, wp_bind]
    refine (keyed P).wp_mono (hid _) ?_
    rintro _ _ ⟨correlationId, rfl⟩
    refine ⟨hfree _ _, fun token _ => ⟨hfree _ _, fun started _ => ?_⟩⟩
    rw [wp_bind]
    refine (keyed P).wp_mono (hw.dispatch request correlationId _) ?_
    intro ph r hanswering
    refine ⟨hfree _ _, fun ended _ => ⟨hfree _ _, fun _ _ => ⟨hfree _ _, fun _ _ =>
      ⟨hfree _ _, fun _ _ => ?_⟩⟩⟩⟩
    rw [hkept (.resetCorrelationId _) trivial (by simp), hkept (.logInfo ..) trivial (by simp),
      hkept (.observeRequest _) trivial (by simp), hkept .perfCounter trivial (by simp)]
    exact hanswering
  | process call => exact (keyed P).wp_free hfree _ _

variable {T : Type} [DecidableEq T] {h : List (ServerEvent T)} {s : ServerSystem T}

def KeyRead (h : List (ServerEvent T)) (t : T) (key : Option (Option String)) : Prop :=
  ∀ expected, key = some expected → Did t apiKey expected (fun _ => True) h

theorem Watches.notes {Noted : List (ServerEvent T) → T → Phase → Prop} (hw : Watches P Saw)
    (idle : ∀ h t, Noted h t P.idle) (start : ∀ h t call, Noted h t (P.start call))
    (later : ∀ {h t ph ev}, Noted h t ph → (∀ call, ev ≠ .start t call) → Noted (ev :: h) t ph)
    (did : ∀ {h s s' t c e r ph}, ServerRuns h s → ServerStep s (.did t c e r) s' → Noted h t ph →
      P.admits ph e r ∧ Noted (.did t c e r :: h) t (P.next ph e r)) (hr : ServerRuns h s) :
    (keyed P).Follows (Sighted Saw) h s ∧ ∀ t, KeyRead h t ((keyed P).phase h t).1 ∧
      Noted h t ((keyed P).phase h t).2 := by
  refine Protocol.notes (fun h t ph => KeyRead h t ph.1 ∧ Noted h t ph.2) hw.code ?_ ?_ ?_ ?_
    (fun _ hi => hi.2.1) hr
  · exact fun h t => ⟨fun _ heq => (by cases heq), idle h t⟩
  · exact fun h t call => ⟨fun _ heq => (by cases heq), start h t call⟩
  · intro h t ph ev hn hev
    exact ⟨fun expected heq => (hn.1 expected heq).later hev, later hn.2 hev⟩
  · intro h s s' t c e r hr hs _ hn
    obtain ⟨hadmits, hnext⟩ := did hr hs hn.2
    refine ⟨hadmits, ?_, hnext⟩
    change KeyRead _ t (keyAfter ((keyed P).phase h t).1 e r)
    unfold keyAfter
    split
    · rintro _ ⟨⟩
      exact .now trivial
    · exact fun expected heq => (hn.1 expected heq).later fun _ heq => by cases heq

/-- The key that a request has read in its call does not let it through. -/
def Barred (t : T) (request : HttpRequest) (answer : HttpAnswer) (h : List (ServerEvent T)) :
    Prop :=
  ∃ expected, Did t apiKey expected (fun _ => True) h ∧ TurnedAway request expected answer

theorem Watches.answering (hw : Watches P Saw) (Noted : List (ServerEvent T) → T → Phase → Prop)
    {t : T} {request : HttpRequest} {answer : HttpAnswer}
    (idle : ∀ h t, Noted h t P.idle) (start : ∀ h t call, Noted h t (P.start call))
    (later : ∀ {h t ph ev}, Noted h t ph → (∀ call, ev ≠ .start t call) → Noted (ev :: h) t ph)
    (did : ∀ {h s s' t c e r ph}, ServerRuns h s → ServerStep s (.did t c e r) s' → Noted h t ph →
      P.admits ph e r ∧ Noted (.did t c e r :: h) t (P.next ph e r))
    (hr : ServerRuns (.stop t (.http request) (.http answer) :: h) s) :
    Barred t request answer h ∨ ∃ correlationId r ph, answer = answered correlationId r ∧
      (∀ endpoint, Framework.route request = .ok endpoint → Saw endpoint ph r) ∧
      Noted h t ph := by
  cases hr with
  | step hr hs =>
    obtain ⟨hfollows, hnoted⟩ := hw.notes idle start later did hr
    rcases hfollows.ends hs with ⟨expected, hkey, hrefused⟩ | ⟨correlationId, r, heq, hsaw⟩
    · exact .inl ⟨expected, (hnoted t).1 expected hkey, hrefused⟩
    · exact .inr ⟨correlationId, r, _, heq, hsaw, (hnoted t).2⟩

end Watching

theorem sights_watches [JsonCodec] : Watches sights Endpoint.Saw where
  free _ _ := trivial
  around e he ph := by
    refine ⟨trivial, fun r => ?_⟩
    cases e <;> cases ph <;> first | rfl | cases he
  endpoint := sights_endpoint

section Moments
variable {T : Type} [DecidableEq T] [JsonCodec] [Framework]
variable {h : List (ServerEvent T)} {s : ServerSystem T}

/-- The tables of the service are tables of a run of the core system, under some callers. -/
theorem ServerRuns.tables (hr : ServerRuns h s) : ∃ (h' : List (OpenEvent T)) (s' : OpenSystem T),
    OpenRuns h' s' ∧ s'.shared.db = s.shared.core.db := by
  obtain ⟨h', s', ha⟩ := hr.along
  obtain ⟨h'', s'', hr'', hshared⟩ := Runs.opened ha.runs.2
  exact ⟨h'', s'', hr'', congrArg Shared.db (hshared.trans ha.shared)⟩

theorem ServerRuns.legible (hr : ServerRuns h s) :
    (∀ id row, s.shared.core.db.row? id = some row → ∃ result, toResult row = .ok result) ∧
      ∀ id, ∃ events, (s.shared.core.db.auditLog id).mapM EventRow.toEvent = .ok events := by
  obtain ⟨h', s', hr', hdb⟩ := hr.tables
  rw [← hdb]
  constructor
  · intro id row hrow
    obtain ⟨result, hresult, -⟩ := OpenRuns.legible hr' hrow
    exact ⟨result, hresult⟩
  · intro id
    have hlegible : ∀ e ∈ s'.shared.db.auditLog id, ∃ status : AutomationStatus,
        e.status = status.value := by
      intro e he
      rw [hr'.tells.ordered.auditLog id] at he
      exact (OpenRuns.mirrored hr').events e (List.mem_filter.mp he).1
    obtain ⟨events, hevents, -⟩ := mapM_toEvent hlegible
    exact ⟨events, hevents⟩

/-- What a phase says was so at a moment of the call. -/
def Sight.Noted (h : List (ServerEvent T)) (t : T) : Sight → Prop
  | nothing => True
  | .row id found =>
    Met serverMachine ServerInitial t (fun _ s => s.shared.core.db.row? id = found) h
  | log id found logId rows => Met serverMachine ServerInitial t
    (fun h₁ s₁ => s₁.shared.core.db.auditLog logId = rows ∧ Met serverMachine ServerInitial t
      (fun _ s => s.shared.core.db.row? id = some found) h₁) h

theorem Sight.Noted.later {ev : ServerEvent T} {t : T} {ph : Sight} (hn : ph.Noted h t)
    (hev : ∀ call, ev ≠ .start t call) : ph.Noted (ev :: h) t := by
  cases ph with
  | nothing => trivial
  | row id found => exact Met.later hn hev
  | log id found logId rows => exact Met.later hn hev

theorem Sight.Noted.did {s' : ServerSystem T} {t : T} {c : ServerChoice} {e : ServerEff} {r : e.Res}
    {ph : Sight} (hr : ServerRuns h s) (hs : ServerStep s (.did t c e r) s') (hn : ph.Noted h t) :
    Sight.admits e r ∧ (ph.next e r).Noted (.did t c e r :: h) t := by
  have hkeep : ph.Noted (.did t c e r :: h) t := hn.later fun _ heq => by cases heq
  cases e with
  | question q =>
    have hanswer : q.answer ⟨s.shared.core.db, c.utc⟩ = r := congrArg Prod.fst hs.did_handle
    cases q with
    | row id =>
      obtain rfl : s.shared.core.db.row? id = r := hanswer
      refine ⟨fun row hrow => (hr.legible).1 id row hrow, ?_⟩
      have hmet : (Sight.row id (s.shared.core.db.row? id)).Noted h t := Met.now hr rfl
      exact Sight.Noted.later hmet fun _ heq => by cases heq
    | events logId =>
      obtain rfl : s.shared.core.db.auditLog logId = r := hanswer
      refine ⟨(hr.legible).2 logId, ?_⟩
      cases ph with
      | row id found =>
        cases found with
        | none => exact hkeep
        | some found =>
          have hmet : (Sight.log id found logId (s.shared.core.db.auditLog logId)).Noted h t :=
            Met.now hr ⟨rfl, hn⟩
          exact Sight.Noted.later hmet fun _ heq => by cases heq
      | _ => exact hkeep
    | _ =>
      refine ⟨trivial, ?_⟩
      cases ph with
      | row id found => cases found <;> exact hkeep
      | _ => exact hkeep
  | _ =>
    refine ⟨trivial, ?_⟩
    cases ph with
    | row id found => cases found <;> exact hkeep
    | _ => exact hkeep


variable {t t' : T} {request post : HttpRequest} {answer accepted : HttpAnswer} {id : String}

def AnsweredBy (Shown : HttpAnswer → Prop) (answer : HttpAnswer) : Prop :=
  ∃ correlationId shown, answer = answered correlationId (.ok shown) ∧ Shown shown

theorem ServerRuns.answering (hr : ServerRuns (.stop t (.http request) (.http answer) :: h) s) :
    Barred t request answer h ∨ ∃ correlationId r ph, answer = answered correlationId r ∧
      (∀ endpoint, Framework.route request = .ok endpoint → endpoint.Saw ph r) ∧
      Sight.Noted h t ph :=
  sights_watches.answering (fun h t ph => ph.Noted h t) (fun _ _ => trivial)
    (fun _ _ _ => trivial) Sight.Noted.later (fun hr hs hn => hn.did hr hs) hr

end Moments

section Sample

/-- A framework with the endpoint that submits and the one that tells the status. -/
@[reducible] def pollable : Framework where
  route request :=
    if request.method = "POST" then .ok (.createAutomationRequest sampleRequest)
    else .ok (.getAutomationRequest "a")

def polling : HttpRequest :=
  ⟨"GET", "/automation-requests/a", [("x-api-key", "secret")], ""⟩

def acceptedRun : List (ServerEvent ℕ) × ServerSystem ℕ :=
  letI := emptyPayload
  letI := pollable
  Interleaving.State.play serverMachine
    (.start 0 (.http (posting [("x-api-key", "secret")])) :: List.replicate 20 (.go 0 .guarded))
    ([], ServerSystem.initial)

def asking : ServerSystem ℕ :=
  letI := emptyPayload
  letI := pollable
  { acceptedRun.2 with
    running := Function.update acceptedRun.2.running 1
      (some (.http polling, (ServerCall.http polling).code)) }

def polledRun : List (ServerEvent ℕ) × ServerSystem ℕ :=
  letI := emptyPayload
  letI := pollable
  Interleaving.State.play serverMachine (List.replicate 10 (.go 1 .guarded)) ([], asking)

/-- A request that was answered with a result: by whom, and with which status code and id. -/
def told : ServerEvent ℕ → Option (ℕ × HttpRequest × ℕ × String)
  | .stop t (.http request) (.http answer) =>
    match answer.content with
    | .result result => some (t, request, answer.statusCode, result.requestId)
    | _ => none
  | _ => none

theorem told_eq_some {ev : ServerEvent ℕ} {t n : ℕ} {request : HttpRequest} {id : String}
    (h : told ev = some (t, request, n, id)) : ∃ answer result,
      ev = .stop t (.http request) (.http answer) ∧ answer.statusCode = n ∧
        answer.content = .result result ∧ result.requestId = id := by
  unfold told at h
  split at h
  · next answer =>
    split at h
    · next result hresult =>
      cases h
      exact ⟨answer, result, rfl, rfl, hresult, rfl⟩
    · cases h
  · cases h

theorem acceptedRun_told : ∃ answer result,
    .stop 0 (.http (posting [("x-api-key", "secret")])) (.http answer) ∈ acceptedRun.1 ∧
      answer.statusCode = 202 ∧ answer.content = .result result ∧ result.requestId = "a" := by
  have htold : acceptedRun.1.filterMap told =
      [(0, posting [("x-api-key", "secret")], 202, "a")] := by decide +kernel
  obtain ⟨ev, hmem, hev⟩ := List.mem_filterMap.mp (htold ▸ List.mem_cons_self)
  obtain ⟨answer, result, rfl, haccepted, hresult, hid⟩ := told_eq_some hev
  exact ⟨answer, result, hmem, haccepted, hresult, hid⟩

theorem polledRun_runs : letI := emptyPayload; letI := pollable
    ∃ answer rest, ServerRuns (.stop 1 (.http polling) (.http answer) ::
      (rest ++ .start 1 (.http polling) :: acceptedRun.1)) polledRun.2 := by
  let _ := emptyPayload
  let _ := pollable
  have hr : ServerRuns acceptedRun.1 acceptedRun.2 :=
    Runs.play _ (.init ServerSystem.initial_initial)
  have hidle : acceptedRun.2.running 1 = none := by
    have h : (acceptedRun.2.running 1).isNone = true := by decide +kernel
    exact Option.isNone_iff_eq_none.mp h
  have hpolled := (hr.step (.start 1 (.http polling) hidle)).append
    (Steps.play (List.replicate 10 (.go 1 .guarded)) .refl)
  have htold : polledRun.1.head?.bind told = some (1, polling, 200, "a") := by decide +kernel
  obtain ⟨ev, hev, heq⟩ := Option.bind_eq_some_iff.mp htold
  obtain ⟨answer, result, rfl, -⟩ := told_eq_some heq
  obtain ⟨rest, hrest⟩ := List.head?_eq_some_iff.mp hev
  refine ⟨answer, rest, ?_⟩
  have hhistory : polledRun.1 ++ .start 1 (.http polling) :: acceptedRun.1 =
      .stop 1 (.http polling) (.http answer) ::
        (rest ++ .start 1 (.http polling) :: acceptedRun.1) := by rw [hrest, List.cons_append]
  rw [← hhistory]
  exact hpolled

end Sample

end Orchestrator
