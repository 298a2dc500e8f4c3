import Mathlib.Data.Finset.Card
import Orchestrator.Library.Moments
import Orchestrator.Server

/-!
# What the service observes of a request

Each request is counted once, whatever becomes of it, with the status code that its client
receives, and logged once if the level of the root logger lets such records through. Its record
in the log has the correlation id of the request, which belongs to the context of the request:
requests that are served at the same time do not mix theirs.
-/

namespace Orchestrator

open Interaction Interleaving Discipline Library
set_option autoImplicit false

/-- The correlation id that a request comes with. -/
def HttpRequest.givenId (request : HttpRequest) : Option String :=
  (request.header "x-correlation-id").filter (· ≠ "")

/-- How far `CorrelationIdMiddleware` has got with a request. -/
inductive Serving where
  | idle
  | received (request : HttpRequest)
  | drawn (request : HttpRequest) (correlationId : String)
  | tagged (request : HttpRequest) (correlationId : String)
  | observed (request : HttpRequest) (correlationId : String) (statusCode : ℤ)
  | logged (request : HttpRequest) (correlationId : String) (statusCode : ℤ)
  | finished (request : HttpRequest) (correlationId : String) (statusCode : ℤ)

namespace Serving

def allows : Serving → ServerEff → Prop
  | idle, e => e.Inner
  | received request, e =>
    match request.givenId with
    | some given => e = .setCorrelationId given
    | none => e = .program .uuid4
  | drawn _ correlationId, e => e = .setCorrelationId correlationId
  | tagged request _, .observeRequest o => o.method = request.method ∧ o.path = request.path
  | tagged .., e => e.Inner
  | observed request _ statusCode, e => ∃ (n : ℕ) (durationMs : ℚ),
    (n : ℤ) = statusCode ∧ e = .logInfo request.method request.path n durationMs
  | logged .., e => e = .resetCorrelationId "-"
  | finished .., _ => False

def next : Serving → (e : ServerEff) → e.Res → Serving
  | received request, .program .uuid4, correlationId => drawn request correlationId
  | received request, .setCorrelationId correlationId, _ => tagged request correlationId
  | drawn request _, .setCorrelationId correlationId, _ => tagged request correlationId
  | tagged request id, .observeRequest o, _ => observed request id o.statusCode
  | observed request id statusCode, .logInfo .., _ => logged request id statusCode
  | logged request id statusCode, .resetCorrelationId _, _ => finished request id statusCode
  | ph, _, _ => ph

def admits : (e : ServerEff) → e.Res → Prop
  | .setCorrelationId _, token => token = "-"
  | _, _ => True

def start : ServerCall → Serving
  | .http request => received request
  | .process _ => idle

/-- The answer has the status code that was observed, and shows the correlation id unless it is
the answer to an exception. -/
def Ends : ServerCall → Serving → ServerReply → Prop
  | .http request, ph, .http answer => ∃ correlationId, ph = finished request correlationId
      answer.statusCode ∧ (answer.correlationId = some correlationId ∨ answer = internalServerError)
  | _, ph, _ => ph = idle

theorem allows_observeRequest {ph : Serving} {o : Observation}
    (hal : ph.allows (.observeRequest o)) : ∃ request id,
      ph = tagged request id ∧ o.method = request.method ∧ o.path = request.path := by
  cases ph with
  | idle => cases hal
  | received request =>
    cases hgiven : request.givenId <;> simp [allows, hgiven] at hal
  | drawn request id => cases hal
  | tagged request id => exact ⟨request, id, rfl, hal⟩
  | observed request id statusCode =>
    obtain ⟨n, durationMs, -, heq⟩ := hal
    cases heq
  | logged request id statusCode => cases hal
  | finished request id statusCode => cases hal

end Serving

def serving : Interleaving.Protocol ServerEff ServerEff.Res ServerCall Serving where
  allowed := Serving.allows
  admits _ := Serving.admits
  next := Serving.next
  idle := .idle
  start := Serving.start

/-- What does not touch the middleware. -/
def inside : Discipline ServerEff ServerEff.Res Unit where
  allowed _ e := e.Inner
  admits _ _ _ := True
  next _ _ _ := ()

theorem inside_inner : inside.Ignores ServerEff.Inner := fun _ he _ => ⟨he, fun _ => rfl⟩

theorem serving_stays {α : Type} {p : Prog ServerEff ServerEff.Res α} {Q : Unit → α → Prop}
    (hp : inside.wp p Q ()) (ph : Serving)
    (hph : ph = .idle ∨ ∃ request id, ph = .tagged request id) :
    serving.wp p (fun ph' _ => ph' = ph) ph := by
  refine wp_stays ?_ hp
  intro e he
  refine ⟨?_, fun r => ⟨trivial, ?_⟩⟩
  · rcases hph with rfl | ⟨request, id, rfl⟩
    · exact he
    · cases e <;> first | exact he | cases he
  · rcases hph with rfl | ⟨request, id, rfl⟩
    · cases e <;> rfl
    · cases e <;> first | rfl | cases he

theorem serving_correlationIdOf (request : HttpRequest) :
    serving.wp (CorrelationIdMiddleware.correlationIdOf request).run
      (fun ph r => ∃ id, r = .ok id ∧ ph.allows (.setCorrelationId id) ∧
        ∀ token, ph.next (.setCorrelationId id) token = .tagged request id)
      (.received request) := by
  unfold CorrelationIdMiddleware.correlationIdOf
  split
  · next id hid =>
    refine ⟨id, rfl, ?_, fun _ => rfl⟩
    rw [Serving.allows, HttpRequest.givenId, hid]
  · next hnone =>
    refine ⟨?_, fun id _ => ⟨id, rfl, rfl, fun _ => rfl⟩⟩
    change Serving.allows (.received request) _
    rw [Serving.allows, HttpRequest.givenId, hnone]

theorem serving_afterwards (request : HttpRequest) (correlationId : String) (started : ℚ)
    (r : Except PyExc HttpAnswer) :
    serving.wp (afterwards request correlationId "-" started r)
      (Serving.Ends (.http request)) (.tagged request correlationId) := by
  refine ⟨trivial, fun ended _ => ?_⟩
  refine ⟨⟨rfl, rfl⟩, fun _ _ => ?_⟩
  refine ⟨⟨_, _, rfl, rfl⟩, fun _ _ => ?_⟩
  refine ⟨rfl, fun _ _ => ?_⟩
  cases r with
  | ok answer => exact ⟨correlationId, rfl, .inl rfl⟩
  | error exc => exact ⟨correlationId, rfl, .inr rfl⟩

section Code
variable [JsonCodec] [Framework]

theorem neutral_application (request : HttpRequest) : inside.Neutral (application request) := by
  unfold application
  split
  · exact Endpoint.neutral_code inside_inner _
  · exact .ret _

theorem neutral_dispatch (request : HttpRequest) :
    inside.Neutral (ApiKeyMiddleware.dispatch request (application request)) := by
  have hread : ServerEff.Inner (.program (.getenv "ORCHESTRATOR_API_KEY")) := trivial
  refine .bind (.effect _ (inside_inner _ hread) rfl) fun expected => ?_
  refine .bind (.ofExcept _) fun passes => ?_
  split
  · exact neutral_application request
  · exact .ret _

theorem serving_code (call : ServerCall) :
    serving.wp call.code (Serving.Ends call) (serving.start call) := by
  cases call with
  | http request =>
    have hserve : (ServerCall.http request).code = _ := serve_eq request
    rw [hserve, wp_bind]
    refine serving.wp_mono (serving_correlationIdOf request) ?_
    rintro ph _ ⟨correlationId, rfl, hallows, hnext⟩
    refine ⟨hallows, ?_⟩
    rintro _ rfl
    rw [show serving.next ph (.setCorrelationId correlationId) "-" = _ from hnext "-"]
    refine ⟨trivial, fun started _ => ?_⟩
    rw [wp_bind]
    have htagged := serving_stays (neutral_dispatch request ()) (.tagged request correlationId)
      (.inr ⟨request, correlationId, rfl⟩)
    refine serving.wp_mono htagged ?_
    rintro _ r rfl
    exact serving_afterwards request correlationId started r
  | process call =>
    have hneutral : inside.wp (call.code.embed ServerEff.program fun _ r => r)
        (fun ph _ => ph = ()) () := by
      refine Discipline.wp_embed ?_ call.code ()
      rintro _ ⟨e, rfl⟩
      exact inside_inner _ trivial
    have hidle := serving_stays hneutral .idle (.inl rfl)
    exact (wp_bind ..).mpr (serving.wp_mono hidle fun _ _ h => h)

end Code

section Observing
variable {T : Type}

def Serving.correlationId : Serving → String
  | tagged _ id | observed _ id _ | logged _ id _ => id
  | _ => "-"

/-- The counter under which the request has been counted. -/
def Serving.counted : Serving → Option (String × String × ℤ)
  | observed request _ statusCode | logged request _ statusCode | finished request _ statusCode =>
    some (request.method, routeOf request.path, statusCode)
  | _ => none

structure LogRecord.Describes (record : LogRecord) (request : HttpRequest) (correlationId : String)
    (statusCode : ℤ) : Prop where
  correlationId : record.correlationId = correlationId
  method : record.method = request.method
  path : record.path = request.path
  statusCode : record.statusCode = statusCode

/-- The correlation id of the call of a thread: the one that the request came with, or else what
`uuid4` has returned as the first that the call did. -/
def IdOf (t : T) (request : HttpRequest) (correlationId : String) (h : List (ServerEvent T)) :
    Prop :=
  match request.givenId with
  | some given => correlationId = given
  | none => Did t (.program .uuid4) correlationId (Begun t (.http request)) h

theorem IdOf.later {t : T} {request : HttpRequest} {id : String} {h : List (ServerEvent T)}
    {ev : ServerEvent T} (hid : IdOf t request id h) (hev : ∀ call, ev ≠ .start t call) :
    IdOf t request id (ev :: h) := by
  unfold IdOf at hid ⊢
  split at hid
  · exact hid
  · exact hid.later hev

/-- What a phase says of the call so far. -/
def Serving.Noted (h : List (ServerEvent T)) (t : T) : Serving → Prop
  | idle => True
  | received request => Begun t (.http request) h
  | drawn request id => request.givenId = none ∧
    Did t (.program .uuid4) id (Begun t (.http request)) h
  | tagged request id | observed request id _ | logged request id _ | finished request id _ =>
    IdOf t request id h

theorem Serving.Noted.later {h : List (ServerEvent T)} {t : T} {ev : ServerEvent T} {ph : Serving}
    (hn : ph.Noted h t) (hev : ev.Spares t) : ph.Noted (ev :: h) t := by
  cases ph with
  | idle => trivial
  | received request => exact Begun.later hn hev
  | drawn request id => exact ⟨hn.1, hn.2.later hev.1⟩
  | tagged | observed | logged | finished => exact IdOf.later hn hev.1

/-- The log so far has the record of a request, if it is to have such records. -/
def ServerShared.Describes (s : ServerShared) (request : HttpRequest) (correlationId : String)
    (statusCode : ℤ) : Prop :=
  s.logsInfo → ∃ record ∈ s.log, record.Describes request correlationId statusCode

def Serving.Recorded (s : ServerShared) : Serving → Prop
  | logged request id statusCode | finished request id statusCode =>
    s.Describes request id statusCode
  | _ => True

/-- The log has grown, as far as its level lets it. -/
structure ServerShared.Later (s s' : ServerShared) : Prop where
  log : s.log <+: s'.log
  rootLevel : s'.rootLevel = s.rootLevel
  silent : ¬ s.logsInfo → s'.log = s.log

theorem ServerShared.Later.of_eq {s s' : ServerShared} (hlog : s'.log = s.log)
    (hlevel : s'.rootLevel = s.rootLevel) : s.Later s' :=
  ⟨hlog ▸ List.prefix_rfl, hlevel, fun _ => hlog⟩

theorem ServerShared.Later.logsInfo {s s' : ServerShared} (h : s.Later s') :
    s'.logsInfo ↔ s.logsInfo := by
  unfold ServerShared.logsInfo
  rw [h.rootLevel]

theorem ServerShared.Describes.later {s s' : ServerShared} {request : HttpRequest} {id : String}
    {statusCode : ℤ} (h : s.Describes request id statusCode) (hs : s.Later s') :
    s'.Describes request id statusCode := by
  intro hinfo
  obtain ⟨record, hmem, hdescribes⟩ := h (hs.logsInfo.mp hinfo)
  exact ⟨record, hs.log.subset hmem, hdescribes⟩

theorem Serving.Recorded.later {s s' : ServerShared} {ph : Serving} (h : ph.Recorded s)
    (hs : s.Later s') : ph.Recorded s' := by
  cases ph with
  | logged | finished => exact ServerShared.Describes.later h hs
  | _ => exact h

/-- The client has received the correlation id of its call, unless its request ended in an
exception, and the log tells under this id how the request was answered. -/
def Reported (s : ServerShared) (t : T) (request : HttpRequest) (answer : HttpAnswer)
    (h : List (ServerEvent T)) : Prop :=
  ∃ id, IdOf t request id h ∧
    (answer.correlationId = some id ∨ answer = internalServerError) ∧
    s.Describes request id answer.statusCode

def HttpMetrics.count (self : HttpMetrics) (key : String × String × ℤ) : ℕ :=
  (self.requestCounts.get? key).getD 0

theorem count_observeRequest (self : HttpMetrics) (o : Observation) (key : String × String × ℤ) :
    (self.observeRequest o).count key =
      self.count key + if (o.method, routeOf o.path, o.statusCode) = key then 1 else 0 := by
  rw [HttpMetrics.count, HttpMetrics.observeRequest, Dict.get?_modify]
  by_cases hkey : (o.method, routeOf o.path, o.statusCode) = key
  · subst hkey
    simp [HttpMetrics.count]
  · rw [if_neg (Ne.symm hkey), if_neg hkey]
    rfl

/-- The counter of a request that has been answered. -/
def tallied : ServerEvent T → Option (String × String × ℤ)
  | .stop _ (.http request) (.http answer) =>
    some (request.method, routeOf request.path, answer.statusCode)
  | _ => none

/-- The requests of a method, a route group and a status code that have been answered. -/
def tally (key : String × String × ℤ) (h : List (ServerEvent T)) : ℕ :=
  h.countP fun ev => tallied ev = some key

theorem tally_cons (key : String × String × ℤ) (ev : ServerEvent T) (h : List (ServerEvent T)) :
    tally key (ev :: h) = tally key h + if tallied ev = some key then 1 else 0 := by
  simp [tally, List.countP_cons]

theorem answered_of_tally {key : String × String × ℤ} {h : List (ServerEvent T)}
    (hpos : 0 < tally key h) : ∃ t request answer, .stop t (.http request) (.http answer) ∈ h ∧
      (request.method, routeOf request.path, (answer.statusCode : ℤ)) = key := by
  obtain ⟨ev, hmem, htallied⟩ := List.countP_pos_iff.mp hpos
  cases ev with
  | stop t call reply =>
    cases call with
    | process call => cases reply <;> simp [tallied] at htallied
    | http request =>
      cases reply with
      | process reply => simp [tallied] at htallied
      | http answer => exact ⟨t, request, answer, hmem, by simpa [tallied] using htallied⟩
  | _ => simp [tallied] at htallied

variable [DecidableEq T]

theorem late_update {f : T → Serving} {key : String × String × ℤ} {late : Finset T}
    (hlate : ∀ t, t ∈ late ↔ (f t).counted = some key) (t : T) (ph : Serving) :
    ∃ late' : Finset T, (∀ t', t' ∈ late' ↔ (Function.update f t ph t').counted = some key) ∧
      (late'.card + if (f t).counted = some key then 1 else 0) =
        late.card + if ph.counted = some key then 1 else 0 := by
  by_cases hph : ph.counted = some key
  · refine ⟨insert t late, ?_, ?_⟩
    · intro t'
      by_cases ht : t' = t
      · subst ht
        simp [hph]
      · simp [ht, hlate]
    · by_cases hmem : t ∈ late
      · rw [Finset.insert_eq_of_mem hmem, if_pos ((hlate t).mp hmem), if_pos hph]
      · rw [Finset.card_insert_of_notMem hmem, if_neg (fun h => hmem ((hlate t).mpr h)),
          if_pos hph]
  · refine ⟨late.erase t, ?_, ?_⟩
    · intro t'
      by_cases ht : t' = t
      · subst ht
        simp [hph]
      · simp [ht, hlate]
    · by_cases hmem : t ∈ late
      · have hpos := Finset.card_pos.mpr ⟨t, hmem⟩
        rw [Finset.card_erase_of_mem hmem, if_pos ((hlate t).mp hmem), if_neg hph]
        omega
      · rw [Finset.erase_eq_of_notMem hmem, if_neg (fun h => hmem ((hlate t).mpr h)), if_neg hph]

structure Observing (h : List (ServerEvent T)) (s : ServerSystem T) : Prop where
  ids : ∀ t, (s.locals t).correlationId = (serving.phase h t).correlationId
  noted : ∀ t, (serving.phase h t).Noted h t
  silent : ¬ s.shared.logsInfo → s.shared.log = []
  records : ∀ t, (serving.phase h t).Recorded s.shared
  counts : ∀ key, ∃ late : Finset T, (∀ t, t ∈ late ↔ (serving.phase h t).counted = some key) ∧
    s.shared.httpMetrics.count key = tally key h + late.card
  reports : ∀ t request answer later earlier,
    h = later ++ .stop t (.http request) (.http answer) :: earlier →
    Reported s.shared t request answer earlier

variable {h : List (ServerEvent T)} {s s' : ServerSystem T} {ev : ServerEvent T}

/-- What a step has to do for the invariant, if it is a step of one thread. -/
theorem Observing.moved (ho : Observing h s) {t : T} {ph : Serving}
    (hphase : serving.phase (ev :: h) = Function.update (serving.phase h) t ph)
    (hid : (s'.locals t).correlationId = ph.correlationId)
    (hothers : ∀ t', t' ≠ t → s'.locals t' = s.locals t' ∧ ev.Spares t')
    (hlater : s.shared.Later s'.shared) (hnoted : ph.Noted (ev :: h) t)
    (hrecorded : ph.Recorded s'.shared)
    (hcounts : ∀ key, (s'.shared.httpMetrics.count key +
        if (serving.phase h t).counted = some key then 1 else 0) =
      s.shared.httpMetrics.count key + (if tallied ev = some key then 1 else 0) +
        if ph.counted = some key then 1 else 0)
    (hreports : ∀ t request answer, ev = .stop t (.http request) (.http answer) →
      Reported s'.shared t request answer h) : Observing (ev :: h) s' where
  ids t' := by
    rw [hphase]
    by_cases ht : t' = t
    · subst ht
      rw [Function.update_self]
      exact hid
    · rw [Function.update_of_ne ht, (hothers t' ht).1]
      exact ho.ids t'
  noted t' := by
    rw [hphase]
    by_cases ht : t' = t
    · subst ht
      rw [Function.update_self]
      exact hnoted
    · rw [Function.update_of_ne ht]
      exact (ho.noted t').later (hothers t' ht).2
  silent hquiet := by
    have hbefore := mt hlater.logsInfo.mpr hquiet
    rw [hlater.silent hbefore]
    exact ho.silent hbefore
  records t' := by
    rw [hphase]
    by_cases ht : t' = t
    · subst ht
      rw [Function.update_self]
      exact hrecorded
    · rw [Function.update_of_ne ht]
      exact (ho.records t').later hlater
  counts key := by
    obtain ⟨late, hlate, hcount⟩ := ho.counts key
    obtain ⟨late', hlate', hcard⟩ := late_update hlate t ph
    refine ⟨late', fun t' => by rw [hphase, hlate'], ?_⟩
    have hkey := hcounts key
    rw [tally_cons]
    omega
  reports t' request answer later earlier heq := by
    cases later with
    | nil =>
      obtain ⟨rfl, rfl⟩ := List.cons_eq_cons.mp heq
      exact hreports t' request answer rfl
    | cons ev' later =>
      obtain ⟨-, rfl⟩ := List.cons_eq_cons.mp heq
      obtain ⟨id, hid, hshown, hdescribes⟩ := ho.reports t' request answer later earlier rfl
      exact ⟨id, hid, hshown, hdescribes.later hlater⟩

theorem serverHandle_inner [JsonCodec] {c : ServerChoice} {e : ServerEff} {sh sh' : ServerShared}
    {l l' : ServerLocal} {r : e.Res} (he : e.Inner) (hh : serverHandle c e sh l = (r, sh', l')) :
    sh'.httpMetrics = sh.httpMetrics ∧ sh'.log = sh.log ∧ sh'.rootLevel = sh.rootLevel ∧
      l'.correlationId = l.correlationId := by
  cases e with
  | setCorrelationId | resetCorrelationId | observeRequest | logInfo => cases he
  | model e => cases e <;> cases hh <;> exact ⟨rfl, rfl, rfl, rfl⟩
  | _ =>
    cases hh
    exact ⟨rfl, rfl, rfl, rfl⟩

variable [JsonCodec] [Framework]

theorem Observing.acted (ho : Observing h s) {t : T} {c : ServerChoice} {e : ServerEff} {r : e.Res}
    (hs : ServerStep s (.did t c e r) s') {ph ph' : Serving} (hph : serving.phase h t = ph)
    (hnext : ph.next e r = ph') (hid : (s'.locals t).correlationId = ph'.correlationId)
    (hlater : s.shared.Later s'.shared) (hnoted : ph'.Noted (.did t c e r :: h) t)
    (hrecorded : ph'.Recorded s'.shared)
    (hcounts : ∀ key, (s'.shared.httpMetrics.count key + if ph.counted = some key then 1 else 0) =
      s.shared.httpMetrics.count key + if ph'.counted = some key then 1 else 0) :
    Observing (.did t c e r :: h) s' := by
  subst hph hnext
  refine ho.moved (serving.phase_did h t c e r) hid ?_ hlater hnoted hrecorded ?_ (by simp)
  · intro t' ht
    refine ⟨?_, fun _ heq => (by cases heq), ?_⟩
    · cases hs with
      | did _ _ hrun => exact Function.update_of_ne ht _ _
    · rintro _ _ _ ⟨⟩
      exact ht rfl
  · intro key
    have hnone : tallied (.did t c e r : ServerEvent T) ≠ some key := by simp [tallied]
    rw [hcounts key, if_neg hnone, Nat.add_zero]
    rfl

variable {t : T} {c : ServerChoice} {e : ServerEff} {r : e.Res} {request : HttpRequest}
variable {id : String} {statusCode : ℤ}

theorem Observing.inner (ho : Observing h s) (hs : ServerStep s (.did t c e r) s') (he : e.Inner)
    {ph ph' : Serving} (hph : serving.phase h t = ph) (hnext : ph.next e r = ph')
    (hid : ph'.correlationId = ph.correlationId) (hcounted : ph'.counted = ph.counted)
    (hnoted : ph'.Noted (.did t c e r :: h) t) (hrecorded : ∀ s, ph'.Recorded s) :
    Observing (.did t c e r :: h) s' := by
  obtain ⟨hmetrics, hlog, hlevel, hsame⟩ := serverHandle_inner he hs.did_handle
  refine ho.acted hs hph hnext ?_ (.of_eq hlog hlevel) hnoted (hrecorded _) ?_
  · rw [hsame, hid, ← hph]
    exact ho.ids t
  · intro key
    rw [hmetrics, hcounted]

theorem Observing.tagging {token : String} (ho : Observing h s)
    (hs : ServerStep s (.did t c (.setCorrelationId id) token) s') {ph : Serving}
    (hph : serving.phase h t = ph)
    (hnext : ph.next (.setCorrelationId id) token = .tagged request id)
    (hdash : ph.correlationId = "-") (hcounted : ph.counted = none) (hid : IdOf t request id h) :
    token = "-" ∧ Observing (.did t c (.setCorrelationId id) token :: h) s' := by
  have hh := hs.did_handle
  simp only [serverMachine, serverHandle, Prod.mk.injEq] at hh
  obtain ⟨htoken, hshared, hlocal⟩ := hh
  have hbefore := ho.ids t
  rw [hph, hdash] at hbefore
  refine ⟨htoken.symm.trans hbefore, ?_⟩
  refine ho.acted hs hph hnext ?_ ?_ (IdOf.later hid fun _ heq => by cases heq) trivial ?_
  · rw [← hlocal]
    rfl
  · exact .of_eq (by rw [hshared]) (by rw [hshared])
  · intro key
    rw [hshared, hcounted]
    rfl

theorem Observing.counting {o : Observation} {u : Unit} (ho : Observing h s)
    (hs : ServerStep s (.did t c (.observeRequest o) u) s')
    (hph : serving.phase h t = .tagged request id) (hmethod : o.method = request.method)
    (hpath : o.path = request.path) : Observing (.did t c (.observeRequest o) u :: h) s' := by
  have hh := hs.did_handle
  simp only [serverMachine, serverHandle, Prod.mk.injEq] at hh
  obtain ⟨-, hshared, hlocal⟩ := hh
  have hid := ho.ids t
  have hnoted := ho.noted t
  rw [hph] at hid hnoted
  refine ho.acted hs hph rfl ?_ ?_ (IdOf.later hnoted fun _ heq => by cases heq) trivial ?_
  · rw [← hlocal]
    exact hid
  · exact .of_eq (by rw [← hshared]) (by rw [← hshared])
  · intro key
    rw [← hshared, count_observeRequest, hmethod, hpath]
    simp [Serving.counted, Serving.next]

theorem Observing.logging {n : ℕ} {durationMs : ℚ} {u : Unit} (ho : Observing h s)
    (hs : ServerStep s (.did t c (.logInfo request.method request.path n durationMs) u) s')
    (hph : serving.phase h t = .observed request id n) :
    Observing (.did t c (.logInfo request.method request.path n durationMs) u :: h) s' := by
  have hh := hs.did_handle
  simp only [serverMachine, serverHandle, Prod.mk.injEq] at hh
  obtain ⟨-, hshared, hlocal⟩ := hh
  have hid := ho.ids t
  have hnoted := ho.noted t
  rw [hph] at hid hnoted
  refine ho.acted hs hph rfl ?_ ?_ (IdOf.later hnoted fun _ heq => by cases heq) ?_ ?_
  · rw [← hlocal]
    exact hid
  · rw [← hshared]
    refine ⟨?_, rfl, fun hquiet => if_neg hquiet⟩
    dsimp only
    split
    · exact List.prefix_append _ _
    · exact List.prefix_rfl
  · rw [← hshared]
    intro hinfo
    have hbefore : s.shared.logsInfo := hinfo
    refine ⟨⟨(s.locals t).correlationId, request.method, request.path, n, durationMs⟩, ?_, hid,
      rfl, rfl, rfl⟩
    dsimp only
    rw [if_pos hbefore]
    exact List.mem_append_right _ List.mem_cons_self
  · intro key
    rw [← hshared]
    rfl

theorem Observing.resetting {u : Unit} (ho : Observing h s)
    (hs : ServerStep s (.did t c (.resetCorrelationId "-") u) s')
    (hph : serving.phase h t = .logged request id statusCode) :
    Observing (.did t c (.resetCorrelationId "-") u :: h) s' := by
  have hh := hs.did_handle
  simp only [serverMachine, serverHandle, Prod.mk.injEq] at hh
  obtain ⟨-, hshared, hlocal⟩ := hh
  have hnoted := ho.noted t
  have hrecorded := ho.records t
  rw [hph] at hnoted hrecorded
  refine ho.acted hs hph rfl ?_ ?_ (IdOf.later hnoted fun _ heq => by cases heq) ?_ ?_
  · rw [← hlocal]
    rfl
  · exact .of_eq (by rw [hshared]) (by rw [hshared])
  · rw [← hshared]
    exact hrecorded
  · intro key
    rw [hshared]
    rfl

/-- A step of a thread, as the middleware around it sees it. -/
theorem Observing.did (ho : Observing h s) (hal : (serving.phase h t).allows e)
    (hs : ServerStep s (.did t c e r) s') :
    Serving.admits e r ∧ Observing (.did t c e r :: h) s' := by
  have hadmits : e.Inner → Serving.admits e r := by
    intro he
    cases e <;> trivial
  have hown : ∀ call, (.did t c e r : ServerEvent T) ≠ .start t call := fun _ heq => by cases heq
  have hnoted := ho.noted t
  cases hph : serving.phase h t with
  | idle =>
    rw [hph] at hal
    have hnext : Serving.next .idle e r = .idle := by cases e <;> rfl
    exact ⟨hadmits hal, ho.inner hs hal hph hnext rfl rfl trivial fun _ => trivial⟩
  | received request =>
    rw [hph] at hal hnoted
    cases hgiven : request.givenId with
    | some given =>
      obtain rfl : e = .setCorrelationId given := by simpa [Serving.allows, hgiven] using hal
      have hid : IdOf t request given h := by rw [IdOf, hgiven]
      exact ho.tagging hs hph rfl rfl rfl hid
    | none =>
      obtain rfl : e = .program .uuid4 := by simpa [Serving.allows, hgiven] using hal
      have hdrawn : Serving.Noted (.did t c (.program .uuid4) r :: h) t (.drawn request r) :=
        ⟨hgiven, .now hnoted⟩
      exact ⟨trivial, ho.inner hs trivial hph rfl rfl rfl hdrawn fun _ => trivial⟩
  | drawn request id =>
    rw [hph] at hal hnoted
    obtain rfl : e = .setCorrelationId id := hal
    have hid : IdOf t request id h := by
      rw [IdOf, hnoted.1]
      exact hnoted.2
    exact ho.tagging hs hph rfl rfl rfl hid
  | tagged request id =>
    rw [hph] at hal hnoted
    by_cases he : e.Inner
    · have hnext : Serving.next (.tagged request id) e r = .tagged request id := by
        cases e <;> first | rfl | cases he
      exact ⟨hadmits he, ho.inner hs he hph hnext rfl rfl (IdOf.later hnoted hown) fun _ => trivial⟩
    · cases e with
      | observeRequest o => exact ⟨trivial, ho.counting hs hph hal.1 hal.2⟩
      | _ => exact absurd hal he
  | observed request id statusCode =>
    rw [hph] at hal
    obtain ⟨n, durationMs, rfl, rfl⟩ := hal
    exact ⟨trivial, ho.logging hs hph⟩
  | logged request id statusCode =>
    rw [hph] at hal
    obtain rfl : e = .resetCorrelationId "-" := hal
    exact ⟨trivial, ho.resetting hs hph⟩
  | finished request id statusCode =>
    rw [hph] at hal
    cases hal

theorem Observing.started (ho : Observing h s) {call : ServerCall}
    (hidle : serving.phase h t = .idle) (hs : ServerStep s (.start t call) s') :
    Observing (.start t call :: h) s' := by
  have hid := ho.ids t
  rw [hidle] at hid
  have hlocals : s'.locals = s.locals := by
    cases hs with
    | start => rfl
  have hstart : (serving.start call).counted = none ∧ (serving.start call).correlationId = "-" ∧
      (serving.start call).Noted (.start t call :: h) t ∧
        ∀ s, (serving.start call).Recorded s := by
    cases call with
    | http request => exact ⟨rfl, rfl, .now, fun _ => trivial⟩
    | process call => exact ⟨rfl, rfl, trivial, fun _ => trivial⟩
  obtain ⟨hcounted, hdash, hnoted, hrecorded⟩ := hstart
  refine ho.moved (serving.phase_start h t call) ?_ ?_ ?_ hnoted (hrecorded _) ?_ (by simp)
  · rw [hlocals, hid, hdash]
    rfl
  · intro t' ht
    refine ⟨congrFun hlocals t', ?_, fun _ _ _ heq => by cases heq⟩
    rintro _ ⟨⟩
    exact ht rfl
  · exact .of_eq (by rw [hs.start_shared]) (by rw [hs.start_shared])
  · intro key
    rw [hs.start_shared, hidle, hcounted]
    simp [tallied, Serving.counted]

theorem Observing.stopped (ho : Observing h s) {call : ServerCall} {reply : ServerReply}
    (hends : Serving.Ends call (serving.phase h t) reply)
    (hs : ServerStep s (.stop t call reply) s') : Observing (.stop t call reply :: h) s' := by
  have hid := ho.ids t
  have hrec := ho.records t
  have hnoted := ho.noted t
  have hlocals : s'.locals = s.locals := by
    cases hs with
    | stop => rfl
  have hdash : (s'.locals t).correlationId = Serving.idle.correlationId ∧
      ∀ key, (s'.shared.httpMetrics.count key +
        if (serving.phase h t).counted = some key then 1 else 0) =
      s.shared.httpMetrics.count key + (if tallied (.stop t call reply : ServerEvent T) = some key
        then 1 else 0) + if Serving.idle.counted = some key then 1 else 0 := by
    rw [hlocals, hid, hs.stop_shared]
    cases call with
    | http request =>
      cases reply with
      | http answer =>
        obtain ⟨id, hph, -⟩ := hends
        rw [hph]
        exact ⟨rfl, fun key => by simp [tallied, Serving.counted]⟩
      | process reply =>
        rw [show serving.phase h t = .idle from hends]
        exact ⟨rfl, fun key => by simp [tallied, Serving.counted]⟩
    | process call =>
      rw [show serving.phase h t = .idle from hends]
      exact ⟨rfl, fun key => by simp [tallied, Serving.counted]⟩
  refine ho.moved (serving.phase_stop h t call reply) hdash.1 ?_ ?_ trivial trivial hdash.2 ?_
  · intro t' _
    exact ⟨congrFun hlocals t', fun _ heq => (by cases heq), fun _ _ _ heq => by cases heq⟩
  · exact .of_eq (by rw [hs.stop_shared]) (by rw [hs.stop_shared])
  · rintro t' request answer ⟨⟩
    obtain ⟨id, hph, hanswer⟩ := hends
    rw [hph] at hrec hnoted
    rw [hs.stop_shared]
    exact ⟨id, hnoted, hanswer, hrec⟩

theorem serving_keeps : serving.Keeps serverMachine (ServerInitial (T := T)) Serving.Ends
    (fun _ => True) Observing where
  code := serving_code
  past _ := trivial
  init s hi := by
    obtain ⟨hshared, -, hlocals, -⟩ := hi
    refine ⟨fun t => by rw [hlocals]; rfl, fun _ => trivial, fun _ => by rw [hshared],
      fun _ => trivial, ?_, ?_⟩
    · intro key
      refine ⟨∅, by simp [Interleaving.Protocol.phase, serving, Serving.counted], ?_⟩
      rw [hshared]
      rfl
    · exact fun _ _ _ later _ heq => absurd heq (by cases later <;> simp)
  start _ _ ho hidle hs := ho.started hidle hs
  did _ _ ho hal hs := ho.did hal hs
  stop _ _ ho hends hs := ho.stopped hends hs
  disturb {h s s'} _ _ ho hs := by
    obtain ⟨-, hmetrics, hlog, hlevel⟩ := hs.disturb_shared
    have hlater : s.shared.Later s'.shared := .of_eq hlog hlevel
    have hlocals : s'.locals = s.locals := by
      cases hs with
      | disturb => rfl
    have hphase : serving.phase (.disturb :: h) = serving.phase h := rfl
    refine ⟨?_, ?_, ?_, ?_, ?_, ?_⟩
    · rw [hlocals, hphase]
      exact ho.ids
    · rw [hphase]
      exact fun t => (ho.noted t).later
        ⟨fun _ heq => (by cases heq), fun _ _ _ heq => by cases heq⟩
    · intro hquiet
      rw [hlog]
      exact ho.silent (mt hlater.logsInfo.mpr hquiet)
    · rw [hphase]
      exact fun t => (ho.records t).later hlater
    · intro key
      rw [hmetrics, hphase, tally_cons]
      exact ho.counts key
    · intro t request answer later earlier heq
      cases later with
      | nil => cases heq
      | cons ev later =>
        obtain ⟨-, rfl⟩ := List.cons_eq_cons.mp heq
        obtain ⟨id, hid, hshown, hdescribes⟩ := ho.reports t request answer later earlier rfl
        exact ⟨id, hid, hshown, hdescribes.later hlater⟩

theorem ServerRuns.observing (hr : ServerRuns h s) :
    serving.Follows Serving.Ends h s ∧ Observing h s :=
  serving_keeps.runs (fun _ hi => hi.2.1) hr trivial

end Observing

section Sample

end Sample

end Orchestrator
