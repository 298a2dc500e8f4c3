import Orchestrator.Answers
import Orchestrator.Scraping
import Orchestrator.Serving
import Orchestrator.Snapshot

/-!
# What monitoring sees of the service

The figures of `/metrics` and of the page for Prometheus are those of the tables at three moments
of the call that asks for them, with the age of the oldest request at a reading of the clock after
these, and the counters on the page are those of the requests that had been observed at a moment
after that.
-/

namespace Orchestrator

open Interaction Interleaving Discipline
open Library (Exposition.read)
set_option autoImplicit false

/-- What a request for the figures has found so far: three figures, what the clock says if a request
waits, and the text of the counters. -/
inductive Gauging where
  | nothing
  | total (total : ℕ)
  | counts (total : ℕ) (byStatus : List (String × ℕ))
  | oldest (total : ℕ) (byStatus : List (String × ℕ)) (oldest : Option String)
    (now : Option Instant)
  | rendered (total : ℕ) (byStatus : List (String × ℕ)) (oldest : Option String)
    (now : Option Instant) (text : String)

namespace Gauging

/-- A time that is found can be read. -/
def admits : (e : ServerEff) → e.Res → Prop
  | .question .oldest, found => ∀ text, found = some text → ∃ t : Instant, text = t.isoformat
  | _, _ => True

def next : Gauging → (e : ServerEff) → e.Res → Gauging
  | _, .question .total, n => total n
  | total n, .question .byStatus, byStatus => counts n byStatus
  | counts n byStatus, .question .oldest, found => oldest n byStatus found none
  | oldest n byStatus found none, .question .utcNow, now => oldest n byStatus found (some now)
  | oldest n byStatus found now, .renderHttpMetrics, text => rendered n byStatus found now text
  | ph, _, _ => ph

end Gauging

def gauging : Interleaving.Protocol ServerEff ServerEff.Res ServerCall Gauging where
  allowed _ _ := True
  admits _ := Gauging.admits
  next := Gauging.next
  idle := .nothing
  start _ := .nothing

def figures (total : ℕ) (byStatus : List (String × ℕ)) (age : Option ℚ) : MetricsSnapshot :=
  let count (status : AutomationStatus) := (byStatus.lookup status.value).getD 0
  { totalRequests := total
    byStatus := byStatus
    queueDepth := count .queued + count .retrying
    retryingCount := count .retrying
    deadLetterCount := count .deadLetter
    oldestQueuedAgeSeconds := age }

/-- The snapshot shows these answers, with an age if the clock has been read. -/
def Figures (total : ℕ) (byStatus : List (String × ℕ)) (oldest : Option String) :
    Option Instant → MetricsSnapshot → Prop
  | none, snapshot => oldest = none ∧ snapshot = figures total byStatus none
  | some now, snapshot => ∃ age, AutomationRepository.oldestAge oldest now = .ok age ∧
    snapshot = figures total byStatus age

theorem gauging_ask {α : Type} (q : Question) (f : q.Res → View α)
    (Q : Gauging → Except PyExc α → Prop) (ph : Gauging) :
    gauging.wp (Server.ofView (View.ask q >>= f)).run Q ph ↔
      ∀ r, Gauging.admits (.question q) r →
        gauging.wp (Server.ofView (f r)).run Q (ph.next (.question q) r) := by
  rw [ofView_bind, wp_except_bind]
  exact ⟨fun h r hr => h.2 r hr, fun h => ⟨trivial, fun r hr => h r hr⟩⟩

theorem gauging_metrics (ph : Gauging) :
    gauging.wp (Server.ofView AutomationRepository.metrics).run
      (fun ph' r => ∃ total byStatus oldest now snapshot, ph' = .oldest total byStatus oldest now ∧
        Figures total byStatus oldest now snapshot ∧ r = .ok snapshot) ph := by
  rw [AutomationRepository.metrics, gauging_ask]
  intro total _
  rw [gauging_ask]
  intro byStatus _
  rw [gauging_ask]
  intro oldest hadmits
  have hreadable : ∀ text, oldest = some text → ∃ t : Instant, text = t.isoformat := hadmits
  cases oldest with
  | none => exact ⟨total, byStatus, none, none, _, rfl, ⟨rfl, rfl⟩, rfl⟩
  | some text =>
    obtain ⟨t, rfl⟩ := hreadable text rfl
    have hfilter : (some t.isoformat).filter (· ≠ "") = some t.isoformat := by
      simp [Option.filter, isoformat_ne_empty]
    have hage : ∀ now, AutomationRepository.oldestAge (some t.isoformat) now =
        .ok (some (ageSeconds now t)) := by
      intro now
      rw [AutomationRepository.oldestAge, hfilter]
      dsimp only
      rw [Instant.fromIsoformat_isoformat]
      rfl
    rw [hfilter]
    dsimp only
    rw [Instant.fromIsoformat_isoformat]
    refine ⟨trivial, fun now _ => ?_⟩
    exact ⟨total, byStatus, _, some now, _, rfl, ⟨_, hage now, rfl⟩, rfl⟩

/-- What the two endpoints of the figures make of what they find. -/
def Endpoint.Gauged : Endpoint → Gauging → Except PyExc HttpAnswer → Prop
  | metrics, ph, r => ∃ total byStatus oldest now snapshot,
    ph = .oldest total byStatus oldest now ∧ Figures total byStatus oldest now snapshot ∧
    r = .ok { statusCode := 200, content := .metrics snapshot }
  | prometheusMetrics, ph, r => ∃ total byStatus oldest now text snapshot,
    ph = .rendered total byStatus oldest now text ∧ Figures total byStatus oldest now snapshot ∧
    r = .ok { statusCode := 200, content := .text (Server.metricsPage snapshot text) }
  | _, _, _ => True

theorem gauging_watches [JsonCodec] : Watches gauging Endpoint.Gauged where
  free _ _ := trivial
  around e he ph := by
    refine ⟨trivial, fun r => ?_⟩
    cases e with
    | question | model | selectOne | ping | renderHttpMetrics => cases he
    | _ => cases ph <;> rfl
  endpoint endpoint ph := by
    cases endpoint with
    | metrics =>
      refine (wp_except_bind ..).mpr (gauging.wp_mono (gauging_metrics ph) ?_)
      rintro _ _ ⟨total, byStatus, oldest, now, snapshot, rfl, hfigures, rfl⟩
      exact ⟨total, byStatus, oldest, now, snapshot, rfl, hfigures, rfl⟩
    | prometheusMetrics =>
      refine (wp_except_bind ..).mpr (gauging.wp_mono (gauging_metrics ph) ?_)
      rintro _ _ ⟨total, byStatus, oldest, now, snapshot, rfl, hfigures, rfl⟩
      refine ⟨trivial, fun text _ => ?_⟩
      cases now with
      | none => exact ⟨total, byStatus, oldest, none, text, snapshot, rfl, hfigures, rfl⟩
      | some now => exact ⟨total, byStatus, oldest, some now, text, snapshot, rfl, hfigures, rfl⟩
    | _ => exact gauging.wp_free (fun _ _ => trivial) _ ph

/-- A call of `observe_request` in a history. -/
def observationOf {T : Type} : ServerEvent T → Option Observation
  | .did _ _ (.observeRequest o) _ => some o
  | _ => none

def observations {T : Type} (h : List (ServerEvent T)) : List Observation :=
  (h.filterMap observationOf).reverse

theorem observations_cons {T : Type} {h : List (ServerEvent T)} {ev : ServerEvent T}
    (hev : ∀ t c o r, ev ≠ .did t c (.observeRequest o) r) :
    observations (ev :: h) = observations h := by
  have hnone : observationOf ev = none := by
    unfold observationOf
    split
    · next t c o r => exact absurd rfl (hev t c o r)
    · rfl
  rw [observations, List.filterMap_cons_none hnone]
  rfl

theorem observations_did {T : Type} {h : List (ServerEvent T)} (t : T) (c : ServerChoice)
    (o : Observation) (r : (ServerEff.observeRequest o).Res) :
    observations (.did t c (.observeRequest o) r :: h) = observations h ++ [o] := by
  have hsome : observationOf (.did t c (.observeRequest o) r : ServerEvent T) = some o := rfl
  rw [observations, List.filterMap_cons_some hsome, List.reverse_cons]
  rfl

theorem serverHandle_metrics [JsonCodec] {c : ServerChoice} {e : ServerEff} {sh sh' : ServerShared}
    {l l' : ServerLocal} {r : e.Res} (he : ∀ o, e ≠ .observeRequest o)
    (hh : serverHandle c e sh l = (r, sh', l')) : sh'.httpMetrics = sh.httpMetrics := by
  by_cases hinner : e.Inner
  · exact (serverHandle_inner hinner hh).1
  · cases e with
    | observeRequest o => exact absurd rfl (he o)
    | setCorrelationId | resetCorrelationId | logInfo =>
      cases hh
      rfl
    | _ => exact absurd trivial hinner

def Serving.request? : Serving → Option HttpRequest
  | idle => none
  | received request | drawn request _ | tagged request _ | observed request .. | logged request ..
  | finished request .. => some request

theorem Serving.request_next (ph : Serving) (e : ServerEff) (r : e.Res) :
    (ph.next e r).request? = ph.request? := by
  cases ph with
  | received request =>
    cases e with
    | program e => cases e <;> rfl
    | _ => rfl
  | _ => cases e <;> rfl

theorem received_of_phase {T : Type} [DecidableEq T] {h : List (ServerEvent T)} {t : T}
    {request : HttpRequest} (hph : (serving.phase h t).request? = some request) :
    .start t (.http request) ∈ h := by
  have hnotes : ∀ request, (serving.phase h t).request? = some request →
      .start t (.http request) ∈ h := by
    apply serving.phase_notes fun (h : List (ServerEvent T)) t ph =>
      ∀ request, Serving.request? ph = some request → .start t (.http request) ∈ h
    · intro h t request hidle
      cases hidle
    · intro h t call request hstart
      cases call with
      | http request' =>
        cases hstart
        exact List.mem_cons_self
      | process call => cases hstart
    · intro h t e r hnotes request hnext
      exact hnotes request ((Serving.request_next _ e r).symm.trans hnext)
    · intro h t ev ph hnotes request hph
      exact List.mem_cons_of_mem _ (hnotes request hph)
  exact hnotes request hph

section Moments
variable {T : Type} [DecidableEq T] [JsonCodec] [Framework]
variable {h : List (ServerEvent T)} {s : ServerSystem T}

theorem ServerRuns.observed (hr : ServerRuns h s) :
    s.shared.httpMetrics = observed (observations h) := by
  apply Interleaving.Runs.invariant
    (I := fun h s => s.shared.httpMetrics = Orchestrator.observed (observations h)) ?_ ?_ hr
  · intro s hi
    rw [hi.1]
    rfl
  · intro h s s' ev hr hI hs
    cases ev with
    | did t c e r =>
      by_cases he : ∃ o, e = .observeRequest o
      · obtain ⟨o, rfl⟩ := he
        have hshared : s.shared.httpMetrics.observeRequest o = s'.shared.httpMetrics :=
          congrArg (fun x => x.2.1.httpMetrics) hs.did_handle
        rw [observations_did, observed_concat, ← hI, hshared]
      · have hother := not_exists.mp he
        rw [serverHandle_metrics hother hs.did_handle, observations_cons, hI]
        rintro _ _ o _ ⟨⟩
        exact hother o rfl
    | start t call =>
      rw [hs.start_shared, observations_cons (fun _ _ _ _ heq => by cases heq), hI]
    | stop t call reply =>
      rw [hs.stop_shared, observations_cons (fun _ _ _ _ heq => by cases heq), hI]
    | disturb =>
      rw [hs.disturb_shared.2.1, observations_cons (fun _ _ _ _ heq => by cases heq), hI]

theorem ServerRuns.received (hr : ServerRuns h s) {o : Observation} (ho : o ∈ observations h) :
    ∃ t request, .start t (.http request) ∈ h ∧ o.method = request.method := by
  induction hr with
  | init hi => cases ho
  | @step h s s' ev hr hs ih =>
    have hkeep : o ∈ observations h → ∃ t request,
        .start t (.http request) ∈ ev :: h ∧ o.method = request.method := by
      intro ho
      obtain ⟨t, request, hstart, hmethod⟩ := ih ho
      exact ⟨t, request, List.mem_cons_of_mem _ hstart, hmethod⟩
    by_cases hev : ∃ t c o r, ev = .did t c (.observeRequest o) r
    · obtain ⟨t, c, o', r, rfl⟩ := hev
      rw [observations_did] at ho
      rcases List.mem_append.mp ho with ho | ho
      · exact hkeep ho
      · obtain rfl := List.mem_singleton.mp ho
        obtain ⟨request, id, hph, hmethod, -⟩ :=
          Serving.allows_observeRequest ((ServerRuns.observing hr).1.allowed hs)
        have hreceived : (serving.phase h t).request? = some request := by
          rw [hph]
          rfl
        exact ⟨t, request, List.mem_cons_of_mem _ (received_of_phase hreceived), hmethod⟩
    · have hother : ∀ t c o r, ev ≠ .did t c (.observeRequest o) r :=
        fun t c o r heq => hev ⟨t, c, o, r, heq⟩
      rw [observations_cons hother] at ho
      exact hkeep ho

/-- These answers were so at three moments of the call, one after the other. -/
def Found (t : T) (total : ℕ) (byStatus : List (String × ℕ)) (oldest : Option String)
    (h : List (ServerEvent T)) : Prop :=
  Met serverMachine ServerInitial t (fun h₃ s₃ => s₃.shared.core.db.oldestCreatedAt = oldest ∧
    Met serverMachine ServerInitial t (fun h₂ s₂ => s₂.shared.core.db.statusCounts = byStatus ∧
      Met serverMachine ServerInitial t (fun _ s₁ => s₁.shared.core.db.requests.length = total)
        h₂) h₃) h

/-- These answers were so at three moments of the call, and then the clock said so, if it was
read. -/
def FoundAt (t : T) (total : ℕ) (byStatus : List (String × ℕ)) (oldest : Option String) :
    Option Instant → List (ServerEvent T) → Prop
  | none, h => Found t total byStatus oldest h
  | some now, h => Did t (.question .utcNow) now (Found t total byStatus oldest) h

/-- What a phase says was so at moments of the call. -/
def Gauging.Noted (h : List (ServerEvent T)) (t : T) : Gauging → Prop
  | nothing => True
  | total n =>
    Met serverMachine ServerInitial t (fun _ s => s.shared.core.db.requests.length = n) h
  | counts n byStatus => Met serverMachine ServerInitial t
    (fun h₂ s₂ => s₂.shared.core.db.statusCounts = byStatus ∧ Met serverMachine ServerInitial t
      (fun _ s₁ => s₁.shared.core.db.requests.length = n) h₂) h
  | oldest n byStatus found now => FoundAt t n byStatus found now h
  | rendered n byStatus found now text => Met serverMachine ServerInitial t
    (fun h₄ s₄ => s₄.shared.httpMetrics.render = text ∧ FoundAt t n byStatus found now h₄) h

theorem Gauging.Noted.later {ev : ServerEvent T} {t : T} {ph : Gauging} (hn : ph.Noted h t)
    (hev : ∀ call, ev ≠ .start t call) : ph.Noted (ev :: h) t := by
  cases ph with
  | nothing => trivial
  | total n => exact Met.later hn hev
  | counts n byStatus => exact Met.later hn hev
  | oldest n byStatus found now =>
    cases now with
    | none => exact Met.later hn hev
    | some now => exact Did.later hn hev
  | rendered n byStatus found now text => exact Met.later hn hev

theorem ServerRuns.created (hr : ServerRuns h s) :
    ∀ row ∈ s.shared.core.db.requests, ∃ t : Instant, row.createdAt = t.isoformat := by
  obtain ⟨h', s', hr', hdb⟩ := hr.tables
  rw [← hdb]
  exact hr'.createdAt_text

theorem ServerRuns.oldest_text (hr : ServerRuns h s) {text : String}
    (hold : s.shared.core.db.oldestCreatedAt = some text) : ∃ t : Instant, text = t.isoformat := by
  have hmem := List.min?_mem hold
  simp only [List.mem_map, List.mem_filter] at hmem
  obtain ⟨row, ⟨hrow, -⟩, rfl⟩ := hmem
  exact hr.created row hrow

theorem ServerRuns.statuses (hr : ServerRuns h s) :
    (∀ entry ∈ s.shared.core.db.statusCounts, Plain entry.1) ∧
      (s.shared.core.db.statusCounts.map Prod.fst).Nodup := by
  have hvalue : ∀ status : AutomationStatus,
      (status.value.toList.all fun c => c ∉ ['\\', '\"', '\n']) = true := by
    intro status
    cases status <;> decide
  obtain ⟨h', s', hr', hdb⟩ := hr.tables
  rw [← hdb]
  constructor
  · intro entry hentry
    obtain ⟨status, hstatus, rfl⟩ := List.mem_map.mp hentry
    obtain ⟨row, hrow, rfl⟩ := List.mem_map.mp (List.mem_dedup.mp hstatus)
    obtain ⟨result, -, hresult, -⟩ := hr'.legible (Database.row?_of_mem hrow)
    rw [hresult]
    exact plain_of_all (hvalue result.status)
  · have hkeys : s'.shared.db.statusCounts.map Prod.fst =
        (s'.shared.db.requests.map (·.status)).dedup := by
      rw [Database.statusCounts, Table.groupCounts, List.map_map]
      exact List.map_id _
    rw [hkeys]
    exact List.nodup_dedup _

theorem Gauging.Noted.did {s' : ServerSystem T} {t : T} {c : ServerChoice} {e : ServerEff}
    {r : e.Res} {ph : Gauging} (hr : ServerRuns h s) (hs : ServerStep s (.did t c e r) s')
    (hn : ph.Noted h t) :
    Gauging.admits e r ∧ (ph.next e r).Noted (.did t c e r :: h) t := by
  have hkeep : ph.Noted (.did t c e r :: h) t := hn.later fun _ heq => by cases heq
  cases e with
  | question q =>
    have hanswer : q.answer ⟨s.shared.core.db, c.utc⟩ = r := congrArg Prod.fst hs.did_handle
    cases q with
    | total =>
      have hmet : (Gauging.total r).Noted h t := Met.now hr hanswer
      exact ⟨trivial, hmet.later fun _ heq => by cases heq⟩
    | byStatus =>
      refine ⟨trivial, ?_⟩
      cases ph with
      | total n =>
        have hmet : (Gauging.counts n r).Noted h t := Met.now hr ⟨hanswer, hn⟩
        exact hmet.later fun _ heq => by cases heq
      | _ => exact hkeep
    | oldest =>
      refine ⟨?_, ?_⟩
      · exact fun text htext => hr.oldest_text (hanswer.trans htext)
      · cases ph with
        | counts n byStatus =>
          have hmet : (Gauging.oldest n byStatus r none).Noted h t := Met.now hr ⟨hanswer, hn⟩
          exact hmet.later fun _ heq => by cases heq
        | _ => exact hkeep
    | utcNow =>
      refine ⟨trivial, ?_⟩
      cases ph with
      | oldest n byStatus found now =>
        cases now with
        | none => exact Did.now hn
        | some now => exact hkeep
      | _ => exact hkeep
    | _ =>
      refine ⟨trivial, ?_⟩
      cases ph with
      | oldest n byStatus found now => cases now <;> exact hkeep
      | _ => exact hkeep
  | renderHttpMetrics =>
    refine ⟨trivial, ?_⟩
    have hanswer : s.shared.httpMetrics.render = r := congrArg Prod.fst hs.did_handle
    cases ph with
    | oldest n byStatus found now =>
      have hmet : (Gauging.rendered n byStatus found now r).Noted h t := Met.now hr ⟨hanswer, hn⟩
      have hlater : (Gauging.rendered n byStatus found now r).Noted
          (.did t c .renderHttpMetrics r :: h) t := hmet.later fun _ heq => by cases heq
      cases now <;> exact hlater
    | _ => exact hkeep
  | _ =>
    refine ⟨trivial, ?_⟩
    cases ph with
    | oldest n byStatus found now => cases now <;> exact hkeep
    | _ => exact hkeep

/-- The figures of a snapshot are those of the tables at three moments of the call, one after the
other; an age is taken at this time. -/
def ShowsAt (t : T) (snapshot : MetricsSnapshot) (now : Instant) (h : List (ServerEvent T)) :
    Prop :=
  Met serverMachine ServerInitial t (fun h₃ s₃ => Met serverMachine ServerInitial t
    (fun h₂ s₂ => snapshot.byStatus = s₂.shared.core.db.statusCounts ∧
      Met serverMachine ServerInitial t (fun _ s₁ => snapshot.Shows s₁.shared.core.db
        s₂.shared.core.db s₃.shared.core.db now) h₂) h₃) h

/-- A snapshot shows the tables; an age is taken at what the clock said in the call, after the
tables were read. -/
def ShowsFigures (t : T) (snapshot : MetricsSnapshot) (h : List (ServerEvent T)) : Prop :=
  (snapshot.oldestQueuedAgeSeconds = none ∧ ∀ now, ShowsAt t snapshot now h) ∨
    ∃ now, Did t (.question .utcNow) now (ShowsAt t snapshot now) h

theorem Found.shows {t : T} {total : ℕ} {byStatus : List (String × ℕ)} {oldest : Option String}
    (hf : Found t total byStatus oldest h) (now : Instant) :
    ∃ age, AutomationRepository.oldestAge oldest now = .ok age ∧
      ShowsAt t (figures total byStatus age) now h := by
  obtain ⟨h₃, s₃, hr₃, hsince₃, hold, h₂, s₂, hr₂, hsince₂, rfl, h₁, s₁, hr₁, hsince₁, rfl⟩ := hf
  obtain ⟨age, hage, holdest⟩ := oldestAge_spec (ServerRuns.created hr₃) now
  rw [hold] at hage
  refine ⟨age, hage, h₃, s₃, hr₃, hsince₃, h₂, s₂, hr₂, hsince₂, rfl, h₁, s₁, hr₁, hsince₁, ?_⟩
  exact ⟨rfl, sum_statusCounts _, depth_statusCounts _, lookup_statusCounts _ _,
    lookup_statusCounts _ _, holdest⟩

theorem FoundAt.shows {t : T} {total : ℕ} {byStatus : List (String × ℕ)} {oldest : Option String}
    {now : Option Instant} {snapshot : MetricsSnapshot} (hf : FoundAt t total byStatus oldest now h)
    (hfigures : Figures total byStatus oldest now snapshot) : ShowsFigures t snapshot h := by
  cases now with
  | none =>
    obtain ⟨rfl, rfl⟩ := hfigures
    refine .inl ⟨rfl, fun now => ?_⟩
    obtain ⟨age, hage, hshows⟩ := Found.shows hf now
    cases hage
    exact hshows
  | some now =>
    obtain ⟨age, hage, rfl⟩ := hfigures
    obtain ⟨c, h₁, hsince, hfound⟩ := hf
    obtain ⟨age', hage', hshows⟩ := Found.shows hfound now
    cases hage.symm.trans hage'
    exact .inr ⟨now, c, h₁, hsince, hshows⟩

variable {t : T} {request : HttpRequest} {answer : HttpAnswer}

/-- What a page for Prometheus says: the figures of the tables at moments of the call before, and
of the requests that had been observed, each once. -/
def ShowsPage (t : T) (text : String) (h : List (ServerEvent T)) : Prop :=
  ∃ snapshot samples, ShowsFigures t snapshot h ∧ Exposition.read text = some samples ∧
    Scraped snapshot (observations h) samples

theorem ShowsFigures.statuses {t : T} {snapshot : MetricsSnapshot}
    (hs : ShowsFigures t snapshot h) : (∀ entry ∈ snapshot.byStatus, Plain entry.1) ∧
      (snapshot.byStatus.map Prod.fst).Nodup := by
  have hstatuses : ∀ {now h}, ShowsAt t snapshot now h →
      (∀ entry ∈ snapshot.byStatus, Plain entry.1) ∧ (snapshot.byStatus.map Prod.fst).Nodup := by
    rintro now h ⟨-, -, -, -, h₂, s₂, hr₂, -, hbyStatus, -⟩
    rw [hbyStatus]
    exact ServerRuns.statuses hr₂
  rcases hs with ⟨-, hshows⟩ | ⟨now, c, h₁, -, hshows⟩
  · exact hstatuses (hshows .earliest)
  · exact hstatuses hshows

/-- What a page says at a moment is read back from it, as the methods of requests are tokens. -/
theorem ShowsFigures.page {t : T} {snapshot : MetricsSnapshot} (hr : ServerRuns h s)
    (hmethods : ∀ t request, .start t (.http request) ∈ h → Plain request.method)
    (hs : ShowsFigures t snapshot h) :
    ShowsPage t (Server.metricsPage snapshot s.shared.httpMetrics.render) h := by
  obtain ⟨hstatuses, hnodup⟩ := hs.statuses
  have hplain : ∀ o ∈ observations h, Plain o.method := by
    intro o ho
    obtain ⟨t, request, hstart, hmethod⟩ := hr.received ho
    rw [hmethod]
    exact hmethods t request hstart
  refine ⟨snapshot, _, hs, ?_, scraped_page hnodup⟩
  rw [hr.observed]
  exact read_metricsPage hstatuses hplain

end Moments

section Sample

/-- A framework with the endpoint for Prometheus. -/
@[reducible] def scrapable : Framework where
  route _ := .ok .prometheusMetrics

def scraping : HttpRequest := ⟨"GET", "/metrics/prometheus", [("x-api-key", "secret")], ""⟩

def scrapedRun : List (ServerEvent ℕ) × ServerSystem ℕ :=
  letI := emptyPayload
  letI := scrapable
  Interleaving.State.play serverMachine
    (.start 0 (.http scraping) :: List.replicate 13 (.go 0 .guarded)) ([], ServerSystem.initial)

def methodOf : ServerEvent ℕ → Option String
  | .start _ (.http request) => some request.method
  | _ => none

def replied : ServerEvent ℕ → Option (ℕ × HttpRequest)
  | .stop t (.http request) (.http _) => some (t, request)
  | _ => none

theorem replied_eq_some {ev : ServerEvent ℕ} {t : ℕ} {request : HttpRequest}
    (h : replied ev = some (t, request)) :
    ∃ answer, ev = .stop t (.http request) (.http answer) := by
  unfold replied at h
  split at h
  · next answer =>
    cases h
    exact ⟨answer, rfl⟩
  · cases h

theorem scrapedRun_runs : letI := emptyPayload; letI := scrapable
    ∃ answer h, ServerRuns (.stop 0 (.http scraping) (.http answer) :: h) scrapedRun.2 ∧
      ∀ t request, .start t (.http request) ∈ h → Plain request.method := by
  let _ := emptyPayload
  let _ := scrapable
  have hr : ServerRuns scrapedRun.1 scrapedRun.2 :=
    Runs.play _ (.init ServerSystem.initial_initial)
  have hreplied : scrapedRun.1.head?.bind replied = some (0, scraping) := by decide +kernel
  have hmethods : scrapedRun.1.filterMap methodOf = ["GET"] := by decide +kernel
  obtain ⟨ev, hev, heq⟩ := Option.bind_eq_some_iff.mp hreplied
  obtain ⟨answer, rfl⟩ := replied_eq_some heq
  obtain ⟨rest, hrest⟩ := List.head?_eq_some_iff.mp hev
  rw [hrest] at hr hmethods
  refine ⟨answer, rest, hr, ?_⟩
  intro t request hstart
  have hmem : request.method ∈ ["GET"] :=
    hmethods ▸ List.mem_filterMap.mpr ⟨_, List.mem_cons_of_mem _ hstart, rfl⟩
  rw [List.mem_singleton.mp hmem]
  exact plain_of_all (by decide)

end Sample

end Orchestrator
