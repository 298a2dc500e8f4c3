import Orchestrator.Deployment
import Orchestrator.Idempotence
import Orchestrator.Serving

/-!
# An accepted request is kept

A client that is answered 202 has been told the id of a row that stays in the tables for good:
the row of its own submission, or the one that carries its idempotency key.
-/

namespace Orchestrator

open Interaction Interleaving Discipline AutomationRepository Registry
set_option autoImplicit false

/-- What a call of `create` or `submit` knows about the request it was given. -/
inductive Receipt where
  | idle
  | asking (request : AutomationRequest)
  | known (request : AutomationRequest) (requestId : String)

namespace Receipt

def request : Receipt → Option AutomationRequest
  | idle => none
  | asking request | known request _ => some request

def allows (ph : Receipt) : Eff → Prop
  | .transaction (.insertRequest _ request _) => ph.request = some request
  | .transaction (.selectByKey key) =>
    ∃ request, ph.request = some request ∧ request.idempotencyKey = some key
  | _ => True

/-- The row that is read back has the id that was asked for. -/
def admits : (e : Eff) → e.Res → Prop
  | .transaction (.get id), .ok (some row) => row.requestId = id
  | _, _ => True

def next (ph : Receipt) : (e : Eff) → e.Res → Receipt
  | .transaction (.insertRequest id request _), .ok _ => known request id
  | .transaction (.selectByKey _), .ok (some existing) =>
    match ph.request with
    | some request => known request existing
    | none => ph
  | _, _ => ph

def start : Call → Receipt
  | .create _ request | .submit _ request => asking request
  | _ => idle

end Receipt

def receipts : Interleaving.Protocol Eff Eff.Res Call Receipt where
  allowed := Receipt.allows
  admits _ := Receipt.admits
  next := Receipt.next
  idle := .idle
  start := Receipt.start

def Receipted (call : Call) (ph : Receipt) (reply : Reply) : Prop :=
  ∀ service request result, call = .submit service request → reply = .submitted (.ok result) →
    ph = .known request result.requestId

theorem receipts_ignores {k : Eff.Kind} (hk : k ≠ .submits) : receipts.Ignores (·.kind = k) := by
  rintro e rfl ph
  cases e with
  | transaction op => cases op <;> first | exact absurd rfl hk | exact ⟨trivial, fun _ => rfl⟩
  | _ => exact ⟨trivial, fun _ => rfl⟩

theorem receipts_quiet : receipts.Ignores (·.kind = .quiet) := receipts_ignores (by decide)

def Issued (request : AutomationRequest) (ph : Receipt) (r : Except PyExc String) : Prop :=
  ∀ id, r = .ok id → ph = .known request id

theorem receipts_insertOrFind {ph : Receipt} {request : AutomationRequest}
    (hph : ph.request = some request) (id now : String) :
    receipts.wp (insertOrFind id request now).run (Issued request) ph := by
  rw [insertOrFind, wp_except_bind, Py.wp_attempt, Py.wp_transaction]
  refine ⟨hph, ?_⟩
  intro r _
  cases r with
  | ok _ =>
    rintro _ ⟨⟩
    rfl
  | error exc =>
    simp only
    split
    · rw [filter_key]
      cases hkey : request.idempotencyKey with
      | none => exact fun _ heq => by cases heq
      | some key =>
        refine (wp_except_bind ..).mpr ⟨⟨request, hph, hkey⟩, ?_⟩
        intro r _
        rcases r with exc | _ | existing
        · exact fun _ heq => by cases heq
        · exact fun _ heq => by cases heq
        · rintro _ ⟨⟩
          simp [receipts, Receipt.next, hph]
    · exact fun _ heq => by cases heq

theorem receipts_create (id : String) (request : AutomationRequest) :
    receipts.wp (create id request).run (Issued request) (.asking request) := by
  rw [create, wp_except_bind, Py.wp_utcNow]
  refine ⟨trivial, ?_⟩
  intro now _
  rw [findExisting, filter_key]
  cases hkey : request.idempotencyKey with
  | none => exact receipts_insertOrFind rfl id _
  | some key =>
    refine (wp_except_bind ..).mpr ((wp_except_bind ..).mpr ⟨⟨request, rfl, hkey⟩, ?_⟩)
    intro r _
    rcases r with exc | _ | existing
    · exact fun _ heq => by cases heq
    · exact receipts_insertOrFind rfl id _
    · by_cases he : existing = ""
      · subst he
        exact receipts_insertOrFind rfl id _
      · have hf : Option.filter (fun x => decide (x ≠ "")) (some existing) = some existing := by
          simp [he]
        simp only [wp_ret, wp_except_pure, hf]
        rintro _ ⟨⟩
        rfl

theorem toResult_requestId {row : RequestRow} {result : AutomationResult}
    (h : toResult row = .ok result) : result.requestId = row.requestId := by
  obtain ⟨status, -, h⟩ := bind_eq_ok.mp h
  obtain ⟨channel, -, h⟩ := bind_eq_ok.mp h
  cases h
  rfl

theorem receipts_readBack (id : String) (ph : Receipt) :
    receipts.wp (AutomationService.readBack id).run
      (fun ph' r => ph' = ph ∧ ∀ result, r = .ok result → result.requestId = id) ph := by
  refine (wp_except_bind ..).mpr ((wp_except_bind ..).mpr ⟨trivial, ?_⟩)
  intro r had
  rcases r with exc | _ | row
  · exact ⟨rfl, fun _ heq => by cases heq⟩
  · exact ⟨rfl, fun _ heq => by cases heq⟩
  · have hid : row.requestId = id := had
    refine (wp_except_bind ..).mpr ?_
    rw [Py.wp_ofExcept]
    cases hresult : toResult row with
    | error exc => exact ⟨rfl, fun _ heq => by cases heq⟩
    | ok result =>
      refine ⟨rfl, ?_⟩
      rintro _ ⟨⟩
      exact (toResult_requestId hresult).trans hid

theorem receipts_code (call : Call) :
    receipts.wp call.code (Receipted call) (receipts.start call) := by
  cases call with
  | create id request =>
    apply (wp_bind ..).mpr (receipts.wp_mono (receipts_create id request) ?_)
    intro _ _ _ _ _ _ heq
    cases heq
  | submit service request =>
    refine (wp_bind ..).mpr ((wp_except_bind ..).mpr ⟨trivial, ?_⟩)
    intro candidateId _
    apply (wp_except_bind ..).mpr (receipts.wp_mono (receipts_create candidateId request) ?_)
    intro ph r hissued
    cases r with
    | error exc =>
      intro _ _ _ _ heq
      cases heq
    | ok id =>
      apply (neutral_announce (ignores_still receipts_quiet) service id).wp_bind
      · intro _
        apply receipts.wp_mono (receipts_readBack id ph)
        rintro ph' r ⟨rfl, hresult⟩
        rintro _ _ result ⟨⟩ heq
        obtain rfl : r = .ok result := by simpa using heq
        rw [hresult result rfl]
        exact hissued id rfl
      · intro exc _ _ _ _ heq
        cases heq
  | replayDeadLetter service id =>
    have h := neutral_replayDeadLetter (ignores_plain receipts_quiet)
      (receipts_ignores (by decide)) service id
    apply (wp_bind ..).mpr (receipts.wp_mono (h _) ?_)
    intro _ _ _ _ _ _ heq
    cases heq
  | runOnce worker =>
    have h := worker.neutral_runOnce receipts_quiet (receipts_ignores (by decide))
    apply (wp_bind ..).mpr (receipts.wp_mono (h _) ?_)
    intro _ _ _ _ _ _ heq
    cases heq

/-- A call has inserted a row under this id: with the request, or with another one that has the
same key. -/
def Kept {T : Type} [DecidableEq T] (h : List (Event T)) (request : AutomationRequest)
    (id : String) : Prop :=
  ∃ call inserted, InsertedBy h call id inserted ∧ (inserted = request ∨
    ∃ key, request.idempotencyKey = some key ∧ inserted.idempotencyKey = some key)

section Runs
variable {T : Type} [DecidableEq T] {h : List (Event T)}

theorem Kept.later {request : AutomationRequest} {id : String} (hk : Kept h request id)
    (ev : Event T) : Kept (ev :: h) request id := by
  obtain ⟨call, inserted, hby, hsame⟩ := hk
  exact ⟨call, inserted, hby.later ev, hsame⟩

/-- Every answer that a call of `submit` has given is kept. -/
structure Accepting (h : List (Event T)) : Prop where
  known : ∀ t request id, receipts.phase h t = .known request id → Kept h request id
  accepted : ∀ t service request result later earlier,
    h = later ++ .stop t (.submit service request) (.submitted (.ok result)) :: earlier →
      Kept earlier request result.requestId

theorem Accepting.moved {ev : Event T} {t : T} {ph : Receipt} (ha : Accepting h)
    (hphase : receipts.phase (ev :: h) = Function.update (receipts.phase h) t ph)
    (hknown : ∀ request id, ph = .known request id → Kept (ev :: h) request id)
    (hstop : ∀ t service request result,
      ev = .stop t (.submit service request) (.submitted (.ok result)) →
        Kept h request result.requestId) : Accepting (ev :: h) where
  known t' request id hph := by
    rw [hphase] at hph
    by_cases ht : t' = t
    · subst ht
      rw [Function.update_self] at hph
      exact hknown request id hph
    · rw [Function.update_of_ne ht] at hph
      exact (ha.known t' request id hph).later ev
  accepted t' service request result later earlier heq := by
    cases later with
    | nil =>
      obtain ⟨rfl, rfl⟩ := List.cons_eq_cons.mp heq
      exact hstop t' service request result rfl
    | cons ev' later =>
      obtain ⟨-, htail⟩ := List.cons_eq_cons.mp heq
      exact ha.accepted t' service request result later earlier htail

variable [JsonCodec] {s s' : System T}

theorem Runs.found_inserted (hr : Runs h s) {key existing : String}
    (hfind : findKey key s.shared.db.submissions = some existing) :
    ∃ call request, InsertedBy h call existing request ∧ request.idempotencyKey = some key := by
  obtain ⟨sub, hsub, rfl⟩ := Option.map_eq_some_iff.mp hfind
  obtain ⟨call, request, hby, heq⟩ :=
    (Runs.inserted hr).origin sub (List.mem_of_find?_eq_some hsub)
  have htest := List.find?_some hsub
  have hkey : sub.idempotencyKey = some key := of_decide_eq_true htest
  rw [heq] at hkey
  exact ⟨call, request, hby, hkey⟩

theorem Accepting.did (hr : Runs h s) (ha : Accepting h) {t : T} {c : Choice} {e : Eff}
    {r : e.Res} (hal : (receipts.phase h t).allows e) (hs : Step s (.did t c e r) s') :
    Receipt.admits e r ∧ Accepting (.did t c e r :: h) := by
  have hphase := receipts.phase_did h t c e r
  have same : (receipts.phase h t).next e r = receipts.phase h t →
      Accepting (.did t c e r :: h) := by
    intro hnext
    refine ha.moved hphase ?_ (fun _ _ _ _ heq => by cases heq)
    intro request id hph
    exact (ha.known t request id (hnext.symm.trans hph)).later _
  cases e with
  | transaction op =>
    cases op with
    | get id =>
      refine ⟨?_, same rfl⟩
      have hh := hs.did_handle
      simp only [machine, handle, Prod.mk.injEq] at hh
      obtain ⟨rfl, -, -⟩ := hh
      change Receipt.admits (.transaction (.get id)) (.ok (s.shared.db.row? id))
      cases hrow : s.shared.db.row? id with
      | none => trivial
      | some row => exact Database.row?_requestId hrow
    | insertRequest id request now =>
      refine ⟨trivial, ?_⟩
      cases r with
      | error exc => exact same rfl
      | ok _ =>
        refine ha.moved hphase ?_ (fun _ _ _ _ heq => by cases heq)
        rintro _ _ ⟨⟩
        obtain ⟨call, hby⟩ := Runs.insertedBy hr hs
        exact ⟨call, request, hby, .inl rfl⟩
    | selectByKey key =>
      refine ⟨trivial, ?_⟩
      obtain ⟨rfl, -⟩ := step_selectByKey hs
      obtain ⟨request, hrequest, hkey⟩ := hal
      rw [Database.selectByKey_eq] at hphase same ⊢
      cases hfind : findKey key s.shared.db.submissions with
      | none =>
        rw [hfind] at same
        exact same rfl
      | some existing =>
        rw [hfind] at hphase
        refine ha.moved hphase ?_ (fun _ _ _ _ heq => by cases heq)
        have hnext : receipts.next (receipts.phase h t) (.transaction (.selectByKey key))
            (.ok (some existing)) = .known request existing := by
          change (match (receipts.phase h t).request with
            | some request => Receipt.known request existing
            | none => receipts.phase h t) = _
          rw [hrequest]
        intro request' id hph
        cases hnext.symm.trans hph
        obtain ⟨call, inserted, hby, hfound⟩ := Runs.found_inserted hr hfind
        exact ⟨call, inserted, hby.later _, .inr ⟨key, hkey, hfound⟩⟩
    | _ => exact ⟨trivial, same rfl⟩
  | _ => exact ⟨trivial, same rfl⟩

theorem receipts_keeps : receipts.Keeps machine (Initial (T := T)) Receipted (fun _ => True)
    fun h _ => Accepting h where
  code := receipts_code
  past _ := trivial
  init _ _ := by
    refine ⟨?_, fun _ _ _ _ later _ heq => absurd heq (by cases later <;> simp)⟩
    intro _ _ _ hph
    cases hph
  start {h s s' t call} _ _ ha _ _ := by
    refine ha.moved (receipts.phase_start h t call) ?_ (fun _ _ _ _ heq => by cases heq)
    intro request id hph
    cases call <;> cases hph
  did hr _ ha hal hs := ha.did hr hal hs
  stop {h s s' t call reply} _ _ ha hreceipt _ := by
    refine ha.moved (receipts.phase_stop h t call reply) (fun _ _ hph => by cases hph) ?_
    rintro _ service request result ⟨⟩
    exact ha.known t request _ (hreceipt service request result rfl rfl)
  disturb {h s s'} _ _ ha _ := by
    refine ⟨fun t request id hph => (ha.known t request id hph).later _, ?_⟩
    intro t service request result later earlier heq
    cases later with
    | nil => cases heq
    | cons ev later =>
      obtain ⟨-, htail⟩ := List.cons_eq_cons.mp heq
      exact ha.accepted t service request result later earlier htail

theorem Runs.kept (hr : Runs h s) {t : T} {service : AutomationService}
    {request : AutomationRequest} {result : AutomationResult}
    (hstop : .stop t (.submit service request) (.submitted (.ok result)) ∈ h) :
    Kept h request result.requestId := by
  have ha := (receipts_keeps.runs (fun _ hi => hi.2.1) hr trivial).2
  have hlater : ∀ later earlier, Kept earlier request result.requestId →
      Kept (later ++ .stop t (.submit service request) (.submitted (.ok result)) :: earlier)
        request result.requestId := by
    intro later earlier hk
    induction later with
    | nil => exact hk.later _
    | cons ev later ih => exact ih.later ev
  obtain ⟨later, earlier, rfl⟩ := List.append_of_mem hstop
  exact hlater later earlier (ha.accepted t service request result later earlier rfl)

theorem Runs.carries (hr : Runs h s) {call : Call} {id : String} {inserted : AutomationRequest}
    (hby : InsertedBy h call id inserted) :
    ∃ row, s.shared.db.row? id = some row ∧ row.Carries inserted := by
  obtain ⟨-, now, hperformed⟩ := hby
  obtain ⟨t, c, hmem⟩ := hperformed.mem
  obtain ⟨row, hrow, hsub⟩ := List.mem_map.mp ((Runs.inserted hr).listed t c _ _ _ hmem)
  obtain rfl : row.requestId = id := congrArg Submission.requestId hsub
  exact ⟨row, Database.row?_of_mem hrow, RequestRow.carries hsub⟩

end Runs

section Service
variable {T : Type} [DecidableEq T] [JsonCodec] [Framework]
variable {h : List (ServerEvent T)} {s : ServerSystem T}

/-- A request to the service, or another process, hands in a request for a row under this id. -/
def ServerCall.Submits : ServerCall → String → AutomationRequest → Prop
  | .process call, id, request => call.Submits id request
  | .http post, _, request => Framework.route post = .ok (.createAutomationRequest request)

/-- The row carries what a call of the service handed in that has inserted it: the submitted
request, or an earlier one with its idempotency key. -/
def RequestRow.Serves (row : RequestRow) (submitted : AutomationRequest)
    (h : List (ServerEvent T)) : Prop :=
  ∃ (call : ServerCall) (inserted : AutomationRequest) (now : String),
    call.Submits row.requestId inserted ∧ Performed h call
      (.program (.transaction (.insertRequest row.requestId inserted now))) (.ok ()) ∧
    row.Carries inserted ∧ (inserted = submitted ∨
      ∃ key, submitted.idempotencyKey = some key ∧ inserted.idempotencyKey = some key)

omit [JsonCodec] in
theorem submits_of_makes {call : ServerCall} {call' : Call} {id : String}
    {request : AutomationRequest} (hmakes : Makes call call')
    (hsubmits : call'.Submits id request) : call.Submits id request := by
  cases call with
  | process call =>
    obtain rfl : call' = call := hmakes
    exact hsubmits
  | http post =>
    obtain ⟨expected, -, endpoint, hroute, hcall⟩ := hmakes
    cases endpoint <;> cases hcall
    · change request = _ at hsubmits
      rw [hsubmits]
      exact hroute
    · exact hsubmits.elim

omit [JsonCodec] in
theorem returned_of_accepted {request : HttpRequest} {answer : HttpAnswer}
    {submitted : AutomationRequest} {returned : Option (Call × Reply)}
    (hroute : Framework.route request = .ok (.createAutomationRequest submitted))
    (haccepted : answer.statusCode = 202) (hends : Ends (.http request) returned (.http answer)) :
    ∃ result, answer.content = .result result ∧
      returned = some (.submit ⟨none⟩ submitted, .submitted (.ok result)) := by
  cases returned with
  | none =>
    rcases hends with hnone | ⟨id, rfl⟩ | rfl
    · cases hnone _ hroute
    · cases haccepted
    · cases haccepted
  | some returned =>
    obtain ⟨call, reply⟩ := returned
    obtain ⟨⟨expected, -, endpoint, hroute', hcall⟩, outcome, id, houtcome, rfl⟩ := hends
    cases hroute.symm.trans hroute'
    cases hcall
    cases reply with
    | submitted r =>
      cases houtcome
      cases r with
      | error exc => cases haccepted
      | ok result => exact ⟨result, rfl, rfl⟩
    | replayed r =>
      cases r with
      | ok result =>
        cases houtcome
        cases haccepted
      | error exc =>
        simp only [Reply.outcome] at houtcome
        split at houtcome
        · cases houtcome
          cases haccepted
        · split at houtcome <;> cases houtcome <;> cases haccepted
    | _ => cases houtcome

theorem ServerRuns.accepted {later earlier : List (ServerEvent T)} {t : T} {request : HttpRequest}
    {answer : HttpAnswer} {submitted : AutomationRequest}
    (hr : ServerRuns (later ++ .stop t (.http request) (.http answer) :: earlier) s)
    (hroute : Framework.route request = .ok (.createAutomationRequest submitted))
    (haccepted : answer.statusCode = 202) :
    ∃ result row, answer.content = .result result ∧
      s.shared.core.db.row? result.requestId = some row ∧ row.Serves submitted earlier := by
  obtain ⟨h', s', ha⟩ := ServerRuns.along hr
  -- the run of the core system up to the answer
  obtain ⟨s₁, h₂', h₁', s₁', rfl, ha₁, -, -⟩ := ha.moment later _ rfl
  obtain ⟨returned, hends, hreturned⟩ := ha₁.stops List.mem_cons_self
  obtain ⟨result, hresult, rfl⟩ := returned_of_accepted hroute haccepted hends
  obtain ⟨call, inserted, hby, hsame⟩ := Runs.kept ha₁.runs.2 (hreturned _ _ rfl)
  obtain ⟨hsubmits, now, g₂, t', c', g₁, rfl, hcurrent⟩ := hby
  obtain ⟨h₂, c, r, h₁, -, -, hhost, -, hanswer, hserves, -⟩ := ha₁.did g₂ g₁ rfl
  obtain ⟨call₁, call', x, hcurrent₁, hcurrent', henters⟩ := hserves
  cases hcurrent.symm.trans hcurrent'
  obtain ⟨ev, l, rfl, rfl⟩ : ∃ ev l, h₂ = ev :: l ∧ earlier =
      l ++ .did t' c (.program (.transaction (.insertRequest result.requestId inserted now))) r ::
        h₁ := by
    cases h₂ with
    | nil => cases hhost
    | cons ev l => exact ⟨ev, l, rfl, (List.cons_eq_cons.mp hhost).2⟩
  obtain rfl : r = .ok () := hanswer
  have hby : InsertedBy (h₂' ++ (g₂ ++ .did t' c' (.transaction
      (.insertRequest result.requestId inserted now)) (.ok ()) :: g₁)) call result.requestId
      inserted := ⟨hsubmits, now, h₂' ++ g₂, t', c', g₁, (List.append_assoc ..).symm, hcurrent⟩
  obtain ⟨row, hrow, hcarries⟩ := Runs.carries ha.runs.2 hby
  rw [ha.shared] at hrow
  refine ⟨result, row, hresult, hrow, call₁, inserted, now, ?_, ?_, hcarries, hsame⟩
  · rw [Database.row?_requestId hrow]
    exact submits_of_makes (enters_makes henters) hsubmits
  · rw [Database.row?_requestId hrow]
    exact ⟨l, t', c, h₁, rfl, hcurrent₁⟩

/-- A submission that is answered 202 is in the tables from then on, under the id of the answer:
in a row of its own contents, or in that of an earlier submission with its idempotency key. -/
theorem accepted_kept {later earlier : List (ServerEvent T)} {t : T} {request : HttpRequest}
    {answer : HttpAnswer} {submitted : AutomationRequest}
    (hr : ServerRuns (later ++ .stop t (.http request) (.http answer) :: earlier) s)
    (hroute : Framework.route request = .ok (.createAutomationRequest submitted))
    (haccepted : answer.statusCode = 202) :
    ∃ result row, answer.content = .result result ∧
      s.shared.core.db.row? result.requestId = some row ∧ row.Serves submitted earlier :=
  ServerRuns.accepted hr hroute haccepted

end Service

theorem accepted_kept_sample : letI := emptyPayload; letI := twoEndpoints
    ∃ (t : ℕ) (request : HttpRequest) (answer : HttpAnswer)
      (later earlier : List (ServerEvent ℕ)) (result : AutomationResult) (row : RequestRow),
      servedRun.1 = later ++ .stop t (.http request) (.http answer) :: earlier ∧
        servedRun.2.shared.core.db.row? result.requestId = some row ∧
        row.Serves sampleRequest earlier := by
  let _ := emptyPayload
  let _ := twoEndpoints
  have htally : 0 < tally ("POST", "application", 202) servedRun.1 := by decide +kernel
  obtain ⟨t, request, answer, hstop, hkey⟩ := answered_of_tally htally
  obtain ⟨hpost, hrest⟩ := Prod.mk.inj hkey
  have hroute : Framework.route request = .ok (.createAutomationRequest sampleRequest) :=
    if_pos hpost
  have haccepted : answer.statusCode = 202 := by exact_mod_cast (Prod.mk.inj hrest).2
  obtain ⟨later, earlier, heq⟩ := List.append_of_mem hstop
  have hr := servedRun_runs
  rw [heq] at hr
  obtain ⟨result, row, -, hrow, hserves⟩ := accepted_kept hr hroute haccepted
  exact ⟨t, request, answer, later, earlier, result, row, heq, hrow, hserves⟩

end Orchestrator
