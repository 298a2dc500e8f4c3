import Orchestrator.Server

/-!
# The HTTP service refines the core system

Seen from the tables and the broker, a run of the service is a run of the core system: a
request that `ApiKeyMiddleware` lets through to one of the two endpoints that write is a call
of `submit` or of `replay_dead_letter`, and every other request only reads.
-/

namespace Orchestrator

open Interaction Interleaving
set_option autoImplicit false

/-- The call of the service that an endpoint makes, if it writes. -/
def Endpoint.call : Endpoint → Option Call
  | createAutomationRequest request => some (.submit ⟨none⟩ request)
  | replayDeadLetterRequest requestId => some (.replayDeadLetter ⟨none⟩ requestId)
  | _ => none

/-- What the endpoint makes of what its call returns or raises. -/
def Reply.outcome : Reply → Option (Except PyExc HttpAnswer)
  | .submitted r => some (r.map fun result => { statusCode := 202, content := .result result })
  | .replayed (.ok result) => some (.ok { statusCode := 200, content := .result result })
  | .replayed (.error exc) =>
    if exc.isKeyError then some (.ok Server.notFound)
    else if exc.isValueError then some (.ok { statusCode := 409, content := .detail exc.str })
    else some (.error exc)
  | _ => none

section Hosting
variable [JsonCodec] [Framework]

/-- The request has read the key, passes, and is for an endpoint that writes. -/
def Writes (request : HttpRequest) (expected : Option String) (call : Call) : Prop :=
  admits request expected = .ok true ∧
    ∃ endpoint, Framework.route request = .ok endpoint ∧ endpoint.call = some call

def Enters : ServerCall → Option ((e : ServerEff) × e.Res) → Call → Prop
  | .process call, none, call' => call' = call
  | .http request, some ⟨.program (.getenv "ORCHESTRATOR_API_KEY"), expected⟩, call =>
    Writes request expected call
  | _, _, _ => False

/-- The call of the core system that a call of the service makes: the one that it is, or that of
its endpoint, with a key that it has read. -/
def Makes : ServerCall → Call → Prop
  | .process call, call' => call' = call
  | .http request, call' => ∃ expected, Writes request expected call'

def Ends : ServerCall → Option (Call × Reply) → ServerReply → Prop
  | .process call, some (call', reply'), .process reply => call' = call ∧ reply' = reply
  | .http request, some (call, reply), .http answer => (∃ expected, Writes request expected call) ∧
    ∃ outcome correlationId, reply.outcome = some outcome ∧ answer = answered correlationId outcome
  | .http request, none, .http answer =>
    (∀ endpoint, Framework.route request = .ok endpoint → endpoint.call = none) ∨
      (∃ correlationId, answer = answered correlationId (.ok unauthorized)) ∨
      answer = internalServerError
  | _, _, _ => False

def hosting : Interleaving.Hosting serverMachine machine where
  shared := ServerShared.core
  own := ServerLocal.cooldowns
  choice := ServerChoice.toChoice
  effect := .program
  answer _ r := r
  handles _ _ _ _ := rfl
  disturbs h := h.1
  enters := Enters
  ends := Ends

theorem quiet_getenv (name : String) : hosting.Quiet (.program (.getenv name)) :=
  fun _ _ _ => ⟨rfl, rfl⟩

theorem quiet_own {e : ServerEff} (h : ∀ e', e ≠ .program e') : hosting.Quiet e := by
  intro c s l
  cases e with
  | program e => exact absurd rfl (h e)
  | model e => cases e <;> exact ⟨rfl, rfl⟩
  | _ => exact ⟨rfl, rfl⟩

theorem quietly_reads : hosting.quietly.Ignores ServerEff.Reads := by
  intro e he ph
  refine ⟨?_, fun _ => rfl⟩
  cases e with
  | program e =>
    cases e with
    | getenv name => exact quiet_getenv name
    | redisFromUrl url => exact fun _ _ _ => ⟨rfl, rfl⟩
    | _ => exact absurd he id
  | _ => exact quiet_own (by simp)

theorem quietly_correlationIdOf (request : HttpRequest) :
    hosting.quietly.wp (CorrelationIdMiddleware.correlationIdOf request).run
      (fun _ r => ∃ correlationId, r = .ok correlationId) () := by
  unfold CorrelationIdMiddleware.correlationIdOf
  split
  · exact ⟨_, rfl⟩
  · exact ⟨fun _ _ _ => ⟨rfl, rfl⟩, fun r _ => ⟨r, rfl⟩⟩

theorem hosts_afterwards {request : HttpRequest} {correlationId token : String} {started : ℚ}
    {r : Except PyExc HttpAnswer} {visit : Visit Eff Eff.Res Call Reply} (hout : visit.Outside)
    (hends : Ends (.http request) visit.returned (.http (answered correlationId r))) :
    hosting.Hosts (.http request) (afterwards request correlationId token started r) visit := by
  have hquiet : ∀ {e : ServerEff}, (∀ e', e ≠ .program e') → hosting.Quiet e := quiet_own
  have hret := Hosting.Hosts.ret (H := hosting) (.http (answered correlationId r)) hout hends
  cases visit with
  | before =>
    refine .ahead (fun _ => .before) (hquiet (by simp)) (fun _ => .inl rfl) fun ended => ?_
    refine .ahead (fun _ => .before) (hquiet (by simp)) (fun _ => .inl rfl) fun _ => ?_
    refine .ahead (fun _ => .before) (hquiet (by simp)) (fun _ => .inl rfl) fun _ => ?_
    exact .ahead (fun _ => .before) (hquiet (by simp)) (fun _ => .inl rfl) fun _ => hret
  | inside call p => cases hout
  | after call reply =>
    refine .behind (hquiet (by simp)) fun ended => .behind (hquiet (by simp)) fun _ => ?_
    exact .behind (hquiet (by simp)) fun _ => .behind (hquiet (by simp)) fun _ => hret

theorem hosts_writing {endpoint : Endpoint} {call' : Call} (hcall : endpoint.call = some call')
    {call : ServerCall} {rest : Except PyExc HttpAnswer → Prog ServerEff ServerEff.Res ServerReply}
    (hrest : ∀ reply outcome, reply.outcome = some outcome →
      hosting.Hosts call (rest outcome) (.after call' reply)) :
    hosting.Hosts call (endpoint.code.run >>= rest) (.inside call' call'.code) := by
  cases endpoint with
  | createAutomationRequest request =>
    cases hcall
    rw [Endpoint.code, Server.createAutomationRequest, Prog.except_bind_assoc]
    refine hosting.hosts_inside (AutomationService.submit ⟨none⟩ request).run fun r => ?_
    cases r with
    | ok result => exact hrest (.submitted (.ok result)) _ rfl
    | error exc => exact hrest (.submitted (.error exc)) _ rfl
  | replayDeadLetterRequest requestId =>
    cases hcall
    rw [Endpoint.code, Server.replayDeadLetterRequest, Server.attempt_bind]
    refine hosting.hosts_inside (AutomationService.replayDeadLetter ⟨none⟩ requestId).run
      fun r => ?_
    cases r with
    | ok result => exact hrest (.replayed (.ok result)) _ rfl
    | error exc =>
      have houtcome := hrest (.replayed (.error exc))
      simp only [Reply.outcome] at houtcome
      simp only
      split
      · next hkey => exact houtcome _ (if_pos hkey)
      · next hkey =>
        rw [if_neg hkey] at houtcome
        split
        · next hvalue => exact houtcome _ (if_pos hvalue)
        · next hvalue => exact houtcome _ (if_neg hvalue)
  | _ => cases hcall

omit [JsonCodec] [Framework] in
theorem not_writing_of_call {endpoint : Endpoint} (h : endpoint.call = none) :
    ¬ endpoint.Writing := by
  cases endpoint <;> simp_all [Endpoint.call, Endpoint.Writing]

theorem hosts_application {request : HttpRequest} {expected : Option String}
    {rest : Except PyExc HttpAnswer → Prog ServerEff ServerEff.Res ServerReply}
    (hpass : admits request expected = .ok true)
    (hbefore : (∀ endpoint, Framework.route request = .ok endpoint → endpoint.call = none) →
      ∀ r, hosting.Hosts (.http request) (rest r) .before)
    (hafter : ∀ call reply outcome, Writes request expected call → reply.outcome = some outcome →
      hosting.Hosts (.http request) (rest outcome) (.after call reply)) :
    ∃ visit, (visit = .before ∨ ∃ call, Writes request expected call ∧
        visit = .inside call call.code) ∧
      hosting.Hosts (.http request) ((application request).run >>= rest) visit := by
  unfold application
  cases hroute : Framework.route request with
  | error answer => exact ⟨.before, .inl rfl, hbefore (by simp [hroute]) (.ok answer)⟩
  | ok endpoint =>
    cases hcall : endpoint.call with
    | none =>
      refine ⟨.before, .inl rfl, Hosting.hosts_before ?_⟩
      have hneutral := endpoint.neutral quietly_reads (not_writing_of_call hcall)
      refine hosting.quietly.wp_mono (hneutral ()) fun _ r _ => hbefore ?_ r
      intro endpoint' hroute'
      cases hroute.symm.trans hroute'
      exact hcall
    | some call =>
      have hwrites : Writes request expected call := ⟨hpass, endpoint, hroute, hcall⟩
      exact ⟨_, .inr ⟨call, hwrites, rfl⟩, hosts_writing hcall fun reply outcome =>
        hafter call reply outcome hwrites⟩

theorem hosts_dispatch (request : HttpRequest) (correlationId token : String) (started : ℚ) :
    hosting.Hosts (.http request) ((ApiKeyMiddleware.dispatch request (application request)).run >>=
      afterwards request correlationId token started) .before := by
  have outside : ∀ r, Ends (.http request) none (.http (answered correlationId r)) →
      hosting.Hosts (.http request) (afterwards request correlationId token started r) .before :=
    fun r hends => hosts_afterwards rfl hends
  have key : ∀ expected, ∃ visit, (visit = .before ∨ ∃ call, Writes request expected call ∧
        visit = .inside call call.code) ∧
      hosting.Hosts (.http request) (((do
        if ← Server.ofExcept (admits request expected) then application request
        else return unauthorized : Server HttpAnswer)).run >>=
          afterwards request correlationId token started) visit := by
    intro expected
    cases hadmits : admits request expected with
    | error exc => exact ⟨.before, .inl rfl, outside (.error exc) (.inr (.inr rfl))⟩
    | ok passes =>
      cases passes with
      | false =>
        exact ⟨.before, .inl rfl, outside (.ok unauthorized) (.inr (.inl ⟨correlationId, rfl⟩))⟩
      | true =>
        refine hosts_application hadmits ?_ ?_
        · exact fun hnone r => outside r (.inl hnone)
        · intro call reply outcome hwrites houtcome
          exact hosts_afterwards rfl ⟨⟨expected, hwrites⟩, outcome, correlationId, houtcome, rfl⟩
  choose visit hvisit hhosts using key
  refine .ahead visit (quiet_getenv _) ?_ hhosts
  intro expected
  rcases hvisit expected with hbefore | hinside
  · exact .inl hbefore
  · exact .inr hinside

theorem hosts_code (call : ServerCall) :
    hosting.Hosts call call.code .before ∨ ∃ call', hosting.enters call none call' ∧
      hosting.Hosts call call.code (.inside call' call'.code) := by
  cases call with
  | http request =>
    refine .inl ?_
    have hserve : (ServerCall.http request).code = _ := serve_eq request
    rw [hserve]
    refine Hosting.hosts_before (hosting.quietly.wp_mono (quietly_correlationIdOf request) ?_)
    rintro _ _ ⟨correlationId, rfl⟩
    refine .ahead (fun _ => .before) (quiet_own (by simp)) (fun _ => .inl rfl) fun token => ?_
    refine .ahead (fun _ => .before) (quiet_own (by simp)) (fun _ => .inl rfl) fun started => ?_
    exact hosts_dispatch request correlationId token started
  | process call =>
    have hreturn : ∀ reply, hosting.Hosts (.process call) (pure (ServerReply.process reply))
        (.after call reply) := by
      intro reply
      have hout : Visit.Outside (Visit.after call reply : Visit Eff Eff.Res Call Reply) := rfl
      have hends : Ends (.process call) (some (call, reply)) (.process reply) := ⟨rfl, rfl⟩
      exact Hosting.Hosts.ret (H := hosting) _ hout hends
    have hinside : hosting.Hosts (.process call) (ServerCall.process call).code
        (.inside call (call.code >>= fun reply => pure reply)) :=
      Hosting.hosts_inside call.code hreturn
    simp only [Prog.pure_eq_ret, Prog.bind_ret] at hinside
    exact .inr ⟨call, rfl, hinside⟩

omit [JsonCodec] in
theorem enters_start {call : ServerCall} {call' : Call} (h : Enters call none call') :
    call = .process call' := by
  cases call with
  | http request => cases h
  | process call => rw [show call' = call from h]

omit [JsonCodec] in
theorem enters_after {call : ServerCall} {e : ServerEff} {r : e.Res} {call' : Call}
    (h : Enters call (some ⟨e, r⟩) call') : ∃ request expected, call = .http request ∧
      (⟨e, r⟩ : (e : ServerEff) × e.Res) =
        ⟨.program (.getenv "ORCHESTRATOR_API_KEY"), expected⟩ ∧ Writes request expected call' := by
  generalize hanswer : (⟨e, r⟩ : (e : ServerEff) × e.Res) = answer at h
  unfold Enters at h
  split at h
  · next heq => cases heq
  · next request expected heq => exact ⟨request, expected, rfl, Option.some.inj heq, h⟩
  · exact h.elim

variable {T : Type} [DecidableEq T] {h : List (ServerEvent T)} {s : ServerSystem T}

omit [JsonCodec] in
theorem enters_makes {call : ServerCall} {answer : Option ((e : ServerEff) × e.Res)} {call' : Call}
    (h : Enters call answer call') : Makes call call' := by
  rcases answer with _ | ⟨e, r⟩
  · obtain rfl := enters_start h
    rfl
  · obtain ⟨request, expected, rfl, -, hwrites⟩ := enters_after h
    exact ⟨expected, hwrites⟩

theorem ServerRuns.along (hr : ServerRuns h s) :
    ∃ h' s', hosting.Along ServerInitial Initial h s h' s' := by
  have hinitial : ∀ s : ServerSystem T, ServerInitial s →
      Initial ⟨hosting.shared s.shared, fun t => hosting.own (s.locals t), fun _ => none⟩ := by
    intro s hi
    obtain ⟨hshared, -, hlocals, -⟩ := hi
    refine ⟨congrArg (fun shared => shared.core.db) hshared, fun _ => rfl, ?_⟩
    intro t target
    exact congrArg (fun l => l.cooldowns target) (hlocals t)
  obtain ⟨h', s', ha, -⟩ := hosting.shows hosts_code (fun _ hi => hi.2.1) hinitial hr
  exact ⟨h', s', ha⟩

/-- Seen from the tables and the broker, every run of the service, of any number of requests and
of other processes beside one another, is a run of the core system, at each of its moments. A
request takes part in it only once it has read the key, passes, and is for an endpoint that
writes, and it is answered with the outcome of its call; what happens there is what the request
or process that makes the call does here. -/
theorem service_refines_core (hr : ServerRuns h s) :
    ∃ h' s', Runs h' s' ∧ s'.shared = s.shared.core ∧
      (∀ t call, .start t call ∈ h' → .start t (.process call) ∈ h ∨
        ∃ h₂ c expected h₁ request,
          h = h₂ ++ .did t c (.program (.getenv "ORCHESTRATOR_API_KEY")) expected :: h₁ ∧
          current t h₁ = some (.http request) ∧ Writes request expected call) ∧
      (∀ t call reply, .stop t call reply ∈ h → ∃ returned, Ends call returned reply ∧
        ∀ call' reply', returned = some (call', reply') → .stop t call' reply' ∈ h') ∧
      (∀ h₂ h₁, h = h₂ ++ h₁ → ∃ s₁ h₂' h₁' s₁', h' = h₂' ++ h₁' ∧ ServerRuns h₁ s₁ ∧
        Runs h₁' s₁' ∧ s₁'.shared = s₁.shared.core ∧ Interleaving.Steps serverMachine s₁ h₂ s ∧
        Steps s₁' h₂' s') ∧
      ∀ h₂' t c e r h₁', h' = h₂' ++ .did t c e r :: h₁' → ∃ h₂ c' h₁ call call',
        h = h₂ ++ .did t c' (.program e) r :: h₁ ∧ c'.toChoice = c ∧
        current t h₁ = some call ∧ current t h₁' = some call' ∧ Makes call call' := by
  obtain ⟨h', s', ha⟩ := hr.along
  refine ⟨h', s', ha.runs.2, ha.shared, ?_, fun _ _ _ => ha.stops, ?_, ?_⟩
  · intro t call hstart
    obtain ⟨h₂, h₁, call', rfl, hcurrent, ⟨h₁, rfl, henters⟩ | ⟨c, e, r, h₁, rfl, henters⟩⟩ :=
      ha.starts hstart
    · obtain rfl := enters_start henters
      exact .inl (List.mem_append_right _ List.mem_cons_self)
    · obtain ⟨request, expected, rfl, heq, hwrites⟩ := enters_after henters
      cases heq
      exact .inr ⟨h₂, c, expected, h₁, request, rfl, hcurrent, hwrites⟩
  · intro h₂ h₁ heq
    obtain ⟨s₁, h₂', h₁', s₁', heq', ha₁, hl, hl'⟩ := ha.moment h₂ h₁ heq
    exact ⟨s₁, h₂', h₁', s₁', heq', ha₁.runs.1, ha₁.runs.2, ha₁.shared, hl, hl'⟩
  · intro h₂' t c e r h₁' heq
    obtain ⟨h₂, c', r', h₁, s₁, s₁', hhost, hchoice, hanswer, hserves, -⟩ := ha.did h₂' h₁' heq
    obtain ⟨call, call', answer, hcurrent, hcurrent', henters⟩ := hserves
    cases hanswer
    exact ⟨h₂, c', h₁, call, call', hhost, hchoice, hcurrent, hcurrent', enters_makes henters⟩

end Hosting

/-- One of two submissions has come with the key, and has been stored. -/
theorem service_refines_core_sample : letI := emptyPayload; letI := twoEndpoints
    ServerRuns servedRun.1 servedRun.2 ∧ servedRun.2.shared.core.db.requests.length = 1 ∧
      ∃ (h' : List (Event ℕ)) (s' : System ℕ), Runs h' s' ∧
        s'.shared = servedRun.2.shared.core := by
  let _ := emptyPayload
  let _ := twoEndpoints
  obtain ⟨h', s', hr', hshared, -⟩ := service_refines_core servedRun_runs
  exact ⟨servedRun_runs, by decide +kernel, h', s', hr', hshared⟩

end Orchestrator
