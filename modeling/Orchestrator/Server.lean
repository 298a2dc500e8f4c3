import Orchestrator.Enrichment
import Orchestrator.Library.Hosting
import Orchestrator.Observability
import Orchestrator.Views

/-!
# The HTTP service

The endpoints of the application behind its two middlewares: `ApiKeyMiddleware` lets a request
through or answers 401, and `CorrelationIdMiddleware` around it observes how the request ended.
Any number of requests are served at the same time, beside the workers and their callers.

Which endpoint a request is for, and with which arguments, is decided by the framework.
-/

namespace Orchestrator

open Interaction Library
set_option autoImplicit false

structure HttpRequest where
  method : String
  path : String
  headers : List (String × String)
  body : String
deriving DecidableEq

/-- `request.headers.get(name)`; the names of the headers come in lower case. -/
def HttpRequest.header (request : HttpRequest) (name : String) : Option String :=
  request.headers.lookup name

inductive Content where
  | health (status : String)
  | readiness (status : String) (dependencies : List (String × String))
  | result (result : AutomationResult)
  | details (details : AutomationRequestDetails)
  | enrichment (result : DocumentEnrichmentResult)
  | metrics (snapshot : MetricsSnapshot)
  | text (text : String)
  | detail (detail : String)
  | framework (body : String)

/-- A status code and a content, with the header `X-Correlation-ID` once it is set. -/
structure HttpAnswer where
  statusCode : ℕ
  content : Content
  correlationId : Option String := none

/-- An endpoint with the arguments that the framework has parsed and validated. -/
inductive Endpoint where
  | health
  | readiness
  | createAutomationRequest (request : AutomationRequest)
  | enrichDocument (request : DocumentEnrichmentRequest)
  | getAutomationRequest (requestId : String)
  | getAutomationRequestAudit (requestId : String)
  | replayDeadLetterRequest (requestId : String)
  | metrics
  | prometheusMetrics

/-- The framework finds the endpoint of a request, or answers itself: with one of its own pages,
or because there is no such path or method, or because the arguments are not valid. -/
class Framework where
  route : HttpRequest → Except HttpAnswer Endpoint

/-- The record of the logger `http` about a request. -/
structure LogRecord where
  correlationId : String
  method : String
  path : String
  statusCode : ℕ
  durationMs : ℚ
deriving DecidableEq

inductive ServerEff where
  | program (e : Eff)
  | question (q : Question)
  | model (e : LlmEff)
  | selectOne
  | ping
  | perfCounter
  | setCorrelationId (correlationId : String)
  | resetCorrelationId (token : String)
  | observeRequest (o : Observation)
  | logInfo (method path : String) (statusCode : ℕ) (durationMs : ℚ)
  | renderHttpMetrics

/-- Setting the correlation id returns the token that restores the one before. -/
abbrev ServerEff.Res : ServerEff → Type
  | program e => e.Res
  | question q => q.Res
  | model e => e.Res
  | selectOne | ping => Except PyExc Unit
  | perfCounter => ℚ
  | setCorrelationId _ | renderHttpMetrics => String
  | resetCorrelationId _ | observeRequest _ | logInfo .. => Unit

structure ServerShared where
  core : Shared
  httpMetrics : HttpMetrics
  log : List LogRecord
  rootLevel : ℕ

def logLevels : List (String × ℕ) :=
  [("CRITICAL", 50), ("FATAL", 50), ("ERROR", 40), ("WARN", 30), ("WARNING", 30), ("INFO", 20),
    ("DEBUG", 10), ("NOTSET", 0)]

/-- The level that `configure_logging(os.getenv("LOG_LEVEL", "INFO"))` gives the root logger. -/
def configureLogging (logLevel : Option String) : Except PyExc ℕ :=
  let level := logLevel.getD "INFO"
  match logLevels.lookup level with
  | some number => .ok number
  | none => .error (.valueError s!"Unknown level: '{level}'")

/-- The logger `http` has no level of its own: that of the root decides whether it emits a record
of the level INFO. -/
def ServerShared.logsInfo (s : ServerShared) : Prop := s.rootLevel ≤ 20

instance (s : ServerShared) : Decidable s.logsInfo := inferInstanceAs (Decidable (_ ≤ _))

/-- What one process keeps for itself, or one request in its context. -/
structure ServerLocal where
  cooldowns : Cooldowns
  correlationId : String

structure ServerChoice extends Choice where
  perfCounter : ℚ
  selectOne : Except PyExc Unit
  ping : Except PyExc Unit
  reply : Except PyExc HttpResponse

def serverHandle [JsonCodec] (c : ServerChoice) :
    (e : ServerEff) → ServerShared → ServerLocal → e.Res × ServerShared × ServerLocal
  | .program e, s, l =>
    let (r, core, cooldowns) := handle c.toChoice e s.core l.cooldowns
    (r, { s with core := core }, { l with cooldowns := cooldowns })
  | .question q, s, l => (q.answer ⟨s.core.db, c.utc⟩, s, l)
  | .model (.getenv name), s, l => (c.env name, s, l)
  | .model (.post ..), s, l => (c.reply, s, l)
  | .selectOne, s, l => (c.selectOne, s, l)
  | .ping, s, l => (c.ping, s, l)
  | .perfCounter, s, l => (c.perfCounter, s, l)
  | .setCorrelationId correlationId, s, l =>
    (l.correlationId, s, { l with correlationId := correlationId })
  | .resetCorrelationId token, s, l => ((), s, { l with correlationId := token })
  | .observeRequest o, s, l => ((), { s with httpMetrics := s.httpMetrics.observeRequest o }, l)
  | .logInfo method path statusCode durationMs, s, l =>
    let record := ⟨l.correlationId, method, path, statusCode, durationMs⟩
    ((), { s with log := if s.logsInfo then s.log ++ [record] else s.log }, l)
  | .renderHttpMetrics, s, l => (s.httpMetrics.render, s, l)

abbrev Server := ExceptT PyExc (Prog ServerEff ServerEff.Res)

namespace Server

def ask (e : ServerEff) : Server e.Res := ExceptT.lift (Prog.perform e)

def getenv (name : String) : Server (Option String) := ask (.program (.getenv name))

variable {α : Type}

def ofPy (x : Py α) : Server α := ExceptT.mk (x.run.embed ServerEff.program fun _ r => r)

def ofView (x : View α) : Server α := ExceptT.mk (x.run.embed ServerEff.question fun _ r => r)

def ofLlm (x : Llm α) : Server α := ExceptT.mk (x.run.embed ServerEff.model fun _ r => r)

def ofExcept (x : Except PyExc α) : Server α := ExceptT.mk (pure x)

/-- The outcome of a call as a value, for the `except` and `finally` clauses around it. -/
def attempt (x : Server α) : Server (Except PyExc α) :=
  ExceptT.mk (x.run >>= fun r => pure (.ok r))

def notFound : HttpAnswer :=
  { statusCode := 404, content := .detail "Automation request not found" }

def health : Server HttpAnswer := return { statusCode := 200, content := .health "ok" }

def probeDatabase : Server String := do
  match ← ask .selectOne with
  | .ok () => return "ok"
  | .error _ => return "unavailable"

/-- `Redis.from_url` and `ping`; without the Redis backend there is nothing to probe. -/
def probeRedis : Server (Option String) := do
  if lower (strip ((← getenv "DISPATCH_BACKEND").getD "database")) = "redis" then
    let redisUrl := (← getenv "REDIS_URL").getD "redis://localhost:6379/0"
    match ← ask (.program (.redisFromUrl redisUrl)) with
    | .error _ => return some "unavailable"
    | .ok () =>
      match ← ask .ping with
      | .ok () => return some "ok"
      | .error _ => return some "unavailable"
  else return none

def readiness : Server HttpAnswer := do
  let database ← probeDatabase
  let redis ← probeRedis
  let dependencies := ("database", database) :: (redis.map fun state => ("redis", state)).toList
  if dependencies.all (·.2 = "ok") then
    return { statusCode := 200, content := .readiness "ready" dependencies }
  else return { statusCode := 503, content := .readiness "not_ready" dependencies }

def createAutomationRequest (request : AutomationRequest) : Server HttpAnswer := do
  let result ← ofPy (AutomationService.submit ⟨none⟩ request)
  return { statusCode := 202, content := .result result }

/-- Writing the result is outside of the `try` block. -/
def enrichDocument [JsonCodec] (request : DocumentEnrichmentRequest) : Server HttpAnswer := do
  match ← (ofLlm (LlmDocumentEnricher.enrich ⟨none, none, none, none⟩ request)).attempt with
  | .ok result =>
    let _body ← ofExcept (JsonCodec.render result.toJson)
    return { statusCode := 200, content := .enrichment result }
  | .error (.enrichmentError text) => return { statusCode := 503, content := .detail text }
  | .error exc => throw exc

def getAutomationRequest (requestId : String) : Server HttpAnswer := do
  match ← ofView (AutomationRepository.getResult requestId) with
  | some result => return { statusCode := 200, content := .result result }
  | none => return notFound

def getAutomationRequestAudit (requestId : String) : Server HttpAnswer := do
  match ← ofView (AutomationRepository.getDetails requestId) with
  | some details => return { statusCode := 200, content := .details details }
  | none => return notFound

def replayDeadLetterRequest (requestId : String) : Server HttpAnswer := do
  match ← (ofPy (AutomationService.replayDeadLetter ⟨none⟩ requestId)).attempt with
  | .ok result => return { statusCode := 200, content := .result result }
  | .error exc =>
    if exc.isKeyError then return notFound
    else if exc.isValueError then return { statusCode := 409, content := .detail exc.str }
    else throw exc

def metrics : Server HttpAnswer := do
  let snapshot ← ofView AutomationRepository.metrics
  return { statusCode := 200, content := .metrics snapshot }

/-- What `.3f` shows of a number. -/
def fixed3 (q : ℚ) : String :=
  let shown := (roundHalfEven (q * 1000)).natAbs
  (if q < 0 then "-" else "") ++ toString (shown / 1000) ++ "." ++
    String.ofList (TextOrder.digits 3 (shown % 1000))

def statusLine (entry : String × ℕ) : String :=
  "automation_requests_by_status\x7bstatus=\"" ++ entry.1 ++ "\"\x7d " ++ toString entry.2

def snapshotLines (snapshot : MetricsSnapshot) : List String :=
  ["# HELP automation_requests_total Total automation requests accepted.",
    "# TYPE automation_requests_total gauge",
    "automation_requests_total " ++ toString snapshot.totalRequests,
    "# HELP automation_requests_by_status Automation requests by current lifecycle status.",
    "# TYPE automation_requests_by_status gauge"] ++
  (snapshot.byStatus.insertionSort fun a b => a.1 ≤ b.1).map statusLine ++
  ["# HELP automation_queue_depth Requests waiting or scheduled for retry.",
    "# TYPE automation_queue_depth gauge",
    "automation_queue_depth " ++ toString snapshot.queueDepth,
    "# HELP automation_retrying_count Requests currently waiting for retry.",
    "# TYPE automation_retrying_count gauge",
    "automation_retrying_count " ++ toString snapshot.retryingCount,
    "# HELP automation_dead_letter_count Requests currently in dead letter.",
    "# TYPE automation_dead_letter_count gauge",
    "automation_dead_letter_count " ++ toString snapshot.deadLetterCount,
    "# HELP automation_oldest_queued_age_seconds Age of oldest queued or retrying request.",
    "# TYPE automation_oldest_queued_age_seconds gauge"] ++
  (snapshot.oldestQueuedAgeSeconds.map fun age =>
    "automation_oldest_queued_age_seconds " ++ fixed3 age).toList

def prometheusMetrics : Server HttpAnswer := do
  let snapshot ← ofView AutomationRepository.metrics
  let rendered ← ask .renderHttpMetrics
  let page := String.intercalate "\n" (snapshotLines snapshot) ++ "\n" ++ rendered
  return { statusCode := 200, content := .text page }

end Server

def Endpoint.code [JsonCodec] : Endpoint → Server HttpAnswer
  | health => Server.health
  | readiness => Server.readiness
  | createAutomationRequest request => Server.createAutomationRequest request
  | enrichDocument request => Server.enrichDocument request
  | getAutomationRequest requestId => Server.getAutomationRequest requestId
  | getAutomationRequestAudit requestId => Server.getAutomationRequestAudit requestId
  | replayDeadLetterRequest requestId => Server.replayDeadLetterRequest requestId
  | metrics => Server.metrics
  | prometheusMetrics => Server.prometheusMetrics

/-- What the endpoints do that only read. -/
def ServerEff.Reads : ServerEff → Prop
  | program (.getenv name) => name ≠ "ORCHESTRATOR_API_KEY"
  | program (.redisFromUrl _) | question _ | model _ | selectOne | ping | renderHttpMetrics => True
  | _ => False

/-- What happens inside the two middlewares. -/
def ServerEff.Inner : ServerEff → Prop
  | setCorrelationId _ | resetCorrelationId _ | observeRequest _ | logInfo .. => False
  | _ => True

/-- The endpoints that write. -/
def Endpoint.Writing : Endpoint → Prop
  | createAutomationRequest _ | replayDeadLetterRequest _ => True
  | _ => False

section Reading
variable {Phase : Type} {D : Discipline ServerEff ServerEff.Res Phase} {α : Type}

theorem Server.wp_attempt (x : Server α) (Q : Phase → Except PyExc (Except PyExc α) → Prop)
    (ph : Phase) : D.wp x.attempt.run Q ph = D.wp x.run (fun ph' r => Q ph' (.ok r)) ph := by
  change D.wp (x.run >>= fun r => pure (.ok r)) Q ph = _
  rw [Discipline.wp_bind]
  rfl

theorem Server.attempt_bind {β γ : Type} (x : Server α) (f : Except PyExc α → Server β)
    (g : Except PyExc β → Prog ServerEff ServerEff.Res γ) :
    (x.attempt >>= f).run >>= g = x.run >>= fun r => (f r).run >>= g := by
  rw [Prog.except_bind_assoc]
  exact Prog.bind_assoc _ _ _

theorem Server.neutral_attempt {x : Server α} (hx : D.Neutral x) : D.Neutral x.attempt := by
  intro ph
  rw [wp_attempt]
  exact hx ph

theorem reads_of_inner (inner : D.Ignores ServerEff.Inner) : D.Ignores ServerEff.Reads := by
  intro e he
  apply inner
  cases e <;> trivial

theorem neutral_ofPy (inner : D.Ignores ServerEff.Inner) (x : Py α) :
    D.Neutral (Server.ofPy x) := by
  refine Discipline.wp_embed ?_ x.run
  rintro _ ⟨e, rfl⟩
  exact inner _ trivial

variable (reads : D.Ignores ServerEff.Reads)
include reads

theorem neutral_reads {e : ServerEff} (he : e.Reads) : D.Neutral (Server.ask e) :=
  .effect e (reads e he) rfl

theorem neutral_ofView (view : View α) : D.Neutral (Server.ofView view) := by
  refine Discipline.wp_embed ?_ view.run
  rintro _ ⟨q, rfl⟩
  exact reads _ trivial

theorem neutral_ofLlm (x : Llm α) : D.Neutral (Server.ofLlm x) := by
  refine Discipline.wp_embed ?_ x.run
  rintro _ ⟨e, rfl⟩
  exact reads _ trivial

theorem neutral_readiness : D.Neutral Server.readiness := by
  have hdatabase : D.Neutral Server.probeDatabase := by
    refine .bind (neutral_reads reads trivial) fun r => ?_
    cases r <;> exact .ret _
  have hredis : D.Neutral Server.probeRedis := by
    refine .bind (neutral_reads reads (by simp [ServerEff.Reads])) fun backend => ?_
    split
    · refine .bind (neutral_reads reads (by simp [ServerEff.Reads])) fun redisUrl => ?_
      refine .bind (neutral_reads reads trivial) fun r => ?_
      cases r with
      | error exc => exact .ret _
      | ok _ =>
        refine .bind (neutral_reads reads trivial) fun r => ?_
        cases r <;> exact .ret _
    · exact .ret _
  refine .bind hdatabase fun database => .bind hredis fun redis => ?_
  simp only
  split <;> exact .ret _

variable [JsonCodec]

theorem neutral_enrichDocument (request : DocumentEnrichmentRequest) :
    D.Neutral (Server.enrichDocument request) := by
  refine .bind (Server.neutral_attempt (neutral_ofLlm reads _)) fun r => ?_
  cases r with
  | ok result => exact .bind (.ofExcept _) fun _ => .ret _
  | error exc => cases exc <;> first | exact .ret _ | exact .raise _

theorem Endpoint.neutral (endpoint : Endpoint) (hread : ¬ endpoint.Writing) :
    D.Neutral endpoint.code := by
  cases endpoint with
  | health => exact .ret _
  | readiness => exact neutral_readiness reads
  | createAutomationRequest | replayDeadLetterRequest => exact absurd trivial hread
  | enrichDocument request => exact neutral_enrichDocument reads request
  | getAutomationRequest requestId =>
    refine .bind (neutral_ofView reads _) fun result => ?_
    cases result <;> exact .ret _
  | getAutomationRequestAudit requestId =>
    refine .bind (neutral_ofView reads _) fun details => ?_
    cases details <;> exact .ret _
  | metrics => exact .bind (neutral_ofView reads _) fun _ => .ret _
  | prometheusMetrics =>
    exact .bind (neutral_ofView reads _) fun _ => .bind (neutral_reads reads trivial) fun _ =>
      .ret _

end Reading

/-- Whoever watches the middlewares only need not look at the endpoints. -/
theorem Endpoint.neutral_code [JsonCodec] {Phase : Type}
    {D : Discipline ServerEff ServerEff.Res Phase} (inner : D.Ignores ServerEff.Inner)
    (endpoint : Endpoint) : D.Neutral endpoint.code := by
  by_cases hwriting : endpoint.Writing
  · cases endpoint with
    | createAutomationRequest request => exact .bind (neutral_ofPy inner _) fun _ => .ret _
    | replayDeadLetterRequest requestId =>
      refine .bind (Server.neutral_attempt (neutral_ofPy inner _)) fun r => ?_
      cases r with
      | ok result => exact .ret _
      | error exc =>
        simp only
        split
        · exact .ret _
        · split
          · exact .ret _
          · exact .raise _
    | _ => cases hwriting
  · exact endpoint.neutral (reads_of_inner inner) hwriting

def publicPaths : List String := ["/health", "/ready", "/docs", "/openapi.json", "/redoc"]

/-- `hmac.compare_digest` of two strings. -/
def compareDigest (a b : String) : Except PyExc Bool :=
  if a.toList.all (·.toNat < 128) && b.toList.all (·.toNat < 128) then .ok (a = b)
  else .error (.typeError "comparing strings with non-ASCII characters is not supported")

def unauthorized : HttpAnswer :=
  { statusCode := 401, content := .detail "Invalid or missing API key" }

/-- `ApiKeyMiddleware.dispatch`, once the key is read from the environment. -/
def admits (request : HttpRequest) (expected : Option String) : Except PyExc Bool :=
  match expected.filter (· ≠ "") with
  | none => .ok true
  | some expected =>
    if request.path ∈ publicPaths then .ok true
    else compareDigest ((request.header "x-api-key").getD "") expected

def ApiKeyMiddleware.dispatch (request : HttpRequest) (callNext : Server HttpAnswer) :
    Server HttpAnswer := do
  let expected ← Server.getenv "ORCHESTRATOR_API_KEY"
  if ← Server.ofExcept (admits request expected) then callNext
  else return unauthorized

namespace CorrelationIdMiddleware

def correlationIdOf (request : HttpRequest) : Server String :=
  match (request.header "x-correlation-id").filter (· ≠ "") with
  | some correlationId => pure correlationId
  | none => Server.ask (.program .uuid4)

/-- `round(duration_seconds * 1000, 2)`. -/
def roundedMs (durationSeconds : ℚ) : ℚ := roundHalfEven (durationSeconds * 1000 * 100) / 100

/-- The `finally` clause, before the header is set. -/
def record (request : HttpRequest) (token : String) (started : ℚ) (statusCode : ℕ) :
    Server Unit := do
  let durationSeconds := (← Server.ask .perfCounter) - started
  Server.ask (.observeRequest ⟨request.method, request.path, statusCode, durationSeconds⟩)
  Server.ask (.logInfo request.method request.path statusCode (roundedMs durationSeconds))
  Server.ask (.resetCorrelationId token)

def dispatch (request : HttpRequest) (callNext : Server HttpAnswer) : Server HttpAnswer := do
  let correlationId ← correlationIdOf request
  let token ← Server.ask (.setCorrelationId correlationId)
  let started ← Server.ask .perfCounter
  match ← callNext.attempt with
  | .ok answer => do
    record request token started answer.statusCode
    return { answer with correlationId := some correlationId }
  | .error exc => do
    record request token started 500
    throw exc

end CorrelationIdMiddleware

section Machine
variable [JsonCodec] [Framework]

def application (request : HttpRequest) : Server HttpAnswer :=
  match Framework.route request with
  | .ok endpoint => endpoint.code
  | .error answer => pure answer

def internalServerError : HttpAnswer :=
  { statusCode := 500, content := .text "Internal Server Error" }

/-- A request from its arrival to its answer; the framework answers what no handler catches. -/
def serve (request : HttpRequest) : Prog ServerEff ServerEff.Res HttpAnswer := do
  match ← (CorrelationIdMiddleware.dispatch request
    (ApiKeyMiddleware.dispatch request (application request))).run with
  | .ok answer => return answer
  | .error _ => return internalServerError

/-- What the client receives in the end. -/
def answered (correlationId : String) : Except PyExc HttpAnswer → HttpAnswer
  | .ok answer => { answer with correlationId := some correlationId }
  | .error _ => internalServerError

/-- What happens beside one another: requests to the service, and calls of other processes. -/
inductive ServerCall where
  | http (request : HttpRequest)
  | process (call : Call)

inductive ServerReply where
  | http (answer : HttpAnswer)
  | process (reply : Reply)

open CorrelationIdMiddleware in
/-- What is left of a request once the inner middleware has answered or raised. -/
def afterwards (request : HttpRequest) (correlationId token : String) (started : ℚ)
    (r : Except PyExc HttpAnswer) : Prog ServerEff ServerEff.Res ServerReply :=
  let statusCode : ℕ := match r with
    | .ok answer => answer.statusCode
    | .error _ => 500
  .call .perfCounter fun ended =>
    .call (.observeRequest ⟨request.method, request.path, statusCode, ended - started⟩) fun _ =>
      .call (.logInfo request.method request.path statusCode (roundedMs (ended - started))) fun _ =>
        .call (.resetCorrelationId token) fun _ => .ret (.http (answered correlationId r))

/-- A request in the order of its effects: what both middlewares do around the application. -/
theorem serve_eq (request : HttpRequest) :
    (serve request >>= fun answer => pure (ServerReply.http answer)) =
      (CorrelationIdMiddleware.correlationIdOf request).run >>= fun r =>
        match r with
        | .ok correlationId =>
          .call (.setCorrelationId correlationId) fun token => .call .perfCounter fun started =>
            (ApiKeyMiddleware.dispatch request (application request)).run >>=
              afterwards request correlationId token started
        | .error _ => pure (.http internalServerError) := by
  rw [serve, CorrelationIdMiddleware.dispatch, Prog.bind_assoc, Prog.except_bind_assoc]
  congr 1
  funext r
  cases r with
  | error exc => rfl
  | ok correlationId =>
    refine congrArg (Prog.call _) (funext fun token => ?_)
    refine congrArg (Prog.call _) (funext fun started => ?_)
    refine (Server.attempt_bind (ApiKeyMiddleware.dispatch request (application request)) _ _).trans
      (congrArg _ (funext fun r => ?_))
    cases r <;> rfl

def ServerCall.code : ServerCall → Prog ServerEff ServerEff.Res ServerReply
  | http request => return .http (← serve request)
  | process call => return .process (← call.code.embed ServerEff.program fun _ r => r)

def serverMachine : Interleaving.Machine ServerEff ServerEff.Res ServerCall ServerChoice
    ServerShared ServerLocal ServerReply where
  code := ServerCall.code
  handle := serverHandle
  disturbs s s' := s'.core.db = s.core.db ∧ s'.httpMetrics = s.httpMetrics ∧ s'.log = s.log ∧
    s'.rootLevel = s.rootLevel

end Machine

variable (T : Type)

abbrev ServerEvent := Interleaving.Event T ServerEff ServerEff.Res ServerCall ServerChoice
  ServerReply

abbrev ServerSystem := Interleaving.State T ServerEff ServerEff.Res ServerCall ServerShared
  ServerLocal ServerReply

variable {T}

def ServerInitial (s : ServerSystem T) : Prop :=
  s.shared = ⟨⟨.empty, s.shared.core.queues⟩, .empty, [], s.shared.rootLevel⟩ ∧
    (∀ t, s.running t = none) ∧ (∀ t, s.locals t = ⟨fun _ => none, "-"⟩) ∧
    ∃ logLevel, configureLogging logLevel = .ok s.shared.rootLevel

section Runs
variable [DecidableEq T] [JsonCodec] [Framework]

abbrev ServerStep (s : ServerSystem T) (ev : ServerEvent T) (s' : ServerSystem T) : Prop :=
  Interleaving.Step serverMachine s ev s'

/-- Every run of the service, with its history, the latest step first. -/
abbrev ServerRuns (h : List (ServerEvent T)) (s : ServerSystem T) : Prop :=
  Interleaving.Runs serverMachine ServerInitial h s

end Runs

section Sample

@[reducible] def twoEndpoints : Framework where
  route request :=
    if request.method = "POST" then .ok (.createAutomationRequest sampleRequest) else .ok .health

def posting (headers : List (String × String)) : HttpRequest :=
  ⟨"POST", "/automation-requests", headers, ""⟩

def ServerChoice.guarded : ServerChoice where
  toChoice := { Choice.calm with
    env := fun name => if name = "ORCHESTRATOR_API_KEY" then some "secret" else none }
  perfCounter := 0
  selectOne := .ok ()
  ping := .ok ()
  reply := .error (.httpError "unreachable")

def ServerSystem.initial : ServerSystem ℕ :=
  ⟨⟨⟨.empty, fun _ => []⟩, .empty, [], 20⟩, fun _ => ⟨fun _ => none, "-"⟩, fun _ => none⟩

theorem ServerSystem.initial_initial : ServerInitial ServerSystem.initial :=
  ⟨rfl, fun _ => rfl, fun _ => rfl, none, rfl⟩

def servedRun : List (ServerEvent ℕ) × ServerSystem ℕ :=
  letI := emptyPayload
  letI := twoEndpoints
  Interleaving.State.play serverMachine
    ([.start 0 (.http (posting [("x-api-key", "secret"), ("x-correlation-id", "first")])),
      .start 1 (.http (posting []))] ++
      (List.replicate 20 [.go 0 .guarded, .go 1 .guarded]).flatten)
    ([], ServerSystem.initial)

theorem servedRun_runs :
    @ServerRuns ℕ _ emptyPayload twoEndpoints servedRun.1 servedRun.2 := by
  let _ := emptyPayload
  let _ := twoEndpoints
  have hr : ServerRuns [] ServerSystem.initial := .init ServerSystem.initial_initial
  exact Interleaving.Runs.play _ hr

end Sample

end Orchestrator
