import Orchestrator.Enrichment
import Orchestrator.Models
import Orchestrator.RetryAfter

/-!
# The execution adapters

`ApiAdapter`, `UiPathOrchestratorAdapter` and `RpaAdapter` as programs over the effects of
an HTTP client: reading the environment and the clock, and posting JSON or a form.
-/

namespace Orchestrator

open Interaction Library
set_option autoImplicit false

/-- A response of a downstream service; `retryAfter` is its header of that name. -/
structure AdapterResponse extends HttpResponse where
  retryAfter : Option String

inductive HttpEff where
  | getenv (name : String)
  | utcNow
  | post (url : String) (payload : Json) (headers : List (String × String)) (timeout : Float64)
  | postForm (url : String) (data : List (String × String)) (timeout : Float64)

abbrev HttpEff.Res : HttpEff → Type
  | getenv _ => Option String
  | utcNow => Instant
  | post .. | postForm .. => Except PyExc AdapterResponse

abbrev Http := ExceptT PyExc (Prog HttpEff HttpEff.Res)

namespace Http

def ask (e : HttpEff) : Http e.Res := ExceptT.lift (Prog.perform e)

def post (url : String) (payload : Json) (headers : List (String × String)) (timeout : Float64) :
    Http AdapterResponse :=
  ExceptT.mk (Prog.perform (HttpEff.post url payload headers timeout))

def postForm (url : String) (data : List (String × String)) (timeout : Float64) :
    Http AdapterResponse :=
  ExceptT.mk (Prog.perform (HttpEff.postForm url data timeout))

def ofExcept {α : Type} (x : Except PyExc α) : Http α := ExceptT.mk (pure x)

/-- A `try` block whose `except` clauses turn one exception into another. -/
def catching {α : Type} (x : Http α) (handler : PyExc → PyExc) : Http α :=
  ExceptT.mk (x.run >>= fun r => pure (r.mapError handler))

/-- `configured or os.getenv(name)`. -/
def orGetenv (configured : Option String) (name : String) : Http (Option String) :=
  match configured.filter (· ≠ "") with
  | some value => pure (some value)
  | none => ask (.getenv name)

/-- `configured or float(os.getenv(name, default))`. -/
def timeout (configured : Option Float64) (name default : String) : Http Float64 :=
  match configured.filter (· ≠ .fin 0) with
  | some seconds => pure seconds
  | none => do
    let text ← ask (.getenv name)
    ofExcept (floatOfString (text.getD default))

end Http

/-- `_parse_retry_after`; only a date is compared with the clock. -/
def parseRetryAfter (value : Option String) : Http (Option Int) := do
  match ← Http.ofExcept (readRetryAfter value) with
  | .absent => return none
  | .delay seconds => return some seconds
  | .date retryAt => do
    let now ← Http.ask .utcNow
    return some (secondsUntil retryAt now)

/-- `_raise_for_rate_limit`. -/
def raiseForRateLimit (response : AdapterResponse) (context : String) : Http Unit := do
  if response.statusCode = 429 then
    let retryAfter ← parseRetryAfter response.retryAfter
    throw (.retryableAdapterError s!"{context} rate limited by downstream service" retryAfter)
  else pure ()

/-- What follows each post: the response once it is known to be a success. -/
def accepted (response : AdapterResponse) (context : String) : Http AdapterResponse := do
  raiseForRateLimit response context
  Http.ofExcept response.raiseForStatus
  return response

/-- `str.lstrip("/")`. -/
def dropSlashes (s : String) : String := String.ofList (s.toList.dropWhile (· = '/'))

def bearer (token : Option String) : List (String × String) :=
  match token.filter (· ≠ "") with
  | some token => [("Authorization", s!"Bearer {token}")]
  | none => []

/-- `str()` of a decoded value. -/
class JsonText where
  str : Json → String

/-- `except RetryableAdapterError: raise` and `except httpx.HTTPError`. -/
def PyExc.afterPost (description : String) : PyExc → PyExc
  | httpError text => adapterError s!"{description}: {text}"
  | exc => exc

section Adapters
variable [JsonCodec] [JsonText]

def Json.isNull : Json → Bool
  | null => true
  | _ => false

/-- `ApiAdapter._response_detail`. -/
def responseDetail (response : AdapterResponse) (fallback : String) : Except PyExc String :=
  match JsonCodec.loads response.body with
  | .error exc => if exc.isValueError then .ok fallback else .error exc
  | .ok (.obj entries) =>
    let values := ["detail", "message", "status"].filterMap fun key => entries.lookup key
    match values.find? fun value => !value.isNull with
    | some value => .ok (JsonText.str value)
    | none => .ok fallback
  | .ok _ => .ok fallback

structure ApiAdapter where
  baseUrl : Option String
  token : Option String
  timeoutSeconds : Option Float64

def ApiAdapter.execute (self : ApiAdapter) (request : AutomationRequest) : Http String := do
  let baseUrl ← Http.orGetenv self.baseUrl "TARGET_API_BASE_URL"
  match baseUrl.filter (· ≠ "") with
  | none => throw (.adapterError "TARGET_API_BASE_URL is required for API execution")
  | some baseUrl => do
    let token ← Http.orGetenv self.token "TARGET_API_TOKEN"
    let timeout ← Http.timeout self.timeoutSeconds "TARGET_API_TIMEOUT_SECONDS" "10"
    let url := s!"{stripSlashes baseUrl}/{dropSlashes request.target}"
    let response ← Http.catching
      (do
        let response ← Http.post url (.obj request.payload) (bearer token) timeout
        accepted response s!"API target '{request.target}'")
      (PyExc.afterPost s!"API request failed for target '{request.target}'")
    Http.ofExcept (responseDetail response s!"API request completed for '{request.target}'")

/-- `except (httpx.HTTPError, KeyError, ValueError)` of the UiPath adapter. -/
def PyExc.afterSubmission (exc : PyExc) : PyExc :=
  match exc with
  | httpError text | keyError text =>
    adapterError s!"UiPath Orchestrator submission failed: {text}"
  | exc =>
    if exc.isValueError then adapterError s!"UiPath Orchestrator submission failed: {exc.str}"
    else exc

def tokenForm (clientId clientSecret : String) : List (String × String) :=
  [("grant_type", "client_credentials"), ("client_id", clientId), ("client_secret", clientSecret)]

/-- `token_response.json()["access_token"]`, as the text of a header. -/
def accessToken (response : AdapterResponse) : Except PyExc String := do
  let body ← JsonCodec.loads response.body
  let token ← body.getItem "access_token"
  return JsonText.str token

def startJobsUrl (orchestratorUrl : String) : String :=
  s!"{stripSlashes orchestratorUrl}/odata/Jobs/UiPath.Server.Configuration.OData.StartJobs"

def startInfo (releaseKey : String) (request : AutomationRequest) : Json :=
  .obj [("startInfo", .obj [("ReleaseKey", .str releaseKey), ("Strategy", .str "Specific"),
    ("RobotIds", .arr []), ("JobsCount", .int 0), ("Source", .str "Manual"),
    ("InputArguments", .str (JsonCodec.dumps request.payload))])]

def folderHeader (folderId : Option String) : List (String × String) :=
  match folderId.filter (· ≠ "") with
  | some id => [("X-UIPATH-OrganizationUnitId", id)]
  | none => []

def missingSettings (settings : List (String × Option String)) : List String :=
  (settings.filter fun setting => (setting.2.filter (· ≠ "")).isNone).map Prod.fst

/-- The `try` block of `UiPathOrchestratorAdapter.execute`: a token first, then the job. -/
def startJob (tokenUrl orchestratorUrl clientId clientSecret releaseKey : String)
    (folderId : Option String) (timeout : Float64) (request : AutomationRequest) : Http Unit := do
  let tokenResponse ← (do
    let response ← Http.postForm tokenUrl (tokenForm clientId clientSecret) timeout
    accepted response "UiPath token endpoint")
  let token ← Http.ofExcept (accessToken tokenResponse)
  let headers := ("Authorization", s!"Bearer {token}") :: folderHeader folderId
  let _ ← (do
    let response ← Http.post (startJobsUrl orchestratorUrl) (startInfo releaseKey request) headers
      timeout
    accepted response "UiPath job submission")
  return ()

/-- `UiPathOrchestratorAdapter.execute`; the adapter has no settings but its client. -/
def UiPathOrchestratorAdapter.execute (request : AutomationRequest) : Http String := do
  let tokenUrl ← Http.ask (.getenv "UIPATH_TOKEN_URL")
  let orchestratorUrl ← Http.ask (.getenv "UIPATH_ORCHESTRATOR_URL")
  let clientId ← Http.ask (.getenv "UIPATH_CLIENT_ID")
  let clientSecret ← Http.ask (.getenv "UIPATH_CLIENT_SECRET")
  let releaseKey ← Http.ask (.getenv "UIPATH_RELEASE_KEY")
  let folderId ← Http.ask (.getenv "UIPATH_FOLDER_ID")
  let timeout ← Http.timeout none "UIPATH_TIMEOUT_SECONDS" "15"
  let missing := missingSettings [("UIPATH_TOKEN_URL", tokenUrl),
    ("UIPATH_ORCHESTRATOR_URL", orchestratorUrl), ("UIPATH_CLIENT_ID", clientId),
    ("UIPATH_CLIENT_SECRET", clientSecret), ("UIPATH_RELEASE_KEY", releaseKey)]
  if missing ≠ [] then
    let names := ", ".intercalate missing
    throw (.adapterError s!"Missing UiPath configuration: {names}")
  else
    Http.catching (startJob (tokenUrl.getD "") (orchestratorUrl.getD "") (clientId.getD "")
      (clientSecret.getD "") (releaseKey.getD "") folderId timeout request) PyExc.afterSubmission
    return "UiPath Orchestrator job submitted"

structure RpaAdapter where
  submitUrl : Option String
  token : Option String
  timeoutSeconds : Option Float64

def gatewayBody (request : AutomationRequest) : Json :=
  .obj [("process", .str request.process), ("target", .str request.target),
    ("payload", .obj request.payload),
    ("idempotency_key", (request.idempotencyKey.map fun key => Json.str key).getD .null)]

/-- The gateway branch of `RpaAdapter.execute`. -/
def RpaAdapter.submit (self : RpaAdapter) (request : AutomationRequest) : Http String := do
  let submitUrl ← Http.orGetenv self.submitUrl "RPA_SUBMIT_URL"
  match submitUrl.filter (· ≠ "") with
  | none => throw (.adapterError "RPA_SUBMIT_URL is required for RPA execution")
  | some submitUrl => do
    let token ← Http.orGetenv self.token "RPA_SUBMIT_TOKEN"
    let timeout ← Http.timeout self.timeoutSeconds "RPA_SUBMIT_TIMEOUT_SECONDS" "10"
    let response ← Http.catching
      (do
        let response ← Http.post submitUrl (gatewayBody request) (bearer token) timeout
        accepted response s!"RPA process '{request.process}'")
      (PyExc.afterPost s!"RPA submission failed for process '{request.process}'")
    Http.ofExcept (responseDetail response
      s!"RPA request submitted for process '{request.process}'")

def RpaAdapter.execute (self : RpaAdapter) (request : AutomationRequest) : Http String := do
  let provider ← Http.ask (.getenv "RPA_PROVIDER")
  if lower (provider.getD "gateway") = "uipath" then UiPathOrchestratorAdapter.execute request
  else self.submit request

end Adapters

end Orchestrator
