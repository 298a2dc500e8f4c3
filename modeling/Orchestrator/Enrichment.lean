import Orchestrator.Conversions
import Orchestrator.Library.Interaction

/-!
# Document enrichment

`LlmDocumentEnricher.enrich` reads its configuration, posts the document to the model
endpoint once and turns the reply into a validated result. It runs outside the
orchestration and has effects of its own.
-/

namespace Orchestrator

open Interaction Library
set_option autoImplicit false

/-- What the bounds of a field accept lies between them. -/
def JsonCodec.ChecksBounds [JsonCodec] : Prop :=
  ∀ ge le x, JsonCodec.inBounds ge le x = true → Float64.le ge x = true ∧ Float64.le x le = true

structure DocumentEnrichmentRequest where
  text : String
  reviewThreshold : Float64 := .fin (4 / 5)
  valid : 1 ≤ text.length ∧ text.length ≤ 20000

/-- The threshold meets its bounds `ge=0.0, le=1.0`. -/
def DocumentEnrichmentRequest.Accepted [JsonCodec] (request : DocumentEnrichmentRequest) : Prop :=
  JsonCodec.inBounds (.fin 0) (.fin 1) request.reviewThreshold = true

structure DocumentEnrichmentResult where
  documentType : PyStr
  extractedFields : List (PyStr × Json)
  confidence : Float64
  requiresHumanReview : Bool
  provider : String
  model : String
  valid : 1 ≤ documentType.length ∧ documentType.length ≤ 100

namespace DocumentEnrichmentResult
variable [JsonCodec]

def invalidFields (documentType extractedFields : Json) (confidence : Float64) : List String :=
  (match documentType with
    | .str s =>
      if JsonCodec.acceptsStr s ∧ 1 ≤ s.length ∧ s.length ≤ 100 then [] else ["document_type"]
    | _ => ["document_type"]) ++
  (match extractedFields with
    | .obj entries =>
      if entries.all (fun entry => JsonCodec.acceptsStr entry.1) then [] else ["extracted_fields"]
    | _ => ["extracted_fields"]) ++
  (if JsonCodec.inBounds (.fin 0) (.fin 1) confidence then [] else ["confidence"])

theorem invalidFields_eq_nil {s : PyStr} {entries : List (PyStr × Json)} {confidence : Float64}
    (h : invalidFields (.str s) (.obj entries) confidence = []) :
    (1 ≤ s.length ∧ s.length ≤ 100) ∧
      JsonCodec.inBounds (.fin 0) (.fin 1) confidence = true := by
  unfold invalidFields at h
  simp only [List.append_eq_nil_iff, ite_eq_left_iff, List.cons_ne_nil, imp_false,
    not_not] at h
  exact ⟨h.1.1.2, h.2⟩

def validate (documentType extractedFields : Json) (confidence : Float64)
    (requiresHumanReview : Bool) (provider model : String) :
    Except PyExc DocumentEnrichmentResult :=
  match documentType, extractedFields with
  | .str s, .obj entries =>
    if h : invalidFields (.str s) (.obj entries) confidence = [] then
      .ok ⟨s, entries, confidence, requiresHumanReview, provider, model,
        (invalidFields_eq_nil h).1⟩
    else .error (PyExc.invalid (invalidFields (.str s) (.obj entries) confidence))
  | documentType, extractedFields =>
    .error (PyExc.invalid (invalidFields documentType extractedFields confidence))

def Meets (result : DocumentEnrichmentResult) : Prop :=
  invalidFields (.str result.documentType) (.obj result.extractedFields) result.confidence = []

theorem validate_eq_ok {documentType extractedFields : Json} {confidence : Float64}
    {review : Bool} {provider model : String} {result : DocumentEnrichmentResult} :
    validate documentType extractedFields confidence review provider model = .ok result ↔
      documentType = .str result.documentType ∧ extractedFields = .obj result.extractedFields ∧
        result.confidence = confidence ∧ result.requiresHumanReview = review ∧
          result.provider = provider ∧ result.model = model ∧ result.Meets := by
  constructor
  · intro h
    unfold validate at h
    split at h
    · split at h
      · next hmeets =>
        cases h
        exact ⟨rfl, rfl, rfl, rfl, rfl, rfl, hmeets⟩
      · cases h
    · cases h
  · intro h
    obtain ⟨rfl, rfl, rfl, rfl, rfl, rfl, hmeets⟩ := h
    exact dif_pos hmeets

theorem validate_error {documentType extractedFields : Json} {confidence : Float64}
    {review : Bool} {provider model : String} {exc : PyExc}
    (h : validate documentType extractedFields confidence review provider model = .error exc) :
    ∃ fields, exc = .invalid fields := by
  unfold validate at h
  split at h
  · split at h
    · cases h
    · cases h
      exact ⟨_, rfl⟩
  · cases h
    exact ⟨_, rfl⟩

end DocumentEnrichmentResult

/-- The result as the body of the response has it. -/
def DocumentEnrichmentResult.toJson (result : DocumentEnrichmentResult) : Json :=
  .obj [("document_type", .str result.documentType),
    ("extracted_fields", .obj result.extractedFields), ("confidence", .float result.confidence),
    ("requires_human_review", .bool result.requiresHumanReview),
    ("provider", .str result.provider), ("model", .str result.model)]

/-- A reply of the endpoint; `statusText` is the message of `raise_for_status`. -/
structure HttpResponse where
  statusCode : Nat
  statusText : String
  body : String

def HttpResponse.raiseForStatus (response : HttpResponse) : Except PyExc Unit :=
  if 200 ≤ response.statusCode ∧ response.statusCode < 300 then .ok ()
  else .error (.httpError response.statusText)

inductive LlmEff where
  | getenv (name : String)
  | post (url : String) (payload : Json) (headers : List (String × String)) (timeout : Float64)

abbrev LlmEff.Res : LlmEff → Type
  | getenv _ => Option String
  | post .. => Except PyExc HttpResponse

/-- What the surroundings of one call decide. -/
structure LlmHost where
  env : String → Option String
  reply : Except PyExc HttpResponse

def LlmHost.answer (e : LlmEff) (host : LlmHost) : e.Res × LlmHost :=
  match e with
  | .getenv name => (host.env name, host)
  | .post .. => (host.reply, host)

abbrev Llm := ExceptT PyExc (Prog LlmEff LlmEff.Res)

/-- `configured or os.getenv(name)`. -/
def orGetenv (configured : Option String) (name : String) : Llm (Option String) :=
  match configured.filter (· ≠ "") with
  | some value => pure (some value)
  | none => ExceptT.lift (Prog.perform (LlmEff.getenv name))

/-- `str.rstrip("/")`. -/
def stripSlashes (s : String) : String :=
  String.ofList (s.toList.reverse.dropWhile (· = '/')).reverse

def prompt (text : String) : String :=
  "Classify the document and extract useful business fields. " ++
  "Return JSON only with keys document_type, extracted_fields and confidence. " ++
  "confidence must be between 0 and 1.\n\nDocument:\n" ++ text

def chatPayload (model text : String) : Json :=
  .obj [("model", .str model), ("temperature", .int 0),
    ("messages", .arr [
      .obj [("role", .str "system"),
        ("content", .str "You are a controlled document-enrichment component.")],
      .obj [("role", .str "user"), ("content", .str (prompt text))]])]

def requestHeaders (apiKey : Option String) : List (String × String) :=
  ("Content-Type", "application/json") ::
    match apiKey.filter (· ≠ "") with
    | some key => [("Authorization", s!"Bearer {key}")]
    | none => []

/-- `body["choices"][0]["message"]["content"]`. -/
def rawContent (body : Json) : Except PyExc Json := do
  let choices ← body.getItem "choices"
  let choice ← choices.getFirst
  let message ← choice.getItem "message"
  message.getItem "content"

/-- What `enrich` makes of a response, up to the exception that it raises. -/
def readReply [JsonCodec] (request : DocumentEnrichmentRequest) (model : String)
    (response : HttpResponse) : Except PyExc DocumentEnrichmentResult := do
  response.raiseForStatus
  let body ← JsonCodec.loads response.body
  let content ← rawContent body
  let parsed ← content.loads
  let entry ← parsed.getItem "confidence"
  let confidence ← entry.toFloat
  let documentType ← parsed.getItem "document_type"
  let extractedFields ← parsed.get "extracted_fields" (.obj [])
  DocumentEnrichmentResult.validate documentType extractedFields confidence
    (Float64.lt confidence request.reviewThreshold) "openai-compatible" model

/-- The classes that the `except` clause of `enrich` names. -/
def PyExc.isReplyError : PyExc → Bool
  | httpError _ | keyError _ | typeError _ | valueError _ | jsonDecodeError _
  | validationError .. => true
  | _ => false

def PyExc.afterReply (exc : PyExc) : PyExc :=
  if exc.isReplyError then .enrichmentError s!"Document enrichment failed: {exc.str}" else exc

structure LlmDocumentEnricher where
  baseUrl : Option String
  apiKey : Option String
  model : Option String
  timeoutSeconds : Option Float64

namespace LlmDocumentEnricher

/-- `self.timeout_seconds or float(os.getenv("LLM_TIMEOUT_SECONDS", "20"))`. -/
def timeout (self : LlmDocumentEnricher) : Llm Float64 :=
  match self.timeoutSeconds.filter (· ≠ .fin 0) with
  | some seconds => pure seconds
  | none => do
    let text ← ExceptT.lift (Prog.perform (LlmEff.getenv "LLM_TIMEOUT_SECONDS"))
    ExceptT.mk (pure (floatOfString (text.getD "20")))

def enrich [JsonCodec] (self : LlmDocumentEnricher) (request : DocumentEnrichmentRequest) :
    Llm DocumentEnrichmentResult := do
  let baseUrl ← orGetenv self.baseUrl "LLM_BASE_URL"
  let apiKey ← orGetenv self.apiKey "LLM_API_KEY"
  let model ← orGetenv self.model "LLM_MODEL"
  let timeout ← self.timeout
  match baseUrl.filter (· ≠ ""), model.filter (· ≠ "") with
  | some baseUrl, some model => do
    let url := s!"{stripSlashes baseUrl}/chat/completions"
    let reply ← ExceptT.lift (Prog.perform
      (LlmEff.post url (chatPayload model request.text) (requestHeaders apiKey) timeout))
    ExceptT.mk (pure ((reply >>= readReply request model).mapError PyExc.afterReply))
  | _, _ => throw (.enrichmentError "LLM_BASE_URL and LLM_MODEL are required")

end LlmDocumentEnricher

section Review
variable [JsonCodec] {request : DocumentEnrichmentRequest} {model : String}
variable {response : HttpResponse} {result : DocumentEnrichmentResult}

/-- The human-review gate: a result without review is a confident one. -/
def FailsSafe (request : DocumentEnrichmentRequest) (result : DocumentEnrichmentResult) : Prop :=
  Float64.le (.fin 0) result.confidence = true ∧ Float64.le result.confidence (.fin 1) = true ∧
    (result.requiresHumanReview = true ∨
      Float64.le request.reviewThreshold result.confidence = true)

theorem readReply_ok (h : readReply request model response = .ok result) :
    result.requiresHumanReview = Float64.lt result.confidence request.reviewThreshold ∧
      result.Meets := by
  obtain ⟨-, -, h⟩ := bind_eq_ok.mp h
  obtain ⟨body, -, h⟩ := bind_eq_ok.mp h
  obtain ⟨content, -, h⟩ := bind_eq_ok.mp h
  obtain ⟨parsed, -, h⟩ := bind_eq_ok.mp h
  obtain ⟨entry, -, h⟩ := bind_eq_ok.mp h
  obtain ⟨confidence, -, h⟩ := bind_eq_ok.mp h
  obtain ⟨documentType, -, h⟩ := bind_eq_ok.mp h
  obtain ⟨extractedFields, -, h⟩ := bind_eq_ok.mp h
  obtain ⟨-, -, rfl, hreview, -, -, hmeets⟩ := DocumentEnrichmentResult.validate_eq_ok.mp h
  exact ⟨hreview, hmeets⟩

theorem failsSafe_of_bounds (hbounds : JsonCodec.ChecksBounds) (haccepted : request.Accepted)
    (hmeets : result.Meets)
    (hreview : result.requiresHumanReview =
      Float64.lt result.confidence request.reviewThreshold) : FailsSafe request result := by
  obtain ⟨-, hconfidence⟩ := DocumentEnrichmentResult.invalidFields_eq_nil hmeets
  obtain ⟨hlow, hhigh⟩ := hbounds _ _ _ hconfidence
  obtain ⟨hthreshold, -⟩ := hbounds _ _ _ haccepted
  refine ⟨hlow, hhigh, ?_⟩
  rw [hreview]
  cases hlt : Float64.lt result.confidence request.reviewThreshold with
  | true => exact .inl rfl
  | false =>
    rcases Float64.not_lt_iff.mp hlt with hle | hnan | hnan
    · exact .inr hle
    · simp [hnan] at hlow
    · simp [hnan] at hthreshold

omit [JsonCodec] in
theorem exec_orGetenv (configured : Option String) (name : String) (host : LlmHost) :
    ∃ value, (orGetenv configured name).run.exec LlmHost.answer host = (.ok value, host) := by
  unfold orGetenv
  cases configured.filter (· ≠ "") with
  | some value => exact ⟨_, rfl⟩
  | none => exact ⟨_, rfl⟩

omit [JsonCodec] in
theorem LlmDocumentEnricher.exec_timeout (self : LlmDocumentEnricher) (host : LlmHost) :
    ∃ seconds, self.timeout.run.exec LlmHost.answer host = (seconds, host) := by
  unfold timeout
  cases self.timeoutSeconds.filter (· ≠ .fin 0) with
  | some seconds => exact ⟨_, rfl⟩
  | none => exact ⟨_, rfl⟩

/-- A result comes from a response of the endpoint, and from nothing else. -/
theorem enrich_ok {self : LlmDocumentEnricher} {host host' : LlmHost}
    (h : (self.enrich request).run.exec LlmHost.answer host = (.ok result, host')) :
    ∃ response model, host.reply = .ok response ∧
      readReply request model response = .ok result := by
  obtain ⟨baseUrl, hbaseUrl⟩ := exec_orGetenv self.baseUrl "LLM_BASE_URL" host
  obtain ⟨apiKey, hapiKey⟩ := exec_orGetenv self.apiKey "LLM_API_KEY" host
  obtain ⟨name, hname⟩ := exec_orGetenv self.model "LLM_MODEL" host
  obtain ⟨seconds, hseconds⟩ := self.exec_timeout host
  simp only [LlmDocumentEnricher.enrich, Prog.exec_except_bind, hbaseUrl, hapiKey, hname,
    hseconds] at h
  cases seconds with
  | error exc => cases h
  | ok seconds =>
    simp only at h
    split at h
    · next baseUrl model _ _ =>
      have hpost : ((host.reply >>= readReply request model).mapError PyExc.afterReply, host) =
          (.ok result, host') := h
      obtain ⟨hresult, -⟩ := Prod.mk.inj hpost
      cases hread : host.reply >>= readReply request model with
      | error exc =>
        rw [hread] at hresult
        cases hresult
      | ok result' =>
        rw [hread] at hresult
        cases hresult
        obtain ⟨response, hreply, hread⟩ := bind_eq_ok.mp hread
        exact ⟨response, model, hreply, hread⟩
    · cases h

/-- The gate fails safe: a result has a confidence between 0 and 1, and is reviewed unless it
reaches the threshold. -/
theorem enrich_failsSafe {self : LlmDocumentEnricher} {host host' : LlmHost}
    (hbounds : JsonCodec.ChecksBounds) (haccepted : request.Accepted)
    (h : (self.enrich request).run.exec LlmHost.answer host = (.ok result, host')) :
    FailsSafe request result := by
  obtain ⟨response, model, -, hread⟩ := enrich_ok h
  obtain ⟨hreview, hmeets⟩ := readReply_ok hread
  exact failsSafe_of_bounds hbounds haccepted hmeets hreview

end Review

section Sample

def invoiceContent (confidence : String) : String :=
  "\x7b\"document_type\": \"invoice\", \"confidence\": " ++ confidence ++ "\x7d"

def invoiceBody (confidence : String) : String :=
  "\x7b\"choices\": [\x7b\"message\": \x7b\"content\": \"\x7b\\\"document_type\\\": " ++
  "\\\"invoice\\\", \\\"confidence\\\": " ++ confidence ++ "\x7d\"\x7d\x7d]\x7d"

/-- `json.loads` on the two texts of one reply. -/
def loadsInvoice (text : String) (confidence : Json) (s : PyStr) : Except PyExc Json :=
  if s = invoiceBody text then
    .ok (.obj [("choices",
      .arr [.obj [("message", .obj [("content", .str (invoiceContent text))])]])])
  else if s = invoiceContent text then
    .ok (.obj [("document_type", .str "invoice"), ("confidence", confidence)])
  else .error (.jsonDecodeError "Expecting value: line 1 column 1 (char 0)")

def sampleEnricher : LlmDocumentEnricher :=
  ⟨some "https://llm.example.internal/v1", none, some "enterprise-model", none⟩

def replying (body : String) : LlmHost := ⟨fun _ => none, .ok ⟨200, "", body⟩⟩

def invoiceText : DocumentEnrichmentRequest where
  text := "Invoice INV-1001 from ACME"
  valid := by decide

/-- The run with the default threshold against an endpoint that reports this confidence. -/
def invoiceRun (codec : JsonCodec) (text : String) :
    Except PyExc DocumentEnrichmentResult × LlmHost :=
  (sampleEnricher.enrich invoiceText).run.exec LlmHost.answer (replying (invoiceBody text))

theorem invoiceRun_result {codec : JsonCodec} {text : String} {confidence : Float64}
    {review : Bool}
    (h : (invoiceRun codec text).1.toOption.map (fun result =>
      (result.confidence, result.requiresHumanReview)) = some (confidence, review)) :
    ∃ result host', invoiceRun codec text = (.ok result, host') ∧
      result.confidence = confidence ∧ result.requiresHumanReview = review := by
  rcases hrun : invoiceRun codec text with ⟨exc | result, host'⟩
  · rw [hrun] at h
    cases h
  · rw [hrun] at h
    obtain ⟨hconfidence, hreview⟩ := Prod.mk.inj (Option.some.inj h)
    exact ⟨result, host', rfl, hconfidence, hreview⟩

@[reducible] def sureCodec : JsonCodec :=
  readingCodec (loadsInvoice "0.95" (.float (.fin (19 / 20))))

theorem readingCodec_bounds (loads : PyStr → Except PyExc Json) :
    @JsonCodec.ChecksBounds (readingCodec loads) := by
  intro ge le x h
  exact Bool.and_eq_true_iff.mp h

theorem enrich_failsSafe_sample : letI := sureCodec
    ∃ result host', invoiceRun sureCodec "0.95" = (.ok result, host') ∧
      result.requiresHumanReview = false ∧ FailsSafe invoiceText result := by
  obtain ⟨result, host', hrun, -, hreview⟩ :=
    @invoiceRun_result sureCodec "0.95" (.fin (19 / 20)) false (by decide +kernel)
  have haccepted : sureCodec.inBounds (.fin 0) (.fin 1) invoiceText.reviewThreshold = true := by
    decide +kernel
  exact ⟨result, host', hrun, hreview,
    @enrich_failsSafe sureCodec _ _ _ _ _ (readingCodec_bounds _) haccepted hrun⟩

/-- Bounds that reject a number only if it compares below or above them. -/
@[reducible] def lenientCodec : JsonCodec :=
  { readingCodec (loadsInvoice "NaN" (.float .nan)) with
    inBounds := fun ge le x => !Float64.lt x ge && !Float64.lt le x }

/-- With such bounds a confidence of NaN passes validation, and no human reviews the result. -/
theorem enrich_skips_review :
    (∀ ge le x, lenientCodec.inBounds ge le x = false ↔
      Float64.lt x ge = true ∨ Float64.lt le x = true) ∧
    ∃ result host', @DocumentEnrichmentRequest.Accepted lenientCodec invoiceText ∧
      invoiceRun lenientCodec "NaN" = (.ok result, host') ∧
      result.requiresHumanReview = false ∧ ¬ FailsSafe invoiceText result := by
  constructor
  · intro ge le x
    change (!Float64.lt x ge && !Float64.lt le x) = false ↔ _
    cases Float64.lt x ge <;> simp
  · obtain ⟨result, host', hrun, hnan, hreview⟩ :=
      @invoiceRun_result lenientCodec "NaN" .nan false (by decide +kernel)
    have haccepted : lenientCodec.inBounds (.fin 0) (.fin 1) invoiceText.reviewThreshold = true :=
      by decide +kernel
    refine ⟨result, host', haccepted, hrun, hreview, ?_⟩
    intro hsafe
    obtain ⟨hlow, -, -⟩ := hsafe
    rw [hnan] at hlow
    simp at hlow

end Sample

end Orchestrator
