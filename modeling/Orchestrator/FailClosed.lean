import Orchestrator.Enrichment

/-!
# Malformed model output

The exceptions that `enrich` turns into an `EnrichmentError`, and the two kinds of replies
whose exceptions it lets through: an empty `choices`, and a confidence that is an integer
beyond the range of `float`. A third kind gets through to the endpoint, which cannot write
the result: the fields of the document may hold what JSON has no text for.
-/

namespace Orchestrator

open Interaction Library
set_option autoImplicit false

/-- A text that does not decode raises a `ValueError`. -/
def JsonCodec.RaisesValueErrors [JsonCodec] : Prop :=
  ∀ s exc, JsonCodec.loads s = .error exc → exc.isValueError = true

theorem PyExc.isReplyError_of_isValueError {exc : PyExc} (h : exc.isValueError = true) :
    exc.isReplyError = true := by
  cases exc <;> first | rfl | cases h

namespace Json
variable {v w : Json} {key : String} {exc : PyExc}

theorem getItem_ok (h : v.getItem key = .ok w) :
    ∃ entries, v = obj entries ∧ entries.lookup (key : PyStr) = some w := by
  cases v with
  | obj entries =>
    simp only [getItem] at h
    split at h
    · next hlookup =>
      cases h
      exact ⟨entries, rfl, hlookup⟩
    · cases h
  | _ => cases h

theorem getItem_error (h : v.getItem key = .error exc) : exc.isReplyError = true := by
  cases v with
  | obj entries =>
    simp only [getItem] at h
    split at h
    · cases h
    · cases h
      rfl
  | _ =>
    cases h
    rfl

/-- `v[0]` fails in an uncaught way on an empty list and on an empty string only. -/
theorem getFirst_error (h : v.getFirst = .error exc) :
    exc.isReplyError = false ↔ v = arr [] ∨ v = str "" := by
  cases v with
  | arr items =>
    cases items with
    | nil =>
      cases h
      simp [PyExc.isReplyError]
    | cons item items => cases h
  | str s =>
    simp only [getFirst] at h
    split at h
    · cases h
    · next hempty =>
      cases h
      simp [PyExc.isReplyError, PyStr.first_eq_none.mp hempty]
  | _ =>
    cases h
    simp [PyExc.isReplyError, notSubscriptable]

theorem loads_error [JsonCodec] (hjson : JsonCodec.RaisesValueErrors) (h : v.loads = .error exc) :
    exc.isReplyError = true := by
  cases v with
  | str s => exact PyExc.isReplyError_of_isValueError (hjson s exc h)
  | _ =>
    cases h
    rfl

theorem floatOfString_error {s : String} (h : floatOfString s = .error exc) :
    exc.isReplyError = true := by
  unfold floatOfString at h
  split at h
  · cases h
  · cases h
    rfl

/-- `float(v)` fails in an uncaught way on integers out of range only. -/
theorem toFloat_error (h : v.toFloat = .error exc) :
    exc.isReplyError = false ↔ ∃ n, v = int n ∧ Float64.limit ≤ n.natAbs := by
  cases v with
  | int n =>
    simp only [toFloat, Float64.ofInt] at h
    split at h
    · cases h
    · next hlimit =>
      cases h
      simpa [PyExc.isReplyError, PyExc.ofFloat] using hlimit
  | str s =>
    cases s with
    | text s => simp [floatOfString_error (s := s) h]
    | lone codes hlone =>
      cases h
      simp [PyExc.isReplyError]
  | bool b => cases h
  | float x => cases h
  | _ =>
    cases h
    simp [PyExc.isReplyError]

end Json

namespace HttpResponse
variable [JsonCodec]

/-- An accepted reply whose `choices` is an empty list or an empty string. -/
def EmptyChoices (response : HttpResponse) : Prop :=
  response.raiseForStatus = .ok () ∧ ∃ body, JsonCodec.loads response.body = .ok body ∧
    (body.getItem "choices" = .ok (.arr []) ∨ body.getItem "choices" = .ok (.str ""))

/-- An accepted reply whose content states this document. -/
def States (response : HttpResponse) (documentType extractedFields : Json)
    (confidence : Float64) : Prop :=
  response.raiseForStatus = .ok () ∧ ∃ body content parsed entry,
    JsonCodec.loads response.body = .ok body ∧ rawContent body = .ok content ∧
      content.loads = .ok parsed ∧ parsed.getItem "confidence" = .ok entry ∧
        entry.toFloat = .ok confidence ∧ parsed.getItem "document_type" = .ok documentType ∧
          parsed.get "extracted_fields" (.obj []) = .ok extractedFields

/-- An accepted reply whose content states an integer out of range as its confidence. -/
def HugeConfidence (response : HttpResponse) : Prop :=
  response.raiseForStatus = .ok () ∧ ∃ body content parsed n,
    JsonCodec.loads response.body = .ok body ∧ rawContent body = .ok content ∧
      content.loads = .ok parsed ∧ parsed.getItem "confidence" = .ok (.int n) ∧
        Float64.limit ≤ n.natAbs

end HttpResponse

theorem rawContent_error {body : Json} {exc : PyExc} (h : rawContent body = .error exc) :
    exc.isReplyError = false ↔
      body.getItem "choices" = .ok (.arr []) ∨ body.getItem "choices" = .ok (.str "") := by
  rcases bind_eq_error.mp h with h | ⟨choices, hchoices, h⟩
  · simp [Json.getItem_error h, h]
  · simp only [hchoices, Except.ok.injEq]
    rcases bind_eq_error.mp h with h | ⟨choice, hchoice, h⟩
    · exact Json.getFirst_error h
    · have hcaught : exc.isReplyError = true := by
        rcases bind_eq_error.mp h with h | ⟨message, -, h⟩
        · exact Json.getItem_error h
        · exact Json.getItem_error h
      rw [hcaught]
      constructor
      · intro hfalse
        cases hfalse
      · intro hempty
        rcases hempty with rfl | rfl <;> cases hchoice

section Replies
variable [JsonCodec] {request : DocumentEnrichmentRequest} {model : String}
variable {response : HttpResponse}

theorem HttpResponse.EmptyChoices.escapes (h : response.EmptyChoices) :
    ∃ text, readReply request model response = .error (.indexError text) := by
  obtain ⟨hstatus, body, hbody, hchoices⟩ := h
  have hraw : ∃ text, rawContent body = .error (.indexError text) := by
    rcases hchoices with hchoices | hchoices
    · exact ⟨_, bind_eq_error.mpr (.inr ⟨_, hchoices, bind_eq_error.mpr (.inl rfl)⟩)⟩
    · exact ⟨_, bind_eq_error.mpr (.inr ⟨_, hchoices, bind_eq_error.mpr (.inl rfl)⟩)⟩
  obtain ⟨text, hraw⟩ := hraw
  refine ⟨text, ?_⟩
  apply bind_eq_error.mpr
  refine .inr ⟨_, hstatus, bind_eq_error.mpr (.inr ⟨_, hbody, ?_⟩)⟩
  exact bind_eq_error.mpr (.inl hraw)

theorem HttpResponse.HugeConfidence.escapes (h : response.HugeConfidence) :
    ∃ text, readReply request model response = .error (.overflowError text) := by
  obtain ⟨hstatus, body, content, parsed, n, hbody, hraw, hparsed, hentry, hlimit⟩ := h
  refine ⟨"int too large to convert to float", ?_⟩
  apply bind_eq_error.mpr
  refine .inr ⟨_, hstatus, bind_eq_error.mpr (.inr ⟨_, hbody, ?_⟩)⟩
  apply bind_eq_error.mpr
  refine .inr ⟨_, hraw, bind_eq_error.mpr (.inr ⟨_, hparsed, ?_⟩)⟩
  apply bind_eq_error.mpr
  refine .inr ⟨_, hentry, bind_eq_error.mpr (.inl ?_)⟩
  simp only [Json.toFloat, Float64.ofInt, if_neg (not_lt.mpr hlimit)]
  rfl

theorem readReply_eq_ok {result : DocumentEnrichmentResult} :
    readReply request model response = .ok result ↔
      response.States (.str result.documentType) (.obj result.extractedFields)
        result.confidence ∧ result.Meets ∧
        result.requiresHumanReview = Float64.lt result.confidence request.reviewThreshold ∧
        result.provider = "openai-compatible" ∧ result.model = model := by
  constructor
  · intro h
    obtain ⟨⟨⟩, hstatus, h⟩ := bind_eq_ok.mp h
    obtain ⟨body, hbody, h⟩ := bind_eq_ok.mp h
    obtain ⟨content, hcontent, h⟩ := bind_eq_ok.mp h
    obtain ⟨parsed, hparsed, h⟩ := bind_eq_ok.mp h
    obtain ⟨entry, hentry, h⟩ := bind_eq_ok.mp h
    obtain ⟨confidence, hconfidence, h⟩ := bind_eq_ok.mp h
    obtain ⟨documentType, htype, h⟩ := bind_eq_ok.mp h
    obtain ⟨extractedFields, hfields, h⟩ := bind_eq_ok.mp h
    obtain ⟨rfl, rfl, rfl, hreview, hprovider, hmodel, hmeets⟩ :=
      DocumentEnrichmentResult.validate_eq_ok.mp h
    exact ⟨⟨hstatus, body, content, parsed, entry, hbody, hcontent, hparsed, hentry, hconfidence,
      htype, hfields⟩, hmeets, hreview, hprovider, hmodel⟩
  · intro h
    obtain ⟨⟨hstatus, body, content, parsed, entry, hbody, hcontent, hparsed, hentry, hconfidence,
      htype, hfields⟩, hmeets, hreview, hprovider, hmodel⟩ := h
    apply bind_eq_ok.mpr
    refine ⟨_, hstatus, bind_eq_ok.mpr ⟨body, hbody, bind_eq_ok.mpr ⟨content, hcontent, ?_⟩⟩⟩
    refine bind_eq_ok.mpr ⟨parsed, hparsed, bind_eq_ok.mpr ⟨entry, hentry, ?_⟩⟩
    refine bind_eq_ok.mpr ⟨_, hconfidence, bind_eq_ok.mpr ⟨_, htype, ?_⟩⟩
    refine bind_eq_ok.mpr ⟨_, hfields, ?_⟩
    exact DocumentEnrichmentResult.validate_eq_ok.mpr
      ⟨rfl, rfl, rfl, hreview, hprovider, hmodel, hmeets⟩

/-- Every exception of a reply is caught, but for the two kinds of replies. -/
theorem readReply_uncaught (hjson : JsonCodec.RaisesValueErrors) {exc : PyExc}
    (h : readReply request model response = .error exc) (huncaught : exc.isReplyError = false) :
    response.EmptyChoices ∨ response.HugeConfidence := by
  have caught : exc.isReplyError = true → response.EmptyChoices ∨ response.HugeConfidence := by
    intro hcaught
    rw [huncaught] at hcaught
    cases hcaught
  rcases bind_eq_error.mp h with h | ⟨⟨⟩, hstatus, h⟩
  · unfold HttpResponse.raiseForStatus at h
    split at h
    · cases h
    · cases h
      exact caught rfl
  rcases bind_eq_error.mp h with h | ⟨body, hbody, h⟩
  · exact caught (PyExc.isReplyError_of_isValueError (hjson _ _ h))
  rcases bind_eq_error.mp h with h | ⟨content, hcontent, h⟩
  · exact .inl ⟨hstatus, body, hbody, (rawContent_error h).mp huncaught⟩
  rcases bind_eq_error.mp h with h | ⟨parsed, hparsed, h⟩
  · exact caught (Json.loads_error hjson h)
  rcases bind_eq_error.mp h with h | ⟨entry, hentry, h⟩
  · exact caught (Json.getItem_error h)
  rcases bind_eq_error.mp h with h | ⟨confidence, -, h⟩
  · obtain ⟨n, rfl, hlimit⟩ := (Json.toFloat_error h).mp huncaught
    exact .inr ⟨hstatus, body, content, parsed, n, hbody, hcontent, hparsed, hentry, hlimit⟩
  rcases bind_eq_error.mp h with h | ⟨documentType, -, h⟩
  · exact caught (Json.getItem_error h)
  rcases bind_eq_error.mp h with h | ⟨extractedFields, -, h⟩
  · -- the subscripts before it show that the value is an object, which has `get`
    obtain ⟨entries, rfl, -⟩ := Json.getItem_ok hentry
    cases h
  · obtain ⟨fields, rfl⟩ := DocumentEnrichmentResult.validate_error h
    exact caught rfl

end Replies

/-- The caller gets a result that its model accepts, or an `EnrichmentError`. -/
def FailsClosed [JsonCodec] : Except PyExc DocumentEnrichmentResult → Prop
  | .ok result => result.Meets
  | .error exc => ∃ text, exc = .enrichmentError text

theorem failsClosed_afterReply [JsonCodec] {request : DocumentEnrichmentRequest} {model : String}
    {response : HttpResponse} :
    FailsClosed ((readReply request model response).mapError PyExc.afterReply) ↔
      ∀ exc, readReply request model response = .error exc →
        exc.isReplyError = true ∨ ∃ text, exc = .enrichmentError text := by
  cases hread : readReply request model response with
  | ok result => simp [Except.mapError, FailsClosed, (readReply_ok hread).2]
  | error exc =>
    simp only [Except.mapError, FailsClosed, PyExc.afterReply, Except.error.injEq, forall_eq']
    split
    · next hcaught => simp [hcaught]
    · next hcaught => simp [hcaught]

/-- What is made of a reply fails closed exactly when the reply is of neither kind. -/
theorem failsClosed_readReply [JsonCodec] (hjson : JsonCodec.RaisesValueErrors)
    (request : DocumentEnrichmentRequest) (model : String) (response : HttpResponse) :
    FailsClosed ((readReply request model response).mapError PyExc.afterReply) ↔
      ¬ response.EmptyChoices ∧ ¬ response.HugeConfidence := by
  rw [failsClosed_afterReply]
  constructor
  · intro hcaught
    constructor
    · intro hempty
      obtain ⟨text, h⟩ := @HttpResponse.EmptyChoices.escapes _ request model _ hempty
      simpa [PyExc.isReplyError] using hcaught _ h
    · intro hhuge
      obtain ⟨text, h⟩ := @HttpResponse.HugeConfidence.escapes _ request model _ hhuge
      simpa [PyExc.isReplyError] using hcaught _ h
  · intro hnot exc h
    by_contra hnone
    have huncaught : exc.isReplyError = false := by
      by_contra htrue
      exact hnone (.inl (by simpa using htrue))
    rcases readReply_uncaught hjson h huncaught with hempty | hhuge
    · exact hnot.1 hempty
    · exact hnot.2 hhuge

/-- The answer of an endpoint: its status code, with the result or the detail. -/
structure EnrichmentResponse where
  statusCode : Nat
  content : Except String DocumentEnrichmentResult

def EnrichmentResponse.serverError : EnrichmentResponse := ⟨500, .error "Internal Server Error"⟩

/-- `POST /enrichment/documents`; the framework answers 500 to what it does not handle, the
exceptions included that writing the result raises. -/
def enrichDocument [JsonCodec] (request : DocumentEnrichmentRequest) :
    Prog LlmEff LlmEff.Res EnrichmentResponse := do
  match ← (LlmDocumentEnricher.enrich ⟨none, none, none, none⟩ request).run with
  | .ok result =>
    match JsonCodec.render result.toJson with
    | .ok _ => return ⟨200, .ok result⟩
    | .error _ => return .serverError
  | .error (.enrichmentError text) => return ⟨503, .error text⟩
  | .error _ => return .serverError

/-- The document that an accepted reply states meets the model, but has no JSON text. -/
def HttpResponse.Unwritable [JsonCodec] (request : DocumentEnrichmentRequest) (model : String)
    (response : HttpResponse) : Prop :=
  ∃ (result : DocumentEnrichmentResult) (exc : PyExc),
    response.States (.str result.documentType) (.obj result.extractedFields) result.confidence ∧
      result.Meets ∧
      result.requiresHumanReview = Float64.lt result.confidence request.reviewThreshold ∧
      result.provider = "openai-compatible" ∧ result.model = model ∧
      JsonCodec.render result.toJson = .error exc

/-- What `configured or os.getenv(name)` gives. -/
def LlmHost.setting (host : LlmHost) (configured : Option String) (name : String) :
    Option String :=
  (configured.filter (· ≠ "")).or (host.env name)

namespace LlmDocumentEnricher
variable (self : LlmDocumentEnricher) (host : LlmHost)

def readTimeout : Except PyExc Float64 :=
  match self.timeoutSeconds.filter (· ≠ .fin 0) with
  | some seconds => .ok seconds
  | none => floatOfString ((host.env "LLM_TIMEOUT_SECONDS").getD "20")

/-- The endpoint and the model are configured, so that a request is sent. -/
def Configured : Prop :=
  (host.setting self.baseUrl "LLM_BASE_URL").filter (· ≠ "") ≠ none ∧
    (host.setting self.model "LLM_MODEL").filter (· ≠ "") ≠ none

/-- The timeout is a numeral, and a reply that is waited for is of neither uncaught kind. -/
def Answerable [JsonCodec] : Prop :=
  (∃ seconds, self.readTimeout host = .ok seconds) ∧ (self.Configured host →
    ∀ response, host.reply = .ok response → ¬ response.EmptyChoices ∧ ¬ response.HugeConfidence)

/-- What a reply states that is waited for can be written. -/
def Writable [JsonCodec] (request : DocumentEnrichmentRequest) : Prop :=
  self.Configured host → ∀ model response,
    (host.setting self.model "LLM_MODEL").filter (· ≠ "") = some model →
      host.reply = .ok response → ¬ response.Unwritable request model

end LlmDocumentEnricher

section Endpoint
variable {self : LlmDocumentEnricher} {host : LlmHost} {request : DocumentEnrichmentRequest}

theorem exec_orGetenv_eq (configured : Option String) (name : String) :
    (orGetenv configured name).run.exec LlmHost.answer host =
      (.ok (host.setting configured name), host) := by
  unfold orGetenv LlmHost.setting
  cases configured.filter (· ≠ "") <;> rfl

theorem exec_timeout_eq :
    self.timeout.run.exec LlmHost.answer host = (self.readTimeout host, host) := by
  unfold LlmDocumentEnricher.timeout LlmDocumentEnricher.readTimeout
  cases self.timeoutSeconds.filter (· ≠ .fin 0) <;> rfl

theorem floatOfString_caught (hnum : ∀ seconds, self.readTimeout host ≠ .ok seconds) :
    ∃ text, self.readTimeout host = .error (.valueError text) := by
  unfold LlmDocumentEnricher.readTimeout at *
  split at *
  · exact absurd rfl (hnum _)
  · unfold floatOfString at *
    split at *
    · exact absurd rfl (hnum _)
    · exact ⟨_, rfl⟩

variable [JsonCodec]

theorem exec_enrich : ((self.enrich request).run.exec LlmHost.answer host).1 =
    match self.readTimeout host with
    | .error exc => .error exc
    | .ok _ =>
      match (host.setting self.baseUrl "LLM_BASE_URL").filter (· ≠ ""),
        (host.setting self.model "LLM_MODEL").filter (· ≠ "") with
      | some _, some model => (host.reply >>= readReply request model).mapError PyExc.afterReply
      | _, _ => .error (.enrichmentError "LLM_BASE_URL and LLM_MODEL are required") := by
  simp only [LlmDocumentEnricher.enrich, Prog.exec_except_bind, exec_orGetenv_eq,
    exec_timeout_eq]
  cases self.readTimeout host with
  | error exc => rfl
  | ok seconds =>
    cases (host.setting self.baseUrl "LLM_BASE_URL").filter (· ≠ "") with
    | none => rfl
    | some baseUrl => cases (host.setting self.model "LLM_MODEL").filter (· ≠ "") <;> rfl

theorem failsClosed_iff (self : LlmDocumentEnricher) (request : DocumentEnrichmentRequest)
    (hjson : JsonCodec.RaisesValueErrors)
    (hreply : ∀ exc, host.reply = .error exc → ∃ text, exc = .httpError text) :
    FailsClosed ((self.enrich request).run.exec LlmHost.answer host).1 ↔ self.Answerable host := by
  rw [exec_enrich, LlmDocumentEnricher.Answerable, LlmDocumentEnricher.Configured]
  cases htimeout : self.readTimeout host with
  | error exc =>
    have hno : ∀ seconds, self.readTimeout host ≠ .ok seconds := by simp [htimeout]
    obtain ⟨text, hvalue⟩ := floatOfString_caught hno
    rw [htimeout] at hvalue
    cases hvalue
    simp [FailsClosed]
  | ok seconds =>
    cases (host.setting self.baseUrl "LLM_BASE_URL").filter (· ≠ "") with
    | none => simp [FailsClosed]
    | some baseUrl =>
      cases (host.setting self.model "LLM_MODEL").filter (· ≠ "") with
      | none => simp [FailsClosed]
      | some model =>
        cases hcase : host.reply with
        | error exc =>
          obtain ⟨text, rfl⟩ := hreply exc hcase
          have hcaught : FailsClosed ((Except.error (.httpError text) >>=
              readReply request model).mapError PyExc.afterReply) := ⟨_, rfl⟩
          simp [hcaught]
        | ok response =>
          change FailsClosed ((readReply request model response).mapError PyExc.afterReply) ↔ _
          rw [failsClosed_readReply hjson request model response]
          simp

theorem enrich_eq_ok {result : DocumentEnrichmentResult} :
    ((self.enrich request).run.exec LlmHost.answer host).1 = .ok result ↔
      (∃ seconds, self.readTimeout host = .ok seconds) ∧ self.Configured host ∧
        ∃ model response, (host.setting self.model "LLM_MODEL").filter (· ≠ "") = some model ∧
          host.reply = .ok response ∧ readReply request model response = .ok result := by
  rw [exec_enrich, LlmDocumentEnricher.Configured]
  cases self.readTimeout host with
  | error exc => simp
  | ok seconds =>
    cases (host.setting self.baseUrl "LLM_BASE_URL").filter (· ≠ "") with
    | none => simp
    | some baseUrl =>
      cases (host.setting self.model "LLM_MODEL").filter (· ≠ "") with
      | none => simp
      | some model =>
        cases hreply : host.reply with
        | error exc => simp [bind, Except.bind, Except.mapError]
        | ok response =>
          change (readReply request model response).mapError PyExc.afterReply = _ ↔ _
          cases hread : readReply request model response <;> simp [Except.mapError, hread]

theorem writable_iff (hnumeral : ∃ seconds, self.readTimeout host = .ok seconds) :
    self.Writable host request ↔ ∀ result,
      ((self.enrich request).run.exec LlmHost.answer host).1 = .ok result →
        ∃ body, JsonCodec.render result.toJson = .ok body := by
  constructor
  · intro hwritable result hresult
    obtain ⟨-, hconfigured, model, response, hmodel, hreply, hread⟩ := enrich_eq_ok.mp hresult
    cases hrender : JsonCodec.render result.toJson with
    | ok body => exact ⟨body, rfl⟩
    | error exc =>
      obtain ⟨hstates, hmeets, hreview, hprovider, hname⟩ := readReply_eq_ok.mp hread
      exact absurd ⟨result, exc, hstates, hmeets, hreview, hprovider, hname, hrender⟩
        (hwritable hconfigured model response hmodel hreply)
  · intro hrenders hconfigured model response hmodel hreply hunwritable
    obtain ⟨result, exc, hstates, hmeets, hreview, hprovider, hname, hrender⟩ := hunwritable
    have hread := readReply_eq_ok.mpr ⟨hstates, hmeets, hreview, hprovider, hname⟩
    obtain ⟨body, hbody⟩ := hrenders result
      (enrich_eq_ok.mpr ⟨hnumeral, hconfigured, model, response, hmodel, hreply, hread⟩)
    rw [hrender] at hbody
    cases hbody

/-- The endpoint answers 200 or 503 to an outcome that fails closed and can be written. -/
theorem enrichDocument_status (request : DocumentEnrichmentRequest) (host : LlmHost) :
    let status := ((enrichDocument request).exec LlmHost.answer host).1.statusCode
    let outcome :=
      ((LlmDocumentEnricher.enrich ⟨none, none, none, none⟩ request).run.exec LlmHost.answer
        host).1
    (status = 200 ∨ status = 503 ↔ FailsClosed outcome ∧
      ∀ result, outcome = .ok result → ∃ body, JsonCodec.render result.toJson = .ok body) := by
  rw [enrichDocument, Prog.exec_bind]
  rcases hrun : (LlmDocumentEnricher.enrich ⟨none, none, none, none⟩ request).run.exec
    LlmHost.answer host with ⟨exc | result, host'⟩
  · cases exc <;> simp [FailsClosed, EnrichmentResponse.serverError]
  · have hmeets : result.Meets := by
      have hok := congrArg Prod.fst hrun
      obtain ⟨-, -, model, response, -, -, hread⟩ := enrich_eq_ok.mp hok
      exact (readReply_eq_ok.mp hread).2.1
    cases hrender : JsonCodec.render result.toJson <;>
      simp [FailsClosed, hmeets, hrender, EnrichmentResponse.serverError]

/-- `enrich` fails closed exactly when the configured timeout is a number and the reply is of
neither uncaught kind; the endpoint answers 200 or 503 exactly when, besides, what the reply
states can be written. -/
theorem enrich_failsClosed_iff (self : LlmDocumentEnricher) (request : DocumentEnrichmentRequest)
    (hjson : JsonCodec.RaisesValueErrors)
    (hreply : ∀ exc, host.reply = .error exc → ∃ text, exc = .httpError text) :
    (FailsClosed ((self.enrich request).run.exec LlmHost.answer host).1 ↔
      self.Answerable host) ∧
    (((enrichDocument request).exec LlmHost.answer host).1.statusCode = 200 ∨
      ((enrichDocument request).exec LlmHost.answer host).1.statusCode = 503 ↔
        (⟨none, none, none, none⟩ : LlmDocumentEnricher).Answerable host ∧
          (⟨none, none, none, none⟩ : LlmDocumentEnricher).Writable host request) := by
  refine ⟨failsClosed_iff self request hjson hreply, ?_⟩
  refine (enrichDocument_status request host).trans ?_
  rw [failsClosed_iff _ request hjson hreply]
  constructor
  · exact fun h => ⟨h.1, (writable_iff h.1.1).mpr h.2⟩
  · exact fun h => ⟨h.1, (writable_iff h.1.1).mp h.2⟩

end Endpoint

section Sample

def emptyBody : String := "\x7b\"choices\": []\x7d"

def hugeText : String := "1" ++ String.ofList (List.replicate 400 '0')

/-- The document of an invoice in whose name a lone surrogate is escaped. -/
def loneContent : String :=
  "\x7b\"document_type\": \"invoice\", \"confidence\": 0.95, " ++
  "\"extracted_fields\": \x7b\"name\": \"\\ud800\"\x7d\x7d"

def loneBody : String :=
  "\x7b\"choices\": [\x7b\"message\": \x7b\"content\": \"\x7b\\\"document_type\\\": " ++
  "\\\"invoice\\\", \\\"confidence\\\": 0.95, \\\"extracted_fields\\\": " ++
  "\x7b\\\"name\\\": \\\"\\\\ud800\\\"\x7d\x7d\"\x7d\x7d]\x7d"

/-- The `json` module on the texts of the samples. -/
@[reducible] def malformedCodec : JsonCodec :=
  readingCodec fun s =>
    if s = emptyBody then .ok (.obj [("choices", .arr [])])
    else if s = loneBody then
      .ok (.obj [("choices", .arr [.obj [("message", .obj [("content", .str loneContent)])]])])
    else if s = loneContent then
      .ok (.obj [("document_type", .str "invoice"), ("confidence", .float (.fin (19 / 20))),
        ("extracted_fields", .obj [("name", .str (.lone [0xd800] rfl))])])
    else loadsInvoice hugeText (.int (10 ^ 400)) s

theorem malformedCodec_raises : @JsonCodec.RaisesValueErrors malformedCodec := by
  intro s exc h
  change (if s = emptyBody then _ else if s = loneBody then _ else if s = loneContent then _
    else loadsInvoice hugeText _ s) = _ at h
  unfold loadsInvoice at h
  repeat' split at h
  all_goals cases h
  rfl

def malformedRun (body : String) : Except PyExc DocumentEnrichmentResult :=
  letI := malformedCodec
  ((sampleEnricher.enrich invoiceText).run.exec LlmHost.answer (replying body)).1

theorem malformedRun_raises (body : String) {exc : PyExc}
    (hraises : (match malformedRun body with
      | .ok _ => none
      | .error exc => some exc) = some exc) : malformedRun body = .error exc := by
  split at hraises
  · cases hraises
  · cases hraises
    assumption

def configured (body : String) : LlmHost :=
  { replying body with
    env := fun name =>
      if name = "LLM_BASE_URL" then some "https://llm.example.internal/v1"
      else if name = "LLM_MODEL" then some "enterprise-model"
      else none }

def endpointStatus (body : String) : ℕ :=
  letI := malformedCodec
  ((enrichDocument invoiceText).exec LlmHost.answer (configured body)).1.statusCode

theorem enrich_failsClosed_iff_sample : letI := malformedCodec
    FailsClosed (malformedRun "not json") ∧ sampleEnricher.Answerable (replying "not json") := by
  let _ := malformedCodec
  have hreply : ∀ exc, (replying "not json").reply = .error exc →
      ∃ text, exc = .httpError text := by
    intro exc h
    cases h
  have hiff := (enrich_failsClosed_iff sampleEnricher invoiceText malformedCodec_raises hreply).1
  have hrun : malformedRun "not json" = .error (.enrichmentError
      "Document enrichment failed: Expecting value: line 1 column 1 (char 0)") :=
    malformedRun_raises _ (by decide +kernel)
  have hclosed : FailsClosed (malformedRun "not json") := by
    rw [hrun]
    exact ⟨_, rfl⟩
  exact ⟨hclosed, hiff.mp hclosed⟩

/-- An empty `choices` raises `IndexError`, and an integer beyond the floats `OverflowError`. A
lone surrogate gets into the result, and the endpoint answers 500. -/
theorem enrich_lets_through : letI := malformedCodec
    ¬ FailsClosed (malformedRun emptyBody) ∧
      ¬ FailsClosed (malformedRun (invoiceBody hugeText)) ∧ endpointStatus loneBody = 500 := by
  have hempty : malformedRun emptyBody = .error (.indexError "list index out of range") :=
    malformedRun_raises _ (by decide +kernel)
  have hhuge : malformedRun (invoiceBody hugeText) = .error (.overflowError
      "int too large to convert to float") :=
    malformedRun_raises _ (by decide +kernel)
  rw [hempty, hhuge]
  exact ⟨by simp [FailsClosed], by simp [FailsClosed], by decide +kernel⟩

end Sample

end Orchestrator
