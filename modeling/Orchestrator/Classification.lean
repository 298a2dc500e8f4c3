import Orchestrator.Adapters

/-!
# How adapters classify what they receive

A call of an adapter ends well, with an `AdapterError`, or with a retryable one that carries
the hint of a 429. The conditions under which no other outcome is possible are conditions
on the replies: on the header of a 429 and on the body of a success.
-/

namespace Orchestrator

open Interaction Library
set_option autoImplicit false

/-- The surroundings of a call, with the responses that it has received so far. -/
structure HttpHost where
  env : String → Option String
  clock : ℕ → Instant
  replies : ℕ → Except PyExc AdapterResponse
  received : List AdapterResponse

namespace HttpHost

/-- The next reply is received, if it is a response. -/
def receive (host : HttpHost) : HttpHost :=
  { host with
    replies := fun n => host.replies (n + 1)
    received := host.received ++ (host.replies 0).toOption.toList }

def tick (host : HttpHost) : HttpHost := { host with clock := fun n => host.clock (n + 1) }

@[simp] theorem tick_received (host : HttpHost) : host.tick.received = host.received := rfl

@[simp] theorem receive_env (host : HttpHost) : host.receive.env = host.env := rfl

def answer : (e : HttpEff) → HttpHost → e.Res × HttpHost
  | .getenv name, host => (host.env name, host)
  | .utcNow, host => (host.clock 0, host.tick)
  | .post .., host | .postForm .., host => (host.replies 0, host.receive)

end HttpHost

namespace Http
variable {α β : Type}

def exec (x : Http α) (host : HttpHost) : Except PyExc α × HttpHost :=
  x.run.exec HttpHost.answer host

@[simp] theorem exec_bind (x : Http α) (f : α → Http β) (host : HttpHost) :
    (x >>= f).exec host =
      match x.exec host with
      | (.ok a, host') => (f a).exec host'
      | (.error exc, host') => (.error exc, host') := by
  simp only [exec, Prog.exec_except_bind]
  rcases x.run.exec HttpHost.answer host with ⟨r, host'⟩
  cases r <;> rfl

@[simp] theorem exec_pure (a : α) (host : HttpHost) :
    (pure a : Http α).exec host = (.ok a, host) := rfl

@[simp] theorem exec_throw (exc : PyExc) (host : HttpHost) :
    (throw exc : Http α).exec host = (.error exc, host) := rfl

@[simp] theorem exec_ofExcept (x : Except PyExc α) (host : HttpHost) :
    (ofExcept x).exec host = (x, host) := rfl

@[simp] theorem exec_getenv (name : String) (host : HttpHost) :
    @exec (Option String) (ask (.getenv name)) host = (.ok (host.env name), host) := rfl

@[simp] theorem exec_utcNow (host : HttpHost) :
    @exec Instant (ask .utcNow) host = (.ok (host.clock 0), host.tick) := rfl

@[simp] theorem exec_post (url : String) (payload : Json) (headers : List (String × String))
    (timeout : Float64) (host : HttpHost) :
    (post url payload headers timeout).exec host = (host.replies 0, host.receive) := rfl

@[simp] theorem exec_postForm (url : String) (data : List (String × String)) (timeout : Float64)
    (host : HttpHost) :
    (postForm url data timeout).exec host = (host.replies 0, host.receive) := rfl

@[simp] theorem exec_catching (x : Http α) (handler : PyExc → PyExc) (host : HttpHost) :
    (x.catching handler).exec host = ((x.exec host).1.mapError handler, (x.exec host).2) := by
  change Prog.exec HttpHost.answer (x.run >>= fun r => pure (r.mapError handler)) host = _
  rw [Prog.exec_bind]
  rfl

end Http

/-- What `configured or os.getenv(name)` gives. -/
def HttpHost.setting (host : HttpHost) (configured : Option String) (name : String) :
    Option String :=
  (configured.filter (· ≠ "")).or (host.env name)

def HttpHost.seconds (host : HttpHost) (configured : Option Float64) (name default : String) :
    Except PyExc Float64 :=
  match configured.filter (· ≠ .fin 0) with
  | some seconds => .ok seconds
  | none => floatOfString ((host.env name).getD default)

namespace Http
variable (host : HttpHost)

@[simp] theorem exec_orGetenv (configured : Option String) (name : String) :
    (orGetenv configured name).exec host = (.ok (host.setting configured name), host) := by
  unfold orGetenv HttpHost.setting
  cases configured.filter (· ≠ "") <;> rfl

@[simp] theorem exec_timeout (configured : Option Float64) (name default : String) :
    (timeout configured name default).exec host =
      (host.seconds configured name default, host) := by
  unfold timeout HttpHost.seconds
  cases configured.filter (· ≠ .fin 0) <;> rfl

end Http

def HttpResponse.IsSuccess (response : HttpResponse) : Prop :=
  200 ≤ response.statusCode ∧ response.statusCode < 300

/-- The seconds to wait, for a header that was read at a given time. -/
def RetryAfter.hint (now : Instant) : RetryAfter → Option Int
  | absent => none
  | delay seconds => some seconds
  | date retryAt => some (secondsUntil retryAt now)

/-- What becomes of a response before its body is looked at. -/
def AdapterResponse.verdict (response : AdapterResponse) (context : String) (now : Instant) :
    Except PyExc AdapterResponse :=
  if response.statusCode = 429 then do
    let asked ← readRetryAfter response.retryAfter
    throw (.retryableAdapterError s!"{context} rate limited by downstream service"
      (asked.hint now))
  else do
    response.raiseForStatus
    return response

theorem exec_accepted (response : AdapterResponse) (context : String) (host : HttpHost) :
    ∃ host', (accepted response context).exec host =
        (response.verdict context (host.clock 0), host') ∧ host'.received = host.received ∧
          (response.statusCode ≠ 429 → host' = host) := by
  unfold accepted raiseForRateLimit AdapterResponse.verdict
  by_cases h429 : response.statusCode = 429
  · simp only [h429, if_true, Http.exec_bind, parseRetryAfter, Http.exec_ofExcept]
    cases readRetryAfter response.retryAfter with
    | error exc => exact ⟨_, rfl, rfl, fun hne => absurd rfl hne⟩
    | ok asked => cases asked <;> exact ⟨_, rfl, rfl, fun hne => absurd rfl hne⟩
  · simp only [h429, if_false, Http.exec_bind, Http.exec_pure, Http.exec_ofExcept]
    cases response.raiseForStatus with
    | error exc => exact ⟨_, rfl, rfl, fun _ => rfl⟩
    | ok _ => exact ⟨_, rfl, rfl, fun _ => rfl⟩

/-- What can become of a post whose response has to be a success. -/
inductive Posted (host : HttpHost) : Except PyExc AdapterResponse × HttpHost → Prop where
  | unanswered {host' : HttpHost} (text : String)
      (hreply : host.replies 0 = .error (.httpError text))
      (hreceived : host'.received = host.received) : Posted host (.error (.httpError text), host')
  | success (response : AdapterResponse) (hreply : host.replies 0 = .ok response)
      (hsuccess : response.IsSuccess) : Posted host (.ok response, host.receive)
  | limited {host' : HttpHost} (response : AdapterResponse) (text : String) (hint : Option Int)
      (hreply : host.replies 0 = .ok response) (h429 : response.statusCode = 429)
      (hreadable : ¬ UnreadableDigits response.retryAfter)
      (hhint : ∀ seconds, hint = some seconds → 0 ≤ seconds)
      (hreceived : host'.received = host.received ++ [response]) :
      Posted host (.error (.retryableAdapterError text hint), host')
  | unreadable {host' : HttpHost} (response : AdapterResponse) (text : String)
      (hreply : host.replies 0 = .ok response) (h429 : response.statusCode = 429)
      (hdigits : UnreadableDigits response.retryAfter)
      (hreceived : host'.received = host.received ++ [response]) :
      Posted host (.error (.valueError text), host')
  | refused {host' : HttpHost} (response : AdapterResponse) (text : String)
      (hreply : host.replies 0 = .ok response) (hstatus : response.statusCode ≠ 429)
      (hfailure : ¬ response.IsSuccess) (hreceived : host'.received = host.received ++ [response]) :
      Posted host (.error (.httpError text), host')

theorem HttpHost.receive_received {host : HttpHost} {response : AdapterResponse}
    (h : host.replies 0 = .ok response) : host.receive.received = host.received ++ [response] := by
  simp [receive, h, Except.toOption]

theorem RetryAfter.hint_nonneg {value : Option String} {asked : RetryAfter} {now : Instant}
    (h : readRetryAfter value = .ok asked) (seconds : Int) (hs : asked.hint now = some seconds) :
    0 ≤ seconds := by
  cases asked with
  | absent => cases hs
  | delay n =>
    cases hs
    exact readRetryAfter_delay_nonneg h
  | date retryAt =>
    cases hs
    exact le_max_left _ _

theorem posted {host : HttpHost} {post : Http AdapterResponse} (context : String)
    (hpost : post.exec host = (host.replies 0, host.receive))
    (herror : ∀ exc, host.replies 0 = .error exc → ∃ text, exc = .httpError text) :
    Posted host ((post >>= fun response => accepted response context).exec host) := by
  rw [Http.exec_bind, hpost]
  cases hreply : host.replies 0 with
  | error exc =>
    obtain ⟨text, rfl⟩ := herror exc hreply
    exact .unanswered text hreply (by simp [HttpHost.receive, hreply, Except.toOption])
  | ok response =>
    have hreceived := HttpHost.receive_received hreply
    obtain ⟨host', hexec, hsame, hhost⟩ := exec_accepted response context host.receive
    change Posted host ((accepted response context).exec host.receive)
    rw [hreceived] at hsame
    rw [hexec, AdapterResponse.verdict]
    by_cases h429 : response.statusCode = 429
    · rw [if_pos h429]
      cases hread : readRetryAfter response.retryAfter with
      | error exc =>
        obtain ⟨hdigits, text, rfl⟩ := readRetryAfter_error hread
        exact .unreadable response text hreply h429 hdigits hsame
      | ok asked =>
        refine .limited response _ _ hreply h429 ?_ (RetryAfter.hint_nonneg hread) hsame
        intro hdigits
        obtain ⟨text, herr⟩ := readRetryAfter_unreadable hdigits
        rw [hread] at herr
        cases herr
    · rw [if_neg h429]
      obtain rfl := hhost h429
      by_cases hsuccess : response.IsSuccess
      · have hraise : response.raiseForStatus = .ok () := if_pos hsuccess
        rw [hraise]
        exact .success response hreply hsuccess
      · have hraise : response.raiseForStatus = .error (.httpError response.statusText) :=
          if_neg hsuccess
        rw [hraise]
        exact .refused response _ hreply h429 hsuccess hsame

/-- The end of a call against what it received: a result comes of successes only, a retryable
error of a 429 after successes, and any other `AdapterError` without a 429. -/
def Classified {α : Type} : Except PyExc α → List AdapterResponse → Prop
  | .ok _, received => ∀ response ∈ received, response.IsSuccess
  | .error (.retryableAdapterError _ hint), received =>
    (∃ earlier last, received = earlier ++ [last] ∧
      (∀ response ∈ earlier, response.IsSuccess) ∧ last.statusCode = 429) ∧
    ∀ seconds, hint = some seconds → 0 ≤ seconds
  | .error (.adapterError _), received => ∀ response ∈ received, response.statusCode ≠ 429
  | .error _, _ => False

namespace AdapterResponse

/-- A 429 with a header that the parser can read, if it is of digits only. -/
def HintReadable (response : AdapterResponse) : Prop :=
  response.statusCode = 429 → ¬ UnreadableDigits response.retryAfter

/-- A success whose body decodes or raises a `ValueError`. -/
def DetailReadable [JsonCodec] (response : AdapterResponse) : Prop :=
  response.IsSuccess → ∀ exc, JsonCodec.loads response.body = .error exc → exc.isValueError = true

end AdapterResponse

theorem HttpResponse.IsSuccess.ne_429 {response : HttpResponse} (h : response.IsSuccess) :
    response.statusCode ≠ 429 := by
  have hlt := h.2
  omega

/-- The adapters' classes are raised by the adapters only. -/
def PyExc.isAdapterError : PyExc → Bool
  | adapterError _ | retryableAdapterError .. => true
  | _ => false

theorem not_classified {α : Type} {exc : PyExc} (h : exc.isAdapterError = false)
    (received : List AdapterResponse) : ¬ Classified (.error exc : Except PyExc α) received := by
  cases exc <;> first | exact id | cases h

theorem classified_error_iff {α β : Type} (exc : PyExc) (received : List AdapterResponse) :
    Classified (.error exc : Except PyExc α) received ↔
      Classified (.error exc : Except PyExc β) received := by
  cases exc <;> rfl

section Single
variable [JsonCodec] [JsonText]

/-- A call with a single post, as the API adapter and the gateway make it. -/
def singlePost (post : Http AdapterResponse) (context description fallback : String) :
    Http String := do
  let response ← Http.catching
    (do
      let response ← post
      accepted response context)
    (PyExc.afterPost description)
  Http.ofExcept (responseDetail response fallback)

theorem responseDetail_cases (response : AdapterResponse) (fallback : String) :
    (∃ text, responseDetail response fallback = .ok text) ∧
        (∀ exc, JsonCodec.loads response.body = .error exc → exc.isValueError = true) ∨
      ∃ exc, responseDetail response fallback = .error exc ∧
        JsonCodec.loads response.body = .error exc ∧ exc.isValueError = false := by
  unfold responseDetail
  cases JsonCodec.loads response.body with
  | error exc =>
    cases hvalue : exc.isValueError with
    | true => simp [hvalue]
    | false => simp [hvalue]
  | ok body =>
    left
    refine ⟨?_, by simp⟩
    cases body with
    | obj entries =>
      simp only
      split <;> exact ⟨_, rfl⟩
    | _ => exact ⟨_, rfl⟩

theorem singlePost_classified_iff {host : HttpHost} {post : Http AdapterResponse}
    (context description fallback : String)
    (hpost : post.exec host = (host.replies 0, host.receive)) (hnew : host.received = [])
    (herror : ∀ n exc, host.replies n = .error exc → ∃ text, exc = .httpError text)
    (hjson : ∀ s exc, JsonCodec.loads s = .error exc → exc.isAdapterError = false) :
    Classified ((singlePost post context description fallback).exec host).1
        ((singlePost post context description fallback).exec host).2.received ↔
      ∀ response, host.replies 0 = .ok response →
        response.HintReadable ∧ response.DetailReadable := by
  have hposted := posted context hpost (herror 0)
  unfold singlePost
  simp only [Http.exec_bind (Http.catching _ _), Http.exec_catching]
  rcases hexec : (post >>= fun response => accepted response context).exec host with ⟨r, host'⟩
  rw [hexec] at hposted
  cases hposted with
  | unanswered text hreply hreceived =>
    simp [Except.mapError, PyExc.afterPost, Classified, hreply, hreceived, hnew]
  | success response hreply hsuccess =>
    have hreceived := HttpHost.receive_received hreply
    rw [hnew, List.nil_append] at hreceived
    simp only [Except.mapError, Http.exec_ofExcept, hreceived, hreply, Except.ok.injEq,
      forall_eq', AdapterResponse.HintReadable, AdapterResponse.DetailReadable]
    rcases responseDetail_cases response fallback with
      ⟨⟨text, hok⟩, hbody⟩ | ⟨exc, herr, hload, hno⟩
    · rw [hok]
      simpa [Classified, hsuccess, hsuccess.ne_429] using hbody
    · rw [herr]
      simp only [not_classified (hjson _ _ hload), false_iff]
      intro hboth
      rw [hboth.2 hsuccess exc hload] at hno
      cases hno
  | limited response text hint hreply h429 hreadable hhint hreceived =>
    rw [hnew, List.nil_append] at hreceived
    have hnot : ¬ response.IsSuccess := fun hsuccess => hsuccess.ne_429 h429
    simp only [Except.mapError, PyExc.afterPost, Classified, hreceived, hreply, Except.ok.injEq,
      forall_eq', AdapterResponse.HintReadable, AdapterResponse.DetailReadable, hreadable, hnot]
    simp only [not_false_eq_true, implies_true, false_implies, and_self, iff_true]
    exact ⟨⟨[], response, rfl, by simp, h429⟩, hhint⟩
  | unreadable response text hreply h429 hdigits hreceived =>
    simp [Except.mapError, PyExc.afterPost, Classified, hreply, AdapterResponse.HintReadable, h429,
      hdigits]
  | refused response text hreply hstatus hfailure hreceived =>
    rw [hnew, List.nil_append] at hreceived
    simp [Except.mapError, PyExc.afterPost, Classified, hreceived, hreply, hstatus, hfailure,
      AdapterResponse.HintReadable, AdapterResponse.DetailReadable]

/-- The condition on a call with a single post: once its URL is configured, the timeout is a
numeral and the response can be read. -/
def Digestible (host : HttpHost) (url : Option String) (seconds : Except PyExc Float64) : Prop :=
  url.filter (· ≠ "") ≠ none → (∃ timeout, seconds = .ok timeout) ∧
    ∀ response, host.replies 0 = .ok response → response.HintReadable ∧ response.DetailReadable

omit [JsonCodec] [JsonText] in
theorem HttpHost.seconds_error {host : HttpHost} {configured : Option Float64}
    {name default : String} {exc : PyExc} (h : host.seconds configured name default = .error exc) :
    exc.isAdapterError = false := by
  unfold seconds at h
  split at h
  · cases h
  · unfold floatOfString at h
    split at h
    · cases h
    · cases h
      rfl

theorem single_classified_iff {host : HttpHost} {url : Option String}
    {configured : Option Float64} {name default text : String} {x : Http String}
    {post : String → Float64 → Http AdapterResponse} {context description fallback : String}
    (hx : x.exec host =
      match url.filter (· ≠ "") with
      | none => (.error (.adapterError text), host)
      | some url =>
        match host.seconds configured name default with
        | .error exc => (.error exc, host)
        | .ok timeout => (singlePost (post url timeout) context description fallback).exec host)
    (hpost : ∀ url timeout, (post url timeout).exec host = (host.replies 0, host.receive))
    (hnew : host.received = [])
    (herror : ∀ n exc, host.replies n = .error exc → ∃ text, exc = .httpError text)
    (hjson : ∀ s exc, JsonCodec.loads s = .error exc → exc.isAdapterError = false) :
    Classified (x.exec host).1 (x.exec host).2.received ↔
      Digestible host url (host.seconds configured name default) := by
  rw [hx, Digestible]
  cases url.filter (· ≠ "") with
  | none => simp [Classified, hnew]
  | some url =>
    cases hseconds : host.seconds configured name default with
    | error exc => simp [not_classified (HttpHost.seconds_error hseconds)]
    | ok timeout =>
      simp only [singlePost_classified_iff context description fallback (hpost url timeout) hnew
        herror hjson]
      simp

end Single

section Jobs
variable [JsonCodec] [JsonText]

/-- The classes that the `except` clause of the UiPath adapter names. -/
def PyExc.isSubmissionError : PyExc → Bool
  | httpError _ | keyError _ => true
  | exc => exc.isValueError

/-- A token whose body raises one of these classes, or decodes to an object. -/
def AdapterResponse.TokenReadable (response : AdapterResponse) : Prop :=
  response.IsSuccess →
    (∀ exc, JsonCodec.loads response.body = .error exc → exc.isSubmissionError = true) ∧
      ∀ body, JsonCodec.loads response.body = .ok body → ∃ entries, body = .obj entries

/-- A body that is an object with an access token. -/
def AdapterResponse.CarriesToken (response : AdapterResponse) : Prop :=
  ∃ entries token, JsonCodec.loads response.body = .ok (.obj entries) ∧
    entries.lookup ("access_token" : PyStr) = some token

omit [JsonCodec] [JsonText] in
theorem afterSubmission_of_caught {exc : PyExc} (h : exc.isSubmissionError = true) :
    ∃ text, exc.afterSubmission = .adapterError text := by
  cases exc <;> first | exact ⟨_, rfl⟩ | cases h

omit [JsonCodec] [JsonText] in
theorem afterSubmission_of_not_caught {exc : PyExc} (h : exc.isSubmissionError = false) :
    exc.afterSubmission = exc := by
  cases exc <;> first | rfl | cases h

/-- A token, an exception that is caught, or one that is not: then the body is at fault. -/
theorem accessToken_cases (response : AdapterResponse) :
    (∃ token, accessToken response = .ok token) ∧ response.CarriesToken ∧
      response.TokenReadable ∨
    (∃ exc, accessToken response = .error exc ∧ exc.isSubmissionError = true) ∧
      ¬ response.CarriesToken ∧ response.TokenReadable ∨
    ∃ exc, accessToken response = .error exc ∧ exc.isSubmissionError = false ∧
      ((∃ s, JsonCodec.loads s = .error exc) ∨ ∃ text, exc = .typeError text) ∧
        (response.IsSuccess → ¬ response.TokenReadable) := by
  unfold accessToken AdapterResponse.TokenReadable AdapterResponse.CarriesToken
  cases hload : JsonCodec.loads response.body with
  | error exc =>
    cases hcaught : exc.isSubmissionError with
    | true => exact .inr (.inl ⟨⟨exc, rfl, hcaught⟩, by simp, by simp [hcaught]⟩)
    | false => exact .inr (.inr ⟨exc, rfl, hcaught, .inl ⟨_, hload⟩, by simp [hcaught]⟩)
  | ok body =>
    cases body with
    | obj entries =>
      cases hlookup : entries.lookup ("access_token" : PyStr) with
      | none =>
        refine .inr (.inl ⟨⟨.keyError "'access_token'", ?_, rfl⟩, ?_, by simp⟩)
        · simp only [bind, Except.bind, Json.getItem, hlookup]
          rfl
        · intro ⟨entries', token, hentries, htoken⟩
          cases hentries
          rw [hlookup] at htoken
          cases htoken
      | some token =>
        refine .inl ⟨⟨JsonText.str token, ?_⟩, ⟨entries, token, rfl, hlookup⟩, by simp⟩
        simp only [bind, Except.bind, Json.getItem, hlookup]
        rfl
    | _ => exact .inr (.inr ⟨_, rfl, rfl, .inr ⟨_, rfl⟩, by simp⟩)

/-- The condition on the replies that a submission to UiPath waits for. -/
def JobDigestible (host : HttpHost) : Prop :=
  ∀ tokenResponse, host.replies 0 = .ok tokenResponse →
    tokenResponse.HintReadable ∧ tokenResponse.TokenReadable ∧
      (tokenResponse.IsSuccess → tokenResponse.CarriesToken →
        ∀ response, host.replies 1 = .ok response → response.HintReadable)

omit [JsonCodec] [JsonText] in
/-- What follows a failed post, where every response before it was a success. -/
theorem Posted.classified_iff {host host' : HttpHost} {exc : PyExc}
    (h : Posted host (.error exc, host'))
    (hearlier : ∀ response ∈ host.received, response.IsSuccess) :
    (Classified (.error exc.afterSubmission : Except PyExc Unit) host'.received ↔
        ∀ response, host.replies 0 = .ok response → response.HintReadable) ∧
      ∀ response, host.replies 0 = .ok response → ¬ response.IsSuccess := by
  cases h with
  | unanswered text hreply hreceived =>
    refine ⟨iff_of_true ?_ (by simp [hreply]), by simp [hreply]⟩
    intro response hmem
    rw [hreceived] at hmem
    exact (hearlier response hmem).ne_429
  | limited response text hint hreply h429 hreadable hhint hreceived =>
    refine ⟨iff_of_true ⟨⟨_, response, hreceived, hearlier, h429⟩, hhint⟩ ?_, ?_⟩
    · intro other hother
      rw [hreply] at hother
      cases hother
      exact fun _ => hreadable
    · intro other hother hsuccess
      rw [hreply] at hother
      cases hother
      exact hsuccess.ne_429 h429
  | unreadable response text hreply h429 hdigits hreceived =>
    refine ⟨iff_of_false ?_ ?_, ?_⟩
    · intro hclassified
      exact hclassified response (by simp [hreceived]) h429
    · intro hreadable
      exact hreadable response hreply h429 hdigits
    · intro other hother hsuccess
      rw [hreply] at hother
      cases hother
      exact hsuccess.ne_429 h429
  | refused response text hreply hstatus hfailure hreceived =>
    refine ⟨iff_of_true ?_ ?_, ?_⟩
    · intro other hmem
      rw [hreceived] at hmem
      rcases List.mem_append.mp hmem with hmem | hmem
      · exact (hearlier other hmem).ne_429
      · rw [List.mem_singleton.mp hmem]
        exact hstatus
    · intro other hother h429
      rw [hreply] at hother
      cases hother
      exact absurd h429 hstatus
    · intro other hother
      rw [hreply] at hother
      cases hother
      exact hfailure

omit [JsonCodec] [JsonText] in
theorem Posted.classified_last_iff {host host' : HttpHost} {r : Except PyExc AdapterResponse}
    (h : Posted host (r, host')) (hearlier : ∀ response ∈ host.received, response.IsSuccess) :
    Classified ((r.map fun _ => ()).mapError PyExc.afterSubmission) host'.received ↔
      ∀ response, host.replies 0 = .ok response → response.HintReadable := by
  cases r with
  | error exc => exact (h.classified_iff hearlier).1
  | ok response =>
    cases h with
    | success _ hreply hsuccess =>
      refine iff_of_true ?_ ?_
      · intro other hmem
        rw [HttpHost.receive_received hreply] at hmem
        rcases List.mem_append.mp hmem with hmem | hmem
        · exact hearlier other hmem
        · rwa [List.mem_singleton.mp hmem]
      · intro other hother h429
        rw [hreply] at hother
        cases hother
        exact absurd h429 hsuccess.ne_429

theorem startJob_classified_iff {host : HttpHost} (hnew : host.received = [])
    (herror : ∀ n exc, host.replies n = .error exc → ∃ text, exc = .httpError text)
    (hjson : ∀ s exc, JsonCodec.loads s = .error exc → exc.isAdapterError = false)
    (tokenUrl orchestratorUrl clientId clientSecret releaseKey : String) (folderId : Option String)
    (timeout : Float64) (request : AutomationRequest) {r : Except PyExc Unit} {host' : HttpHost}
    (hexec : ((startJob tokenUrl orchestratorUrl clientId clientSecret releaseKey folderId timeout
      request).catching PyExc.afterSubmission).exec host = (r, host')) :
    Classified r host'.received ↔ JobDigestible host := by
  unfold JobDigestible
  have htoken : Posted host _ := posted "UiPath token endpoint"
    (Http.exec_postForm tokenUrl (tokenForm clientId clientSecret) timeout host) (herror 0)
  rw [Http.exec_catching, startJob, Http.exec_bind (_ >>= _)] at hexec
  rcases hfirst : (Http.postForm tokenUrl (tokenForm clientId clientSecret) timeout >>=
    fun response => accepted response "UiPath token endpoint").exec host with ⟨r₁, host₁⟩
  rw [hfirst] at htoken hexec
  cases r₁ with
  | error exc =>
    cases hexec
    obtain ⟨hiff, hfailure⟩ := htoken.classified_iff (by simp [hnew])
    apply hiff.trans
    constructor
    · intro hreadable response hreply
      exact ⟨hreadable response hreply, fun h => absurd h (hfailure response hreply),
        fun h => absurd h (hfailure response hreply)⟩
    · intro hall response hreply
      exact (hall response hreply).1
  | ok tokenResponse =>
    cases htoken with
    | success _ hreply hsuccess =>
      have hreceived := HttpHost.receive_received hreply
      rw [hnew, List.nil_append] at hreceived
      have hhint : tokenResponse.HintReadable := fun h429 => absurd h429 hsuccess.ne_429
      simp only [hreply, Except.ok.injEq, forall_eq', hhint, hsuccess, true_and, true_implies]
      simp only [Http.exec_bind (Http.ofExcept _), Http.exec_ofExcept] at hexec
      rcases accessToken_cases tokenResponse with ⟨⟨token, htok⟩, hcarries, hread⟩ |
        ⟨⟨exc, herr, hcaught⟩, hcarries, hread⟩ | ⟨exc, herr, hcaught, hfault, hread⟩
      · simp only [hcarries, hread, true_and, true_implies]
        rw [htok] at hexec
        simp only [Http.exec_bind (_ >>= _)] at hexec
        have hjob : Posted host.receive _ := posted "UiPath job submission"
          (Http.exec_post (startJobsUrl orchestratorUrl) (startInfo releaseKey request)
            (("Authorization", s!"Bearer {token}") :: folderHeader folderId) timeout host.receive)
          (herror 1)
        rcases hsecond : (Http.post (startJobsUrl orchestratorUrl) (startInfo releaseKey request)
          (("Authorization", s!"Bearer {token}") :: folderHeader folderId) timeout >>=
          fun response => accepted response "UiPath job submission").exec host.receive
          with ⟨r₂, host₂⟩
        rw [hsecond] at hjob hexec
        have hlast := hjob.classified_last_iff (by simpa [hreceived] using hsuccess)
        cases r₂ <;> cases hexec <;> exact hlast
      · rw [herr] at hexec
        cases hexec
        obtain ⟨text, htext⟩ := afterSubmission_of_caught hcaught
        simp [Except.mapError, htext, Classified, hreceived, hsuccess.ne_429, hread, hcarries]
      · rw [herr] at hexec
        cases hexec
        have hclass : exc.isAdapterError = false := by
          rcases hfault with ⟨s, hload⟩ | ⟨text, rfl⟩
          · exact hjson s exc hload
          · rfl
        rw [Except.mapError, afterSubmission_of_not_caught hcaught]
        exact iff_of_false (not_classified hclass _) fun hboth => hread hsuccess hboth.1

end Jobs

section Classes
variable [JsonCodec] [JsonText]

def ApiAdapter.Digestible (self : ApiAdapter) (host : HttpHost) : Prop :=
  Orchestrator.Digestible host (host.setting self.baseUrl "TARGET_API_BASE_URL")
    (host.seconds self.timeoutSeconds "TARGET_API_TIMEOUT_SECONDS" "10")

/-- The condition on the gateway branch. -/
def RpaAdapter.Digestible (self : RpaAdapter) (host : HttpHost) : Prop :=
  Orchestrator.Digestible host (host.setting self.submitUrl "RPA_SUBMIT_URL")
    (host.seconds self.timeoutSeconds "RPA_SUBMIT_TIMEOUT_SECONDS" "10")

/-- The settings that UiPath requires. -/
def UiPathOrchestratorAdapter.settings (host : HttpHost) : List (String × Option String) :=
  [("UIPATH_TOKEN_URL", host.env "UIPATH_TOKEN_URL"),
    ("UIPATH_ORCHESTRATOR_URL", host.env "UIPATH_ORCHESTRATOR_URL"),
    ("UIPATH_CLIENT_ID", host.env "UIPATH_CLIENT_ID"),
    ("UIPATH_CLIENT_SECRET", host.env "UIPATH_CLIENT_SECRET"),
    ("UIPATH_RELEASE_KEY", host.env "UIPATH_RELEASE_KEY")]

def UiPathOrchestratorAdapter.Digestible (host : HttpHost) : Prop :=
  (∃ timeout, host.seconds none "UIPATH_TIMEOUT_SECONDS" "15" = .ok timeout) ∧
    (missingSettings (settings host) = [] → JobDigestible host)

variable {host : HttpHost} (hnew : host.received = [])
variable (herror : ∀ n exc, host.replies n = .error exc → ∃ text, exc = .httpError text)
variable (hjson : ∀ s exc, JsonCodec.loads s = .error exc → exc.isAdapterError = false)
include hnew herror hjson

theorem api_classified_iff (self : ApiAdapter) (request : AutomationRequest) :
    Classified ((self.execute request).exec host).1 ((self.execute request).exec host).2.received ↔
      self.Digestible host := by
  have hexec : (self.execute request).exec host =
      match (host.setting self.baseUrl "TARGET_API_BASE_URL").filter (· ≠ "") with
      | none =>
        (.error (.adapterError "TARGET_API_BASE_URL is required for API execution"), host)
      | some baseUrl =>
        match host.seconds self.timeoutSeconds "TARGET_API_TIMEOUT_SECONDS" "10" with
        | .error exc => (.error exc, host)
        | .ok timeout =>
          (singlePost (Http.post s!"{stripSlashes baseUrl}/{dropSlashes request.target}"
            (.obj request.payload) (bearer (host.setting self.token "TARGET_API_TOKEN")) timeout)
            s!"API target '{request.target}'" s!"API request failed for target '{request.target}'"
            s!"API request completed for '{request.target}'").exec host := by
    simp only [ApiAdapter.execute, Http.exec_bind, Http.exec_orGetenv]
    cases (host.setting self.baseUrl "TARGET_API_BASE_URL").filter (· ≠ "") with
    | none => rfl
    | some baseUrl =>
      simp only [Http.exec_bind, Http.exec_orGetenv, Http.exec_timeout]
      cases host.seconds self.timeoutSeconds "TARGET_API_TIMEOUT_SECONDS" "10" with
      | error exc => rfl
      | ok timeout => exact (Http.exec_bind _ _ host).symm
  exact single_classified_iff hexec (fun _ _ => rfl) hnew herror hjson

theorem gateway_classified_iff (self : RpaAdapter) (request : AutomationRequest) :
    Classified ((self.submit request).exec host).1 ((self.submit request).exec host).2.received ↔
      self.Digestible host := by
  have hexec : (self.submit request).exec host =
      match (host.setting self.submitUrl "RPA_SUBMIT_URL").filter (· ≠ "") with
      | none => (.error (.adapterError "RPA_SUBMIT_URL is required for RPA execution"), host)
      | some submitUrl =>
        match host.seconds self.timeoutSeconds "RPA_SUBMIT_TIMEOUT_SECONDS" "10" with
        | .error exc => (.error exc, host)
        | .ok timeout =>
          (singlePost (Http.post submitUrl (gatewayBody request)
            (bearer (host.setting self.token "RPA_SUBMIT_TOKEN")) timeout)
            s!"RPA process '{request.process}'"
            s!"RPA submission failed for process '{request.process}'"
            s!"RPA request submitted for process '{request.process}'").exec host := by
    simp only [RpaAdapter.submit, Http.exec_bind, Http.exec_orGetenv]
    cases (host.setting self.submitUrl "RPA_SUBMIT_URL").filter (· ≠ "") with
    | none => rfl
    | some submitUrl =>
      simp only [Http.exec_bind, Http.exec_orGetenv, Http.exec_timeout]
      cases host.seconds self.timeoutSeconds "RPA_SUBMIT_TIMEOUT_SECONDS" "10" with
      | error exc => rfl
      | ok timeout => exact (Http.exec_bind _ _ host).symm
  exact single_classified_iff hexec (fun _ _ => rfl) hnew herror hjson

theorem uiPath_classified_iff (request : AutomationRequest) :
    Classified ((UiPathOrchestratorAdapter.execute request).exec host).1
        ((UiPathOrchestratorAdapter.execute request).exec host).2.received ↔
      UiPathOrchestratorAdapter.Digestible host := by
  unfold UiPathOrchestratorAdapter.execute UiPathOrchestratorAdapter.Digestible
  simp only [Http.exec_bind, Http.exec_getenv, Http.exec_timeout]
  cases hseconds : host.seconds none "UIPATH_TIMEOUT_SECONDS" "15" with
  | error exc => simp [not_classified (HttpHost.seconds_error hseconds)]
  | ok timeout =>
    simp only [Except.ok.injEq, exists_eq', true_and]
    by_cases hmissing : missingSettings (UiPathOrchestratorAdapter.settings host) = []
    · have hnames := not_not_intro hmissing
      unfold UiPathOrchestratorAdapter.settings at hnames
      rw [if_neg hnames, Http.exec_bind]
      simp only [hmissing, true_implies]
      rcases hjob : ((startJob ((host.env "UIPATH_TOKEN_URL").getD "")
        ((host.env "UIPATH_ORCHESTRATOR_URL").getD "") ((host.env "UIPATH_CLIENT_ID").getD "")
        ((host.env "UIPATH_CLIENT_SECRET").getD "") ((host.env "UIPATH_RELEASE_KEY").getD "")
        (host.env "UIPATH_FOLDER_ID") timeout request).catching PyExc.afterSubmission).exec host
        with ⟨r, host'⟩
      rw [← startJob_classified_iff hnew herror hjson _ _ _ _ _ _ _ _ hjob]
      cases r with
      | error exc => exact classified_error_iff exc _
      | ok _ => rfl
    · simp only [hmissing, false_implies, iff_true]
      unfold UiPathOrchestratorAdapter.settings at hmissing
      rw [if_pos hmissing]
      simp [Classified, hnew]

def HttpHost.uiPathIsProvider (host : HttpHost) : Bool :=
  lower ((host.env "RPA_PROVIDER").getD "gateway") = "uipath"

theorem adapters_classified_iff (request : AutomationRequest) :
    (∀ self : ApiAdapter, Classified ((self.execute request).exec host).1
      ((self.execute request).exec host).2.received ↔ self.Digestible host) ∧
    (∀ self : RpaAdapter, Classified ((self.execute request).exec host).1
      ((self.execute request).exec host).2.received ↔
        if host.uiPathIsProvider then UiPathOrchestratorAdapter.Digestible host
        else self.Digestible host) ∧
    (Classified ((UiPathOrchestratorAdapter.execute request).exec host).1
      ((UiPathOrchestratorAdapter.execute request).exec host).2.received ↔
        UiPathOrchestratorAdapter.Digestible host) := by
  have huiPath := uiPath_classified_iff hnew herror hjson request
  refine ⟨fun self => api_classified_iff hnew herror hjson self request, ?_, huiPath⟩
  intro self
  simp only [RpaAdapter.execute, Http.exec_bind, Http.exec_getenv]
  by_cases hprovider : lower ((host.env "RPA_PROVIDER").getD "gateway") = "uipath"
  · rw [if_pos hprovider, if_pos (by simpa [HttpHost.uiPathIsProvider] using hprovider)]
    exact huiPath
  · rw [if_neg hprovider, if_neg (by simpa [HttpHost.uiPathIsProvider] using hprovider)]
    exact gateway_classified_iff hnew herror hjson self request

end Classes

section Sample

/-- The `json` module on the empty list and on texts that it rejects. -/
@[reducible] def listCodec : JsonCodec :=
  readingCodec fun s =>
    if s = "[]" then .ok (.arr [])
    else .error (.jsonDecodeError "Expecting value: line 1 column 1 (char 0)")

@[reducible] def noText : JsonText := ⟨fun _ => ""⟩

def sampleApi : ApiAdapter := ⟨some "https://erp.example", none, some (.fin 10)⟩

/-- Every setting of UiPath is there; each post gets the same answer. -/
def answering (response : AdapterResponse) : HttpHost where
  env name := ([("UIPATH_TOKEN_URL", "https://id.example"),
    ("UIPATH_ORCHESTRATOR_URL", "https://robots.example"), ("UIPATH_CLIENT_ID", "bot"),
    ("UIPATH_CLIENT_SECRET", "secret"), ("UIPATH_RELEASE_KEY", "release")].lookup name)
  clock _ := .earliest
  replies _ := .ok response
  received := []

/-- A rate limit whose header is one digit, which `int` does not read. -/
def squaredHeader : AdapterResponse := ⟨⟨429, "429 Too Many Requests", ""⟩, some "²"⟩

def emptyList : AdapterResponse := ⟨⟨200, "200 OK", "[]"⟩, none⟩

def apiRun (response : AdapterResponse) : Except PyExc String × HttpHost :=
  letI := listCodec
  letI := noText
  (sampleApi.execute sampleRequest).exec (answering response)

def uiPathRun (response : AdapterResponse) : Except PyExc String × HttpHost :=
  letI := listCodec
  letI := noText
  (UiPathOrchestratorAdapter.execute sampleRequest).exec (answering response)

theorem listCodec_raises (s : PyStr) (exc : PyExc)
    (h : @JsonCodec.loads listCodec s = .error exc) : exc.isAdapterError = false := by
  change (if s = "[]" then _ else _) = _ at h
  split at h
  · cases h
  · cases h
    rfl

theorem answering_raises (response : AdapterResponse) (n : ℕ) (exc : PyExc)
    (h : (answering response).replies n = .error exc) : ∃ text, exc = .httpError text := by
  cases h

theorem raises_of_decided {r : Except PyExc String} {exc : PyExc}
    (h : (match r with
      | .ok _ => none
      | .error exc => some exc) = some exc) : r = .error exc := by
  split at h
  · cases h
  · cases h
    rfl

theorem adapters_classified_iff_sample : letI := listCodec
    Classified (apiRun emptyList).1 (apiRun emptyList).2.received ∧
      sampleApi.Digestible (answering emptyList) := by
  let _ := listCodec
  let _ := noText
  have hiff := (@adapters_classified_iff listCodec noText (answering emptyList) rfl
    (answering_raises emptyList) listCodec_raises sampleRequest).1 sampleApi
  have hdigestible : sampleApi.Digestible (answering emptyList) := by
    intro _
    refine ⟨⟨.fin 10, by decide +kernel⟩, ?_⟩
    intro response hreply
    cases hreply
    refine ⟨fun h429 => absurd h429 (by decide), fun _ exc h => ?_⟩
    cases h
  exact ⟨hiff.mpr hdigestible, hdigestible⟩

/-- A digit that `int` rejects lets `ValueError` through or hides a 429, and a token body that
is no object lets `TypeError` through. -/
theorem adapters_misclassify :
    ¬ Classified (apiRun squaredHeader).1 (apiRun squaredHeader).2.received ∧
    ¬ Classified (uiPathRun squaredHeader).1 (uiPathRun squaredHeader).2.received ∧
    ¬ Classified (uiPathRun emptyList).1 (uiPathRun emptyList).2.received := by
  have hapi : (apiRun squaredHeader).1 =
      .error (.valueError "invalid literal for int() with base 10: '²'") :=
    raises_of_decided (by decide +kernel)
  have huiPath : (uiPathRun squaredHeader).1 = .error (.adapterError
      "UiPath Orchestrator submission failed: invalid literal for int() with base 10: '²'") :=
    raises_of_decided (by decide +kernel)
  have hstatus : (uiPathRun squaredHeader).2.received.map (fun response => response.statusCode) =
      [429] := by decide +kernel
  have hlist : (uiPathRun emptyList).1 =
      .error (.typeError "list indices must be integers or slices, not str") :=
    raises_of_decided (by decide +kernel)
  rw [hapi, huiPath, hlist]
  refine ⟨not_classified rfl _, ?_, not_classified rfl _⟩
  intro hclassified
  obtain ⟨response, hmem, h429⟩ := List.mem_map.mp (hstatus ▸ List.mem_singleton_self 429)
  exact hclassified response hmem h429

end Sample

end Orchestrator
