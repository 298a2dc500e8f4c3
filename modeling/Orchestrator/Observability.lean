import Mathlib.Algebra.Order.BigOperators.Group.List
import Mathlib.Data.List.Induction
import Mathlib.Data.List.Sort
import Orchestrator.Library.Dict
import Orchestrator.Library.Float
import Orchestrator.Library.TextOrder

/-!
# HTTP metrics

Requests are counted by method, route group and status; their durations are kept by method
and route group, the latest thousand of each. A rendering exports the number and the sum of
the samples as a summary, so it agrees with the counters while no sample has been discarded.
-/

namespace Orchestrator

open Library TextOrder
set_option autoImplicit false

/-- A call of `observe_request`. -/
structure Observation where
  method : String
  path : String
  statusCode : Int
  durationSeconds : ℚ
deriving DecidableEq

def routeOf (path : String) : String :=
  if path ∈ ["/health", "/ready", "/metrics", "/metrics/prometheus"] then path else "application"

/-- `_request_counts` and `_request_duration_seconds`. -/
structure HttpMetrics where
  requestCounts : Dict (String × String × Int) ℕ
  requestDurationSeconds : Dict (String × String) (List ℚ)

namespace HttpMetrics

def empty : HttpMetrics := ⟨.empty, .empty⟩

def observeRequest (self : HttpMetrics) (o : Observation) : HttpMetrics where
  requestCounts :=
    self.requestCounts.modify (o.method, routeOf o.path, o.statusCode) 0 (· + 1)
  requestDurationSeconds :=
    self.requestDurationSeconds.modify (o.method, routeOf o.path) [] fun samples =>
      push 1000 samples o.durationSeconds

end HttpMetrics

/-- A line of the rendering; the sum is shown with six decimals. -/
inductive MetricLine where
  | comment (text : String)
  | requests (method route : String) (statusCode : Int) (count : ℕ)
  | durationCount (method route : String) (count : ℕ)
  | durationSum (method route : String) (sum : ℚ)
deriving DecidableEq

/-- What `.6f` shows of a number, in millionths. -/
def micros (q : ℚ) : ℤ := roundHalfEven (q * 1000000)

def fixed6 (q : ℚ) : String :=
  let shown := (micros q).natAbs
  (if q < 0 then "-" else "") ++ toString (shown / 1000000) ++ "." ++
    String.ofList (digits 6 (shown % 1000000))

def MetricLine.text : MetricLine → String
  | comment text => text
  | requests method route statusCode count =>
    "http_requests_total\x7bmethod=\"" ++ method ++ "\",route=\"" ++ route ++ "\",status=\"" ++
      toString statusCode ++ "\"\x7d " ++ toString count
  | durationCount method route count =>
    "http_request_duration_seconds_count\x7bmethod=\"" ++ method ++ "\",route=\"" ++ route ++
      "\"\x7d " ++ toString count
  | durationSum method route sum =>
    "http_request_duration_seconds_sum\x7bmethod=\"" ++ method ++ "\",route=\"" ++ route ++
      "\"\x7d " ++ fixed6 sum

def routeLe (a b : String × String) : Bool := a.1 < b.1 || a.1 = b.1 && a.2 ≤ b.2

def countLe (a b : String × String × Int) : Bool :=
  a.1 < b.1 || a.1 = b.1 && (a.2.1 < b.2.1 || a.2.1 = b.2.1 && a.2.2 ≤ b.2.2)

namespace HttpMetrics

def countLine : (String × String × Int) × ℕ → MetricLine
  | ((method, route, statusCode), count) => .requests method route statusCode count

def durationLines : (String × String) × List ℚ → List MetricLine
  | ((method, route), samples) =>
    if samples = [] then []
    else [.durationCount method route samples.length, .durationSum method route samples.sum]

def lines (self : HttpMetrics) : List MetricLine :=
  [.comment "# HELP http_requests_total HTTP requests handled by method, route group and status.",
    .comment "# TYPE http_requests_total counter"] ++
  (self.requestCounts.items.insertionSort fun a b => countLe a.1 b.1).map countLine ++
  [.comment "# HELP http_request_duration_seconds Recent HTTP request latency samples.",
    .comment "# TYPE http_request_duration_seconds summary"] ++
  (self.requestDurationSeconds.items.insertionSort fun a b => routeLe a.1 b.1).flatMap durationLines

/-- `render_http_metrics`. -/
def render (self : HttpMetrics) : String :=
  String.intercalate "\n" (self.lines.map MetricLine.text) ++ "\n"

end HttpMetrics

def observed (obs : List Observation) : HttpMetrics :=
  obs.foldl HttpMetrics.observeRequest .empty

/-- The durations of a method and route group, in the order of the calls. -/
def durationsOf (key : String × String) (obs : List Observation) : List ℚ :=
  (obs.filter fun o => (o.method, routeOf o.path) = key).map Observation.durationSeconds

section Calls
variable {key : String × String} {obs earlier : List Observation}

theorem durationsOf_append (later : List Observation) :
    durationsOf key (obs ++ later) = durationsOf key obs ++ durationsOf key later := by
  rw [durationsOf, List.filter_append, List.map_append]
  rfl

theorem durationsOf_singleton (o : Observation) : durationsOf key [o] =
    if (o.method, routeOf o.path) = key then [o.durationSeconds] else [] := by
  rw [durationsOf, List.filter_singleton]
  split <;> simp_all

theorem durationsOf_nonneg (hd : ∀ o ∈ obs, 0 ≤ o.durationSeconds) :
    ∀ d ∈ durationsOf key obs, 0 ≤ d := by
  intro d hmem
  obtain ⟨o, ho, rfl⟩ := List.mem_map.mp hmem
  exact hd o (List.mem_of_mem_filter ho)

theorem length_durationsOf_le (key : String × String) (h : earlier <+: obs) :
    (durationsOf key earlier).length ≤ (durationsOf key obs).length := by
  obtain ⟨later, rfl⟩ := h
  rw [durationsOf_append, List.length_append]
  exact Nat.le_add_right _ _

theorem sum_durationsOf_le (h : earlier <+: obs) (hd : ∀ o ∈ obs, 0 ≤ o.durationSeconds) :
    (durationsOf key earlier).sum ≤ (durationsOf key obs).sum := by
  obtain ⟨later, rfl⟩ := h
  rw [durationsOf_append, List.sum_append]
  have hlater : 0 ≤ (durationsOf key later).sum :=
    List.sum_nonneg (durationsOf_nonneg fun o ho => hd o (List.mem_append_right _ ho))
  exact le_add_of_nonneg_right hlater

end Calls

/-- Both dictionaries after some calls: every call is counted, and its duration is among the
samples until a thousand others have followed it. -/
structure Records (metrics : HttpMetrics) (obs : List Observation) : Prop where
  samples : ∀ key, metrics.requestDurationSeconds.get? key =
    if durationsOf key obs = [] then none else some (window 1000 (durationsOf key obs))
  counts : ∀ key, Dict.total (fun k => (k.1, k.2.1) = key) metrics.requestCounts.items =
    (durationsOf key obs).length

theorem Records.empty : Records .empty [] := ⟨fun _ => rfl, fun _ => rfl⟩

theorem Records.observeRequest {self : HttpMetrics} {obs : List Observation}
    (h : Records self obs) (o : Observation) : Records (self.observeRequest o) (obs ++ [o]) where
  samples := by
    intro key
    rw [HttpMetrics.observeRequest, Dict.get?_modify, h.samples, h.samples, durationsOf_append,
      durationsOf_singleton]
    by_cases hkey : (o.method, routeOf o.path) = key
    · subst hkey
      have hstored : (if durationsOf (o.method, routeOf o.path) obs = [] then none
          else some (window 1000 (durationsOf (o.method, routeOf o.path) obs))).getD [] =
          window 1000 (durationsOf (o.method, routeOf o.path) obs) := by
        by_cases hnil : durationsOf (o.method, routeOf o.path) obs = []
        · rw [if_pos hnil, hnil, window_nil, Option.getD_none]
        · rw [if_neg hnil, Option.getD_some]
      have hsame := Eq.refl (o.method, routeOf o.path)
      rw [hstored, push_window, if_pos hsame, if_pos hsame]
      exact (if_neg (List.append_ne_nil_of_right_ne_nil _ (List.cons_ne_nil _ _))).symm
    · rw [if_neg (Ne.symm hkey), if_neg hkey, List.append_nil]
  counts := by
    intro key
    rw [HttpMetrics.observeRequest, Dict.total_modify, h.counts, durationsOf_append,
      durationsOf_singleton, List.length_append]
    by_cases hkey : (o.method, routeOf o.path) = key <;> simp [hkey]

theorem records_observed (obs : List Observation) : Records (observed obs) obs := by
  induction obs using List.reverseRecOn with
  | nil => exact .empty
  | append_singleton obs o ih =>
    have hstep : observed (obs ++ [o]) = (observed obs).observeRequest o := by
      rw [observed, List.foldl_append]
      rfl
    rw [hstep]
    exact ih.observeRequest o

/-- The count in a request counter of a method and route group. -/
def requestsOf (method route : String) : MetricLine → Option ℕ
  | .requests m r _ count => if (m, r) = (method, route) then some count else none
  | _ => none

/-- What the request counters of a method and route group add up to. -/
def requestsTotal (method route : String) (lines : List MetricLine) : ℕ :=
  (lines.filterMap (requestsOf method route)).sum

section Totals
variable (method route : String)

theorem requestsTotal_append (lines lines' : List MetricLine) :
    requestsTotal method route (lines ++ lines') =
      requestsTotal method route lines + requestsTotal method route lines' := by
  rw [requestsTotal, List.filterMap_append, List.sum_append]
  rfl

theorem requestsTotal_countLines (items : List ((String × String × Int) × ℕ)) :
    requestsTotal method route (items.map HttpMetrics.countLine) =
      Dict.total (fun k => (k.1, k.2.1) = (method, route)) items := by
  induction items with
  | nil => rfl
  | cons item items ih =>
    obtain ⟨⟨m, r, statusCode⟩, count⟩ := item
    have hline : requestsTotal method route [.requests m r statusCode count] =
        if (m, r) = (method, route) then count else 0 := by
      rw [requestsTotal, List.filterMap_cons, List.filterMap_nil, requestsOf]
      by_cases hkey : (m, r) = (method, route)
      · rw [if_pos hkey, if_pos hkey]
        rfl
      · rw [if_neg hkey, if_neg hkey]
        rfl
    rw [List.map_cons, ← List.singleton_append, requestsTotal_append, ih, Dict.total_cons,
      HttpMetrics.countLine, hline]
    simp only [decide_eq_true_eq]

theorem requestsTotal_durationLines (items : List ((String × String) × List ℚ)) :
    requestsTotal method route (items.flatMap HttpMetrics.durationLines) = 0 := by
  rw [requestsTotal, List.filterMap_eq_nil_iff.mpr, List.sum_nil]
  intro line hline
  obtain ⟨⟨⟨m, r⟩, samples⟩, -, hmem⟩ := List.mem_flatMap.mp hline
  rw [HttpMetrics.durationLines] at hmem
  split at hmem
  · exact absurd hmem List.not_mem_nil
  · rcases List.mem_pair.mp hmem with rfl | rfl <;> rfl

end Totals

namespace HttpMetrics

section Rendering
variable (self : HttpMetrics)

theorem requestsTotal_lines (method route : String) : requestsTotal method route self.lines =
    Dict.total (fun k => (k.1, k.2.1) = (method, route)) self.requestCounts.items := by
  rw [lines, requestsTotal_append, requestsTotal_append, requestsTotal_append,
    requestsTotal_countLines, requestsTotal_durationLines,
    Dict.total_perm (List.perm_insertionSort _ _)]
  exact Nat.zero_add _

omit self in
theorem mem_durationLines {line : MetricLine} {method route : String} {samples : List ℚ} :
    line ∈ durationLines ((method, route), samples) ↔ samples ≠ [] ∧
      (line = .durationCount method route samples.length ∨
        line = .durationSum method route samples.sum) := by
  rw [durationLines]
  split
  · next hnil => exact ⟨fun h => absurd h List.not_mem_nil, fun h => absurd hnil h.1⟩
  · next hne => rw [List.mem_pair, and_iff_right hne]

theorem mem_lines_duration {line : MetricLine} (hcomment : ∀ text, line ≠ .comment text)
    (hrequests : ∀ m r statusCode count, line ≠ .requests m r statusCode count) :
    line ∈ self.lines ↔ ∃ method route samples,
      self.requestDurationSeconds.get? (method, route) = some samples ∧ samples ≠ [] ∧
        (line = .durationCount method route samples.length ∨
          line = .durationSum method route samples.sum) := by
  have hcounts : ∀ items : List ((String × String × Int) × ℕ), line ∉ items.map countLine := by
    intro items hmem
    obtain ⟨⟨⟨m, r, statusCode⟩, count⟩, -, rfl⟩ := List.mem_map.mp hmem
    exact hrequests m r statusCode count rfl
  simp only [lines, List.mem_append, List.mem_pair, hcomment, hcounts, or_false, false_or,
    List.mem_flatMap, List.mem_insertionSort, Prod.exists, Dict.mem_items, mem_durationLines]

end Rendering

end HttpMetrics

section Renderings
variable {obs earlier later : List Observation} {method route : String}

theorem observed_samples {samples : List ℚ} :
    (observed obs).requestDurationSeconds.get? (method, route) = some samples ↔
      durationsOf (method, route) obs ≠ [] ∧
        samples = window 1000 (durationsOf (method, route) obs) := by
  rw [(records_observed obs).samples]
  by_cases hnil : durationsOf (method, route) obs = []
  · rw [if_pos hnil]
    exact ⟨fun h => (by cases h), fun h => absurd hnil h.1⟩
  · rw [if_neg hnil, Option.some.injEq, and_iff_right hnil]
    exact eq_comm

theorem window_ne_nil {durations : List ℚ} (h : durations ≠ []) : window 1000 durations ≠ [] := by
  have hpos := List.length_pos_iff.mpr h
  rw [← List.length_pos_iff, length_window]
  omega

theorem mem_lines_observed {line : MetricLine} (hcomment : ∀ text, line ≠ .comment text)
    (hrequests : ∀ m r statusCode count, line ≠ .requests m r statusCode count) :
    line ∈ (observed obs).lines ↔ ∃ method route, durationsOf (method, route) obs ≠ [] ∧
      (line = .durationCount method route (min 1000 (durationsOf (method, route) obs).length) ∨
        line = .durationSum method route (window 1000 (durationsOf (method, route) obs)).sum) := by
  rw [HttpMetrics.mem_lines_duration _ hcomment hrequests]
  constructor
  · rintro ⟨method, route, samples, hsamples, -, hline⟩
    obtain ⟨hne, rfl⟩ := observed_samples.mp hsamples
    rw [length_window] at hline
    exact ⟨method, route, hne, hline⟩
  · rintro ⟨method, route, hne, hline⟩
    rw [← length_window] at hline
    exact ⟨method, route, _, observed_samples.mpr ⟨hne, rfl⟩, window_ne_nil hne, hline⟩

theorem durationCount_observed {n : ℕ} :
    .durationCount method route n ∈ (observed obs).lines ↔ durationsOf (method, route) obs ≠ [] ∧
      n = min 1000 (durationsOf (method, route) obs).length := by
  rw [mem_lines_observed (by simp) (by simp)]
  constructor
  · rintro ⟨m, r, hne, heq | heq⟩
    · cases heq
      exact ⟨hne, rfl⟩
    · cases heq
  · intro ⟨hne, hn⟩
    exact ⟨method, route, hne, .inl (hn ▸ rfl)⟩

theorem durationSum_observed {q : ℚ} :
    .durationSum method route q ∈ (observed obs).lines ↔ durationsOf (method, route) obs ≠ [] ∧
      q = (window 1000 (durationsOf (method, route) obs)).sum := by
  rw [mem_lines_observed (by simp) (by simp)]
  constructor
  · rintro ⟨m, r, hne, heq | heq⟩
    · cases heq
    · cases heq
      exact ⟨hne, rfl⟩
  · intro ⟨hne, hq⟩
    exact ⟨method, route, hne, .inr (hq ▸ rfl)⟩

theorem requestsTotal_observed (obs : List Observation) (method route : String) :
    requestsTotal method route (observed obs).lines = (durationsOf (method, route) obs).length := by
  rw [HttpMetrics.requestsTotal_lines, (records_observed obs).counts]

theorem durationsOf_ne_nil (h : earlier <+: later)
    (hne : durationsOf (method, route) earlier ≠ []) : durationsOf (method, route) later ≠ [] := by
  have hle := length_durationsOf_le (method, route) h
  have hpos := List.length_pos_iff.mpr hne
  exact List.length_pos_iff.mp (by omega)

end Renderings

/-- What the declared type of the summaries promises of the renderings after some calls: in
each of them a summary counts what the counters count, and none falls from one to a later. -/
structure Cumulative (obs : List Observation) : Prop where
  agrees : ∀ calls, calls <+: obs → ∀ method route n,
    .durationCount method route n ∈ (observed calls).lines →
      n = requestsTotal method route (observed calls).lines
  absent : ∀ calls, calls <+: obs → ∀ method route,
    (∀ n, .durationCount method route n ∉ (observed calls).lines) →
      requestsTotal method route (observed calls).lines = 0
  counts : ∀ earlier later, earlier <+: later → later <+: obs → ∀ method route n,
    .durationCount method route n ∈ (observed earlier).lines →
      ∃ n', n ≤ n' ∧ .durationCount method route n' ∈ (observed later).lines
  sums : ∀ earlier later, earlier <+: later → later <+: obs → ∀ method route q,
    .durationSum method route q ∈ (observed earlier).lines →
      ∃ q', micros q ≤ micros q' ∧ .durationSum method route q' ∈ (observed later).lines

/-- The summaries are cumulative until a method and route group has been observed more than a
thousand times; from then on the samples that are discarded are missing from them. -/
theorem summaries_cumulative_iff (obs : List Observation)
    (hd : ∀ o ∈ obs, 0 ≤ o.durationSeconds) :
    Cumulative obs ↔ ∀ method route, (durationsOf (method, route) obs).length ≤ 1000 := by
  constructor
  · intro h method route
    by_cases hnil : durationsOf (method, route) obs = []
    · rw [hnil]
      exact Nat.zero_le _
    · have hcount := h.agrees obs List.prefix_rfl method route _
        (durationCount_observed.mpr ⟨hnil, rfl⟩)
      rw [requestsTotal_observed] at hcount
      omega
  · intro hle
    have hbound : ∀ calls, calls <+: obs → ∀ method route,
        (durationsOf (method, route) calls).length ≤ 1000 := fun calls hcalls method route =>
      (length_durationsOf_le _ hcalls).trans (hle method route)
    refine ⟨?_, ?_, ?_, ?_⟩
    · intro calls hcalls method route n hn
      obtain ⟨-, rfl⟩ := durationCount_observed.mp hn
      rw [requestsTotal_observed, Nat.min_eq_right (hbound calls hcalls method route)]
    · intro calls hcalls method route hnone
      rw [requestsTotal_observed]
      by_contra hpos
      exact hnone _ (durationCount_observed.mpr
        ⟨List.length_pos_iff.mp (Nat.pos_of_ne_zero hpos), rfl⟩)
    · intro earlier later hearlier hlater method route n hn
      obtain ⟨hne, rfl⟩ := durationCount_observed.mp hn
      refine ⟨_, ?_, durationCount_observed.mpr ⟨durationsOf_ne_nil hearlier hne, rfl⟩⟩
      have hlength := length_durationsOf_le (method, route) hearlier
      omega
    · intro earlier later hearlier hlater method route q hq
      obtain ⟨hne, rfl⟩ := durationSum_observed.mp hq
      refine ⟨_, ?_, durationSum_observed.mpr ⟨durationsOf_ne_nil hearlier hne, rfl⟩⟩
      rw [window_of_le (hbound later hlater method route),
        window_of_le (hbound earlier (hearlier.trans hlater) method route)]
      refine roundHalfEven_mono (mul_le_mul_of_nonneg_right ?_ (by norm_num))
      exact sum_durationsOf_le hearlier fun o ho => hd o (hlater.subset ho)

/-- One slow probe of the service, then fast ones. -/
def slowThenFast (n : ℕ) : List Observation :=
  ⟨"GET", "/health", 200, 1⟩ :: List.replicate n ⟨"GET", "/health", 200, 1 / 1000⟩

theorem durationsOf_slowThenFast (n : ℕ) :
    durationsOf ("GET", "/health") (slowThenFast n) = 1 :: List.replicate n (1 / 1000) := by
  have hroute : routeOf "/health" = "/health" := by decide
  simp [slowThenFast, durationsOf, hroute]

theorem slowThenFast_nonneg (n : ℕ) : ∀ o ∈ slowThenFast n, 0 ≤ o.durationSeconds := by
  intro o ho
  rcases List.mem_cons.mp ho with rfl | ho
  · norm_num
  · rw [List.eq_of_mem_replicate ho]
    norm_num

theorem summaries_sample : Cumulative (slowThenFast 1) := by
  refine (summaries_cumulative_iff (slowThenFast 1) (slowThenFast_nonneg 1)).mpr ?_
  intro method route
  rw [durationsOf, List.length_map]
  exact (List.length_filter_le _ _).trans (by decide)

/-- The thousand and first probe takes the slow one out of the samples: the count stays at a
thousand, the sum falls from 1.999 to 1. -/
theorem summaries_discard :
    (∀ o ∈ slowThenFast 1000, 0 ≤ o.durationSeconds) ∧
    slowThenFast 999 <+: slowThenFast 1000 ∧
    .durationCount "GET" "/health" 1000 ∈ (observed (slowThenFast 1000)).lines ∧
    requestsTotal "GET" "/health" (observed (slowThenFast 1000)).lines = 1001 ∧
    .durationSum "GET" "/health" (1999 / 1000) ∈ (observed (slowThenFast 999)).lines ∧
    .durationSum "GET" "/health" 1 ∈ (observed (slowThenFast 1000)).lines ∧
    ¬ Cumulative (slowThenFast 1000) := by
  have hsome : ∀ n, durationsOf ("GET", "/health") (slowThenFast n) ≠ [] := by
    intro n
    rw [durationsOf_slowThenFast]
    exact List.cons_ne_nil _ _
  have hlength : ∀ n, (durationsOf ("GET", "/health") (slowThenFast n)).length = n + 1 := by
    intro n
    rw [durationsOf_slowThenFast, List.length_cons, List.length_replicate]
  have hcount :
      .durationCount "GET" "/health" 1000 ∈ (observed (slowThenFast 1000)).lines := by
    refine durationCount_observed.mpr ⟨hsome 1000, ?_⟩
    rw [hlength]
    rfl
  have htotal :
      requestsTotal "GET" "/health" (observed (slowThenFast 1000)).lines = 1001 := by
    rw [requestsTotal_observed, hlength]
  refine ⟨slowThenFast_nonneg 1000, ?_, hcount, htotal, ?_, ?_, ?_⟩
  · exact (List.prefix_cons_inj _).mpr ⟨[_], List.replicate_succ'.symm⟩
  · refine durationSum_observed.mpr ⟨hsome 999, ?_⟩
    rw [window_of_le (hlength 999).le, durationsOf_slowThenFast, List.sum_cons, List.sum_replicate]
    norm_num
  · refine durationSum_observed.mpr ⟨hsome 1000, ?_⟩
    rw [window, hlength, Nat.add_sub_cancel_left, durationsOf_slowThenFast, List.drop_succ_cons,
      List.drop_zero, List.sum_replicate]
    norm_num
  · intro h
    have hagrees := h.agrees (slowThenFast 1000) List.prefix_rfl _ _ _ hcount
    rw [htotal] at hagrees
    omega

end Orchestrator
