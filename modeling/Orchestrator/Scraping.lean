import Mathlib
import Orchestrator.Library.Exposition
import Orchestrator.Server

/-!
# What a scrape of the metrics finds

`/metrics/prometheus` answers with a page of samples: the figures of the tables, as `metrics`
finds them, and the counters and summaries of the requests that the service has observed. A
reader of the page finds these numbers again, each once.
-/

namespace Orchestrator

open Library TextOrder
open Exposition (Sample Line)
set_option autoImplicit false

/-- No backslash, quote or line feed: a text that a label shows as it is. -/
def Plain (s : String) : Prop := ∀ c ∈ s.toList, c ∉ ['\\', '\"', '\n']

/-- What the numbers of a page are written with. -/
def figureChar (c : Char) : Bool := c.isDigit || c = '-' || c = '.'

def Figure (s : String) : Prop := s ≠ "" ∧ ∀ c ∈ s.toList, figureChar c = true

section Figures

theorem Figure.plain {s : String} (h : Figure s) : Plain s := by
  intro c hc hspecial
  have hfigure := h.2 c hc
  have hspecials : (['\\', '\"', '\n'].all fun c => !figureChar c) = true := by decide
  have hnot := List.all_eq_true.mp hspecials c hspecial
  rw [hfigure] at hnot
  cases hnot

theorem Figure.shown {s : String} (h : Figure s) :
    s ≠ "" ∧ ' ' ∉ s.toList ∧ '\n' ∉ s.toList := by
  refine ⟨h.1, ?_, ?_⟩
  · intro hmem
    have hfigure := h.2 _ hmem
    revert hfigure
    decide
  · intro hmem
    have hfigure := h.2 _ hmem
    revert hfigure
    decide

theorem figure_nat (n : ℕ) : Figure (toString n) := by
  refine ⟨Nat.repr_ne_empty, ?_⟩
  intro c hc
  have hdigit : c.isDigit = true :=
    Nat.isDigit_of_mem_toDigits (by decide) (by decide) (Nat.toList_repr ▸ hc)
  rw [figureChar, hdigit]
  rfl

theorem Figure.append {s t : String} (hs : Figure s) (ht : ∀ c ∈ t.toList, figureChar c = true) :
    Figure (s ++ t) := by
  refine ⟨fun h => hs.1 (String.append_eq_empty_iff.mp h).1, ?_⟩
  intro c hc
  rw [String.toList_append] at hc
  rcases List.mem_append.mp hc with hc | hc
  · exact hs.2 c hc
  · exact ht c hc

theorem Figure.minus {s : String} (hs : Figure s) : Figure ("-" ++ s) := by
  have hminus : Figure "-" := ⟨by decide, List.all_eq_true.mp (by decide)⟩
  exact hminus.append hs.2

theorem figure_int (z : ℤ) : Figure (toString z) := by
  cases z with
  | ofNat n => exact figure_nat n
  | negSucc n => exact (figure_nat (n + 1)).minus

theorem figure_decimal (q : ℚ) (n width m : ℕ) : Figure
    ((if q < 0 then "-" else "") ++ toString n ++ "." ++ String.ofList (digits width m)) := by
  have hdigits : ∀ c ∈ digits width m, figureChar c = true := forall_digits (by decide)
  have habs : Figure (toString n ++ "." ++ String.ofList (digits width m)) := by
    refine ((figure_nat n).append (List.all_eq_true.mp (by decide))).append ?_
    rw [String.toList_ofList]
    exact hdigits
  rw [String.append_assoc, String.append_assoc]
  rw [String.append_assoc] at habs
  split
  · exact habs.minus
  · rw [String.empty_append]
    exact habs

end Figures

def MetricLine.exposed : MetricLine → Line
  | comment text => .comment text
  | requests method route statusCode count => .sample ⟨"http_requests_total",
    [("method", method), ("route", route), ("status", toString statusCode)], toString count⟩
  | durationCount method route count => .sample ⟨"http_request_duration_seconds_count",
    [("method", method), ("route", route)], toString count⟩
  | durationSum method route sum => .sample ⟨"http_request_duration_seconds_sum",
    [("method", method), ("route", route)], fixed6 sum⟩

/-- A line that needs no escapes. -/
def MetricLine.Fits : MetricLine → Prop
  | comment text => Exposition.isComment text = true
  | requests method route .. | durationCount method route _ | durationSum method route _ =>
    Plain method ∧ Plain route

def statusSample (entry : String × ℕ) : Sample :=
  ⟨"automation_requests_by_status", [("status", entry.1)], toString entry.2⟩

def gauge (name value : String) : Line := .sample ⟨name, [], value⟩

def Server.snapshotExposed (snapshot : MetricsSnapshot) : List Line :=
  [.comment "# HELP automation_requests_total Total automation requests accepted.",
    .comment "# TYPE automation_requests_total gauge",
    gauge "automation_requests_total" (toString snapshot.totalRequests),
    .comment "# HELP automation_requests_by_status Automation requests by current lifecycle status.",
    .comment "# TYPE automation_requests_by_status gauge"] ++
  (snapshot.byStatus.insertionSort fun a b => a.1 ≤ b.1).map (fun entry =>
    .sample (statusSample entry)) ++
  [.comment "# HELP automation_queue_depth Requests waiting or scheduled for retry.",
    .comment "# TYPE automation_queue_depth gauge",
    gauge "automation_queue_depth" (toString snapshot.queueDepth),
    .comment "# HELP automation_retrying_count Requests currently waiting for retry.",
    .comment "# TYPE automation_retrying_count gauge",
    gauge "automation_retrying_count" (toString snapshot.retryingCount),
    .comment "# HELP automation_dead_letter_count Requests currently in dead letter.",
    .comment "# TYPE automation_dead_letter_count gauge",
    gauge "automation_dead_letter_count" (toString snapshot.deadLetterCount),
    .comment "# HELP automation_oldest_queued_age_seconds Age of oldest queued or retrying request.",
    .comment "# TYPE automation_oldest_queued_age_seconds gauge"] ++
  (snapshot.oldestQueuedAgeSeconds.map fun age =>
    gauge "automation_oldest_queued_age_seconds" (Server.fixed3 age)).toList

section Lines

theorem Plain.escape {s : String} (h : Plain s) : Exposition.escape s.toList = s.toList :=
  Exposition.escape_of_plain h

/-- The program writes its lines as a writer does that escapes. -/
theorem MetricLine.text_exposed {line : MetricLine} (h : line.Fits) :
    String.ofList line.exposed.text = line.text := by
  apply String.toList_inj.mp
  rw [String.toList_ofList]
  cases line with
  | comment text => rfl
  | requests method route statusCode count =>
    obtain ⟨hmethod, hroute⟩ : Plain method ∧ Plain route := h
    have hstatus : Plain statusCode.repr := (figure_int statusCode).plain
    unfold MetricLine.exposed MetricLine.text
    simp [Line.text, Sample.text, Exposition.labelsText, Exposition.labelText, hmethod.escape,
      hroute.escape, hstatus.escape]
  | durationCount method route count =>
    obtain ⟨hmethod, hroute⟩ : Plain method ∧ Plain route := h
    unfold MetricLine.exposed MetricLine.text
    simp [Line.text, Sample.text, Exposition.labelsText, Exposition.labelText, hmethod.escape,
      hroute.escape]
  | durationSum method route sum =>
    obtain ⟨hmethod, hroute⟩ : Plain method ∧ Plain route := h
    unfold MetricLine.exposed MetricLine.text
    simp [Line.text, Sample.text, Exposition.labelsText, Exposition.labelText, hmethod.escape,
      hroute.escape]

theorem text_gauge (name value : String) :
    String.ofList (gauge name value).text = name ++ " " ++ value := by
  apply String.toList_inj.mp
  rw [String.toList_ofList]
  unfold gauge
  simp [Line.text, Sample.text, Exposition.labelsText]

theorem isName_metrics : ∀ name ∈ ["http_requests_total", "http_request_duration_seconds_count",
    "http_request_duration_seconds_sum", "automation_requests_total",
    "automation_requests_by_status", "automation_queue_depth", "automation_retrying_count",
    "automation_dead_letter_count", "automation_oldest_queued_age_seconds"],
    Exposition.isName name = true := by decide

theorem isName_labels : ∀ name ∈ ["method", "route", "status"], Exposition.isName name = true := by
  decide

theorem sample_legal {name value : String} {labels : List (String × String)}
    (hname : Exposition.isName name = true)
    (hlabels : ∀ label ∈ labels, label.1 ∈ ["method", "route", "status"]) (hvalue : Figure value) :
    (Line.sample ⟨name, labels, value⟩).Legal :=
  ⟨hname, fun label hlabel => isName_labels _ (hlabels label hlabel), hvalue.shown⟩

theorem MetricLine.legal {line : MetricLine} (h : line.Fits) : line.exposed.Legal := by
  cases line with
  | comment text => exact h
  | requests method route statusCode count =>
    exact sample_legal (isName_metrics _ (by simp)) (by simp) (figure_nat count)
  | durationCount method route count =>
    exact sample_legal (isName_metrics _ (by simp)) (by simp) (figure_nat count)
  | durationSum method route sum =>
    exact sample_legal (isName_metrics _ (by simp)) (by simp) (figure_decimal ..)

theorem statusLine_exposed {entry : String × ℕ} (h : Plain entry.1) :
    String.ofList (Line.sample (statusSample entry)).text = Server.statusLine entry := by
  apply String.toList_inj.mp
  rw [String.toList_ofList]
  unfold Server.statusLine statusSample
  simp [Line.text, Sample.text, Exposition.labelsText, Exposition.labelText, h.escape]

variable {snapshot : MetricsSnapshot} (hstatuses : ∀ entry ∈ snapshot.byStatus, Plain entry.1)
include hstatuses

theorem snapshotLines_exposed :
    (Server.snapshotExposed snapshot).map (fun line => String.ofList line.text) =
      Server.snapshotLines snapshot := by
  have hsorted : ∀ entry ∈ snapshot.byStatus.insertionSort fun a b => a.1 ≤ b.1,
      String.ofList (Line.sample (statusSample entry)).text = Server.statusLine entry :=
    fun entry hentry => statusLine_exposed (hstatuses entry ((List.mem_insertionSort _).mp hentry))
  have hcomment : ∀ text : String, String.ofList (Line.comment text).text = text :=
    fun text => String.ofList_toList
  unfold Server.snapshotExposed Server.snapshotLines
  rw [List.map_append, List.map_append, List.map_append]
  refine congrArg₂ _ (congrArg₂ _ (congrArg₂ _ ?_ ?_) ?_) ?_
  · simp only [List.map_cons, List.map_nil, hcomment, text_gauge, String.reduceAppend]
  · rw [List.map_map]
    exact List.map_congr_left hsorted
  · simp only [List.map_cons, List.map_nil, hcomment, text_gauge, String.reduceAppend]
  · cases snapshot.oldestQueuedAgeSeconds with
    | none => rfl
    | some age => simp only [Option.map_some, Option.toList_some, List.map_cons, List.map_nil,
        text_gauge, String.reduceAppend]

omit hstatuses in
theorem snapshot_legal : ∀ line ∈ Server.snapshotExposed snapshot, line.Legal := by
  have hgauge : ∀ {name value : String}, Exposition.isName name = true → Figure value →
      (gauge name value).Legal := fun hname => sample_legal hname (List.forall_mem_nil _)
  have hcomment : ∀ {text : String}, Exposition.isComment text = true →
      (Line.comment text).Legal := fun h => h
  have hstatus : ∀ line ∈ (snapshot.byStatus.insertionSort fun a b => a.1 ≤ b.1).map
      fun entry => Line.sample (statusSample entry), line.Legal := by
    intro line hline
    obtain ⟨entry, -, rfl⟩ := List.mem_map.mp hline
    exact sample_legal (isName_metrics _ (by simp)) (by simp) (figure_nat entry.2)
  have hage : ∀ line ∈ (snapshot.oldestQueuedAgeSeconds.map fun age =>
      gauge "automation_oldest_queued_age_seconds" (Server.fixed3 age)).toList, line.Legal := by
    intro line hline
    obtain ⟨age, -, rfl⟩ := Option.map_eq_some_iff.mp (Option.mem_toList.mp hline)
    exact hgauge (by decide) (figure_decimal ..)
  unfold Server.snapshotExposed
  refine List.forall_mem_append.mpr ⟨List.forall_mem_append.mpr
    ⟨List.forall_mem_append.mpr ⟨?_, hstatus⟩, ?_⟩, hage⟩
  · simp only [List.forall_mem_cons]
    refine ⟨hcomment (by decide), hcomment (by decide), hgauge (by decide) (figure_nat _),
      hcomment (by decide), hcomment (by decide), ?_⟩
    exact List.forall_mem_nil _
  · simp only [List.forall_mem_cons]
    refine ⟨hcomment (by decide), hcomment (by decide), hgauge (by decide) (figure_nat _),
      hcomment (by decide), hcomment (by decide), hgauge (by decide) (figure_nat _),
      hcomment (by decide), hcomment (by decide), hgauge (by decide) (figure_nat _),
      hcomment (by decide), hcomment (by decide), ?_⟩
    exact List.forall_mem_nil _

end Lines

def callsOf (key : String × String × ℤ) (obs : List Observation) : ℕ :=
  obs.countP fun o => (o.method, routeOf o.path, o.statusCode) = key

/-- The page of `/metrics/prometheus`. -/
def Server.metricsPage (snapshot : MetricsSnapshot) (rendered : String) : String :=
  String.intercalate "\n" (snapshotLines snapshot) ++ "\n" ++ rendered

def exposedLines (snapshot : MetricsSnapshot) (obs : List Observation) : List Line :=
  Server.snapshotExposed snapshot ++ (observed obs).lines.map MetricLine.exposed

section Pages
variable {snapshot : MetricsSnapshot} {obs : List Observation}

theorem observed_concat (obs : List Observation) (o : Observation) :
    observed (obs ++ [o]) = (observed obs).observeRequest o := by
  rw [observed, List.foldl_append]
  rfl

theorem counts_observed (obs : List Observation) (key : String × String × ℤ) :
    (observed obs).requestCounts.get? key =
      if callsOf key obs = 0 then none else some (callsOf key obs) := by
  induction obs using List.reverseRecOn with
  | nil => rfl
  | append_singleton obs o ih =>
    have hcalls : callsOf key (obs ++ [o]) = callsOf key obs +
        if (o.method, routeOf o.path, o.statusCode) = key then 1 else 0 := by
      rw [callsOf, List.countP_append, List.countP_singleton]
      simp only [decide_eq_true_eq]
      rfl
    rw [observed_concat, HttpMetrics.observeRequest, Dict.get?_modify, hcalls]
    by_cases hkey : (o.method, routeOf o.path, o.statusCode) = key
    · rw [if_pos hkey.symm, hkey, ih, if_pos rfl]
      split
      · next hzero => simp [hzero]
      · simp
    · rw [if_neg (Ne.symm hkey), if_neg hkey, ih, Nat.add_zero]

theorem mem_counts {key : String × String × ℤ} {n : ℕ} :
    (key, n) ∈ (observed obs).requestCounts.items ↔ 0 < n ∧ n = callsOf key obs := by
  rw [Dict.mem_items, counts_observed]
  split
  · next hzero => simp only [reduceCtorEq, false_iff]; omega
  · next hpos => simp only [Option.some.injEq]; omega

theorem plain_of_all {s : String} (h : (s.toList.all fun c => c ∉ ['\\', '\"', '\n']) = true) :
    Plain s := by
  intro c hc
  simpa using List.all_eq_true.mp h c hc

theorem plain_routeOf (path : String) : Plain (routeOf path) := by
  have hroutes : ∀ route ∈ ["/health", "/ready", "/metrics", "/metrics/prometheus", "application"],
      (route.toList.all fun c => c ∉ ['\\', '\"', '\n']) = true := by decide
  apply plain_of_all
  apply hroutes
  unfold routeOf
  split
  · next h =>
    simp only [List.mem_cons, List.not_mem_nil, or_false] at h ⊢
    tauto
  · simp

theorem observed_fits (hmethods : ∀ o ∈ obs, Plain o.method) :
    ∀ line ∈ (observed obs).lines, line.Fits := by
  have hcomment : ∀ {text : String}, Exposition.isComment text = true →
      (MetricLine.comment text).Fits := fun h => h
  have hcounts : ∀ line ∈ ((observed obs).requestCounts.items.insertionSort
      fun a b => countLe a.1 b.1).map HttpMetrics.countLine, line.Fits := by
    intro line hline
    obtain ⟨⟨⟨method, route, statusCode⟩, n⟩, hitem, rfl⟩ := List.mem_map.mp hline
    obtain ⟨hpos, rfl⟩ := mem_counts.mp ((List.mem_insertionSort _).mp hitem)
    obtain ⟨o, ho, hkey⟩ := List.countP_pos_iff.mp hpos
    obtain ⟨rfl, rfl, rfl⟩ : o.method = method ∧ routeOf o.path = route ∧
        o.statusCode = statusCode := by simpa using hkey
    exact ⟨hmethods o ho, plain_routeOf o.path⟩
  have hdurations : ∀ line ∈ ((observed obs).requestDurationSeconds.items.insertionSort
      fun a b => routeLe a.1 b.1).flatMap HttpMetrics.durationLines, line.Fits := by
    intro line hline
    obtain ⟨⟨⟨method, route⟩, samples⟩, hitem, hline⟩ := List.mem_flatMap.mp hline
    obtain ⟨hne, -⟩ := observed_samples.mp (Dict.mem_items.mp ((List.mem_insertionSort _).mp hitem))
    obtain ⟨d, hd⟩ := List.exists_mem_of_ne_nil _ hne
    obtain ⟨o, ho, -⟩ := List.mem_map.mp hd
    obtain ⟨hmem, hkey⟩ := List.mem_filter.mp ho
    obtain ⟨rfl, rfl⟩ : o.method = method ∧ routeOf o.path = route := by simpa using hkey
    have hplain := And.intro (hmethods o hmem) (plain_routeOf o.path)
    obtain ⟨-, rfl | rfl⟩ := HttpMetrics.mem_durationLines.mp hline
    · exact hplain
    · exact hplain
  unfold HttpMetrics.lines
  refine List.forall_mem_append.mpr ⟨List.forall_mem_append.mpr
    ⟨List.forall_mem_append.mpr ⟨?_, hcounts⟩, ?_⟩, hdurations⟩
  · simp only [List.forall_mem_cons]
    exact ⟨hcomment (by decide), hcomment (by decide), List.forall_mem_nil _⟩
  · simp only [List.forall_mem_cons]
    exact ⟨hcomment (by decide), hcomment (by decide), List.forall_mem_nil _⟩

variable (hstatuses : ∀ entry ∈ snapshot.byStatus, Plain entry.1)
variable (hmethods : ∀ o ∈ obs, Plain o.method)
include hmethods

theorem render_observed :
    (observed obs).render = Exposition.page ((observed obs).lines.map MetricLine.exposed) := by
  have htexts : (observed obs).lines.map MetricLine.text =
      ((observed obs).lines.map MetricLine.exposed).map fun line => String.ofList line.text := by
    rw [List.map_map]
    exact List.map_congr_left fun line hline =>
      (MetricLine.text_exposed (observed_fits hmethods line hline)).symm
  rw [HttpMetrics.render, htexts]
  rfl

include hstatuses

/-- The page is read back as the samples of its lines. -/
theorem read_metricsPage : Exposition.read (Server.metricsPage snapshot (observed obs).render) =
    some ((exposedLines snapshot obs).filterMap Line.sample?) := by
  have hsnapshot : Server.snapshotExposed snapshot ≠ [] := List.cons_ne_nil _ _
  have hlines : (observed obs).lines.map MetricLine.exposed ≠ [] := List.cons_ne_nil _ _
  have hpage : Server.metricsPage snapshot (observed obs).render =
      Exposition.page (exposedLines snapshot obs) := by
    rw [exposedLines, Exposition.page_append hsnapshot hlines, ← render_observed hmethods,
      Exposition.page, snapshotLines_exposed hstatuses]
    rfl
  rw [hpage]
  refine Exposition.read_page (List.append_ne_nil_of_left_ne_nil hsnapshot _) ?_
  refine List.forall_mem_append.mpr ⟨snapshot_legal, ?_⟩
  intro line hline
  obtain ⟨line, hmem, rfl⟩ := List.mem_map.mp hline
  exact MetricLine.legal (observed_fits hmethods line hmem)

end Pages

/-- What the samples of a page say, each of them once. -/
structure Scraped (snapshot : MetricsSnapshot) (obs : List Observation)
    (samples : List Sample) : Prop where
  distinct : (samples.map Sample.series).Nodup
  total : ∀ n : ℕ, ⟨"automation_requests_total", [], toString n⟩ ∈ samples ↔
    n = snapshot.totalRequests
  byStatus : ∀ (status : String) (n : ℕ),
    ⟨"automation_requests_by_status", [("status", status)], toString n⟩ ∈ samples ↔
      (status, n) ∈ snapshot.byStatus
  queueDepth : ∀ n : ℕ, ⟨"automation_queue_depth", [], toString n⟩ ∈ samples ↔
    n = snapshot.queueDepth
  retryingCount : ∀ n : ℕ, ⟨"automation_retrying_count", [], toString n⟩ ∈ samples ↔
    n = snapshot.retryingCount
  deadLetterCount : ∀ n : ℕ, ⟨"automation_dead_letter_count", [], toString n⟩ ∈ samples ↔
    n = snapshot.deadLetterCount
  oldestAge : ∀ value, ⟨"automation_oldest_queued_age_seconds", [], value⟩ ∈ samples ↔
    ∃ age, snapshot.oldestQueuedAgeSeconds = some age ∧ value = Server.fixed3 age
  requests : ∀ (method route : String) (statusCode : ℤ) (n : ℕ), ⟨"http_requests_total",
      [("method", method), ("route", route), ("status", toString statusCode)], toString n⟩ ∈
    samples ↔ 0 < n ∧ n = callsOf (method, route, statusCode) obs
  durationCount : ∀ (method route : String) (n : ℕ), ⟨"http_request_duration_seconds_count",
      [("method", method), ("route", route)], toString n⟩ ∈ samples ↔
    durationsOf (method, route) obs ≠ [] ∧ n = min 1000 (durationsOf (method, route) obs).length
  durationSum : ∀ method route value, ⟨"http_request_duration_seconds_sum",
      [("method", method), ("route", route)], value⟩ ∈ samples ↔
    durationsOf (method, route) obs ≠ [] ∧
      value = fixed6 (window 1000 (durationsOf (method, route) obs)).sum

section Samples
variable {snapshot : MetricsSnapshot} {obs : List Observation}

def snapshotSamples (snapshot : MetricsSnapshot) : List Sample :=
  [⟨"automation_requests_total", [], toString snapshot.totalRequests⟩] ++
  (snapshot.byStatus.insertionSort fun a b => a.1 ≤ b.1).map statusSample ++
  [⟨"automation_queue_depth", [], toString snapshot.queueDepth⟩,
    ⟨"automation_retrying_count", [], toString snapshot.retryingCount⟩,
    ⟨"automation_dead_letter_count", [], toString snapshot.deadLetterCount⟩] ++
  (snapshot.oldestQueuedAgeSeconds.map fun age =>
    ⟨"automation_oldest_queued_age_seconds", [], Server.fixed3 age⟩).toList

def countSample : (String × String × ℤ) × ℕ → Sample
  | ((method, route, statusCode), count) => ⟨"http_requests_total",
    [("method", method), ("route", route), ("status", toString statusCode)], toString count⟩

def durationSamples : (String × String) × List ℚ → List Sample
  | ((method, route), samples) =>
    if samples = [] then []
    else [⟨"http_request_duration_seconds_count", [("method", method), ("route", route)],
        toString samples.length⟩,
      ⟨"http_request_duration_seconds_sum", [("method", method), ("route", route)],
        fixed6 samples.sum⟩]

def httpSamples (metrics : HttpMetrics) : List Sample :=
  (metrics.requestCounts.items.insertionSort fun a b => countLe a.1 b.1).map countSample ++
  (metrics.requestDurationSeconds.items.insertionSort fun a b => routeLe a.1 b.1).flatMap
    durationSamples

theorem filterMap_snapshot :
    (Server.snapshotExposed snapshot).filterMap Line.sample? = snapshotSamples snapshot := by
  unfold Server.snapshotExposed snapshotSamples
  rw [List.filterMap_append, List.filterMap_append, List.filterMap_append]
  refine congrArg₂ _ (congrArg₂ _ (congrArg₂ _ rfl ?_) rfl) ?_
  · rw [List.filterMap_map]
    exact congrFun List.filterMap_eq_map _
  · cases snapshot.oldestQueuedAgeSeconds <;> rfl

theorem filterMap_lines (metrics : HttpMetrics) :
    (metrics.lines.map MetricLine.exposed).filterMap Line.sample? = httpSamples metrics := by
  have hdurations : ∀ item, ((HttpMetrics.durationLines item).map MetricLine.exposed).filterMap
      Line.sample? = durationSamples item := by
    intro item
    obtain ⟨⟨method, route⟩, samples⟩ := item
    rw [HttpMetrics.durationLines, durationSamples]
    by_cases hnil : samples = []
    · rw [if_pos hnil, if_pos hnil]
      rfl
    · rw [if_neg hnil, if_neg hnil]
      rfl
  unfold HttpMetrics.lines httpSamples
  rw [List.map_append, List.map_append, List.map_append, List.filterMap_append,
    List.filterMap_append, List.filterMap_append]
  refine congrArg₂ _ ?_ ?_
  · change [] ++ _ ++ [] = _
    rw [List.nil_append, List.append_nil, List.map_map, List.filterMap_map]
    refine Eq.trans (List.filterMap_congr ?_) (congrFun List.filterMap_eq_map _)
    intro item _
    obtain ⟨⟨method, route, statusCode⟩, count⟩ := item
    rfl
  · rw [List.map_flatMap, List.filterMap_flatMap]
    exact congrArg (List.flatMap · _) (funext hdurations)

theorem mem_durationSamples {item : (String × String) × List ℚ} {sample : Sample} :
    sample ∈ durationSamples item ↔ item.2 ≠ [] ∧
      (sample = ⟨"http_request_duration_seconds_count",
          [("method", item.1.1), ("route", item.1.2)], toString item.2.length⟩ ∨
        sample = ⟨"http_request_duration_seconds_sum",
          [("method", item.1.1), ("route", item.1.2)], fixed6 item.2.sum⟩) := by
  obtain ⟨⟨method, route⟩, samples⟩ := item
  rw [durationSamples]
  split
  · next hnil => exact ⟨fun h => absurd h List.not_mem_nil, fun h => absurd hnil h.1⟩
  · next hne => rw [List.mem_pair, and_iff_right hne]

theorem mem_httpSamples {sample : Sample} : sample ∈ httpSamples (observed obs) ↔
    (∃ key n, 0 < n ∧ n = callsOf key obs ∧ countSample (key, n) = sample) ∨
      ∃ method route, durationsOf (method, route) obs ≠ [] ∧
        (sample = ⟨"http_request_duration_seconds_count", [("method", method), ("route", route)],
            toString (min 1000 (durationsOf (method, route) obs).length)⟩ ∨
          sample = ⟨"http_request_duration_seconds_sum", [("method", method), ("route", route)],
            fixed6 (window 1000 (durationsOf (method, route) obs)).sum⟩) := by
  rw [httpSamples, List.mem_append]
  refine or_congr ?_ ?_
  · simp only [List.mem_map, List.mem_insertionSort, Prod.exists, ← and_assoc]
    simp only [mem_counts]
  · simp only [List.mem_flatMap, List.mem_insertionSort, mem_durationSamples, Prod.exists,
      Dict.mem_items]
    constructor
    · rintro ⟨method, route, samples, hsamples, -, hsample⟩
      obtain ⟨hne, rfl⟩ := observed_samples.mp hsamples
      rw [length_window] at hsample
      exact ⟨method, route, hne, hsample⟩
    · rintro ⟨method, route, hne, hsample⟩
      rw [← length_window] at hsample
      exact ⟨method, route, _, observed_samples.mpr ⟨hne, rfl⟩, window_ne_nil hne, hsample⟩

/-- Samples of these metrics, of each series at most one. -/
structure Distinct (names : List String) (samples : List Sample) : Prop where
  names : ∀ sample ∈ samples, sample.name ∈ names
  series : (samples.map Sample.series).Nodup

theorem Distinct.append {names names' : List String} {samples samples' : List Sample}
    (h : Distinct names samples) (h' : Distinct names' samples')
    (hdisjoint : ∀ name ∈ names, name ∉ names') :
    Distinct (names ++ names') (samples ++ samples') where
  names sample hsample := by
    rw [List.mem_append] at hsample ⊢
    exact hsample.imp (h.names sample) (h'.names sample)
  series := by
    rw [List.map_append, List.nodup_append']
    refine ⟨h.series, h'.series, ?_⟩
    intro series hseries hseries'
    obtain ⟨sample, hsample, rfl⟩ := List.mem_map.mp hseries
    obtain ⟨sample', hsample', heq⟩ := List.mem_map.mp hseries'
    have hname : sample'.name = sample.name := congrArg Prod.fst heq
    exact hdisjoint _ (h.names sample hsample) (hname ▸ h'.names sample' hsample')

theorem distinct_map {κ α : Type} {name : String} {items : List (κ × α)} {f : κ × α → Sample}
    {labels : κ → List (String × String)} (hnodup : (items.map Prod.fst).Nodup)
    (hseries : ∀ item, (f item).series = (name, labels item.1))
    (hinjective : Function.Injective labels) : Distinct [name] (items.map f) where
  names sample hsample := by
    obtain ⟨item, -, rfl⟩ := List.mem_map.mp hsample
    have hname : (f item).name = name := congrArg Prod.fst (hseries item)
    rw [hname]
    exact List.mem_cons_self
  series := by
    have hmap : (items.map f).map Sample.series =
        (items.map Prod.fst).map fun key => (name, labels key) := by
      rw [List.map_map, List.map_map]
      exact List.map_congr_left fun item _ => hseries item
    rw [hmap]
    exact hnodup.map fun key key' h => hinjective (congrArg Prod.snd h)

theorem nodup_sorted {κ α : Type} {items : List (κ × α)} (r : κ × α → κ × α → Prop)
    [DecidableRel r] (hnodup : (items.map Prod.fst).Nodup) :
    ((items.insertionSort r).map Prod.fst).Nodup :=
  ((List.perm_insertionSort r items).map Prod.fst).nodup_iff.mpr hnodup

theorem distinct_snapshot (hnodup : (snapshot.byStatus.map Prod.fst).Nodup) :
    Distinct ["automation_requests_total", "automation_requests_by_status",
      "automation_queue_depth", "automation_retrying_count", "automation_dead_letter_count",
      "automation_oldest_queued_age_seconds"] (snapshotSamples snapshot) := by
  have htotal : Distinct ["automation_requests_total"]
      [⟨"automation_requests_total", [], toString snapshot.totalRequests⟩] :=
    ⟨by simp, List.nodup_singleton _⟩
  have hstatuses : Distinct ["automation_requests_by_status"]
      ((snapshot.byStatus.insertionSort fun a b => a.1 ≤ b.1).map statusSample) := by
    have hinjective : Function.Injective fun status : String => [("status", status)] := by
      intro status status' h
      simpa using h
    exact distinct_map (nodup_sorted _ hnodup) (fun _ => rfl) hinjective
  have hqueue : Distinct ["automation_queue_depth", "automation_retrying_count",
      "automation_dead_letter_count"] [⟨"automation_queue_depth", [], toString snapshot.queueDepth⟩,
        ⟨"automation_retrying_count", [], toString snapshot.retryingCount⟩,
        ⟨"automation_dead_letter_count", [], toString snapshot.deadLetterCount⟩] :=
    ⟨by simp, by simp [Sample.series]⟩
  have hage : Distinct ["automation_oldest_queued_age_seconds"]
      (snapshot.oldestQueuedAgeSeconds.map fun age =>
        (⟨"automation_oldest_queued_age_seconds", [], Server.fixed3 age⟩ : Sample)).toList := by
    cases snapshot.oldestQueuedAgeSeconds with
    | none => exact ⟨by simp, List.nodup_nil⟩
    | some age => exact ⟨by simp, List.nodup_singleton _⟩
  exact ((htotal.append hstatuses (by decide)).append hqueue (by decide)).append hage (by decide)

theorem distinct_counts (metrics : HttpMetrics) : Distinct ["http_requests_total"]
    ((metrics.requestCounts.items.insertionSort fun a b => countLe a.1 b.1).map countSample) := by
  have hinjective : Function.Injective fun key : String × String × ℤ =>
      [("method", key.1), ("route", key.2.1), ("status", toString key.2.2)] := by
    intro key key' h
    simp only [Prod.mk.injEq, List.cons.injEq, true_and, and_true, Int.toString_eq_repr,
      Int.repr_inj] at h
    exact Prod.ext h.1 (Prod.ext h.2.1 h.2.2)
  exact distinct_map (nodup_sorted _ metrics.requestCounts.nodup) (fun _ => rfl) hinjective

theorem labels_durationSamples {item : (String × String) × List ℚ} {sample : Sample}
    (hsample : sample ∈ durationSamples item) :
    sample.labels = [("method", item.1.1), ("route", item.1.2)] := by
  obtain ⟨-, rfl | rfl⟩ := mem_durationSamples.mp hsample <;> rfl

theorem distinct_durations (metrics : HttpMetrics) :
    Distinct ["http_request_duration_seconds_count", "http_request_duration_seconds_sum"]
      ((metrics.requestDurationSeconds.items.insertionSort fun a b => routeLe a.1 b.1).flatMap
        durationSamples) := by
  have hkeys : (metrics.requestDurationSeconds.items.insertionSort
      fun a b => routeLe a.1 b.1).Pairwise fun a b => a.1 ≠ b.1 :=
    List.pairwise_map.mp (nodup_sorted _ metrics.requestDurationSeconds.nodup)
  refine ⟨fun sample hsample => ?_, ?_⟩
  · obtain ⟨item, -, hsample⟩ := List.mem_flatMap.mp hsample
    obtain ⟨-, rfl | rfl⟩ := mem_durationSamples.mp hsample <;> simp
  · rw [List.map_flatMap, List.nodup_flatMap]
    refine ⟨fun item _ => ?_, hkeys.imp ?_⟩
    · obtain ⟨⟨method, route⟩, samples⟩ := item
      rw [durationSamples]
      split <;> simp [Sample.series]
    · -- two keys have no series in common, since the labels tell the key
      intro item item' hne series hseries hseries'
      obtain ⟨sample, hsample, rfl⟩ := List.mem_map.mp hseries
      obtain ⟨sample', hsample', heq⟩ := List.mem_map.mp hseries'
      have hlabels : sample'.labels = sample.labels := congrArg Prod.snd heq
      rw [labels_durationSamples hsample, labels_durationSamples hsample'] at hlabels
      simp only [List.cons.injEq, Prod.mk.injEq, true_and, and_true] at hlabels
      exact hne (Prod.ext hlabels.1.symm hlabels.2.symm)

theorem distinct_http (metrics : HttpMetrics) :
    Distinct ["http_requests_total", "http_request_duration_seconds_count",
      "http_request_duration_seconds_sum"] (httpSamples metrics) :=
  (distinct_counts metrics).append (distinct_durations metrics) (by decide)

theorem mem_snapshotSamples {sample : Sample} : sample ∈ snapshotSamples snapshot ↔
    sample = ⟨"automation_requests_total", [], toString snapshot.totalRequests⟩ ∨
      (∃ entry ∈ snapshot.byStatus, statusSample entry = sample) ∨
      sample = ⟨"automation_queue_depth", [], toString snapshot.queueDepth⟩ ∨
      sample = ⟨"automation_retrying_count", [], toString snapshot.retryingCount⟩ ∨
      sample = ⟨"automation_dead_letter_count", [], toString snapshot.deadLetterCount⟩ ∨
      ∃ age, snapshot.oldestQueuedAgeSeconds = some age ∧
        sample = ⟨"automation_oldest_queued_age_seconds", [], Server.fixed3 age⟩ := by
  simp only [snapshotSamples, List.mem_append, List.mem_map, List.mem_insertionSort,
    List.mem_cons, List.not_mem_nil, or_false, Option.mem_toList, Option.map_eq_some_iff, or_assoc,
    eq_comm (b := sample)]

theorem scraped_samples (hnodup : (snapshot.byStatus.map Prod.fst).Nodup) :
    Scraped snapshot obs (snapshotSamples snapshot ++ httpSamples (observed obs)) where
  distinct := ((distinct_snapshot hnodup).append (distinct_http _) (by decide)).series
  total n := by
    simp [mem_snapshotSamples, mem_httpSamples, statusSample, countSample]
  byStatus status n := by
    simp [mem_snapshotSamples, mem_httpSamples, statusSample, countSample]
  queueDepth n := by
    simp [mem_snapshotSamples, mem_httpSamples, statusSample, countSample]
  retryingCount n := by
    simp [mem_snapshotSamples, mem_httpSamples, statusSample, countSample]
  deadLetterCount n := by
    simp [mem_snapshotSamples, mem_httpSamples, statusSample, countSample]
  oldestAge value := by
    simp [mem_snapshotSamples, mem_httpSamples, statusSample, countSample]
  requests method route statusCode n := by
    simp only [List.mem_append, mem_snapshotSamples, mem_httpSamples]
    simp [statusSample, countSample]
    grind
  durationCount method route n := by
    simp [mem_snapshotSamples, mem_httpSamples, statusSample, countSample]
  durationSum method route value := by
    simp [mem_snapshotSamples, mem_httpSamples, statusSample, countSample]

theorem scraped_page (hnodup : (snapshot.byStatus.map Prod.fst).Nodup) :
    Scraped snapshot obs ((exposedLines snapshot obs).filterMap Line.sample?) := by
  rw [exposedLines, List.filterMap_append, filterMap_snapshot, filterMap_lines]
  exact scraped_samples hnodup

/-- Round trip of the page: whatever has been observed, a reader finds in it the figures of the
snapshot and the counters and summaries of the calls, each once. -/
theorem metricsPage_scraped (hstatuses : ∀ entry ∈ snapshot.byStatus, Plain entry.1)
    (hnodup : (snapshot.byStatus.map Prod.fst).Nodup) (hmethods : ∀ o ∈ obs, Plain o.method) :
    ∃ samples, Exposition.read (Server.metricsPage snapshot (observed obs).render) = some samples ∧
      Scraped snapshot obs samples :=
  ⟨_, read_metricsPage hstatuses hmethods, scraped_page hnodup⟩

end Samples

def halfDone : MetricsSnapshot :=
  ⟨2, [("queued", 1), ("completed", 1)], 1, 0, 0, some (1 / 2)⟩

theorem metricsPage_scraped_sample : ∃ samples,
    Exposition.read (Server.metricsPage halfDone (observed (slowThenFast 2)).render) =
      some samples ∧ Scraped halfDone (slowThenFast 2) samples := by
  have hnodup : (halfDone.byStatus.map Prod.fst).Nodup := by decide
  refine metricsPage_scraped ?_ hnodup ?_
  · have hplain : ∀ entry ∈ halfDone.byStatus,
        (entry.1.toList.all fun c => c ∉ ['\\', '\"', '\n']) = true := by decide
    exact fun entry hentry => plain_of_all (hplain entry hentry)
  · have hplain : ∀ o ∈ slowThenFast 2,
        (o.method.toList.all fun c => c ∉ ['\\', '\"', '\n']) = true := by decide
    exact fun o ho => plain_of_all (hplain o ho)

end Orchestrator
