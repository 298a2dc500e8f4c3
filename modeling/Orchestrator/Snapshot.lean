import Orchestrator.AuditView

/-!
# The queue metrics

`metrics` counts the table twice and then looks for the oldest request that waits. On one
state the three answers agree. With commits in between they do exactly if no request was
submitted between the two counts, and something waits for the third SELECT as for the second.
-/

namespace Orchestrator

open Interaction Table
set_option autoImplicit false

/-- The figures of a snapshot fit together. -/
structure MetricsSnapshot.Consistent (snapshot : MetricsSnapshot) : Prop where
  total : snapshot.totalRequests = (snapshot.byStatus.map Prod.snd).sum
  depth : snapshot.queueDepth ≤ snapshot.totalRequests
  oldest : snapshot.oldestQueuedAgeSeconds = none ↔ snapshot.queueDepth = 0

section Counts
variable (db : Database)

theorem sum_statusCounts : (db.statusCounts.map Prod.snd).sum = db.requests.length := by
  rw [Database.statusCounts, sum_groupCounts, List.length_map]

theorem lookup_statusCounts (status : AutomationStatus) :
    (db.statusCounts.lookup status.value).getD 0 =
      (db.requests.map (·.status)).count status.value := by
  rw [Database.statusCounts, lookup_groupCounts]

theorem count_waiting (rows : List RequestRow) :
    (rows.map (·.status)).count AutomationStatus.queued.value +
      (rows.map (·.status)).count AutomationStatus.retrying.value =
        rows.countP RequestRow.waiting := by
  have hne : AutomationStatus.queued.value ≠ AutomationStatus.retrying.value := by decide
  induction rows with
  | nil => rfl
  | cons row rows ih =>
    simp only [List.map_cons, List.count_cons, List.countP_cons, RequestRow.waiting, beq_iff_eq,
      Bool.or_eq_true, decide_eq_true_eq] at ih ⊢
    by_cases hqueued : row.status = AutomationStatus.queued.value
    · have hretrying : row.status ≠ AutomationStatus.retrying.value := hqueued ▸ hne
      simp only [hqueued, hne, if_true, if_false, true_or]
      omega
    · simp only [hqueued, if_false, false_or]
      omega

/-- The two groups that wait are disjoint, so their counts add up to the rows that wait. -/
theorem depth_statusCounts :
    (db.statusCounts.lookup AutomationStatus.queued.value).getD 0 +
      (db.statusCounts.lookup AutomationStatus.retrying.value).getD 0 =
        db.requests.countP RequestRow.waiting := by
  rw [lookup_statusCounts, lookup_statusCounts, count_waiting]

theorem countP_waiting_eq_zero : db.requests.countP RequestRow.waiting = 0 ↔ ¬ db.SomeWaiting := by
  rw [List.countP_eq_zero, not_someWaiting]

end Counts

section Figures

/-- What `metrics` answers, told by the tables that its SELECTs found. -/
structure MetricsSnapshot.Shows (snapshot : MetricsSnapshot) (db₁ db₂ db₃ : Database)
    (now : Instant) : Prop where
  total : snapshot.totalRequests = db₁.requests.length
  byStatus : (snapshot.byStatus.map Prod.snd).sum = db₂.requests.length
  depth : snapshot.queueDepth = db₂.requests.countP RequestRow.waiting
  retrying : snapshot.retryingCount =
    (db₂.requests.map (·.status)).count AutomationStatus.retrying.value
  deadLetter : snapshot.deadLetterCount =
    (db₂.requests.map (·.status)).count AutomationStatus.deadLetter.value
  oldest : db₃.OldestAge now snapshot.oldestQueuedAgeSeconds

theorem metrics_shows {glances : ℕ → Glance}
    (hcreated : ∀ row ∈ (glances 2).db.requests, ∃ t : Instant, row.createdAt = t.isoformat) :
    ∃ snapshot, AutomationRepository.metrics.seen glances = .ok snapshot ∧
      snapshot.Shows (glances 0).db (glances 1).db (glances 2).db (glances 3).utc := by
  obtain ⟨age, hage, hoffered⟩ := oldestAge_spec hcreated (glances 3).utc
  have hseen := AutomationRepository.seen_metrics glances
  rw [hage] at hseen
  exact ⟨_, hseen, rfl, sum_statusCounts _, depth_statusCounts _, lookup_statusCounts _ _,
    lookup_statusCounts _ _, hoffered⟩

theorem MetricsSnapshot.Shows.consistent_iff {snapshot : MetricsSnapshot} {db₁ db₂ db₃ : Database}
    {now : Instant} (hs : snapshot.Shows db₁ db₂ db₃ now) :
    snapshot.Consistent ↔ db₁.requests.length = db₂.requests.length ∧
      (db₂.SomeWaiting ↔ db₃.SomeWaiting) := by
  have hzero : snapshot.queueDepth = 0 ↔ ¬ db₂.SomeWaiting := by
    rw [hs.depth]
    exact countP_waiting_eq_zero db₂
  constructor
  · rintro ⟨htotal, -, holdest⟩
    rw [hs.total, hs.byStatus] at htotal
    rw [hs.oldest.none_iff, hzero, not_iff_not] at holdest
    exact ⟨htotal, holdest.symm⟩
  · rintro ⟨hlength, hwaiting⟩
    refine ⟨?_, ?_, ?_⟩
    · rw [hs.total, hs.byStatus, hlength]
    · rw [hs.depth, hs.total, hlength]
      exact List.countP_le_length
    · rw [hs.oldest.none_iff, hzero, hwaiting]

end Figures

section Runs
variable [JsonCodec] {T : Type} [DecidableEq T] {h evs evs' : List (OpenEvent T)}
variable {s s' s₁ s₂ s₃ : OpenSystem T} {ev : OpenEvent T}

def submits : OpenEvent T → Bool
  | .did _ _ (.transaction (.insertRequest _ _ _)) (.ok _) => true
  | _ => false

omit [JsonCodec] in
theorem mem_requests_move {db : Database} {id : String} {tr : Transition} {row : RequestRow}
    (hrow : row ∈ (db.move id tr).requests) :
    ∃ old ∈ db.requests, row.createdAt = old.createdAt := by
  have hmap : row ∈ db.requests.map fun r => if r.requestId = id then r.set tr.values else r := hrow
  obtain ⟨old, hold, rfl⟩ := List.mem_map.mp hmap
  refine ⟨old, hold, ?_⟩
  split <;> rfl

omit [JsonCodec] in
theorem length_requests_move (db : Database) (id : String) (tr : Transition) :
    (db.move id tr).requests.length = db.requests.length := List.length_map _

theorem OpenRuns.createdAt_text (hr : OpenRuns h s) :
    ∀ row ∈ s.shared.db.requests, ∃ t : Instant, row.createdAt = t.isoformat := by
  apply Interleaving.Runs.invariant
    (I := fun _ s => ∀ row ∈ s.shared.db.requests, ∃ t : Instant, row.createdAt = t.isoformat)
    ?_ ?_ hr
  · intro s hi row hrow
    rw [hi.1] at hrow
    cases hrow
  · intro h s s' ev hr hI hs row hrow
    rcases open_step hs with hdb | ⟨t, c, op, r, rfl, hw⟩
    · rw [hdb] at hrow
      exact hI row hrow
    · have hgiven : ∀ now, op.given = some now → ∃ t : Instant, now = t.isoformat := by
        intro now hop
        obtain ⟨reading, -, htext⟩ := OpenRuns.given hr hs hop
        exact ⟨reading, htext⟩
      generalize s'.shared.db = db' at hw hrow
      cases hw with
      | nothing => exact hI row hrow
      | inserted hsub =>
        rw [hsub.requests] at hrow
        rcases List.mem_append.mp hrow with hrow | hrow
        · exact hI row hrow
        · obtain rfl := List.mem_singleton.mp hrow
          exact hgiven _ rfl
      | _ =>
        obtain ⟨old, hold, heq⟩ := mem_requests_move hrow
        rw [heq]
        exact hI old hold

theorem length_step (hs : OpenStep s ev s') :
    s'.shared.db.requests.length =
      s.shared.db.requests.length + if submits ev = true then 1 else 0 := by
  rcases open_cases hs with ⟨hdb, hev⟩ | ⟨t, c, op, r, rfl⟩
  · have hsubmits : submits ev = false := by
      unfold submits
      split
      · exact absurd rfl (hev _ _ _ _)
      · rfl
    rw [hdb, hsubmits]
    rfl
  · have ho := open_outcome hs
    have hw := ho.wrote
    generalize s'.shared.db = db' at ho hw ⊢
    cases op with
    | insertRequest id request now =>
      cases r with
      | ok answer =>
        rw [Submitted.requests ho, List.length_append]
        rfl
      | error exc =>
        obtain rfl : db' = s.shared.db := ho.1
        rfl
    | _ =>
      cases hw with
      | nothing => rfl
      | _ => exact length_requests_move _ _ _

theorem length_steps (hl : Interleaving.Steps openMachine s₁ evs s₂) :
    s₂.shared.db.requests.length = s₁.shared.db.requests.length + evs.countP submits := by
  induction hl with
  | refl => rfl
  | step hl hs ih =>
    rw [length_step hs, ih, List.countP_cons]
    omega

theorem quiet_steps (hl : Interleaving.Steps openMachine s₁ evs s₂)
    (hquiet : ∀ id, writtenTo id evs = []) : s₂.shared.db = s₁.shared.db := by
  induction hl with
  | refl => rfl
  | @step evs s' s'' ev hl hs ih =>
    simp only [writtenTo_cons, List.append_eq_nil_iff] at hquiet
    rw [← ih fun id => (hquiet id).2]
    rcases (open_stamped hs).cases with ⟨hdb, -⟩ | ⟨id, time, -, -, htimes⟩
    · exact hdb
    · have hself := (hquiet id).1
      rw [htimes, if_pos rfl] at hself
      cases hself

/-- In every interleaving of the three SELECTs with what others commit, `metrics` answers. Its
figures fit together exactly if nothing was submitted between the two counts and a request waits
for the third SELECT if and only if one did for the second; so they do if nothing is written. -/
theorem queue_metrics_iff (hr : OpenRuns h s₁) (hl : Interleaving.Steps openMachine s₁ evs s₂)
    (hl' : Interleaving.Steps openMachine s₂ evs' s₃) {glances : ℕ → Glance}
    (h₁ : (glances 0).db = s₁.shared.db) (h₂ : (glances 1).db = s₂.shared.db)
    (h₃ : (glances 2).db = s₃.shared.db) :
    ∃ snapshot, AutomationRepository.metrics.seen glances = .ok snapshot ∧
      (snapshot.Consistent ↔ evs.countP submits = 0 ∧
        (s₂.shared.db.SomeWaiting ↔ s₃.shared.db.SomeWaiting)) ∧
      ((∀ id, writtenTo id (evs' ++ evs) = []) → snapshot.Consistent) := by
  have hr₃ : OpenRuns (evs' ++ (evs ++ h)) s₃ := (hr.append hl).append hl'
  have hlength := length_steps hl
  have htexts : ∀ row ∈ (glances 2).db.requests, ∃ t : Instant, row.createdAt = t.isoformat := by
    rw [h₃]
    exact hr₃.createdAt_text
  obtain ⟨snapshot, hseen, hshows⟩ := metrics_shows htexts
  rw [h₁, h₂, h₃] at hshows
  refine ⟨snapshot, hseen, ?_, ?_⟩
  · rw [hshows.consistent_iff, hlength, eq_comm, Nat.add_eq_left]
  · intro hquiet
    have hquiet' : ∀ id, writtenTo id evs' = [] ∧ writtenTo id evs = [] := by
      intro id
      have happend := hquiet id
      rwa [writtenTo, List.flatMap_append, List.append_eq_nil_iff] at happend
    have hsame := quiet_steps hl fun id => (hquiet' id).2
    have hsame' := quiet_steps hl' fun id => (hquiet' id).1
    rw [hshows.consistent_iff, hsame', hsame]
    exact ⟨rfl, Iff.rfl⟩

end Runs

section Sample

def metricsGlances (first second third : Database) : ℕ → Glance
  | 0 => ⟨first, Choice.calm.utc⟩
  | 1 => ⟨second, Choice.calm.utc⟩
  | _ => ⟨third, Choice.calm.utc⟩

theorem queue_metrics_iff_sample : ∃ snapshot,
    AutomationRepository.metrics.seen (metricsGlances queuedOnce.shared.db queuedOnce.shared.db
      queuedOnce.shared.db) = .ok snapshot ∧ snapshot.Consistent := by
  let _ := emptyPayload
  let glances := metricsGlances queuedOnce.shared.db queuedOnce.shared.db queuedOnce.shared.db
  have hsame : ∀ n ≤ 2, (glances n).db = queuedOnce.shared.db
    | 0, _ => rfl
    | 1, _ => rfl
    | 2, _ => rfl
  obtain ⟨snapshot, hseen, -, hquiet⟩ := queue_metrics_iff (openPlay_runs _) .refl .refl
    (hsame 0 (by omega)) (hsame 1 (by omega)) (hsame 2 (by omega))
  exact ⟨snapshot, hseen, hquiet fun _ => rfl⟩

/-- The first SELECT runs before a submission, the second after it, and the third after the claim:
one request in a table of none, that waits without an age. -/
theorem queue_metrics_torn : letI := emptyPayload
    ∃ evs snapshot, OpenRuns [] OpenSystem.initial ∧
      Interleaving.Steps openMachine OpenSystem.initial evs queuedOnce ∧
      Interleaving.Steps openMachine queuedOnce claimedMeanwhile.1 claimedMeanwhile.2 ∧
      AutomationRepository.metrics.seen (metricsGlances OpenSystem.initial.shared.db
        queuedOnce.shared.db claimedMeanwhile.2.shared.db) = .ok snapshot ∧
      snapshot.totalRequests = 0 ∧ snapshot.byStatus = [("queued", 1)] ∧
      snapshot.queueDepth = 1 ∧ snapshot.oldestQueuedAgeSeconds = none ∧
      ¬ snapshot.Consistent := by
  let _ := emptyPayload
  have hview : (AutomationRepository.metrics.seen (metricsGlances OpenSystem.initial.shared.db
      queuedOnce.shared.db claimedMeanwhile.2.shared.db)).toOption =
        some ⟨0, [("queued", 1)], 1, 0, 0, none⟩ := by decide +kernel
  refine ⟨_, ⟨0, [("queued", 1)], 1, 0, 0, none⟩, openPlay_runs [],
    Interleaving.Steps.play _ .refl, Interleaving.Steps.play _ .refl, ?_, rfl, rfl, rfl, rfl, ?_⟩
  · cases hseen : AutomationRepository.metrics.seen (metricsGlances OpenSystem.initial.shared.db
        queuedOnce.shared.db claimedMeanwhile.2.shared.db) with
    | error exc =>
      rw [hseen] at hview
      cases hview
    | ok snapshot =>
      rw [hseen] at hview
      exact congrArg Except.ok (Option.some.inj hview)
  · rintro ⟨htotal, -, -⟩
    cases htotal

end Sample

end Orchestrator
