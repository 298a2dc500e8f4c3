import Orchestrator.Journal
import Orchestrator.Progress

/-!
# Custody of the RUNNING requests

A RUNNING request is in the hands of one process, or it is lost: the `run_once` that had
claimed it has raised. There is no lease that expires, so a request whose holder stops
taking steps stays exactly as it is, whatever the other processes do.
-/

namespace Orchestrator

open Interaction Job
set_option autoImplicit false

variable {T : Type}

theorem idle_of_start {ph : Phase} {t : T} {c : Choice} {e : Eff} {r : e.Res} {id : String}
    (hal : ph.allows e) (hmark : markOf (.did t c e r : Event T) = some (id, .start)) :
    ph = .idle := by
  cases e with
  | transaction op =>
    cases op with
    | claim id' now => exact hal
    | claimNext now => exact hal
    | _ => cases r <;> simp [markOf] at hmark
  | execute id' request => simp [markOf] at hmark
  | _ => simp [markOf] at hmark

def actor : Event T → Option T
  | .start t _ | .did t _ _ _ | .stop t _ _ => some t
  | .disturb => none

section Changes
variable [JsonCodec] {db db' : Database} {ph ph' : Phase} {mark : Option (String × Mark)}
variable {id : String}

/-- Only the process that holds a RUNNING request leaves a mark on it. -/
theorem Change.holder {m : Mark} (hc : Change db ph (some (id, m)) db' ph')
    (hrun : db.HasStatus id .running) : ph.holding = some id := by
  obtain ⟨row, hrow, hst⟩ := hrun
  cases hc with
  | enqueue hsub =>
    rw [hsub.fresh] at hrow
    cases hrow
  | start hrow' hel =>
    obtain rfl := Option.some.inj (hrow'.symm.trans hrow)
    exact absurd hst (RequestRow.not_running_of_eligible _ hel)
  | execute ok hph =>
    rw [hph]
    rfl
  | settle hph hrow' hnext => rcases hph with hph | hph <;> rw [hph] <;> rfl
  | finish hph =>
    rw [hph]
    rfl
  | requeue hrow' hdead =>
    obtain rfl := Option.some.inj (hrow'.symm.trans hrow)
    simp [hdead] at hst

theorem Change.held (hc : Change db ph mark db' ph') (hold : ph'.holding = some id) :
    ph.holding = some id ∨ ¬ db.HasStatus id .running := by
  cases hc with
  | quiet | enqueue | requeue => exact .inl hold
  | @start id' now row hrow hel =>
    obtain rfl : id' = id := Option.some.inj hold
    refine .inr ?_
    intro hrun
    obtain ⟨row', hrow', hst⟩ := hrun
    obtain rfl := Option.some.inj (hrow.symm.trans hrow')
    exact row.not_running_of_eligible hel hst
  | execute ok hph =>
    rw [hph]
    cases ok <;> exact .inl hold
  | settle | finish => cases hold

theorem Change.running (hc : Change db ph mark db' ph')
    (hidle : ∀ id, mark = some (id, .start) → ph = .idle) (hrun : db'.HasStatus id .running) :
    ph'.holding = some id ∨ db.HasStatus id .running ∧ ph.holding ≠ some id := by
  cases hc with
  | quiet =>
    by_cases hold : ph.holding = some id
    · exact .inl hold
    · exact .inr ⟨hrun, hold⟩
  | enqueue hsub =>
    obtain ⟨row, hrow, hst⟩ := hrun
    rcases hsub.row_cases hrow with ⟨-, rfl⟩ | ⟨-, hrow⟩
    · have hqueued : AutomationStatus.queued = .running := AutomationStatus.value_inj.mp hst
      cases hqueued
    · by_cases hold : ph.holding = some id
      · exact .inl hold
      · exact .inr ⟨⟨row, hrow, hst⟩, hold⟩
  | @start id' now row hrow hel =>
    by_cases hid : id = id'
    · subst hid
      exact .inl rfl
    · obtain ⟨row', hrow', hst⟩ := hrun
      rw [Database.row?_move_of_ne _ hid] at hrow'
      refine .inr ⟨⟨row', hrow', hst⟩, ?_⟩
      rw [hidle _ rfl]
      simp [Phase.holding]
  | execute ok hph =>
    by_cases hold : ph.holding = some id
    · refine .inl ?_
      rw [hph] at hold
      cases ok <;> exact hold
    · exact .inr ⟨hrun, hold⟩
  | @settle id' detail row clock delay nextAttemptAt hph hrow hnext =>
    have htr : (row.settled detail nextAttemptAt clock.isoformat).status ≠ .running := by
      rcases row.failureStatus_cases with hst | hst <;> simp [RequestRow.settled, hst]
    obtain ⟨hne, hrun⟩ := hrun.of_move htr
    refine .inr ⟨hrun, ?_⟩
    rcases hph with hph | hph <;> rw [hph] <;> simp [Phase.holding, Ne.symm hne]
  | finish hph =>
    obtain ⟨hne, hrun⟩ := hrun.of_move (by simp [Transition.completed])
    refine .inr ⟨hrun, ?_⟩
    rw [hph]
    simp [Phase.holding, Ne.symm hne]
  | requeue hrow hdead =>
    have hrun := (hrun.of_move (by simp [Transition.replayed])).2
    by_cases hold : ph.holding = some id
    · exact .inl hold
    · exact .inr ⟨hrun, hold⟩

end Changes

variable [DecidableEq T]

/-- The `run_once` that held a request has ended with an exception. -/
def Lost : List (Event T) → String → Prop
  | [], _ => False
  | .stop t _ reply :: h, id =>
    (holding h t = some id ∧ ∃ exc, reply = .ran (.error exc) ∧ exc.OutOfRange) ∨ Lost h id
  | _ :: h, id => Lost h id

variable [JsonCodec] {h evs : List (Event T)} {s s' : System T} {ev : Event T} {id : String}

theorem Runs.untouched (hr : Runs h s) (hs : Step s ev s')
    (hrun : s.shared.db.HasStatus id .running)
    (hother : ∀ t, actor ev = some t → holding h t ≠ some id) :
    s'.shared.db.row? id = s.shared.db.row? id ∧
      s'.shared.db.auditLog id = s.shared.db.auditLog id ∧ (∀ m, markOf ev ≠ some (id, m)) ∧
      ∀ t, holding (ev :: h) t = some id ↔ holding h t = some id := by
  have hx := hr.follows.2
  cases ev with
  | start t call =>
    have hidle : lifecycle.phase h t = .idle := by
      cases hs with
      | start _ _ hnone => exact (hr.follows.1 t).1 hnone
    have hphase : lifecycle.phase (.start t call :: h) = lifecycle.phase h := by
      rw [lifecycle.phase_start, show lifecycle.start call = lifecycle.phase h t from hidle.symm,
        Function.update_eq_self]
    rw [hs.start_shared]
    refine ⟨rfl, rfl, by simp [markOf], fun t' => ?_⟩
    rw [holding, hphase, holding]
  | stop t call reply =>
    rw [hs.stop_shared]
    refine ⟨rfl, rfl, by simp [markOf], fun t' => ?_⟩
    rw [holding, lifecycle.phase_stop]
    by_cases ht : t' = t
    · subst ht
      simpa [lifecycle, Phase.holding] using hother t' rfl
    · rw [Function.update_of_ne ht, holding]
  | disturb =>
    rw [show s'.shared.db = s.shared.db from hs.disturb_shared]
    exact ⟨rfl, rfl, by simp [markOf], fun _ => .rfl⟩
  | did t c e r =>
    have hc := change_of_step (hr.follows.1.allowed hs) hs
    have hmark : ∀ m, markOf (.did t c e r) ≠ some (id, m) := by
      intro m hm
      rw [hm] at hc
      exact hother t rfl (hc.holder hrun)
    have hself : ((lifecycle.phase h t).next e r).holding ≠ some id := by
      intro hold
      rcases hc.held hold with hold | hfree
      · exact hother t rfl hold
      · exact hfree hrun
    refine ⟨?_, ?_, hmark, ?_⟩
    · rcases hc.moves hx hr.remembers with ⟨-, hdb⟩ | ⟨id', m, hm, entries, -, -, -, hframe⟩
      · rw [hdb]
      · refine (hframe id ?_).1
        rintro rfl
        exact hmark m hm
    · rcases hc.moves hx hr.remembers with ⟨-, hdb⟩ | ⟨id', m, hm, entries, -, -, -, hframe⟩
      · rw [hdb]
      · rw [Database.auditLog, Database.auditLog, (hframe id ?_).2]
        rintro rfl
        exact hmark m hm
    · intro t'
      rw [holding, lifecycle.phase_did]
      by_cases ht : t' = t
      · subst ht
        rw [Function.update_self]
        exact ⟨fun hold => absurd hold hself, fun hold => absurd hold (hother t' rfl)⟩
      · rw [Function.update_of_ne ht, holding]

omit [JsonCodec] in
theorem lost_cons (hlost : Lost h id) (ev : Event T) : Lost (ev :: h) id := by
  cases ev with
  | stop t call reply => exact .inr hlost
  | _ => exact hlost

theorem Runs.lost (hr : Runs h s) (hlost : Lost h id) :
    s.shared.db.HasStatus id .running ∧ ∀ t, holding h t ≠ some id := by
  induction hr with
  | init hi => cases hlost
  | @step h s s' ev hr hs ih =>
    have hr : Runs h s := hr
    have later : Lost h id → s'.shared.db.HasStatus id .running ∧
        ∀ t, holding (ev :: h) t ≠ some id := by
      intro hlost
      obtain ⟨hrun, hfree⟩ := ih hlost
      obtain ⟨hrow, -, -, hhold⟩ := hr.untouched hs hrun fun t _ => hfree t
      refine ⟨?_, fun t hold => hfree t ((hhold t).mp hold)⟩
      obtain ⟨row, hrow', hst⟩ := hrun
      exact ⟨row, hrow.trans hrow', hst⟩
    cases ev with
    | stop t call reply =>
      rcases hlost with ⟨hold, -⟩ | hlost
      · have hx := hr.follows.2
        refine ⟨?_, ?_⟩
        · rw [hs.stop_shared]
          exact hx.marked t id hold
        · intro t' hold'
          rw [holding, lifecycle.phase_stop] at hold'
          by_cases ht : t' = t
          · subst ht
            rw [Function.update_self] at hold'
            cases hold'
          · rw [Function.update_of_ne ht] at hold'
            exact ht (hx.unique t' t id hold' hold)
      · exact later hlost
    | _ => exact later hlost

theorem Runs.held_or_lost (hr : Runs h s) (hrun : s.shared.db.HasStatus id .running) :
    (∃ t, holding h t = some id) ∨ Lost h id := by
  induction hr with
  | init hi =>
    obtain ⟨row, hrow, -⟩ := hrun
    rw [hi.1] at hrow
    cases hrow
  | @step h s s' ev hr hs ih =>
    have hr : Runs h s := hr
    -- a step of somebody else leaves a holder where it is
    have keep : s.shared.db.HasStatus id .running →
        (∀ t, actor ev = some t → holding h t ≠ some id) →
        (∃ t, holding (ev :: h) t = some id) ∨ Lost (ev :: h) id := by
      intro hrun hother
      obtain ⟨-, -, -, hhold⟩ := hr.untouched hs hrun hother
      rcases ih hrun with ⟨t, hold⟩ | hlost
      · exact .inl ⟨t, (hhold t).mpr hold⟩
      · exact .inr (lost_cons hlost ev)
    cases ev with
    | start t call =>
      rw [hs.start_shared] at hrun
      apply keep hrun
      rintro _ ⟨⟩
      have hidle : lifecycle.phase h t = .idle := by
        cases hs with
        | start _ _ hnone => exact (hr.follows.1 t).1 hnone
      simp [holding, hidle, Phase.holding]
    | stop t call reply =>
      rw [hs.stop_shared] at hrun
      by_cases hold : holding h t = some id
      · exact .inr (.inl ⟨hold, stop_holding hr hs hold⟩)
      · apply keep hrun
        rintro _ ⟨⟩
        exact hold
    | disturb =>
      rw [show s'.shared.db = s.shared.db from hs.disturb_shared] at hrun
      exact keep hrun fun _ heq => by cases heq
    | did t c e r =>
      have hal := hr.follows.1.allowed hs
      rcases (change_of_step hal hs).running (fun id hmark => idle_of_start hal hmark) hrun
        with hold | ⟨hrun, hother⟩
      · refine .inl ⟨t, ?_⟩
        rw [holding, lifecycle.phase_did, Function.update_self]
        exact hold
      · apply keep hrun
        rintro _ ⟨⟩
        exact hother

def claimedRun : List (Event ℕ) × System ℕ :=
  letI := emptyPayload
  Interleaving.State.play machine
    [.start 1 (.runOnce sampleWorker), .go 1 .calm, .go 1 .calm] (sampleRun 1)

omit [JsonCodec] in
theorem claimedRun_runs : @Runs ℕ _ emptyPayload claimedRun.1 claimedRun.2 := by
  let _ := emptyPayload
  have hr : Runs (sampleRun 1).1 (sampleRun 1).2 := inTurn_runs _
  exact Interleaving.Runs.play _ hr

/-- The jitter ratio is not a number. -/
def jitterless : AutomationWorker := { sampleWorker with jitterRatio := .nan }

def refusing : ℕ → Choice :=
  fun _ => { Choice.calm with outcome := .error (.adapterError "refused") }

def lostRun : List (Event ℕ) × System ℕ :=
  letI := emptyPayload
  ((sampleRun 1).2.traceAlone 1 refusing (.runOnce jitterless) (sampleRun 1).1,
    (sampleRun 1).2.alone 1 refusing (.runOnce jitterless))

/-- The holder of a request, if any, takes none of the steps. -/
def Abandoned (h evs : List (Event T)) (id : String) : Prop :=
  ∀ t, holding h t = some id → ∀ ev ∈ evs, actor ev ≠ some t

/-- A RUNNING request whose holder takes no further step, or that nobody holds, stays as it is
for good: nobody claims, executes, settles or replays it, whatever the others do. -/
theorem abandoned_forever (hr : Runs h s) (hl : Steps s evs s')
    (hrun : s.shared.db.HasStatus id .running) (habandoned : Abandoned h evs id) :
    s'.shared.db.row? id = s.shared.db.row? id ∧
      s'.shared.db.auditLog id = s.shared.db.auditLog id ∧
      ∀ ev ∈ evs, ∀ m, markOf ev ≠ some (id, m) := by
  suffices h : (s'.shared.db.row? id = s.shared.db.row? id ∧
      s'.shared.db.auditLog id = s.shared.db.auditLog id ∧
      ∀ ev ∈ evs, ∀ m, markOf ev ≠ some (id, m)) ∧
      ∀ t, holding (evs ++ h) t = some id ↔ holding h t = some id from h.1
  induction hl with
  | refl => exact ⟨⟨rfl, rfl, fun _ hmem => absurd hmem List.not_mem_nil⟩, fun _ => .rfl⟩
  | @step evs s' s'' ev hl hs ih =>
    obtain ⟨⟨hrow, hlog, hmarks⟩, hhold⟩ := ih fun t hold ev' hmem =>
      habandoned t hold ev' (List.mem_cons_of_mem _ hmem)
    have hrun' : s'.shared.db.HasStatus id .running := by
      obtain ⟨row, hrow', hst⟩ := hrun
      exact ⟨row, hrow.trans hrow', hst⟩
    have hother : ∀ t, actor ev = some t → holding (evs ++ h) t ≠ some id :=
      fun t hactor hold => habandoned t ((hhold t).mp hold) ev List.mem_cons_self hactor
    obtain ⟨hrow', hlog', hmark, hhold'⟩ := Runs.untouched (hr.append hl) hs hrun' hother
    refine ⟨⟨hrow'.trans hrow, hlog'.trans hlog, ?_⟩, fun t => (hhold' t).trans (hhold t)⟩
    intro ev' hmem
    rcases List.mem_cons.mp hmem with rfl | hmem
    · exact hmark
    · exact hmarks ev' hmem

omit [JsonCodec] in
/-- The worker stops there, while another one looks for work. -/
theorem abandoned_forever_sample : letI := emptyPayload
    ∃ evs s', Runs claimedRun.1 claimedRun.2 ∧ Steps claimedRun.2 evs s' ∧ evs ≠ [] ∧
      claimedRun.2.shared.db.HasStatus "a" .running ∧
      s'.shared.db.row? "a" = claimedRun.2.shared.db.row? "a" := by
  let _ := emptyPayload
  have hr := claimedRun_runs
  have hx := hr.follows.2
  have hold : holding claimedRun.1 1 = some "a" := by decide +kernel
  have hrun := hx.marked 1 "a" hold
  have hl := Steps.alone (s := claimedRun.2) (t := 2) rfl (fun _ => .calm) (.runOnce sampleWorker)
  refine ⟨_, _, hr, hl, List.cons_ne_nil _ _, hrun, (abandoned_forever hr hl hrun ?_).1⟩
  intro t ht
  obtain rfl := hx.unique t 1 "a" ht hold
  decide +kernel

end Orchestrator
