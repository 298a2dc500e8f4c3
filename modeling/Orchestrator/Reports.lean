import Orchestrator.Budget
import Orchestrator.Cooling
import Orchestrator.Custody
import Orchestrator.Library.Moments

/-!
# What the audit log reports

A worker executes exactly the request that it has claimed, and it settles that request with
what the execution said: the text that the adapter returned, or the text of its exception.
So the log of a request tells the outcomes of its executions, and a request is executed again
only after the failure of its last execution has been recorded.
-/

namespace Orchestrator

open Library Interaction Job Discipline AutomationRepository
set_option autoImplicit false

/-- What a process knows about the request it works on. -/
inductive Report where
  | idle
  | claimed (requestId : String) (request : AutomationRequest)
  | returned (requestId detail : String)
  | raised (requestId : String) (exc : PyExc)

namespace Report

def allows (ph : Report) : Eff → Prop
  | .execute id request => ph = claimed id request
  | .transaction (.claim ..) | .transaction (.claimNext _) => ph = idle
  | .transaction (.failOrRetry id detail _) =>
    (∃ request, ph = claimed id request ∧
      detail = AutomationWorker.coolingDetail request.target) ∨
      ∃ exc, ph = raised id exc ∧ detail = exc.str
  | .transaction (.updateStatus id status detail _) => ph = returned id detail ∧
      status = .completed
  | _ => True

def next (ph : Report) : (e : Eff) → e.Res → Report
  | .execute id _, .ok detail => returned id detail
  | .execute id _, .error exc => raised id exc
  | .transaction (.claim ..), .ok (some (id, request)) => claimed id request
  | .transaction (.claimNext _), .ok (some (id, request)) => claimed id request
  | .transaction (.failOrRetry ..), .ok _ => idle
  | .transaction (.updateStatus ..), .ok _ => idle
  | _, _ => ph

/-- The phase of the lifecycle, which forgets the texts. -/
def phase : Report → Phase
  | idle => .idle
  | claimed id _ => .claimed id
  | returned id _ => .succeeded id
  | raised id _ => .failed id

end Report

def reporting : Interleaving.Protocol Eff Eff.Res Call Report where
  allowed := Report.allows
  admits _ _ _ := True
  next := Report.next
  idle := .idle
  start _ := .idle

theorem reporting_ignores {k : Eff.Kind} (hk : k ≠ .works) : reporting.Ignores (·.kind = k) := by
  rintro e rfl ph
  cases e with
  | execute => exact absurd rfl hk
  | transaction op => cases op <;> first | exact absurd rfl hk | exact ⟨trivial, fun _ => rfl⟩
  | _ => exact ⟨trivial, fun _ => rfl⟩

theorem reporting_quiet : reporting.Ignores (·.kind = .quiet) := reporting_ignores (by decide)

theorem reporting_plain : reporting.Ignores Eff.Plain := ignores_plain reporting_quiet

theorem reporting_still : reporting.Ignores Eff.Still := ignores_still reporting_quiet

/-- After a claim the process knows the request that it claimed, if any. -/
def AfterReport (ph : Report) : Except PyExc (Option (String × AutomationRequest)) → Prop
  | .ok (some (id, request)) => ph = .claimed id request
  | _ => ph = .idle

theorem reports_claimNext : reporting.wp claimNext.run AfterReport .idle := by
  apply (neutral_utcNow reporting_plain).wp_bind ?_ fun _ => rfl
  intro now
  refine ⟨rfl, ?_⟩
  intro r _
  rcases r with x | _ | ⟨id, request⟩ <;> rfl

theorem reports_claim (id : String) : reporting.wp (claim id).run AfterReport .idle := by
  apply (neutral_utcNow reporting_plain).wp_bind ?_ fun _ => rfl
  intro now
  refine ⟨rfl, ?_⟩
  intro r _
  rcases r with x | _ | ⟨id, request⟩ <;> rfl

namespace AutomationWorker

variable (worker : AutomationWorker) {id : String} {request : AutomationRequest}

theorem reports_claimWork : reporting.wp worker.claimWork.run AfterReport .idle := by
  apply (neutral_dispatcherOr reporting_still _).wp_bind ?_ fun _ => rfl
  intro dispatcher
  cases dispatcher with
  | database => exact reports_claimNext
  | redis redisUrl queueName client =>
    apply (neutral_consume reporting_still _).wp_bind ?_ fun _ => rfl
    intro message
    cases message with
    | none => exact reports_claimNext
    | some id =>
      simp only [wp_except_bind]
      apply reporting.wp_mono (reports_claim id) ?_
      intro ph r hr
      rcases r with x | _ | ⟨id, request⟩ <;> cases hr
      · rfl
      · exact reports_claimNext
      · rfl

theorem reports_rateLimited (text : String) (hint : Option Int) :
    reporting.wp (worker.rateLimited id request text hint).run (fun _ _ => True)
      (.raised id (.retryableAdapterError text hint)) := by
  apply (neutral_currentAttempt reporting_still id).wp_bind ?_ fun _ => trivial
  intro attempt
  cases hint with
  | none =>
    apply (neutral_backoff reporting_still worker attempt).wp_bind ?_ fun _ => trivial
    exact fun delay => ⟨.inr ⟨_, rfl, rfl⟩, fun _ _ => trivial⟩
  | some delay =>
    apply (neutral_ask reporting_quiet .monotonic rfl).wp_bind ?_ fun _ => trivial
    intro monotonic
    apply (neutral_ofFloat _).wp_bind ?_ fun _ => trivial
    intro deadline
    apply (neutral_ask reporting_quiet (.cooldownSet request.target deadline)
      rfl).wp_bind ?_ fun _ => trivial
    exact fun _ => ⟨.inr ⟨_, rfl, rfl⟩, fun _ _ => trivial⟩

theorem reports_executionFailed (exc : PyExc) :
    reporting.wp (worker.executionFailed id exc).run (fun _ _ => True) (.raised id exc) := by
  apply (neutral_currentAttempt reporting_still id).wp_bind ?_ fun _ => trivial
  intro attempt
  apply (neutral_backoff reporting_still worker attempt).wp_bind ?_ fun _ => trivial
  exact fun delay => ⟨.inr ⟨_, rfl, rfl⟩, fun _ _ => trivial⟩

theorem reports_runAdapter :
    reporting.wp (worker.runAdapter id request).run (fun _ _ => True) (.claimed id request) := by
  refine ⟨rfl, ?_⟩
  intro r _
  rcases r with exc | detail
  · cases exc with
    | retryableAdapterError text hint => exact reports_rateLimited worker text hint
    | _ => exact reports_executionFailed worker _
  · apply (neutral_ask reporting_quiet (.cooldownPop request.target)
      rfl).wp_bind ?_ fun _ => trivial
    intro _
    apply (neutral_utcNow reporting_plain).wp_bind ?_ fun _ => trivial
    exact fun now => ⟨⟨rfl, rfl⟩, fun _ _ => trivial⟩

theorem reports_processClaimed :
    reporting.wp (worker.processClaimed id request).run (fun _ _ => True)
      (.claimed id request) := by
  apply (neutral_ask reporting_quiet (.cooldownGet request.target)
    rfl).wp_bind ?_ fun _ => trivial
  intro cooldown
  apply (neutral_ask reporting_quiet .monotonic rfl).wp_bind ?_ fun _ => trivial
  intro monotonic
  split
  · apply (neutral_ask reporting_quiet .monotonic rfl).wp_bind ?_ fun _ => trivial
    intro monotonic
    apply (neutral_ofFloat _).wp_bind ?_ fun _ => trivial
    exact fun delay => ⟨.inl ⟨_, rfl, rfl⟩, fun _ _ => trivial⟩
  · exact reports_runAdapter worker

theorem reports_runOnce : reporting.wp worker.runOnce.run (fun _ _ => True) .idle := by
  rw [runOnce, wp_except_bind]
  apply reporting.wp_mono (reports_claimWork worker)
  intro ph r hr
  rcases r with x | _ | ⟨id, request⟩ <;> cases hr
  · trivial
  · trivial
  · apply (wp_except_bind ..).mpr (reporting.wp_mono (reports_processClaimed worker) ?_)
    intro ph r _
    rcases r with x | _ <;> trivial

end AutomationWorker

theorem reporting_code (call : Call) :
    reporting.wp call.code (fun _ _ => True) (reporting.start call) := by
  cases call with
  | create id request =>
    have h := neutral_create reporting_plain (reporting_ignores (by decide)) id request
    exact (wp_bind ..).mpr (reporting.wp_mono (h _) fun _ _ _ => trivial)
  | submit service request =>
    have h := neutral_submit reporting_plain (reporting_ignores (by decide)) service request
    exact (wp_bind ..).mpr (reporting.wp_mono (h _) fun _ _ _ => trivial)
  | replayDeadLetter service id =>
    have h := neutral_replayDeadLetter reporting_plain (reporting_ignores (by decide)) service id
    exact (wp_bind ..).mpr (reporting.wp_mono (h _) fun _ _ _ => trivial)
  | runOnce worker =>
    exact (wp_bind ..).mpr (reporting.wp_mono worker.reports_runOnce fun _ _ _ => trivial)

theorem Report.phase_next (ph : Report) (e : Eff) (r : e.Res) :
    (ph.next e r).phase = ph.phase.next e r := by
  cases e with
  | execute id request => cases r <;> rfl
  | transaction op =>
    cases op with
    | claim id now => rcases r with exc | _ | ⟨id, request⟩ <;> rfl
    | claimNext now => rcases r with exc | _ | ⟨id, request⟩ <;> rfl
    | failOrRetry => cases r <;> rfl
    | updateStatus => cases r <;> rfl
    | _ => rfl
  | _ => rfl

variable {T : Type} [DecidableEq T]

theorem reporting_phase (h : List (Event T)) (t : T) :
    (reporting.phase h t).phase = lifecycle.phase h t := by
  induction h with
  | nil => rfl
  | cons ev h ih =>
    cases ev with
    | disturb => exact ih
    | did t' c e r =>
      simp only [Interleaving.Protocol.phase]
      split
      · exact (Report.phase_next _ e r).trans (congrArg (Phase.next · e r) ih)
      · exact ih
    | _ =>
      simp only [Interleaving.Protocol.phase]
      split
      · rfl
      · exact ih

/-- The mark that a step leaves on a request. -/
def markOn (id : String) (ev : Event T) : Option Mark :=
  match markOf ev with
  | some (id', m) => if id' = id then some m else none
  | none => none

def latest (h : List (Event T)) (id : String) : Option (Event T) :=
  h.find? fun ev => (markOn id ev).isSome

omit [DecidableEq T] in
theorem markOn_eq_some {ev : Event T} {id : String} {m : Mark} :
    markOn id ev = some m ↔ markOf ev = some (id, m) := by
  unfold markOn
  cases markOf ev with
  | none => simp
  | some mark =>
    obtain ⟨id', m'⟩ := mark
    by_cases hid : id' = id <;> simp [hid]

/-- The claim that a step made: by whom, and what it returned. -/
def claimOf : Event T → Option (T × String × AutomationRequest)
  | .did t _ (.transaction (.claimNext _)) (.ok (some (id, request))) => some (t, id, request)
  | .did t _ (.transaction (.claim ..)) (.ok (some (id, request))) => some (t, id, request)
  | _ => none

/-- What a process knows is what the latest step on its request told it. -/
def Report.Told (t : T) (latest : String → Option (Event T)) : Report → Prop
  | idle => True
  | claimed id request => ∃ ev, latest id = some ev ∧ claimOf ev = some (t, id, request)
  | returned id detail =>
    ∃ c request, latest id = some (.did t c (.execute id request) (.ok detail))
  | raised id exc => ∃ c request, latest id = some (.did t c (.execute id request) (.error exc))

omit [DecidableEq T] in
theorem latest_of_markOf {ev : Event T} {id : String} {m : Mark} (hm : markOf ev = some (id, m))
    (h : List (Event T)) : latest (ev :: h) id = some ev :=
  List.find?_cons_of_pos (by rw [markOn_eq_some.mpr hm]; rfl)

omit [DecidableEq T] in
theorem latest_append {h₂ : List (Event T)} {id : String} (hnone : ∀ ev ∈ h₂, markOn id ev = none)
    (h₁ : List (Event T)) : latest (h₂ ++ h₁) id = latest h₁ id := by
  have hfind : h₂.find? (fun ev => (markOn id ev).isSome) = none := by
    rw [List.find?_eq_none]
    intro ev hmem
    rw [hnone ev hmem]
    simp
  rw [latest, List.find?_append, hfind, Option.none_or, latest]

omit [DecidableEq T] in
theorem Report.Told.keep {t : T} {h : List (Event T)} {ev : Event T} {ph : Report}
    (hk : ph.Told t (latest h)) (hother : ∀ id, ph.phase.holding = some id → markOn id ev = none) :
    ph.Told t (latest (ev :: h)) := by
  have same : ∀ id, ph.phase.holding = some id → latest (ev :: h) id = latest h id := by
    intro id hold
    have hnone : ∀ ev' ∈ [ev], markOn id ev' = none := by simpa using hother id hold
    exact latest_append hnone h
  cases ph with
  | idle => trivial
  | _ =>
    rw [Told, same _ rfl]
    exact hk

section Runs
variable [JsonCodec] {h : List (Event T)} {s s' : System T} {ev : Event T}

theorem Runs.markOn_of_held (hr : Runs h s) (hs : Step s ev s') {t : T} {id : String}
    (hold : holding h t = some id) (hother : actor ev ≠ some t) : markOn id ev = none := by
  have hx := hr.follows.2
  have hfree : ∀ t', actor ev = some t' → holding h t' ≠ some id := by
    intro t' hactor hold'
    obtain rfl := hx.unique t t' id hold hold'
    exact hother hactor
  rw [Option.eq_none_iff_forall_ne_some]
  intro m hm
  exact (hr.untouched hs (hx.marked t id hold) hfree).2.2.1 m (markOn_eq_some.mp hm)

theorem Change.not_running {db db' : Database} {ph ph' : Phase} {id : String} {m : Mark}
    (hc : Change db ph (some (id, m)) db' ph') (hm : m = .enqueue ∨ m = .requeue) :
    ¬ db.HasStatus id .running := by
  rintro ⟨row, hrow, hst⟩
  cases hc with
  | enqueue hsub =>
    rw [hsub.fresh] at hrow
    cases hrow
  | requeue hrow' hdead =>
    obtain rfl := Option.some.inj (hrow'.symm.trans hrow)
    simp [hdead] at hst
  | _ => rcases hm with hm | hm <;> cases hm

theorem Runs.markOn_of_offered (hr : Runs h s) {t : T} {c : Choice} {e : Eff} {r : e.Res}
    (hs : Step s (.did t c e r) s')
    (hm : ∀ id m, markOf (.did t c e r : Event T) = some (id, m) → m = .enqueue ∨ m = .requeue)
    {id : String} (hold : holding h t = some id) : markOn id (.did t c e r : Event T) = none := by
  rw [Option.eq_none_iff_forall_ne_some]
  intro m hmark
  rw [markOn_eq_some] at hmark
  have hc := change_of_step (hr.follows.1.allowed hs) hs
  rw [hmark] at hc
  exact hc.not_running (hm _ _ hmark) (hr.follows.2.marked t _ hold)

theorem Runs.told_did (hr : Runs h s) {t : T} {c : Choice} {e : Eff} {r : e.Res}
    (hs : Step s (.did t c e r) s') {ph : Report} (hph : ph.phase = lifecycle.phase h t)
    (hal : ph.allows e) (hk : ph.Told t (latest h)) :
    (ph.next e r).Told t (latest (.did t c e r :: h)) := by
  have keep : (∀ id m, markOf (.did t c e r : Event T) = some (id, m) →
      m = .enqueue ∨ m = .requeue) → ph.Told t (latest (.did t c e r :: h)) := by
    intro hm
    apply hk.keep
    intro id hold
    rw [hph] at hold
    exact hr.markOn_of_offered hs hm hold
  cases e with
  | execute id request =>
    cases r <;> exact ⟨c, request, latest_of_markOf rfl h⟩
  | transaction op =>
    cases op with
    | claim id now =>
      rcases r with exc | _ | ⟨id', request⟩
      · exact keep (by simp [markOf])
      · exact keep (by simp [markOf])
      · exact ⟨_, latest_of_markOf rfl h, rfl⟩
    | claimNext now =>
      rcases r with exc | _ | ⟨id', request⟩
      · exact keep (by simp [markOf])
      · exact keep (by simp [markOf])
      · exact ⟨_, latest_of_markOf rfl h, rfl⟩
    | failOrRetry id detail delay =>
      cases r with
      | error exc => exact keep (by simp [markOf])
      | ok _ => trivial
    | updateStatus id status detail now =>
      cases r with
      | error exc => exact keep (by simp [markOf])
      | ok _ => trivial
    | insertRequest id request now =>
      apply keep
      cases r <;> simp [markOf]
    | replayDeadLetter id now =>
      apply keep
      cases r <;> simp [markOf]
    | _ => exact keep (by simp [markOf])
  | _ => exact keep (by simp [markOf])

theorem Runs.told (hr : Runs h s) :
    reporting.Follows (fun _ _ _ => True) h s ∧
      ∀ t, (reporting.phase h t).Told t (latest h) := by
  have hfollows : ∀ {h : List (Event T)} {s : System T}, Runs h s →
      reporting.Follows (fun _ _ _ => True) h s := fun hr =>
    Interleaving.Protocol.follows_runs reporting_code (fun _ _ _ => trivial) (fun _ hi => hi.2.1) hr
  refine ⟨hfollows hr, ?_⟩
  induction hr with
  | init hi => exact fun _ => trivial
  | @step h s s' ev hr hs ih =>
    have hr : Runs h s := hr
    intro t
    by_cases hactor : actor ev = some t
    · cases ev with
      | disturb => cases hactor
      | start t' call =>
        cases hactor
        rw [reporting.phase_start, Function.update_self]
        trivial
      | stop t' call reply =>
        cases hactor
        rw [reporting.phase_stop, Function.update_self]
        trivial
      | did t' c e r =>
        cases hactor
        have hal : (reporting.phase h t).allows e := (hfollows hr).allowed hs
        rw [reporting.phase_did, Function.update_self]
        exact hr.told_did hs (reporting_phase h t) hal (ih t)
    · have hsame : reporting.phase (ev :: h) t = reporting.phase h t := by
        cases ev with
        | disturb => rfl
        | _ => exact if_neg fun heq => hactor (congrArg some heq)
      rw [hsame]
      apply (ih t).keep
      intro id hold
      rw [reporting_phase] at hold
      exact hr.markOn_of_held hs hold hactor

/-- An adapter is called by the process that has claimed the request, with the request that the
claim returned, and once: nothing was recorded about the request since the claim. -/
theorem executed_once_per_claim {t : T} {c : Choice} {id : String} {request : AutomationRequest}
    {r : Except PyExc String} (hr : Runs (.did t c (.execute id request) r :: h) s) :
    ∃ h₂ ev h₁, h = h₂ ++ ev :: h₁ ∧ claimOf ev = some (t, id, request) ∧
      ∀ ev' ∈ h₂, ∀ m, markOf ev' ≠ some (id, m) := by
  cases hr with
  | step hr hs =>
    have hr : Runs h _ := hr
    have hal : reporting.phase h t = .claimed id request := hr.told.1.allowed hs
    have hk := hr.told.2 t
    rw [hal] at hk
    obtain ⟨ev, hlatest, hclaim⟩ := hk
    obtain ⟨-, h₂, h₁, rfl, hnone⟩ := List.find?_eq_some_iff_append.mp hlatest
    refine ⟨h₂, ev, h₁, rfl, hclaim, ?_⟩
    intro ev' hmem m hm
    simpa [markOn_eq_some.mpr hm] using hnone ev' hmem

def HasClaimed (t : T) (id : String) (request : AutomationRequest) (h : List (Event T)) : Prop :=
  ∃ ev h₁, Interleaving.Since t (ev :: h₁) h ∧ claimOf ev = some (t, id, request)

def HasCompared (t : T) (id : String) (request : AutomationRequest) (cooldown : Option Float64)
    (first : ℚ) : List (Event T) → Prop :=
  Interleaving.Did t .monotonic first
    (Interleaving.Did t (.cooldownGet request.target) cooldown (HasClaimed t id request))

/-- What a phase says of the call so far. -/
def Cooling.Noted (h : List (Event T)) (t : T) : Cooling → Prop
  | claimed id target => ∃ request, request.target = target ∧ HasClaimed t id request h
  | asked id target cooldown => ∃ request, request.target = target ∧
    Interleaving.Did t (.cooldownGet request.target) cooldown (HasClaimed t id request) h
  | compared id target cooldown first => ∃ request, request.target = target ∧
    HasCompared t id request cooldown first h
  | deferring id target cooldown first _ => coolsDown cooldown first = true ∧
    ∃ request, request.target = target ∧ HasCompared t id request cooldown first h
  | _ => True

omit [JsonCodec] [DecidableEq T] in
theorem Cooling.Noted.later {t : T} {ph : Cooling} (hn : ph.Noted h t)
    (hev : ∀ call, ev ≠ .start t call) : ph.Noted (ev :: h) t := by
  cases ph with
  | claimed id target =>
    obtain ⟨request, htarget, ev', h₁, hsince, hclaim⟩ := hn
    exact ⟨request, htarget, ev', h₁, hsince.later hev, hclaim⟩
  | asked id target cooldown =>
    obtain ⟨request, htarget, hread⟩ := hn
    exact ⟨request, htarget, hread.later hev⟩
  | compared id target cooldown first =>
    obtain ⟨request, htarget, hcompared⟩ := hn
    exact ⟨request, htarget, Interleaving.Did.later hcompared hev⟩
  | deferring id target cooldown first monotonic =>
    obtain ⟨hcools, request, htarget, hcompared⟩ := hn
    exact ⟨hcools, request, htarget, Interleaving.Did.later hcompared hev⟩
  | _ => trivial

omit [JsonCodec] [DecidableEq T] in
theorem Cooling.Noted.did {t : T} {c : Choice} {e : Eff} {r : e.Res} {ph : Cooling}
    (hn : ph.Noted h t) (hal : ph.allows e) : (ph.next e r).Noted (.did t c e r :: h) t := by
  have same : ph.Noted (.did t c e r :: h) t := hn.later fun _ heq => by cases heq
  cases e with
  | cooldownGet target =>
    obtain ⟨id, rfl⟩ := hal
    obtain ⟨request, rfl, hclaimed⟩ := hn
    exact ⟨request, rfl, .now hclaimed⟩
  | monotonic =>
    cases ph with
    | asked id target cooldown =>
      obtain ⟨request, htarget, hread⟩ := hn
      exact ⟨request, htarget, .now hread⟩
    | compared id target cooldown first => exact ⟨hal, same⟩
    | executed target hint => cases hint <;> trivial
    | _ => exact hal.elim
  | cooldownSet target deadline =>
    obtain ⟨seconds, monotonic, rfl, -⟩ := hal
    trivial
  | execute id request => trivial
  | transaction op =>
    cases op with
    | claim id now =>
      rcases r with exc | _ | ⟨id', request⟩
      · exact same
      · exact same
      · exact ⟨request, rfl, _, h, .refl t _, rfl⟩
    | claimNext now =>
      rcases r with exc | _ | ⟨id', request⟩
      · exact same
      · exact same
      · exact ⟨request, rfl, _, h, .refl t _, rfl⟩
    | failOrRetry id detail delay =>
      cases r with
      | error exc => exact same
      | ok _ => trivial
    | updateStatus id status detail now =>
      cases r with
      | error exc => exact same
      | ok _ => trivial
    | _ => exact same
  | _ => exact same

theorem Runs.noted (hr : Runs h s) :
    cooling.Follows (fun _ _ _ => True) h s ∧ ∀ t, (cooling.phase h t).Noted h t := by
  refine Interleaving.Protocol.notes (fun h t ph => Cooling.Noted h t ph) cooling_code
    (fun _ _ => trivial) ?_ Cooling.Noted.later ?_ (fun _ hi => hi.2.1) hr
  · intro h t call
    cases call <;> trivial
  · exact fun _ _ hal hn => ⟨trivial, hn.did hal⟩

/-- A request that has been claimed and not executed: its target is being compared, or has been. -/
def Cooling.Before (id target : String) : Cooling → Prop
  | claimed id' target' | asked id' target' _ | compared id' target' _ _
  | deferring id' target' _ _ _ => id' = id ∧ target' = target
  | _ => False

omit [DecidableEq T] [JsonCodec] in
theorem Cooling.before_next {ph : Report} {cph : Cooling} {e : Eff} {r : e.Res}
    (hb : ∀ id request, ph = .claimed id request → cph.Before id request.target) {id : String}
    {request : AutomationRequest} (hph : ph.next e r = .claimed id request) :
    (cph.next e r).Before id request.target := by
  cases e with
  | cooldownGet target =>
    have hbefore := hb id request hph
    cases cph <;> exact hbefore
  | monotonic =>
    have hbefore := hb id request hph
    cases cph with
    | executed target hint => exact hbefore.elim
    | _ => exact hbefore
  | cooldownSet target deadline =>
    have hbefore := hb id request hph
    cases cph with
    | timed target seconds monotonic => exact hbefore.elim
    | _ => exact hbefore
  | execute id request => cases r <;> cases hph
  | transaction op =>
    cases op with
    | claim id now =>
      rcases r with exc | _ | ⟨id', request⟩
      · exact hb _ _ hph
      · exact hb _ _ hph
      · cases hph
        exact ⟨rfl, rfl⟩
    | claimNext now =>
      rcases r with exc | _ | ⟨id', request⟩
      · exact hb _ _ hph
      · exact hb _ _ hph
      · cases hph
        exact ⟨rfl, rfl⟩
    | failOrRetry id detail delay =>
      cases r with
      | error exc => exact hb _ _ hph
      | ok _ => cases hph
    | updateStatus id status detail now =>
      cases r with
      | error exc => exact hb _ _ hph
      | ok _ => cases hph
    | _ => exact hb _ _ hph
  | _ => exact hb _ _ hph

omit [JsonCodec] in
theorem cooling_of_claimed (h : List (Event T)) (t : T) (id : String) (request : AutomationRequest)
    (hph : reporting.phase h t = .claimed id request) :
    (cooling.phase h t).Before id request.target := by
  induction h generalizing id request with
  | nil => cases hph
  | cons ev h ih =>
    cases ev with
    | disturb => exact ih id request hph
    | did t' c e r =>
      simp only [Interleaving.Protocol.phase] at hph ⊢
      split at hph
      · next ht =>
        rw [if_pos ht]
        exact Cooling.before_next ih hph
      · next ht =>
        rw [if_neg ht]
        exact ih id request hph
    | _ =>
      simp only [Interleaving.Protocol.phase] at hph ⊢
      split at hph
      · cases hph
      · next ht =>
        rw [if_neg ht]
        exact ih id request hph

/-- A failure that is recorded is that of the latest execution, or the target was cooling. -/
theorem Runs.settlement {t : T} {c : Choice} {id detail : String} {delay : Int}
    {r : Except PyExc Unit} (hr : Runs h s)
    (hs : Step s (.did t c (.transaction (.failOrRetry id detail delay)) r) s') :
    (∃ c' request exc, latest h id = some (.did t c' (.execute id request) (.error exc)) ∧
      detail = exc.str) ∨
    (∃ ev request, latest h id = some ev ∧ claimOf ev = some (t, id, request)) ∧
      ∃ request cooldown first, HasCompared t id request cooldown first h ∧
        coolsDown cooldown first = true ∧
        detail = AutomationWorker.coolingDetail request.target := by
  have hal : (reporting.phase h t).allows (.transaction (.failOrRetry id detail delay)) :=
    hr.told.1.allowed hs
  have hk := hr.told.2 t
  rcases hal with ⟨request, hph, hdetail⟩ | ⟨exc, hph, hdetail⟩
  · rw [hph] at hk
    obtain ⟨ev, hlatest, hclaim⟩ := hk
    refine .inr ⟨⟨ev, request, hlatest, hclaim⟩, ?_⟩
    obtain ⟨hfollows, hnoted⟩ := Runs.noted hr
    have hschedules : (cooling.phase h t).Schedules id delay := hfollows.allowed hs
    have hbefore := cooling_of_claimed h t id request hph
    have hn := hnoted t
    generalize cooling.phase h t = ph at hschedules hbefore hn
    cases ph with
    | deferring id' target cooldown first monotonic =>
      obtain ⟨rfl, rfl⟩ := hbefore
      obtain ⟨hcools, request', htarget, hcompared⟩ := hn
      exact ⟨request', cooldown, first, hcompared, hcools, by rw [hdetail, htarget]⟩
    | executed target hint => exact hbefore.elim
    | cooled seconds => exact hbefore.elim
    | _ => exact hschedules.elim
  · rw [hph] at hk
    obtain ⟨c', request, hlatest⟩ := hk
    exact .inl ⟨c', request, exc, hlatest, hdetail⟩

/-- A completion that is recorded is that of the latest execution. -/
theorem Runs.completion {t : T} {c : Choice} {id detail now : String} {status : AutomationStatus}
    {r : Except PyExc Unit} (hr : Runs h s)
    (hs : Step s (.did t c (.transaction (.updateStatus id status detail now)) r) s') :
    status = .completed ∧
      ∃ c' request, latest h id = some (.did t c' (.execute id request) (.ok detail)) := by
  obtain ⟨hph, hstatus⟩ : reporting.phase h t = .returned id detail ∧ status = .completed :=
    hr.told.1.allowed hs
  have hk := hr.told.2 t
  rw [hph] at hk
  exact ⟨hstatus, hk⟩

omit [DecidableEq T] [JsonCodec] in
theorem marks_append (h₂ h₁ : List (Event T)) (id : String) :
    marks (h₂ ++ h₁) id = h₂.filterMap (markOn id) ++ marks h₁ id := by
  induction h₂ with
  | nil => rfl
  | cons ev h₂ ih =>
    rw [List.cons_append, marks, List.filterMap_cons, markOn]
    cases hm : markOf ev with
    | none => exact ih
    | some mark =>
      obtain ⟨id', m⟩ := mark
      by_cases hid : id' = id
      · subst hid
        simp [record, ih]
      · simp [record, ih, hid, Function.update_of_ne (Ne.symm hid)]

omit [DecidableEq T] [JsonCodec] in
theorem first_mark {h₂ h₁ : List (Event T)} {id : String} {m : Mark} {w : List Mark}
    (h : marks (h₂ ++ h₁) id = w ++ m :: marks h₁ id) :
    ∃ later ev earlier, h₂ = later ++ ev :: earlier ∧ markOf ev = some (id, m) ∧
      ∀ ev' ∈ earlier, markOn id ev' = none := by
  rw [marks_append, List.append_cons, List.append_cancel_right_eq] at h
  obtain ⟨l₁, l₂, rfl, -, h⟩ := List.filterMap_eq_append_iff.mp h
  obtain ⟨l₃, ev, l₄, rfl, -, hev, hnone⟩ := List.filterMap_eq_cons_iff.mp h
  exact ⟨l₁ ++ l₃, ev, l₄, by rw [List.append_assoc], markOn_eq_some.mp hev,
    List.filterMap_eq_nil_iff.mp hnone⟩

/-- A request is executed again only after its last execution has failed and the process that
ran it has recorded that failure, with the text of the exception. -/
theorem executed_again {h₁ h₂ : List (Event T)} {t t' : T} {c c' : Choice} {id : String}
    {request request' : AutomationRequest} {r r' : Except PyExc String}
    (hr : Runs (.did t' c' (.execute id request') r' ::
      (h₂ ++ .did t c (.execute id request) r :: h₁)) s) :
    ∃ exc c'' delay, r = .error exc ∧
      .did t c'' (.transaction (.failOrRetry id exc.str delay)) (.ok ()) ∈ h₂ := by
  have hexec : ∀ (t : T) (c : Choice) (request : AutomationRequest) (r : Except PyExc String)
      (h : List (Event T)), marks (.did t c (.execute id request) r :: h) id =
        .execute r.isOk :: marks h id := by
    intro t c request r h
    simp [marks, markOf, record]
  -- the marks of both executions and of what lies between them, on the life of the request
  have hold : holding (.did t' c' (.execute id request') r' ::
      (h₂ ++ .did t c (.execute id request) r :: h₁)) t' = some id := by
    rw [holding, lifecycle.phase_did, Function.update_self]
    cases r' <;> rfl
  obtain ⟨row, hrow, -⟩ := hr.follows.2.marked t' id hold
  obtain ⟨stage, hshows⟩ := hr.shows hrow
  have hlife := hshows.life
  rw [hexec, marks_append, hexec] at hlife
  obtain ⟨hok, w, hw⟩ := hlife.between_executions
  -- the first of them is a failure that some process has settled
  have hfirst : marks (h₂ ++ .did t c (.execute id request) r :: h₁) id =
      w ++ .settle :: marks (.did t c (.execute id request) r :: h₁) id := by
    rw [marks_append, hw, List.append_assoc]
    rfl
  obtain ⟨later, ev, earlier, rfl, hev, hnone⟩ := first_mark hfirst
  cases hr with
  | step hr _ =>
    rw [List.append_assoc] at hr
    obtain ⟨s₂, hsettled, -⟩ := Interleaving.Runs.split hr
    cases hsettled with
    | step hrun hs =>
      have hfailed : Runs (earlier ++ .did t c (.execute id request) r :: h₁) _ := hrun
      have hlatest : latest (earlier ++ .did t c (.execute id request) r :: h₁) id =
          some (.did t c (.execute id request) r) :=
        (latest_append hnone _).trans (latest_of_markOf rfl h₁)
      obtain ⟨t₂, c₂, detail, delay, r₂, rfl⟩ := settle_of_markOf hev
      have hok₂ : r₂ = .ok () := by
        cases r₂ with
        | ok _ => rfl
        | error exc => simp [markOf] at hev
      subst hok₂
      rcases hfailed.settlement hs with ⟨c', request', exc, hexc, rfl⟩ |
          ⟨⟨ev, request', hclaim, hev'⟩, -⟩
      · cases hlatest.symm.trans hexc
        exact ⟨exc, c₂, delay, rfl, by simp⟩
      · cases hlatest.symm.trans hclaim
        cases hev'

def firstAttempt : List (Event ℕ) × System ℕ :=
  letI := emptyPayload
  Interleaving.State.play machine
    [.start 1 (.runOnce sampleWorker), .go 1 .calm, .go 1 .calm, .go 1 .calm, .go 1 .calm]
    (inTurn [(0, fun _ => .calm, .submit ⟨some .database⟩ twiceRequest)])

omit [JsonCodec] in
theorem firstAttempt_runs : @Runs ℕ _ emptyPayload firstAttempt.1 firstAttempt.2 := by
  let _ := emptyPayload
  exact Interleaving.Runs.play _ (inTurn_runs [(0, fun _ => .calm,
    .submit ⟨some .database⟩ twiceRequest)])

omit [JsonCodec] in
theorem executed_once_per_claim_sample : letI := emptyPayload
    ∃ r s', Runs (.did 1 .calm (.execute "a" twiceRequest) r :: firstAttempt.1) s' ∧
      ∃ ev ∈ firstAttempt.1, claimOf ev = some (1, "a", twiceRequest) := by
  let _ := emptyPayload
  have hpending : firstAttempt.2.pending 1 = some (.execute "a" twiceRequest) := by rfl
  obtain ⟨s', hs, -⟩ := Interleaving.State.pending_step (M := machine) hpending .calm
  have hr := Interleaving.Runs.step firstAttempt_runs hs
  obtain ⟨h₂, ev, h₁, heq, hclaim, -⟩ := executed_once_per_claim hr
  exact ⟨_, s', hr, ev, by rw [heq]; simp, hclaim⟩

def refused : Choice := { Choice.calm with outcome := .error (.adapterError "refused") }

/-- What follows its failure, an hour later: the failure is recorded and the request claimed. -/
def secondAttempt : List (Event ℕ) × System ℕ :=
  letI := emptyPayload
  let later : Choice := { Choice.calm with utc := ⟨63839667600000000, by decide⟩ }
  Interleaving.State.play machine
    [.go 1 .calm, .go 1 .calm, .go 1 .calm, .go 1 .calm, .start 1 (.runOnce sampleWorker),
      .go 1 later, .go 1 later, .go 1 later, .go 1 later]
    ([], (Interleaving.State.play machine [.go 1 refused] firstAttempt).2)

def Eff.executing : Eff → Option String
  | .execute id _ => some id
  | _ => none

omit [JsonCodec] in
theorem executed_again_sample : letI := emptyPayload
    ∃ request r r' s, Runs (.did 1 .calm (.execute "a" request) r' ::
        (secondAttempt.1 ++ .did 1 refused (.execute "a" twiceRequest) r :: firstAttempt.1)) s ∧
      ∃ exc c delay, r = .error exc ∧
        .did 1 c (.transaction (.failOrRetry "a" exc.str delay)) (.ok ()) ∈ secondAttempt.1 := by
  let _ := emptyPayload
  have hturn : ∃ r, firstAttempt.2.turn machine (.go 1 refused) =
      some (.did 1 refused (.execute "a" twiceRequest) r,
        (Interleaving.State.play machine [.go 1 refused] firstAttempt).2) := ⟨_, rfl⟩
  obtain ⟨r, hturn⟩ := hturn
  have hfailed := Interleaving.Runs.step firstAttempt_runs (Interleaving.State.turn_step hturn)
  have hl : Steps _ secondAttempt.1 secondAttempt.2 := Interleaving.Steps.play _ .refl
  have hexecuting : (secondAttempt.2.pending 1).map Eff.executing = some (some "a") := by
    decide +kernel
  obtain ⟨e, hpending, he⟩ := Option.map_eq_some_iff.mp hexecuting
  obtain ⟨s', hs, -⟩ := Interleaving.State.pending_step (M := machine) hpending .calm
  cases e with
  | execute id request =>
    cases he
    have hr := Interleaving.Runs.step (hfailed.append hl) hs
    exact ⟨request, r, _, s', hr, executed_again hr⟩
  | _ => cases he

def Executed (h : List (Event T)) (id : String) (r : Except PyExc String) : Prop :=
  ∃ t c request, .did t c (.execute id request) r ∈ h

/-- A process that had claimed the request has found its target cooling down: the clock was
before the end of the cooldown that the process had read. -/
def FoundCooling (h : List (Event T)) (id : String) (request : AutomationRequest) : Prop :=
  ∃ h₁ t cooldown first, h₁ <:+ h ∧ HasCompared t id request cooldown first h₁ ∧
    coolsDown cooldown first = true

/-- An execution of the request has raised the text, or its target was found cooling down. -/
def Reason (h : List (Event T)) (id text : String) : Prop :=
  (∃ exc, Executed h id (.error exc) ∧ text = exc.str) ∨
    ∃ request, FoundCooling h id request ∧ text = AutomationWorker.coolingDetail request.target

/-- What an event of the audit log says about an outcome is what the adapter answered. -/
structure EventRow.Truthful (h : List (Event T)) (e : EventRow) : Prop where
  completed : e.status = AutomationStatus.completed.value →
    Executed h e.requestId (.ok e.detail)
  retrying : e.status = AutomationStatus.retrying.value → ∃ (n : Int) (text : String),
    e.detail = s!"Retry scheduled after attempt {n}: {text}" ∧ Reason h e.requestId text
  deadLetter : e.status = AutomationStatus.deadLetter.value → ∃ (n : Int) (text : String),
    e.detail = s!"Moved to dead letter after {n} attempts: {text}" ∧ Reason h e.requestId text

omit [DecidableEq T] [JsonCodec] in
theorem Executed.later {id : String} {r : Except PyExc String} (he : Executed h id r)
    (ev : Event T) : Executed (ev :: h) id r := by
  obtain ⟨t, c, request, hmem⟩ := he
  exact ⟨t, c, request, List.mem_cons_of_mem _ hmem⟩

omit [DecidableEq T] [JsonCodec] in
theorem Reason.later {id text : String} (hreason : Reason h id text) (ev : Event T) :
    Reason (ev :: h) id text := by
  rcases hreason with ⟨exc, he, htext⟩ | ⟨request, ⟨h₁, t, cooldown, first, hsuffix, hfound⟩, htext⟩
  · exact .inl ⟨exc, he.later ev, htext⟩
  · have hlater : h₁ <:+ ev :: h := hsuffix.trans (List.suffix_cons ev h)
    exact .inr ⟨request, ⟨h₁, t, cooldown, first, hlater, hfound⟩, htext⟩

omit [DecidableEq T] [JsonCodec] in
theorem EventRow.Truthful.later {e : EventRow} (he : e.Truthful h) (ev : Event T) :
    e.Truthful (ev :: h) where
  completed hst := (he.completed hst).later ev
  retrying hst := by
    obtain ⟨n, text, hdetail, hreason⟩ := he.retrying hst
    exact ⟨n, text, hdetail, hreason.later ev⟩
  deadLetter hst := by
    obtain ⟨n, text, hdetail, hreason⟩ := he.deadLetter hst
    exact ⟨n, text, hdetail, hreason.later ev⟩

omit [DecidableEq T] [JsonCodec] in
theorem EventRow.Truthful.of_open {e : EventRow}
    (hst : e.status = AutomationStatus.queued.value ∨ e.status = AutomationStatus.running.value) :
    e.Truthful h := by
  constructor <;> intro hst' <;> rw [hst'] at hst <;>
    simp only [AutomationStatus.value_inj, reduceCtorEq, or_self] at hst

omit [DecidableEq T] [JsonCodec] in
theorem mem_of_latest {id : String} (hl : latest h id = some ev) : ev ∈ h :=
  List.mem_of_find?_eq_some hl

theorem truthful_settled {t : T} {c : Choice} {id detail : String} {delay : Int} {row : RequestRow}
    {r : Except PyExc Unit} {nextAttemptAt : Option String} {now : String} (n : ℕ) (hr : Runs h s)
    (hs : Step s (.did t c (.transaction (.failOrRetry id detail delay)) r) s') :
    ((row.settled detail nextAttemptAt now).entry n id).Truthful h := by
  have hreason : Reason h id detail := by
    rcases hr.settlement hs with ⟨c', request, exc, hlatest, hdetail⟩ |
      ⟨-, request, cooldown, first, hcompared, hcools, hdetail⟩
    · exact .inl ⟨exc, ⟨t, c', request, mem_of_latest hlatest⟩, hdetail⟩
    · exact .inr ⟨request, ⟨h, t, cooldown, first, List.suffix_rfl, hcompared, hcools⟩, hdetail⟩
  by_cases hexhausted : row.exhausted = true
  · refine ⟨?_, ?_, fun _ => ⟨row.attemptCount, detail, ?_, hreason⟩⟩
    · simp [Transition.entry, RequestRow.settled, RequestRow.failureStatus, hexhausted]
    · simp [Transition.entry, RequestRow.settled, RequestRow.failureStatus, hexhausted]
    · exact if_pos hexhausted
  · refine ⟨?_, fun _ => ⟨row.attemptCount, detail, ?_, hreason⟩, ?_⟩
    · simp [Transition.entry, RequestRow.settled, RequestRow.failureStatus, hexhausted]
    · exact if_neg hexhausted
    · simp [Transition.entry, RequestRow.settled, RequestRow.failureStatus, hexhausted]

/-- The audit log tells the outcomes as the adapter answered them: every COMPLETED event carries
a text that an execution of its request returned, and every RETRYING or DEAD_LETTER event the
text of an exception that an execution of its request raised, or that its target was found
cooling down. -/
theorem auditLog_truthful (hr : Runs h s) : ∀ e ∈ s.shared.db.events, e.Truthful h := by
  induction hr with
  | init hi =>
    rw [hi.1]
    exact fun e hmem => absurd hmem List.not_mem_nil
  | @step h s s' ev hr hs ih =>
    have hr : Runs h s := hr
    have same : s'.shared.db = s.shared.db → ∀ e ∈ s'.shared.db.events, e.Truthful (ev :: h) := by
      intro hdb e hmem
      rw [hdb] at hmem
      exact (ih e hmem).later ev
    have appends : ∀ {e'}, s'.shared.db.events = s.shared.db.events ++ [e'] → e'.Truthful h →
        ∀ e ∈ s'.shared.db.events, e.Truthful (ev :: h) := by
      intro e' hevents he' e hmem
      rw [hevents, List.mem_append, List.mem_singleton] at hmem
      rcases hmem with hmem | rfl
      · exact (ih e hmem).later ev
      · exact he'.later ev
    cases ev with
    | start t call => exact same (by rw [hs.start_shared])
    | stop t call reply => exact same (by rw [hs.stop_shared])
    | disturb => exact same hs.disturb_shared
    | did t c e r =>
      rcases handle_db hs.did_handle with hdb | ⟨op, rfl⟩
      · exact same hdb
      · have hw := (step_outcome hs).wrote
        generalize hdb : s'.shared.db = db' at hw same appends ⊢
        cases hw with
        | nothing => exact same rfl
        | inserted hsub => exact appends hsub.events (.of_open (.inl rfl))
        | startedNext | started => exact appends rfl (.of_open (.inr rfl))
        | requeued => exact appends rfl (.of_open (.inl rfl))
        | settled hrow hnext => exact appends rfl (truthful_settled _ hr hs)
        | @finished id detail now status =>
          obtain ⟨rfl, c', request, hlatest⟩ := hr.completion hs
          refine appends rfl ⟨fun _ => ⟨t, c', request, mem_of_latest hlatest⟩, ?_, ?_⟩
          · simp [Transition.completed]
          · simp [Transition.completed]

omit [JsonCodec] in
/-- The one attempt has failed, and the request has gone to the dead letters. -/
theorem auditLog_truthful_sample : letI := emptyPayload
    Runs (sampleRun 2).1 (sampleRun 2).2 ∧
      ∃ e ∈ (sampleRun 2).2.shared.db.events, ∃ text, Reason (sampleRun 2).1 "a" text ∧
        e.status = AutomationStatus.deadLetter.value := by
  let _ := emptyPayload
  have hr : Runs (sampleRun 2).1 (sampleRun 2).2 := inTurn_runs _
  have hdead : ∃ e ∈ (sampleRun 2).2.shared.db.events,
      e.requestId = "a" ∧ e.status = AutomationStatus.deadLetter.value := by decide +kernel
  obtain ⟨e, hmem, hid, hdead⟩ := hdead
  obtain ⟨n, text, -, hreason⟩ := (auditLog_truthful hr e hmem).deadLetter hdead
  exact ⟨hr, e, hmem, text, hid ▸ hreason, hdead⟩

end Runs

end Orchestrator
