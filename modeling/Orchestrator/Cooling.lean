import Orchestrator.Exclusion

/-!
# Cooldowns of the workers

A worker that is told when to come back cools the target down, and defers what it claims for
the target until then. The protocol of this module follows the numbers: the hint of an
adapter into the cooldown table and the schedule, and a cooldown into the delay of a deferral.
-/

namespace Orchestrator

open Interaction Discipline AutomationRepository AutomationWorker Library
set_option autoImplicit false

/-- The seconds that the outcome of an execution asks to wait. -/
def hintOf : Except PyExc String → Option Int
  | .error (.retryableAdapterError _ hint) => hint
  | _ => none

/-- `cooldown_until > time.monotonic()`; a target without an entry counts as 0.0. -/
def coolsDown (cooldown : Option Float64) (monotonic : ℚ) : Bool :=
  Float64.lt (.fin monotonic) (cooldown.getD (.fin 0))

/-- What a process knows inside its `run_once`: the cooldown of the target and the clock, or
the hint of the execution and the clock. -/
inductive Cooling where
  | outside
  | searching
  | claimed (requestId target : String)
  | asked (requestId target : String) (cooldown : Option Float64)
  | compared (requestId target : String) (cooldown : Option Float64) (first : ℚ)
  | deferring (requestId target : String) (cooldown : Option Float64) (first monotonic : ℚ)
  | executed (target : String) (hint : Option Int)
  | timed (target : String) (seconds : Int) (monotonic : ℚ)
  | cooled (seconds : Int)
  | settled

namespace Cooling

/-- The clock is read before a cooldown is used or set. -/
def ReadsClock : Cooling → Prop
  | asked .. | executed _ (some _) => True
  | compared _ _ cooldown first => coolsDown cooldown first = true
  | _ => False

/-- A delay comes from the cooldown, from the hint, or from the local policy. -/
def Schedules : Cooling → String → Int → Prop
  | deferring id _ cooldown _ monotonic, id', delay =>
    id' = id ∧ deferralDelay (cooldown.getD (.fin 0)) monotonic = .ok delay
  | executed _ none, _, _ => True
  | cooled seconds, _, delay => delay = seconds
  | _, _, _ => False

def allows (ph : Cooling) : Eff → Prop
  | .monotonic => ph.ReadsClock
  | .cooldownGet target => ∃ id, ph = claimed id target
  | .cooldownSet target deadline => ∃ seconds monotonic, ph = timed target seconds monotonic ∧
      cooldownUntil monotonic seconds = .ok deadline
  | .cooldownPop target => ph = executed target none
  | .execute id request => ∃ cooldown first, ph = compared id request.target cooldown first ∧
      coolsDown cooldown first = false
  | .transaction (.claim ..) | .transaction (.claimNext _) => ph = searching
  | .transaction (.failOrRetry id _ delay) => ph.Schedules id delay
  | .transaction (.updateStatus ..) => ∃ target, ph = executed target none
  | _ => True

def got : Cooling → Option Float64 → Cooling
  | claimed id target, cooldown => asked id target cooldown
  | ph, _ => ph

def read : Cooling → ℚ → Cooling
  | asked id target cooldown, first => compared id target cooldown first
  | compared id target cooldown first, monotonic => deferring id target cooldown first monotonic
  | executed target (some seconds), monotonic => timed target seconds monotonic
  | ph, _ => ph

def set : Cooling → Cooling
  | timed _ seconds _ => cooled seconds
  | ph => ph

def next (ph : Cooling) : (e : Eff) → e.Res → Cooling
  | .cooldownGet _, cooldown => ph.got cooldown
  | .monotonic, monotonic => ph.read monotonic
  | .cooldownSet .., _ => ph.set
  | .execute _ request, r => executed request.target (hintOf r)
  | .transaction (.claim ..), .ok (some (id, request)) => claimed id request.target
  | .transaction (.claimNext _), .ok (some (id, request)) => claimed id request.target
  | .transaction (.failOrRetry ..), .ok _ => settled
  | .transaction (.updateStatus ..), .ok _ => settled
  | _, _ => ph

end Cooling

def cooling : Interleaving.Protocol Eff Eff.Res Call Cooling where
  allowed := Cooling.allows
  admits _ _ _ := True
  next := Cooling.next
  idle := .outside
  start
    | .runOnce _ => .searching
    | _ => .outside

theorem cooling_plain : cooling.Ignores Eff.Plain := by
  intro e he ph
  cases e with
  | transaction op =>
    cases op with
    | get id => exact ⟨trivial, fun _ => rfl⟩
    | _ => exact absurd he (by simp [Eff.Plain, Eff.kind])
  | monotonic => exact absurd he id
  | cooldownGet target => exact absurd he id
  | cooldownSet target deadline => exact absurd he id
  | cooldownPop target => exact absurd he id
  | execute id request => exact absurd he (by simp [Eff.Plain, Eff.kind])
  | uuid4 => exact absurd he (by simp [Eff.Plain, Eff.kind])
  | _ => exact ⟨trivial, fun _ => rfl⟩

theorem cooling_still : cooling.Ignores Eff.Still := plain_still cooling_plain

theorem cooling_submits : cooling.Ignores (·.kind = .submits) := by
  intro e he ph
  cases e with
  | uuid4 => exact ⟨trivial, fun _ => rfl⟩
  | transaction op =>
    cases op with
    | selectByKey key => exact ⟨trivial, fun _ => rfl⟩
    | insertRequest id request now => exact ⟨trivial, fun _ => rfl⟩
    | _ => cases he
  | _ => cases he

theorem cooling_replays : cooling.Ignores (·.kind = .replays) := by
  intro e he ph
  cases e with
  | transaction op =>
    cases op with
    | replayDeadLetter id now => exact ⟨trivial, fun _ => rfl⟩
    | _ => cases he
  | _ => cases he

/-- After a search the process has the target of what it claimed. -/
def AfterClaimWork (ph : Cooling) : Except PyExc (Option (String × AutomationRequest)) → Prop
  | .ok (some (id, request)) => ph = .claimed id request.target
  | _ => ph = .searching

theorem cooling_claimNext : cooling.wp claimNext.run AfterClaimWork .searching := by
  apply (neutral_utcNow cooling_plain).wp_bind ?_ fun _ => rfl
  intro now
  refine ⟨rfl, ?_⟩
  intro r _
  rcases r with exc | _ | ⟨id, request⟩ <;> rfl

theorem cooling_claim (id : String) : cooling.wp (claim id).run AfterClaimWork .searching := by
  apply (neutral_utcNow cooling_plain).wp_bind ?_ fun _ => rfl
  intro now
  refine ⟨rfl, ?_⟩
  intro r _
  rcases r with exc | _ | ⟨id, request⟩ <;> rfl

namespace AutomationWorker

variable (worker : AutomationWorker)

theorem cooling_claimWork : cooling.wp worker.claimWork.run AfterClaimWork .searching := by
  apply (neutral_dispatcherOr cooling_still _).wp_bind ?_ fun _ => rfl
  intro dispatcher
  cases dispatcher with
  | database => exact cooling_claimNext
  | redis redisUrl queueName client =>
    apply (neutral_consume cooling_still _).wp_bind ?_ fun _ => rfl
    intro message
    cases message with
    | none => exact cooling_claimNext
    | some id =>
      simp only [wp_except_bind]
      apply cooling.wp_mono (cooling_claim id) ?_
      intro ph r hr
      rcases r with exc | _ | ⟨id, request⟩ <;> cases hr
      · rfl
      · exact cooling_claimNext
      · rfl

theorem cooling_failOrRetry {ph : Cooling} {id : String} {delay : Int}
    (h : ph.Schedules id delay) (detail : String) :
    cooling.wp (failOrRetry id detail delay).run (fun _ _ => True) ph :=
  ⟨h, fun _ _ => trivial⟩

theorem cooling_rateLimited (id : String) (request : AutomationRequest) (text : String)
    (hint : Option Int) : cooling.wp (worker.rateLimited id request text hint).run
      (fun _ _ => True) (.executed request.target hint) := by
  apply (neutral_currentAttempt cooling_still id).wp_bind ?_ fun _ => trivial
  intro attempt
  cases hint with
  | none =>
    apply (neutral_backoff cooling_still worker attempt).wp_bind ?_ fun _ => trivial
    intro delay
    apply cooling_failOrRetry
    trivial
  | some delay =>
    refine ⟨trivial, fun monotonic _ => ?_⟩
    change cooling.wp (Py.ofFloat (cooldownUntil monotonic delay) >>= _).run _
      (.timed request.target delay monotonic)
    cases hdeadline : cooldownUntil monotonic delay with
    | error e => trivial
    | ok deadline =>
      exact ⟨⟨delay, monotonic, rfl, hdeadline⟩, fun _ _ => ⟨rfl, fun _ _ => trivial⟩⟩

theorem cooling_executionFailed (id target : String) (exc : PyExc) :
    cooling.wp (worker.executionFailed id exc).run (fun _ _ => True) (.executed target none) := by
  apply (neutral_currentAttempt cooling_still id).wp_bind ?_ fun _ => trivial
  intro attempt
  apply (neutral_backoff cooling_still worker attempt).wp_bind ?_ fun _ => trivial
  intro delay
  apply cooling_failOrRetry
  trivial

theorem cooling_runAdapter (id : String) (request : AutomationRequest)
    {cooldown : Option Float64} {first : ℚ} (hfirst : coolsDown cooldown first = false) :
    cooling.wp (worker.runAdapter id request).run (fun _ _ => True)
      (.compared id request.target cooldown first) := by
  refine ⟨⟨cooldown, first, rfl, hfirst⟩, ?_⟩
  intro r _
  rcases r with exc | detail
  · cases exc with
    | retryableAdapterError text hint => exact cooling_rateLimited worker id request text hint
    | _ => exact cooling_executionFailed worker id request.target _
  · refine ⟨rfl, fun _ _ => ?_⟩
    apply (neutral_utcNow cooling_plain).wp_bind ?_ fun _ => trivial
    exact fun now => ⟨⟨request.target, rfl⟩, fun _ _ => trivial⟩

theorem cooling_processClaimed (id : String) (request : AutomationRequest) :
    cooling.wp (worker.processClaimed id request).run (fun _ _ => True)
      (.claimed id request.target) := by
  refine ⟨⟨id, rfl⟩, fun cooldown _ => ⟨trivial, fun first _ => ?_⟩⟩
  change cooling.wp (ite (coolsDown cooldown first = true) (deferTarget id request _)
    (worker.runAdapter id request)).run _ (.compared id request.target cooldown first)
  split
  · next hfirst =>
    refine ⟨hfirst, fun monotonic _ => ?_⟩
    change cooling.wp (Py.ofFloat (deferralDelay (cooldown.getD (.fin 0)) monotonic) >>= _).run _
      (.deferring id request.target cooldown first monotonic)
    cases hdelay : deferralDelay (cooldown.getD (.fin 0)) monotonic with
    | error e => trivial
    | ok delay =>
      apply cooling_failOrRetry
      exact ⟨rfl, hdelay⟩
  · next hfirst => exact cooling_runAdapter worker id request (by simpa using hfirst)

theorem cooling_runOnce : cooling.wp worker.runOnce.run (fun _ _ => True) .searching := by
  rw [runOnce, wp_except_bind]
  apply cooling.wp_mono (cooling_claimWork worker)
  intro ph r hr
  rcases r with exc | _ | ⟨id, request⟩ <;> cases hr
  · trivial
  · trivial
  · apply (wp_except_bind ..).mpr (cooling.wp_mono (cooling_processClaimed worker id request) ?_)
    intro ph r _
    rcases r with exc | ⟨⟩ <;> trivial

end AutomationWorker

theorem cooling_code (call : Call) :
    cooling.wp call.code (fun _ _ => True) (cooling.start call) := by
  cases call with
  | create id request =>
    have h := neutral_create cooling_plain cooling_submits id request
    exact (wp_bind ..).mpr (cooling.wp_mono (h _) fun _ _ _ => trivial)
  | submit service request =>
    have h := neutral_submit cooling_plain cooling_submits service request
    exact (wp_bind ..).mpr (cooling.wp_mono (h _) fun _ _ _ => trivial)
  | replayDeadLetter service id =>
    have h := neutral_replayDeadLetter cooling_plain cooling_replays service id
    exact (wp_bind ..).mpr (cooling.wp_mono (h _) fun _ _ _ => trivial)
  | runOnce worker =>
    exact (wp_bind ..).mpr (cooling.wp_mono worker.cooling_runOnce fun _ _ _ => trivial)

structure Execution where
  target : String
  hint : Option Int
  returned : Choice

section Histories
variable {T : Type} [DecidableEq T]

def execution : List (Event T) → T → Option Execution
  | [], _ => none
  | .start t' _ :: h, t => if t' = t then none else execution h t
  | .did t' c (.execute _ request) r :: h, t =>
    if t' = t then some ⟨request.target, hintOf r, c⟩ else execution h t
  | _ :: h, t => execution h t

def lastReading : List (Event T) → T → Option Choice
  | [], _ => none
  | .did t' c .monotonic _ :: h, t => if t' = t then some c else lastReading h t
  | _ :: h, t => lastReading h t

/-- The execution for which a process cools a target down, and the reading of the clock from
which the cooldown counts. -/
def cooldownFor : List (Event T) → T → String → Option (Execution × Choice)
  | [], _, _ => none
  | .did t' _ (.cooldownSet target' _) _ :: h, t, target =>
    if t' = t ∧ target' = target then
      (execution h t).bind fun e => (lastReading h t).map fun begun => (e, begun)
    else cooldownFor h t target
  | .did t' _ (.cooldownPop target') _ :: h, t, target =>
    if t' = t ∧ target' = target then none else cooldownFor h t target
  | _ :: h, t, target => cooldownFor h t target

theorem lastReading_mem {h : List (Event T)} {t : T} {c : Choice}
    (hread : lastReading h t = some c) : ∃ r, .did t c .monotonic r ∈ h := by
  induction h with
  | nil => cases hread
  | cons ev h ih =>
    have later : lastReading h t = some c → ∃ r, .did t c .monotonic r ∈ ev :: h := by
      intro hold
      obtain ⟨r, hmem⟩ := ih hold
      exact ⟨r, List.mem_cons_of_mem _ hmem⟩
    cases ev with
    | did t' c' e r =>
      cases e with
      | monotonic =>
        rw [lastReading] at hread
        split at hread
        · next ht =>
          subst ht
          cases hread
          exact ⟨r, List.mem_cons_self⟩
        · exact later hread
      | _ => exact later hread
    | _ => exact later hread

end Histories

/-- An entry of the cooldown table counts from the reading, for as long as the hint says. -/
inductive Counts (target : String) : Option (Execution × Choice) → Option Float64 → Prop where
  | empty : Counts target none none
  | entry {e : Execution} {begun : Choice} {seconds : Int} {deadline : Float64}
      (htarget : e.target = target) (hhint : e.hint = some seconds)
      (hdeadline : cooldownUntil begun.monotonic seconds = .ok deadline) :
      Counts target (some (e, begun)) (some deadline)

def HasTarget (db : Database) (requestId target : String) : Prop :=
  ∃ row, db.row? requestId = some row ∧ row.target = target

/-- What the phase of a process says about its history and its cooldown table. -/
def Knows (db : Database) (cooldowns : Cooldowns) (run : Option Execution)
    (reading : Option Choice) : Cooling → Prop
  | .outside | .settled => True
  | .searching => run = none
  | .claimed id target => run = none ∧ HasTarget db id target
  | .asked id target cooldown =>
    run = none ∧ HasTarget db id target ∧ cooldown = cooldowns target
  | .compared id target cooldown first =>
    run = none ∧ HasTarget db id target ∧ cooldown = cooldowns target ∧
      ∃ c, reading = some c ∧ c.monotonic = first
  | .deferring id target cooldown first monotonic =>
    run = none ∧ HasTarget db id target ∧ cooldown = cooldowns target ∧
      coolsDown cooldown first = true ∧ ∃ c, reading = some c ∧ c.monotonic = monotonic
  | .executed target hint => ∃ e, run = some e ∧ e.target = target ∧ e.hint = hint
  | .timed target seconds monotonic =>
    (∃ e, run = some e ∧ e.target = target ∧ e.hint = some seconds) ∧
      ∃ c, reading = some c ∧ c.monotonic = monotonic
  | .cooled seconds => ∃ e, run = some e ∧ e.hint = some seconds

section Targets
variable {db db' : Database} {id target : String}

theorem HasTarget.move (h : HasTarget db id target) (id' : String) (tr : Transition) :
    HasTarget (db.move id' tr) id target := by
  obtain ⟨row, hrow, rfl⟩ := h
  refine ⟨if id = id' then row.set tr.values else row, ?_, ?_⟩
  · rw [Database.row?_move, hrow]
    rfl
  · split <;> rfl

variable [JsonCodec]

theorem HasTarget.step {ph ph' : Phase} {mark : Option (String × Job.Mark)}
    (h : HasTarget db id target) (hc : Change db ph mark db' ph') : HasTarget db' id target := by
  cases hc with
  | quiet => exact h
  | execute ok hph => exact h
  | enqueue hsub =>
    obtain ⟨row, hrow, htarget⟩ := h
    exact ⟨row, hsub.row? hrow, htarget⟩
  | _ => exact h.move _ _

end Targets

theorem Knows.mono {db db' : Database} {cooldowns : Cooldowns} {run : Option Execution}
    {reading : Option Choice} {ph : Cooling} (h : Knows db cooldowns run reading ph)
    (hdb : ∀ id target, HasTarget db id target → HasTarget db' id target) :
    Knows db' cooldowns run reading ph := by
  cases ph with
  | claimed id target => exact ⟨h.1, hdb id target h.2⟩
  | asked id target cooldown => exact ⟨h.1, hdb id target h.2.1, h.2.2⟩
  | compared id target cooldown first => exact ⟨h.1, hdb id target h.2.1, h.2.2⟩
  | deferring id target cooldown first monotonic => exact ⟨h.1, hdb id target h.2.1, h.2.2⟩
  | _ => exact h

section Runs
variable {T : Type} [DecidableEq T] [JsonCodec] {h : List (Event T)} {s s' : System T}
variable {t : T} {c : Choice} {e : Eff} {r : e.Res}

theorem hasTarget_step (hr : Runs h s) (hs : Step s (.did t c e r) s') (id target : String)
    (htarget : HasTarget s.shared.db id target) : HasTarget s'.shared.db id target :=
  htarget.step (change_of_step (hr.follows.1.allowed hs) hs)

theorem step_same_locals (hs : Step s (.did t c e r) s')
    (hset : ∀ target deadline, e ≠ .cooldownSet target deadline)
    (hpop : ∀ target, e ≠ .cooldownPop target) : s'.locals t = s.locals t := by
  have hlocals : s'.locals t = (handle c e s.shared (s.locals t)).2.2 := by
    rw [show handle c e s.shared (s.locals t) = _ from hs.did_handle]
  rw [hlocals]
  cases e with
  | cooldownSet target deadline => exact absurd rfl (hset target deadline)
  | cooldownPop target => exact absurd rfl (hpop target)
  | rpush queueName id =>
    simp only [handle]
    split <;> rfl
  | blpop queueName =>
    simp only [handle]
    split <;> rfl
  | _ => rfl

theorem toRequest_target {row : RequestRow} {request : AutomationRequest}
    (h : row.toRequest = .ok request) : row.target = request.target := by
  unfold RequestRow.toRequest at h
  cases hchannel : ExecutionChannel.ofValue row.executionChannel with
  | error exc =>
    rw [hchannel] at h
    cases h
  | ok channel =>
    cases hpayload : JsonCodec.loads row.payloadJson with
    | error exc =>
      rw [hchannel, hpayload] at h
      cases h
    | ok payload =>
      rw [hchannel, hpayload] at h
      exact (AutomationRequest.validate_ok h).2.1.symm

theorem Claimed.hasTarget {db db' : Database} {id now : String} {request : AutomationRequest}
    (h : Claimed db db' id request now) : HasTarget db' id request.target := by
  obtain ⟨row, hrow, -, hreq, rfl⟩ := h
  exact HasTarget.move ⟨row, hrow, toRequest_target hreq⟩ id _

theorem Knows.step (hr : Runs h s) (hs : Step s (.did t c e r) s')
    (hal : (cooling.phase h t).allows e)
    (hk : Knows s.shared.db (s.locals t) (execution h t) (lastReading h t) (cooling.phase h t)) :
    Knows s'.shared.db (s'.locals t) (execution (.did t c e r :: h) t)
      (lastReading (.did t c e r :: h) t) ((cooling.phase h t).next e r) := by
  have htarget := hasTarget_step hr hs
  generalize cooling.phase h t = ph at hal hk ⊢
  cases e with
  | monotonic =>
    obtain rfl : c.monotonic = r := congrArg Prod.fst hs.did_handle
    have hlast : lastReading (.did t c .monotonic c.monotonic :: h) t = some c := by
      simp [lastReading]
    have hk := hk.mono htarget
    rw [step_same_locals hs (by simp) (by simp), hlast]
    cases ph with
    | asked id target cooldown => exact ⟨hk.1, hk.2.1, hk.2.2, c, rfl, rfl⟩
    | compared id target cooldown first => exact ⟨hk.1, hk.2.1, hk.2.2.1, hal, c, rfl, rfl⟩
    | executed target hint =>
      cases hint with
      | none => exact absurd hal id
      | some seconds => exact ⟨hk, c, rfl, rfl⟩
    | _ => exact absurd hal id
  | cooldownGet target =>
    obtain ⟨id, rfl⟩ := hal
    obtain rfl : s.locals t target = r := congrArg Prod.fst hs.did_handle
    rw [step_same_locals hs (by simp) (by simp)]
    exact ⟨hk.1, htarget id target hk.2, rfl⟩
  | cooldownSet target deadline =>
    obtain ⟨seconds, monotonic, rfl, -⟩ := hal
    obtain ⟨⟨e, hrun, -, hhint⟩, -⟩ := hk
    exact ⟨e, hrun, hhint⟩
  | cooldownPop target =>
    obtain rfl : ph = .executed target none := hal
    exact hk
  | execute id request => exact ⟨⟨request.target, hintOf r, c⟩, by simp [execution], rfl, rfl⟩
  | transaction op =>
    have hout := step_outcome hs
    have hk := hk.mono htarget
    rw [← step_same_locals hs (by simp) (by simp)] at hk
    cases op with
    | claimNext now =>
      rcases r with exc | _ | ⟨id, request⟩
      · exact hk
      · exact hk
      · obtain rfl : ph = .searching := hal
        exact ⟨hk, Claimed.hasTarget hout⟩
    | claim id now =>
      rcases r with exc | _ | ⟨id, request⟩
      · exact hk
      · exact hk
      · obtain rfl : ph = .searching := hal
        obtain ⟨rfl, hclaimed⟩ := hout
        exact ⟨hk, hclaimed.hasTarget⟩
    | failOrRetry id detail delay =>
      cases r with
      | error exc => exact hk
      | ok _ => trivial
    | updateStatus id status detail now =>
      cases r with
      | error exc => exact hk
      | ok _ => trivial
    | _ => exact hk
  | _ =>
    rw [step_same_locals hs (by simp) (by simp)]
    exact hk.mono htarget

theorem step_other_locals {t' : T} (ht : t' ≠ t) (hs : Step s (.did t c e r) s') :
    s'.locals t' = s.locals t' := by
  cases hs with
  | did _ _ hrun => exact Function.update_of_ne ht _ _

theorem Knows.other {t' : T} (ht : t' ≠ t) (hr : Runs h s) (hs : Step s (.did t c e r) s')
    (hk : Knows s.shared.db (s.locals t') (execution h t') (lastReading h t')
      (cooling.phase h t')) :
    Knows s'.shared.db (s'.locals t') (execution (.did t c e r :: h) t')
      (lastReading (.did t c e r :: h) t') (cooling.phase (.did t c e r :: h) t') := by
  have hexecution : execution (.did t c e r :: h) t' = execution h t' := by
    cases e <;> simp [execution, ht.symm]
  have hreading : lastReading (.did t c e r :: h) t' = lastReading h t' := by
    cases e <;> simp [lastReading, ht.symm]
  rw [step_other_locals ht hs, hexecution, hreading, cooling.phase_did, Function.update_of_ne ht]
  exact hk.mono (hasTarget_step hr hs)

theorem step_other_entry {t' : T} {target target' : String} {entry : Option Float64}
    (hs : Step s (.did t c e r) s')
    (hown : s'.locals t = Function.update (s.locals t) target' entry)
    (hne : ¬ (t = t' ∧ target' = target)) : s'.locals t' target = s.locals t' target := by
  by_cases ht : t' = t
  · subst ht
    have htarget : target ≠ target' := fun heq => hne ⟨rfl, heq.symm⟩
    rw [hown, Function.update_of_ne htarget]
  · rw [step_other_locals ht hs]

theorem Counts.step {t' : T} {target : String} (hs : Step s (.did t c e r) s')
    (hal : (cooling.phase h t).allows e)
    (hk : Knows s.shared.db (s.locals t) (execution h t) (lastReading h t) (cooling.phase h t))
    (hc : Counts target (cooldownFor h t' target) (s.locals t' target)) :
    Counts target (cooldownFor (.did t c e r :: h) t' target) (s'.locals t' target) := by
  cases e with
  | cooldownSet target' deadline =>
    obtain ⟨seconds, monotonic, hph, hdeadline⟩ := hal
    rw [hph] at hk
    obtain ⟨⟨e, hrun, htarget, hhint⟩, begun, hreading, rfl⟩ := hk
    have hown : s'.locals t = Function.update (s.locals t) target' (some deadline) :=
      (congrArg (·.2.2) hs.did_handle).symm
    by_cases ht : t = t' ∧ target' = target
    · obtain ⟨rfl, rfl⟩ := ht
      rw [cooldownFor, if_pos ⟨rfl, rfl⟩, hrun, hreading, hown, Function.update_self]
      exact .entry htarget hhint hdeadline
    · rw [cooldownFor, if_neg ht, step_other_entry hs hown ht]
      exact hc
  | cooldownPop target' =>
    have hown : s'.locals t = Function.update (s.locals t) target' none :=
      (congrArg (·.2.2) hs.did_handle).symm
    by_cases ht : t = t' ∧ target' = target
    · obtain ⟨rfl, rfl⟩ := ht
      rw [cooldownFor, if_pos ⟨rfl, rfl⟩, hown, Function.update_self]
      exact .empty
    · rw [cooldownFor, if_neg ht, step_other_entry hs hown ht]
      exact hc
  | _ =>
    have hlocals : s'.locals t' = s.locals t' := by
      by_cases ht : t' = t
      · subst ht
        exact step_same_locals hs (by simp) (by simp)
      · exact step_other_locals ht hs
    rw [hlocals]
    exact hc

/-- In every run, every process keeps to the protocol and knows what its phase says. -/
theorem Runs.cools (hr : Runs h s) :
    cooling.Follows (fun _ _ _ => True) h s ∧ ∀ t,
      Knows s.shared.db (s.locals t) (execution h t) (lastReading h t) (cooling.phase h t) ∧
      ∀ target, Counts target (cooldownFor h t target) (s.locals t target) := by
  have hfollows : ∀ {h : List (Event T)} {s : System T}, Runs h s →
      cooling.Follows (fun _ _ _ => True) h s := fun hr =>
    Interleaving.Protocol.follows_runs cooling_code (fun _ _ _ => trivial) (fun _ hi => hi.2.1) hr
  refine ⟨hfollows hr, ?_⟩
  induction hr with
  | init hi =>
    intro t
    refine ⟨trivial, ?_⟩
    intro target
    rw [hi.2.2 t target]
    exact .empty
  | @step h s s' ev hr hs ih =>
    have hr : Runs h s := hr
    cases ev with
    | start t call =>
      intro t'
      obtain ⟨hk, hc⟩ := ih t'
      have hlocals : s'.locals = s.locals := by
        cases hs with
        | start _ _ hidle => rfl
      rw [hs.start_shared, hlocals, cooling.phase_start]
      refine ⟨?_, hc⟩
      by_cases ht : t' = t
      · subst ht
        rw [Function.update_self]
        cases call with
        | runOnce worker => exact if_pos rfl
        | _ => trivial
      · rw [Function.update_of_ne ht]
        simpa [execution, lastReading, Ne.symm ht] using hk
    | did t c e r =>
      have hal := (hfollows hr).allowed hs
      intro t'
      refine ⟨?_, fun target => ((ih t').2 target).step hs hal (ih t).1⟩
      by_cases ht : t' = t
      · subst ht
        rw [cooling.phase_did, Function.update_self]
        exact (ih t').1.step hr hs hal
      · exact (ih t').1.other ht hr hs
    | stop t call reply =>
      intro t'
      obtain ⟨hk, hc⟩ := ih t'
      have hlocals : s'.locals = s.locals := by
        cases hs with
        | stop _ hrun => rfl
      rw [hs.stop_shared, hlocals, cooling.phase_stop]
      refine ⟨?_, hc⟩
      by_cases ht : t' = t
      · subst ht
        rw [Function.update_self]
        trivial
      · rw [Function.update_of_ne ht]
        exact hk
    | disturb =>
      intro t'
      have hlocals : s'.locals = s.locals := by
        cases hs with
        | disturb shared hd => rfl
      rw [show s'.shared.db = s.shared.db from hs.disturb_shared, hlocals]
      exact ih t'

end Runs

end Orchestrator
