import Orchestrator.Classification
import Orchestrator.Cooldowns
import Orchestrator.Scheduling
import Orchestrator.Settlement

/-!
# How long a rate limit is respected

A 429 response names an instant, and the worker puts off the request, and those that it
defers for the same target. Each conversion to whole seconds cuts off a fraction, so what is
scheduled falls short of the instant unless the handling takes at least as long.
-/

namespace Orchestrator

open Library
set_option autoImplicit false

/-- A 429 response whose header asks to wait, when it came and when its header was read. -/
structure RateLimit where
  response : AdapterResponse
  received : Instant
  parsed : Instant
  asked : RetryAfter
  seconds : Int
  status : response.statusCode = 429
  read : readRetryAfter response.retryAfter = .ok asked
  hint : asked.hint parsed = some seconds
  order : received ≤ parsed

namespace RateLimit

variable (limit : RateLimit)

/-- The instant that the downstream named, in microseconds. -/
def named : Int :=
  match limit.asked with
  | .date retryAt => retryAt
  | _ => limit.received.us + 1000000 * limit.seconds

/-- The moment from which the hint counts. -/
def origin : Instant :=
  match limit.asked with
  | .date _ => limit.parsed
  | _ => limit.received

/-- The fraction of a second that the hint leaves out; a date in the past leaves out all. -/
def lost : Int :=
  match limit.asked with
  | .date retryAt =>
    if limit.parsed.us ≤ retryAt then (retryAt - limit.parsed.us) % 1000000
    else retryAt - limit.parsed.us
  | _ => 0

theorem named_eq : limit.named = limit.origin.us + 1000000 * limit.seconds + limit.lost := by
  have hhint := limit.hint
  unfold named origin lost
  cases hasked : limit.asked with
  | absent => simp
  | delay seconds => simp
  | date retryAt =>
    rw [hasked, RetryAfter.hint, Option.some.injEq, secondsUntil] at hhint
    simp only
    split
    · next hle =>
      rw [Int.tdiv_eq_ediv_of_nonneg (by omega)] at hhint
      omega
    · next hlt =>
      have hpast : retryAt - limit.parsed.us = -(limit.parsed.us - retryAt) := by omega
      rw [hpast, Int.neg_tdiv, Int.tdiv_eq_ediv_of_nonneg (by omega)] at hhint
      omega

theorem raises (context : String) : limit.response.verdict context limit.parsed =
    .error (.retryableAdapterError s!"{context} rate limited by downstream service"
      (some limit.seconds)) := by
  rw [AdapterResponse.verdict, if_pos limit.status, limit.read]
  rw [← limit.hint]
  rfl

end RateLimit

structure Execution.AnsweredBy (run : Execution) (limit : RateLimit) : Prop where
  raised : ∃ context exc, limit.response.verdict context limit.parsed = .error exc ∧
    run.hint = hintOf (.error exc)
  in_time : limit.parsed ≤ run.returned.utc

theorem Execution.AnsweredBy.hint {run : Execution} {limit : RateLimit}
    (ha : run.AnsweredBy limit) : run.hint = some limit.seconds := by
  obtain ⟨context, exc, hexc, hhint⟩ := ha.raised
  rw [limit.raises context] at hexc
  cases hexc
  exact hhint

/-- What `max(1, int(remaining))` leaves out of a time in microseconds; a time of less than a
second is made longer. -/
def cutOff (remaining : Int) : Int :=
  if remaining < 1000000 then remaining - 1000000 else remaining % 1000000

theorem cutOff_eq (remaining : Int) :
    remaining = 1000000 * max 1 (remaining / 1000000) + cutOff remaining := by
  unfold cutOff
  split <;> omega

section Histories
variable {T : Type} [DecidableEq T]

/-- The two clocks of each process advance together and never go back. -/
structure Timed (offset : T → ℚ) (h : List (Event T)) : Prop where
  rate : ∀ t c e r, .did t c e r ∈ h → c.monotonic = c.utc.us / 1000000 + offset t
  forward : h.Pairwise fun later earlier => ∀ t c c' e e' r r', later = .did t c e r →
    earlier = .did t c' e' r' → c'.utc ≤ c.utc

variable {h : List (Event T)} {t : T}

theorem execution_mem {run : Execution} (hrun : execution h t = some run) :
    ∃ e r, .did t run.returned e r ∈ h := by
  induction h with
  | nil => cases hrun
  | cons ev h ih =>
    have later : execution h t = some run → ∃ e r, .did t run.returned e r ∈ ev :: h := by
      intro hold
      obtain ⟨e, r, hmem⟩ := ih hold
      exact ⟨e, r, List.mem_cons_of_mem _ hmem⟩
    cases ev with
    | start t' call =>
      rw [execution] at hrun
      split at hrun
      · cases hrun
      · exact later hrun
    | did t' c e r =>
      cases e with
      | execute id request =>
        rw [execution] at hrun
        split at hrun
        · next ht =>
          subst ht
          cases hrun
          exact ⟨_, r, List.mem_cons_self⟩
        · exact later hrun
      | _ => exact later hrun
    | _ => exact later hrun

theorem cooldownFor_mem {target : String} {run : Execution} {begun : Choice}
    (hfor : cooldownFor h t target = some (run, begun)) : ∃ e r, .did t begun e r ∈ h := by
  induction h with
  | nil => cases hfor
  | cons ev h ih =>
    have later : cooldownFor h t target = some (run, begun) →
        ∃ e r, .did t begun e r ∈ ev :: h := by
      intro hold
      obtain ⟨e, r, hmem⟩ := ih hold
      exact ⟨e, r, List.mem_cons_of_mem _ hmem⟩
    cases ev with
    | did t' c e r =>
      cases e with
      | cooldownSet target' deadline =>
        rw [cooldownFor] at hfor
        split at hfor
        · simp only [Option.bind_eq_some_iff, Option.map_eq_some_iff, Prod.mk.injEq] at hfor
          obtain ⟨run', -, begun', hread, -, rfl⟩ := hfor
          obtain ⟨r, hmem⟩ := lastReading_mem hread
          exact ⟨_, r, List.mem_cons_of_mem _ hmem⟩
        · exact later hfor
      | cooldownPop target' =>
        rw [cooldownFor] at hfor
        split at hfor
        · cases hfor
        · exact later hfor
      | _ => exact later hfor
    | _ => exact later hfor

end Histories

def remaining (begun last : Choice) (seconds : Int) : Int :=
  begun.utc.us + 1000000 * seconds - last.utc.us

/-- A deferral is as long as the whole seconds that remain of the cooldown, and one at least. -/
theorem deferral_eq {begun last : Choice} {seconds delay : Int} {deadline : Float64} {offset : ℚ}
    (hbegun : begun.monotonic = begun.utc.us / 1000000 + offset)
    (hlast : last.monotonic = last.utc.us / 1000000 + offset)
    (hset : AutomationWorker.cooldownUntil begun.monotonic seconds = .ok deadline)
    (hdelay : AutomationWorker.deferralDelay deadline last.monotonic = .ok delay) :
    1000000 * delay = remaining begun last seconds - cutOff (remaining begun last seconds) := by
  obtain ⟨p, rfl, -, rfl⟩ := AutomationWorker.deferralDelay_eq_ok.mp hdelay
  obtain ⟨x, hx, hadd⟩ := bind_eq_ok.mp hset
  obtain ⟨-, rfl⟩ := Float64.ofInt_eq_ok.mp hx
  obtain ⟨_, _, hm, hs, -, rfl⟩ := Float64.add_eq_fin.mp (Except.ok.inj hadd)
  cases hm
  cases hs
  have hexact : begun.monotonic + seconds - last.monotonic =
      (remaining begun last seconds : ℚ) / (1000000 : ℕ) := by
    rw [hbegun, hlast, remaining]
    push_cast
    ring
  have heq := cutOff_eq (remaining begun last seconds)
  rw [hexact, Rat.floor_intCast_div_natCast]
  push_cast
  omega

/-- The request is scheduled for the instant `named` or later, and not eligible before it. -/
structure RequestRow.NotBefore (row : RequestRow) (named : Int) : Prop where
  stored : ∃ at' : Instant, row.nextAttemptAt = some at'.isoformat ∧ named ≤ at'.us
  eligible : ∀ now : Instant, row.eligible now.isoformat = true → named ≤ now.us

theorem RequestRow.notBefore_iff {row : RequestRow} {at' : Instant} {named : Int}
    (hnext : row.nextAttemptAt = some at'.isoformat) : row.NotBefore named ↔ named ≤ at'.us := by
  constructor
  · rintro ⟨⟨stored, hstored, hle⟩, -⟩
    rw [hnext, Option.some.injEq, Instant.isoformat_inj] at hstored
    rw [hstored]
    exact hle
  · intro hle
    refine ⟨⟨at', hnext, hle⟩, ?_⟩
    intro now hel
    rw [eligible_eq, hnext, Bool.and_eq_true] at hel
    have hdue : at' ≤ now := by simpa using hel.2
    have hus : at'.us ≤ now.us := hdue
    omega

section Runs
variable {T : Type} [DecidableEq T] [JsonCodec] {h : List (Event T)} {s s' : System T}
variable {t : T} {c : Choice} {id : String} {row : RequestRow}

/-- With the step `ev`, `t` puts a request off: `fail_or_retry` stores another time for it. -/
structure Reschedules (s : System T) (ev : Event T) (s' : System T) (t : T) (c : Choice)
    (id : String) (row : RequestRow) : Prop where
  event : ∃ detail delay r, ev = .did t c (.transaction (.failOrRetry id detail delay)) r
  step : Step s ev s'
  stored : s'.shared.db.row? id = some row
  retrying : row.status = AutomationStatus.retrying.value

theorem Reschedules.delay {ev : Event T} (hr : Runs h s) (hre : Reschedules s ev s' t c id row) :
    ∃ (old : RequestRow) (delay : Int) (at' : Instant), s.shared.db.row? id = some old ∧
      old.target = row.target ∧ (cooling.phase h t).Schedules id delay ∧
      row.nextAttemptAt = some at'.isoformat ∧ (at'.us : ℤ) = c.utc.us + 1000000 * delay := by
  obtain ⟨⟨detail, delay, r, rfl⟩, hs, hrow, hretrying⟩ := hre
  have hal : (cooling.phase h t).Schedules id delay := (Runs.cools hr).1.allowed hs
  have hlife : lifecycle.phase h t = .claimed id ∨ lifecycle.phase h t = .failed id :=
    hr.follows.1.allowed hs
  have hout := step_outcome hs
  cases r with
  | error exc =>
    have hdb : s'.shared.db = s.shared.db := hout
    have hold : (lifecycle.phase h t).holding = some id := by
      rcases hlife with hph | hph <;> rw [hph] <;> rfl
    rw [hdb] at hrow
    have hrun := hr.follows.2.running hold hrow
    rw [hretrying, AutomationStatus.value_inj] at hrun
    cases hrun
  | ok _ =>
    obtain ⟨old, next, hold, hnext, hdb⟩ := hout
    rw [hdb, Database.row?_move_self _ hold, Option.some.injEq] at hrow
    subst hrow
    have hopen : old.exhausted = false := by
      have hst : old.failureStatus = .retrying := AutomationStatus.value_inj.mp hretrying
      unfold RequestRow.failureStatus at hst
      split at hst
      · cases hst
      · next hex => simpa using hex
    rcases RequestRow.nextAttempt_ok hnext with ⟨hexhausted, -⟩ | ⟨-, at', hadd, rfl⟩
    · cases hopen.symm.trans hexhausted
    · exact ⟨old, delay, at', hold, rfl, hal, rfl, Instant.addSeconds_us hadd⟩

/-- The rate-limited request itself: only a date loses a fraction of a second, and the time from
reading it to storing the schedule has to make up for that. -/
theorem limited_iff {ev : Event T} {run : Execution} {limit : RateLimit} (hr : Runs h s)
    (hre : Reschedules s ev s' t c id row) (hrun : execution h t = some run)
    (ha : run.AnsweredBy limit) :
    row.NotBefore limit.named ↔ limit.lost ≤ c.utc.us - limit.origin.us := by
  obtain ⟨old, delay, at', -, -, hschedules, hnext, hat⟩ := hre.delay hr
  have hk := ((Runs.cools hr).2 t).1
  have hnamed := limit.named_eq
  have hdelay : delay = limit.seconds := by
    generalize cooling.phase h t = ph at hschedules hk
    cases ph with
    | deferring id' target cooldown first monotonic =>
      have hnone : execution h t = none := hk.1
      rw [hrun] at hnone
      cases hnone
    | executed target hint =>
      cases hint with
      | some seconds => exact hschedules.elim
      | none =>
        obtain ⟨run', hrun', -, hhint⟩ := hk
        rw [hrun, Option.some.injEq] at hrun'
        rw [← hrun', ha.hint] at hhint
        cases hhint
    | cooled seconds =>
      obtain ⟨run', hrun', hhint⟩ := hk
      rw [hrun, Option.some.injEq] at hrun'
      rw [← hrun', ha.hint, Option.some.injEq] at hhint
      exact hschedules.trans hhint.symm
    | _ => exact hschedules.elim
  rw [row.notBefore_iff hnext]
  omega

/-- A deferral loses the fraction of the remaining cooldown too. The time from reading the header
to the start of the cooldown, and that from the last reading to the schedule, make up for it. -/
theorem deferred_iff {ev : Event T} {offset : T → ℚ} {run : Execution} {begun : Choice}
    {limit : RateLimit} (hr : Runs h s) (hre : Reschedules s ev s' t c id row)
    (ht : Timed offset (ev :: h)) (hnot : execution h t = none)
    (hfor : cooldownFor h t row.target = some (run, begun)) (ha : run.AnsweredBy limit) :
    run.target = row.target ∧ ∃ last, lastReading h t = some last ∧
      (row.NotBefore limit.named ↔
        limit.lost + cutOff (remaining begun last limit.seconds) ≤
          (begun.utc.us - limit.origin.us) + (c.utc.us - last.utc.us)) := by
  obtain ⟨old, delay, at', hold, htarget, hschedules, hnext, hat⟩ := hre.delay hr
  obtain ⟨hk, hcounts⟩ := (Runs.cools hr).2 t
  have hnamed := limit.named_eq
  have hcounts := hcounts row.target
  rw [hfor] at hcounts
  generalize cooling.phase h t = ph at hschedules hk
  cases ph with
  | deferring id' target cooldown first monotonic =>
    obtain ⟨rfl, hdelay⟩ := hschedules
    obtain ⟨-, ⟨old', hold', rfl⟩, hcooldown, -, last, hlast, rfl⟩ := hk
    obtain rfl : old = old' := by simpa [hold] using hold'
    rw [htarget] at hcooldown
    rw [← hcooldown] at hcounts
    cases hcounts with
    | entry hruns hhint hset =>
      rw [ha.hint, Option.some.injEq] at hhint
      subst hhint
      obtain ⟨e, r, hmem⟩ := cooldownFor_mem hfor
      obtain ⟨r', hmem'⟩ := lastReading_mem hlast
      have hdefer := deferral_eq (ht.rate t begun e r (List.mem_cons_of_mem _ hmem))
        (ht.rate t last _ r' (List.mem_cons_of_mem _ hmem')) hset hdelay
      refine ⟨hruns, last, hlast, ?_⟩
      rw [row.notBefore_iff hnext]
      unfold remaining at *
      omega
  | executed target hint =>
    obtain ⟨run', hrun', -⟩ := hk
    rw [hnot] at hrun'
    cases hrun'
  | cooled seconds =>
    obtain ⟨run', hrun', -⟩ := hk
    rw [hnot] at hrun'
    cases hrun'
  | _ => exact hschedules.elim

omit [JsonCodec] in
/-- Delta-seconds are counted from a moment before the schedule is stored, and lose nothing. -/
theorem seconds_kept {detail : String} {delay : Int} {r : Except PyExc Unit} {offset : T → ℚ}
    {run : Execution} {limit : RateLimit}
    (ht : Timed offset (.did t c (.transaction (.failOrRetry id detail delay)) r :: h))
    (hrun : execution h t = some run) (ha : run.AnsweredBy limit)
    (hseconds : ∀ retryAt, limit.asked ≠ .date retryAt) :
    limit.lost ≤ c.utc.us - limit.origin.us := by
  obtain ⟨e, r', hmem⟩ := execution_mem hrun
  have hlater := (List.pairwise_cons.mp ht.forward).1 _ hmem t c run.returned
    (.transaction (.failOrRetry id detail delay)) e r r' rfl rfl
  have horder := limit.order.trans (ha.in_time.trans hlater)
  have hus : limit.received.us ≤ c.utc.us := horder
  unfold RateLimit.lost RateLimit.origin
  cases hasked : limit.asked with
  | date retryAt => exact absurd hasked (hseconds retryAt)
  | _ =>
    simp only
    omega

/-- In every run, of all that a process puts off because of a rate limit: it is put off until the
instant that the downstream named exactly if the time that passes in the handling makes up for
the fractions of a second that are cut off. -/
theorem retry_after_kept_iff {ev : Event T} {offset : T → ℚ} {run : Execution} {limit : RateLimit}
    (hr : Runs h s) (hre : Reschedules s ev s' t c id row) (ht : Timed offset (ev :: h))
    (ha : run.AnsweredBy limit) :
    (execution h t = some run →
      (row.NotBefore limit.named ↔ limit.lost ≤ c.utc.us - limit.origin.us) ∧
      ((∀ retryAt, limit.asked ≠ .date retryAt) → row.NotBefore limit.named)) ∧
    ∀ begun, execution h t = none → cooldownFor h t row.target = some (run, begun) →
      run.target = row.target ∧ ∃ last, lastReading h t = some last ∧
        (row.NotBefore limit.named ↔
          limit.lost + cutOff (remaining begun last limit.seconds) ≤
            (begun.utc.us - limit.origin.us) + (c.utc.us - last.utc.us)) := by
  refine ⟨?_, fun begun hnot hfor => deferred_iff hr hre ht hnot hfor ha⟩
  intro hrun
  have hiff := limited_iff hr hre hrun ha
  refine ⟨hiff, fun hseconds => hiff.mpr ?_⟩
  obtain ⟨detail, delay, r, rfl⟩ := hre.event
  exact seconds_kept ht hrun ha hseconds

/-- The clocks stand still at the instant, the monotonic one at zero. -/
def stillAt (now : Instant) : Event T → Bool
  | .did _ c _ _ => c.utc = now ∧ c.monotonic = 0
  | _ => true

omit [DecidableEq T] [JsonCodec] in
theorem Timed.of_still {now : Instant} (hstill : ∀ ev ∈ h, stillAt now ev = true) :
    Timed (fun _ => -(now.us / 1000000)) h := by
  have hboth : ∀ t c e r, .did t c e r ∈ h → c.utc = now ∧ c.monotonic = 0 :=
    fun t c e r hmem => of_decide_eq_true (hstill _ hmem)
  refine ⟨?_, ?_⟩
  · intro t c e r hmem
    obtain ⟨hutc, hmonotonic⟩ := hboth t c e r hmem
    rw [hutc, hmonotonic]
    ring
  · rw [List.pairwise_iff_forall_sublist]
    intro later earlier hsub t c c' e e' r r' hlater hearlier
    subst hlater hearlier
    have hmem := hsub.subset
    rw [(hboth t c e r (hmem (by simp))).1, (hboth t c' e' r' (hmem (by simp))).1]

end Runs

section Sample

def halfPast : Choice :=
  { Choice.calm with
    utc := ⟨63839664000500000, by decide⟩
    outcome := .error (.retryableAdapterError "rate limited" (some 9)) }

open Interleaving.Turn in
/-- A worker is told to wait nine seconds, and is about to store the schedule. -/
def limitedRun : List (Event ℕ) × System ℕ :=
  workPlay (start 0 (.submit ⟨some .database⟩ twiceRequest) :: List.replicate 12 (go 0 halfPast) ++
    start 1 (.runOnce sampleWorker) :: List.replicate 8 (go 1 halfPast))

def tooMany (header : String) : AdapterResponse := ⟨⟨429, "429 Too Many Requests", ""⟩, some header⟩

def nineSeconds : RateLimit where
  response := tooMany "9"
  received := halfPast.utc
  parsed := halfPast.utc
  asked := .delay 9
  seconds := 9
  status := rfl
  read := rfl
  hint := rfl
  order := le_refl _

/-- The tenth second, which is nine and a half seconds away. -/
def tenthSecond : RateLimit where
  response := tooMany "Mon, 01 Jan 2024 00:00:10 GMT"
  received := halfPast.utc
  parsed := halfPast.utc
  asked := .date 63839664010000000
  seconds := 9
  status := rfl
  read := rfl
  hint := by decide +kernel
  order := le_refl _

theorem limitedRun_execution : ∃ run, execution limitedRun.1 1 = some run ∧
    run.hint = some 9 ∧ run.returned.utc = halfPast.utc := by
  have hmap : (execution limitedRun.1 1).map (fun run => (run.hint, run.returned.utc)) =
      some (some 9, halfPast.utc) := by decide +kernel
  obtain ⟨run, hrun, hfacts⟩ := Option.map_eq_some_iff.mp hmap
  obtain ⟨hhint, hutc⟩ := Prod.mk.inj hfacts
  exact ⟨run, hrun, hhint, hutc⟩

theorem limitedRun_reschedules : letI := emptyPayload
    ∃ ev s' row, Reschedules limitedRun.2 ev s' 1 halfPast "a" row ∧
      Timed (fun _ => -((halfPast.utc.us : ℚ) / 1000000)) (ev :: limitedRun.1) ∧
      row.nextAttemptAt = some (⟨63839664009500000, by decide⟩ : Instant).isoformat := by
  let _ := emptyPayload
  have hschedules : (limitedRun.2.pending 1).map Eff.schedules =
      some (some ("a", "rate limited", 9)) := by decide +kernel
  obtain ⟨e, hpending, hdelay⟩ := Option.map_eq_some_iff.mp hschedules
  obtain rfl := Eff.schedules_eq hdelay
  obtain ⟨s', hs, hshared⟩ := Interleaving.State.pending_step (M := machine) hpending halfPast
  have hmap : (s'.shared.db.row? "a").map (fun row => (row.status, row.nextAttemptAt)) =
      some (AutomationStatus.retrying.value,
        some (⟨63839664009500000, by decide⟩ : Instant).isoformat) := by
    rw [hshared]
    decide +kernel
  obtain ⟨row, hrow, hfacts⟩ := Option.map_eq_some_iff.mp hmap
  obtain ⟨hstatus, hnextAt⟩ := Prod.mk.inj hfacts
  refine ⟨_, s', row, ⟨⟨_, 9, _, rfl⟩, hs, hrow, hstatus⟩, Timed.of_still ?_, hnextAt⟩
  have hstill : ∀ ev ∈ limitedRun.1, stillAt halfPast.utc ev = true := by decide +kernel
  exact List.forall_mem_cons.mpr ⟨rfl, hstill⟩

/-- Delta-seconds are kept. -/
theorem retry_after_kept_sample : letI := emptyPayload
    ∃ ev s' row, Reschedules limitedRun.2 ev s' 1 halfPast "a" row ∧
      row.NotBefore nineSeconds.named := by
  let _ := emptyPayload
  obtain ⟨ev, s', row, hre, htimed, -⟩ := limitedRun_reschedules
  obtain ⟨run, hrun, hhint, hutc⟩ := limitedRun_execution
  have ha : run.AnsweredBy nineSeconds :=
    ⟨⟨"", _, nineSeconds.raises "", hhint⟩, hutc.ge⟩
  obtain ⟨hown, -⟩ := retry_after_kept_iff (workPlay_runs _) hre htimed ha
  exact ⟨ev, s', row, hre, (hown hrun).2 nofun⟩

/-- Of the nine and a half seconds until a date, nine are waited. -/
theorem retry_before_date : letI := emptyPayload
    ∃ ev s' row run, Runs limitedRun.1 limitedRun.2 ∧
      Reschedules limitedRun.2 ev s' 1 halfPast "a" row ∧
      Timed (fun _ => -((halfPast.utc.us : ℚ) / 1000000)) (ev :: limitedRun.1) ∧
      execution limitedRun.1 1 = some run ∧ run.AnsweredBy tenthSecond ∧
      ¬ row.NotBefore tenthSecond.named := by
  let _ := emptyPayload
  obtain ⟨ev, s', row, hre, htimed, hnext⟩ := limitedRun_reschedules
  obtain ⟨run, hrun, hhint, hutc⟩ := limitedRun_execution
  have ha : run.AnsweredBy tenthSecond :=
    ⟨⟨"", _, tenthSecond.raises "", hhint⟩, hutc.ge⟩
  refine ⟨ev, s', row, run, workPlay_runs _, hre, htimed, hrun, ha, ?_⟩
  rw [RequestRow.notBefore_iff hnext]
  decide +kernel

end Sample

end Orchestrator
