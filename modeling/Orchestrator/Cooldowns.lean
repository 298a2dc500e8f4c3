import Orchestrator.Cooling

/-!
# Cooldowns are respected

The cooldown table keeps one deadline for a target, which every hint overwrites and every
success deletes. Both happen after an execution only, and a worker executes once the deadline
has passed, so no cooldown that a worker has recorded is in force then.
-/

namespace Orchestrator

open Library
set_option autoImplicit false

section Histories
variable {T : Type} [DecidableEq T]

/-- The hints that a process has recorded for a target, each with the time it counts from. -/
def recorded : List (Event T) → T → String → List (Int × ℚ)
  | [], _, _ => []
  | .did t' _ (.cooldownSet target' _) _ :: h, t, target =>
    if t' = t ∧ target' = target then
      ((execution h t).bind fun run => run.hint.bind fun seconds =>
        (lastReading h t).map fun begun => (seconds, begun.monotonic)).toList ++
          recorded h t target
    else recorded h t target
  | _ :: h, t, target => recorded h t target

/-- The first reading of the monotonic clock in the call that a process is in. -/
def firstReading : List (Event T) → T → Option Choice
  | [], _ => none
  | .start t' _ :: h, t => if t' = t then none else firstReading h t
  | .did t' c .monotonic _ :: h, t =>
    if t' = t then (firstReading h t).or (some c) else firstReading h t
  | _ :: h, t => firstReading h t

/-- A hint of `seconds` that was recorded at `begun` forbids the times before their sum. -/
def InForce (h : List (Event T)) (t : T) (target : String) (time : ℚ) : Prop :=
  ∃ seconds begun, (seconds, begun) ∈ recorded h t target ∧ time < begun + seconds

def monotonicReadings : List (Event T) → T → List ℚ
  | [], _ => []
  | .did t' c .monotonic _ :: h, t =>
    if t' = t then c.monotonic :: monotonicReadings h t else monotonicReadings h t
  | _ :: h, t => monotonicReadings h t

/-- The monotonic clock of the process reads floats and never goes back. -/
structure MonotonicClock (t : T) (h : List (Event T)) : Prop where
  float : ∀ reading ∈ monotonicReadings h t, |reading| < Float64.limit
  forward : (monotonicReadings h t).Pairwise fun later earlier => earlier ≤ later

def Reached (h : List (Event T)) (t : T) (time : ℚ) : Prop :=
  ∀ reading ∈ monotonicReadings h t, reading ≤ time

/-- No cooldown of the target is in force at the last reading of the clock, or later. -/
def Clear (h : List (Event T)) (t : T) (target : String) : Prop :=
  ∃ last, lastReading h t = some last ∧
    ∀ time, last.monotonic ≤ time → ¬ InForce h t target time

variable {h : List (Event T)} {t : T} {target : String}

theorem monotonicReadings_lastReading {last : Choice} (hlast : lastReading h t = some last) :
    ∃ earlier, monotonicReadings h t = last.monotonic :: earlier := by
  induction h with
  | nil => cases hlast
  | cons ev h ih =>
    cases ev with
    | did t' c e r =>
      cases e with
      | monotonic =>
        rw [lastReading] at hlast
        rw [monotonicReadings]
        split at hlast
        · next ht =>
          cases hlast
          exact ⟨monotonicReadings h t, if_pos ht⟩
        · next ht =>
          rw [if_neg ht]
          exact ih hlast
      | _ => exact ih hlast
    | _ => exact ih hlast

theorem monotonicReadings_firstReading {first : Choice} (hfirst : firstReading h t = some first) :
    first.monotonic ∈ monotonicReadings h t := by
  induction h with
  | nil => cases hfirst
  | cons ev h ih =>
    cases ev with
    | start t' call =>
      rw [firstReading] at hfirst
      split at hfirst
      · cases hfirst
      · exact ih hfirst
    | did t' c e r =>
      cases e with
      | monotonic =>
        rw [firstReading] at hfirst
        rw [monotonicReadings]
        split at hfirst
        · next ht =>
          rw [if_pos ht]
          rcases Option.or_eq_some_iff.mp hfirst with hold | ⟨-, heq⟩
          · exact List.mem_cons_of_mem _ (ih hold)
          · cases heq
            exact List.mem_cons_self
        · next ht =>
          rw [if_neg ht]
          exact ih hfirst
      | _ => exact ih hfirst
    | _ => exact ih hfirst

theorem monotonicReadings_sublist (ev : Event T) :
    (monotonicReadings h t).Sublist (monotonicReadings (ev :: h) t) := by
  cases ev with
  | did t' c e r =>
    cases e with
    | monotonic =>
      rw [monotonicReadings]
      split
      · exact List.sublist_cons_self _ _
      · exact List.Sublist.refl _
    | _ => exact List.Sublist.refl _
  | _ => exact List.Sublist.refl _

theorem MonotonicClock.past {ev : Event T} (hclock : MonotonicClock t (ev :: h)) :
    MonotonicClock t h :=
  ⟨fun reading hmem => hclock.float reading ((monotonicReadings_sublist ev).mem hmem),
    hclock.forward.sublist (monotonicReadings_sublist ev)⟩

theorem Reached.past {ev : Event T} {time : ℚ} (hreached : Reached (ev :: h) t time) :
    Reached h t time :=
  fun reading hmem => hreached reading ((monotonicReadings_sublist ev).mem hmem)

theorem Reached.last {last : Choice} {time : ℚ} (hreached : Reached h t time)
    (hlast : lastReading h t = some last) : last.monotonic ≤ time := by
  obtain ⟨earlier, heq⟩ := monotonicReadings_lastReading hlast
  apply hreached
  rw [heq]
  exact List.mem_cons_self

theorem MonotonicClock.reached (hclock : MonotonicClock t h) {last : Choice}
    (hlast : lastReading h t = some last) : Reached h t last.monotonic := by
  obtain ⟨earlier, heq⟩ := monotonicReadings_lastReading hlast
  have hforward := hclock.forward
  rw [heq] at hforward
  intro reading hmem
  rw [heq] at hmem
  rcases List.mem_cons.mp hmem with rfl | hmem
  · exact le_refl _
  · exact (List.pairwise_cons.mp hforward).1 reading hmem

theorem recorded_of_cooldownFor {run : Execution} {begun : Choice} {seconds : Int}
    (hfor : cooldownFor h t target = some (run, begun)) (hhint : run.hint = some seconds) :
    (seconds, begun.monotonic) ∈ recorded h t target := by
  induction h with
  | nil => cases hfor
  | cons ev h ih =>
    cases ev with
    | did t' c e r =>
      cases e with
      | cooldownSet target' deadline =>
        rw [cooldownFor] at hfor
        rw [recorded]
        split at hfor
        · next ht =>
          simp only [Option.bind_eq_some_iff, Option.map_eq_some_iff, Prod.mk.injEq] at hfor
          obtain ⟨run', hrun, begun', hread, rfl, rfl⟩ := hfor
          rw [if_pos ht, hrun, hread]
          simp [hhint]
        · next ht =>
          rw [if_neg ht]
          exact ih hfor
      | cooldownPop target' =>
        rw [cooldownFor] at hfor
        split at hfor
        · cases hfor
        · exact ih hfor
      | _ => exact ih hfor
    | _ => exact ih hfor

/-- No cooldown of the target that a process has recorded is in force any more. -/
structure Passed (h : List (Event T)) (t : T) (target : String) : Prop where
  timed : (lastReading h t).isSome
  elapsed : ∀ time, Reached h t time → ¬ InForce h t target time

theorem Passed.clear (hpassed : Passed h t target) (hclock : MonotonicClock t h) :
    Clear h t target := by
  obtain ⟨last, hlast⟩ := Option.isSome_iff_exists.mp hpassed.timed
  refine ⟨last, hlast, ?_⟩
  intro time htime
  apply hpassed.elapsed
  intro reading hmem
  exact (hclock.reached hlast reading hmem).trans htime

/-- What the phase of a process says about the cooldowns it has recorded. -/
def Waits (h : List (Event T)) (t : T) : Cooling → Prop
  | .searching | .claimed .. | .asked .. => firstReading h t = none
  | .compared _ _ _ first | .deferring _ _ _ first _ =>
    ∃ c, firstReading h t = some c ∧ c.monotonic = first
  | .executed target _ | .timed target .. => Passed h t target
  | _ => True

/-- Once the entry of a target is past, so is every cooldown that was recorded for it. -/
structure Respects (h : List (Event T)) (t : T) (cooldowns : Cooldowns) (ph : Cooling) :
    Prop where
  entries : ∀ target time, Reached h t time → coolsDown (cooldowns target) time = false →
    ¬ InForce h t target time
  waits : Waits h t ph

theorem lastReading_later (ev : Event T) (hread : (lastReading h t).isSome) :
    (lastReading (ev :: h) t).isSome := by
  cases ev with
  | did t' c e r =>
    cases e with
    | monotonic =>
      rw [lastReading]
      split
      · rfl
      · exact hread
    | _ => exact hread
  | _ => exact hread

theorem Passed.later {ev : Event T} (hpassed : Passed h t target)
    (hrecorded : recorded (ev :: h) t target = recorded h t target) :
    Passed (ev :: h) t target := by
  refine ⟨lastReading_later ev hpassed.timed, ?_⟩
  intro time hreached
  unfold InForce
  rw [hrecorded]
  exact hpassed.elapsed time hreached.past

theorem Respects.later {ev : Event T} {cooldowns : Cooldowns} {ph : Cooling}
    (hrespects : Respects h t cooldowns ph)
    (hrecorded : ∀ target, recorded (ev :: h) t target = recorded h t target)
    (hfirst : firstReading (ev :: h) t = firstReading h t) : Respects (ev :: h) t cooldowns ph := by
  refine ⟨?_, ?_⟩
  · intro target time hreached
    unfold InForce
    rw [hrecorded]
    exact hrespects.entries target time hreached.past
  · have hwaits := hrespects.waits
    cases ph with
    | executed target hint => exact Passed.later hwaits (hrecorded target)
    | timed target seconds monotonic => exact Passed.later hwaits (hrecorded target)
    | searching => exact hfirst.trans hwaits
    | claimed id target => exact hfirst.trans hwaits
    | asked id target cooldown => exact hfirst.trans hwaits
    | compared id target cooldown first =>
      obtain ⟨c, hc, heq⟩ := hwaits
      exact ⟨c, hfirst.trans hc, heq⟩
    | deferring id target cooldown first monotonic =>
      obtain ⟨c, hc, heq⟩ := hwaits
      exact ⟨c, hfirst.trans hc, heq⟩
    | _ => trivial

end Histories

theorem coolsDown_mono {cooldown : Option Float64} {first time : ℚ} (hle : first ≤ time)
    (h : coolsDown cooldown first = false) : coolsDown cooldown time = false := by
  unfold coolsDown at *
  cases hd : cooldown.getD (.fin 0) with
  | fin d =>
    rw [hd, Float64.lt_fin, decide_eq_false_iff_not, not_lt] at h
    rw [Float64.lt_fin, decide_eq_false_iff_not, not_lt]
    exact h.trans hle
  | _ =>
    rw [hd] at h
    exact h

theorem cooldownUntil_eq_ok {begun : ℚ} {seconds : Int} {deadline : Float64}
    (h : AutomationWorker.cooldownUntil begun seconds = .ok deadline) :
    deadline = Float64.ofRat (begun + seconds) := by
  obtain ⟨x, hx, hadd⟩ := bind_eq_ok.mp h
  obtain ⟨-, rfl⟩ := Float64.ofInt_eq_ok.mp hx
  exact (Except.ok.inj hadd).symm

/-- Once the entry that a hint leaves is past, the hint is. -/
theorem not_lt_of_cooldownUntil {begun time : ℚ} {seconds : Int} {deadline : Float64}
    (hfloat : |begun| < Float64.limit) (hle : begun ≤ time)
    (hdeadline : AutomationWorker.cooldownUntil begun seconds = .ok deadline)
    (hpast : coolsDown (some deadline) time = false) : ¬ time < begun + seconds := by
  obtain rfl := cooldownUntil_eq_ok hdeadline
  unfold Float64.ofRat at hpast
  split at hpast
  · simpa [coolsDown] using hpast
  · next hrange =>
    by_cases hneg : begun + seconds < 0
    · -- the sum is below all floats, the reading is not
      have hlow := (abs_lt.mp hfloat).1
      rw [abs_of_neg hneg, not_lt] at hrange
      intro hlt
      linarith
    · simp [coolsDown, Float64.lt, hneg] at hpast

theorem lt_of_coolsDown {begun time : ℚ} {seconds : Int} {deadline : Float64}
    (hfloat : |time| < Float64.limit)
    (hdeadline : AutomationWorker.cooldownUntil begun seconds = .ok deadline)
    (hcools : coolsDown (some deadline) time = true) : time < begun + seconds := by
  obtain rfl := cooldownUntil_eq_ok hdeadline
  unfold Float64.ofRat at hcools
  split at hcools
  · simpa [coolsDown] using hcools
  · next hrange =>
    by_cases hneg : begun + seconds < 0
    · simp [coolsDown, Float64.lt, hneg] at hcools
    · -- the sum is above all floats
      have hhigh := (abs_lt.mp hfloat).2
      rw [abs_of_nonneg (not_lt.mp hneg), not_lt] at hrange
      linarith

section Runs
variable {T : Type} [DecidableEq T] [JsonCodec] {h : List (Event T)} {s s' : System T}
variable {t : T} {c : Choice} {e : Eff} {r : e.Res}

omit [JsonCodec] in
theorem Respects.execute {cooldowns : Cooldowns} {id target : String} {cooldown : Option Float64}
    {first : ℚ} (hrespects : Respects h t cooldowns (.compared id target cooldown first))
    {db : Database} (hk : Knows db cooldowns (execution h t) (lastReading h t)
      (.compared id target cooldown first))
    (hfirst : coolsDown cooldown first = false) : Passed h t target := by
  obtain ⟨-, -, rfl, last, hlast, rfl⟩ := hk
  refine ⟨by rw [hlast]; rfl, ?_⟩
  intro time hreached
  exact hrespects.entries target time hreached (coolsDown_mono (hreached.last hlast) hfirst)

theorem Respects.set {target : String} {deadline : Float64} {seconds : Int} {monotonic : ℚ}
    {r : Eff.Res (.cooldownSet target deadline)} (hclock : MonotonicClock t h)
    (hs : Step s (.did t c (.cooldownSet target deadline) r) s')
    (hdeadline : AutomationWorker.cooldownUntil monotonic seconds = .ok deadline)
    (hk : Knows s.shared.db (s.locals t) (execution h t) (lastReading h t)
      (.timed target seconds monotonic))
    (hrespects : Respects h t (s.locals t) (.timed target seconds monotonic)) :
    Respects (.did t c (.cooldownSet target deadline) r :: h) t (s'.locals t)
      (.cooled seconds) := by
  refine ⟨?_, trivial⟩
  obtain ⟨⟨run, hrun, -, hhint⟩, begun, hread, rfl⟩ := hk
  have hown : s'.locals t = Function.update (s.locals t) target (some deadline) :=
    (congrArg (·.2.2) hs.did_handle).symm
  intro target' time hreached hpast
  rw [hown] at hpast
  unfold InForce
  rw [recorded]
  by_cases htarget : target = target'
  · subst htarget
    rw [Function.update_self] at hpast
    obtain ⟨earlier, heq⟩ := monotonicReadings_lastReading hread
    have hfloat := hclock.float begun.monotonic (heq ▸ List.mem_cons_self)
    have hnew := not_lt_of_cooldownUntil hfloat (hreached.past.last hread) hdeadline hpast
    rw [if_pos ⟨rfl, rfl⟩, hrun, hread]
    rintro ⟨seconds', begun', hrec, hlt⟩
    have hrec : (seconds' = seconds ∧ begun' = begun.monotonic) ∨
        (seconds', begun') ∈ recorded h t target := by simpa [hhint] using hrec
    rcases hrec with ⟨rfl, rfl⟩ | hold
    · exact hnew hlt
    · exact hrespects.waits.elapsed time hreached.past ⟨seconds', begun', hold, hlt⟩
  · rw [Function.update_of_ne (Ne.symm htarget)] at hpast
    rw [if_neg (fun hboth => htarget hboth.2)]
    exact hrespects.entries target' time hreached.past hpast

theorem Respects.pop {target : String} {r : Eff.Res (.cooldownPop target)}
    (hs : Step s (.did t c (.cooldownPop target) r) s')
    (hrespects : Respects h t (s.locals t) (.executed target none)) :
    Respects (.did t c (.cooldownPop target) r :: h) t (s'.locals t) (.executed target none) := by
  have hown : s'.locals t = Function.update (s.locals t) target none :=
    (congrArg (·.2.2) hs.did_handle).symm
  have hpassed : Passed h t target := hrespects.waits
  refine ⟨?_, hpassed.later rfl⟩
  intro target' time hreached hpast
  by_cases htarget : target' = target
  · subst htarget
    exact hpassed.elapsed time hreached.past
  · rw [hown, Function.update_of_ne htarget] at hpast
    exact hrespects.entries target' time hreached.past hpast

omit [JsonCodec] in
/-- The first reading decides, the second gives the delay or the start of a cooldown. -/
theorem Respects.monotonic {cooldowns : Cooldowns} (hal : (cooling.phase h t).allows .monotonic)
    (hrespects : Respects h t cooldowns (cooling.phase h t)) :
    Respects (.did t c .monotonic c.monotonic :: h) t cooldowns
      ((cooling.phase h t).read c.monotonic) := by
  generalize cooling.phase h t = ph at hal hrespects ⊢
  refine ⟨fun target time hreached => hrespects.entries target time hreached.past, ?_⟩
  have hfirst : firstReading (.did t c .monotonic c.monotonic :: h) t =
      (firstReading h t).or (some c) := by simp [firstReading]
  have hwaits := hrespects.waits
  cases ph with
  | asked id target cooldown =>
    have hnone : firstReading h t = none := hwaits
    refine ⟨c, ?_, rfl⟩
    rw [hfirst, hnone]
    rfl
  | compared id target cooldown first =>
    obtain ⟨c', hc', heq⟩ := hwaits
    refine ⟨c', ?_, heq⟩
    rw [hfirst, hc']
    rfl
  | executed target hint =>
    cases hint with
    | none => exact absurd hal id
    | some seconds => exact Passed.later hwaits rfl
  | _ => exact absurd hal id

theorem Respects.step (hclock : MonotonicClock t h) (hs : Step s (.did t c e r) s')
    (hal : (cooling.phase h t).allows e)
    (hk : Knows s.shared.db (s.locals t) (execution h t) (lastReading h t) (cooling.phase h t))
    (hrespects : Respects h t (s.locals t) (cooling.phase h t)) :
    Respects (.did t c e r :: h) t (s'.locals t) ((cooling.phase h t).next e r) := by
  have hsame := step_same_locals hs
  cases e with
  | monotonic =>
    obtain rfl : c.monotonic = r := congrArg Prod.fst hs.did_handle
    rw [hsame (by simp) (by simp)]
    exact Respects.monotonic hal hrespects
  | cooldownSet target deadline =>
    obtain ⟨seconds, monotonic, hph, hdeadline⟩ := hal
    rw [hph] at hk hrespects ⊢
    exact Respects.set hclock hs hdeadline hk hrespects
  | cooldownPop target =>
    have hph : cooling.phase h t = .executed target none := hal
    rw [hph] at hrespects ⊢
    exact Respects.pop hs hrespects
  | execute id request =>
    obtain ⟨cooldown, first, hph, hfirst⟩ := hal
    rw [hph] at hk hrespects
    have hpassed := hrespects.execute hk hfirst
    rw [hsame (by simp) (by simp)]
    exact Respects.later ⟨hrespects.entries, hpassed⟩ (fun _ => rfl) rfl
  | cooldownGet target =>
    obtain ⟨id, hph⟩ := hal
    rw [hph] at hrespects ⊢
    rw [hsame (by simp) (by simp)]
    exact Respects.later ⟨hrespects.entries, hrespects.waits⟩ (fun _ => rfl) rfl
  | transaction op =>
    rw [hsame (by simp) (by simp)]
    have hph : Respects (.did t c (.transaction op) r :: h) t (s.locals t) (cooling.phase h t) :=
      hrespects.later (fun _ => rfl) rfl
    cases op with
    | claimNext now =>
      rcases r with exc | _ | ⟨id, request⟩
      · exact hph
      · exact hph
      · have hsearching : cooling.phase h t = .searching := hal
        rw [hsearching] at hph ⊢
        exact ⟨hph.entries, hph.waits⟩
    | claim id now =>
      rcases r with exc | _ | ⟨id, request⟩
      · exact hph
      · exact hph
      · have hsearching : cooling.phase h t = .searching := hal
        rw [hsearching] at hph ⊢
        exact ⟨hph.entries, hph.waits⟩
    | failOrRetry id detail delay =>
      cases r with
      | error exc => exact hph
      | ok _ => exact ⟨hph.entries, trivial⟩
    | updateStatus id status detail now =>
      cases r with
      | error exc => exact hph
      | ok _ => exact ⟨hph.entries, trivial⟩
    | _ => exact hph
  | _ =>
    rw [hsame (by simp) (by simp)]
    exact hrespects.later (fun _ => rfl) rfl

omit [JsonCodec] in
theorem Respects.other {t' : T} {cooldowns : Cooldowns} {ph : Cooling} (ht : t' ≠ t)
    (hrespects : Respects h t' cooldowns ph) : Respects (.did t c e r :: h) t' cooldowns ph := by
  refine hrespects.later ?_ ?_
  · intro target
    cases e <;> simp [recorded, ht.symm]
  · cases e <;> simp [firstReading, ht.symm]

theorem Runs.respects (hr : Runs h s) (hclock : MonotonicClock t h) :
    Respects h t (s.locals t) (cooling.phase h t) := by
  induction hr with
  | init hi =>
    refine ⟨?_, trivial⟩
    rintro target time - - ⟨seconds, begun, hmem, -⟩
    cases hmem
  | @step h s s' ev hr hs ih =>
    have hr : Runs h s := hr
    have ih := ih hclock.past
    cases ev with
    | start t' call =>
      have hlocals : s'.locals = s.locals := by
        cases hs with
        | start _ _ hidle => rfl
      rw [hlocals, cooling.phase_start]
      by_cases ht : t = t'
      · subst ht
        rw [Function.update_self]
        refine ⟨fun target time hreached => ih.entries target time hreached.past, ?_⟩
        cases call with
        | runOnce worker => exact if_pos rfl
        | _ => trivial
      · rw [Function.update_of_ne ht]
        exact ih.later (fun _ => rfl) (if_neg (Ne.symm ht))
    | did t' c e r =>
      obtain ⟨hfollows, hknows⟩ := Runs.cools hr
      by_cases ht : t = t'
      · subst ht
        rw [cooling.phase_did, Function.update_self]
        exact ih.step hclock.past hs (hfollows.allowed hs) (hknows t).1
      · rw [step_other_locals ht hs, cooling.phase_did, Function.update_of_ne ht]
        exact ih.other ht
    | stop t' call reply =>
      have hlocals : s'.locals = s.locals := by
        cases hs with
        | stop _ hrun => rfl
      rw [hlocals, cooling.phase_stop]
      by_cases ht : t = t'
      · subst ht
        rw [Function.update_self]
        exact ⟨fun target time hreached => ih.entries target time hreached.past, trivial⟩
      · rw [Function.update_of_ne ht]
        exact ih.later (fun _ => rfl) rfl
    | disturb =>
      have hlocals : s'.locals = s.locals := by
        cases hs with
        | disturb shared hd => rfl
      rw [hlocals]
      exact ih.later (fun _ => rfl) rfl

/-- A process that puts a request off without having executed it defers the request. -/
theorem Runs.deferring {id detail : String} {delay : Int}
    {r : Eff.Res (.transaction (.failOrRetry id detail delay))} (hr : Runs h s)
    (hs : Step s (.did t c (.transaction (.failOrRetry id detail delay)) r) s')
    (hnot : execution h t = none) : ∃ target cooldown first monotonic,
      cooling.phase h t = .deferring id target cooldown first monotonic := by
  obtain ⟨hfollows, hknows⟩ := Runs.cools hr
  have hal : (cooling.phase h t).Schedules id delay := hfollows.allowed hs
  have hk := (hknows t).1
  generalize cooling.phase h t = ph at hal hk
  cases ph with
  | deferring id' target cooldown first monotonic =>
    obtain ⟨rfl, -⟩ := hal
    exact ⟨target, cooldown, first, monotonic, rfl⟩
  | executed target hint =>
    obtain ⟨run, hrun, -⟩ := hk
    rw [hnot] at hrun
    cases hrun
  | cooled seconds =>
    obtain ⟨run, hrun, -⟩ := hk
    rw [hnot] at hrun
    cases hrun
  | _ => exact hal.elim

/-- A deferral is decided at the first reading: a cooldown of the target is in force then, or
the table has none and the clock is below zero. -/
theorem Runs.deferred {id detail : String} {delay : Int}
    {r : Eff.Res (.transaction (.failOrRetry id detail delay))} (hr : Runs h s)
    (hclock : MonotonicClock t h)
    (hs : Step s (.did t c (.transaction (.failOrRetry id detail delay)) r) s')
    (hnot : execution h t = none) :
    ∃ row first, s.shared.db.row? id = some row ∧ firstReading h t = some first ∧
      (¬ InForce h t row.target first.monotonic → first.monotonic < 0) := by
  obtain ⟨target, cooldown, first, monotonic, hph⟩ := Runs.deferring hr hs hnot
  obtain ⟨hk, hcounts⟩ := (Runs.cools hr).2 t
  have hwaits := (Runs.respects hr hclock).waits
  rw [hph] at hk hwaits
  obtain ⟨first, hfirst, rfl⟩ := hwaits
  obtain ⟨-, ⟨row, hrow, rfl⟩, rfl, hcools, -⟩ := hk
  refine ⟨row, first, hrow, hfirst, ?_⟩
  intro hnone
  have hcounts := hcounts row.target
  generalize hfor : cooldownFor h t row.target = entry at hcounts
  generalize s.locals t row.target = cooldown at hcounts hcools
  cases hcounts with
  | empty => simpa [coolsDown] using hcools
  | entry htarget hhint hdeadline =>
    refine absurd ⟨_, _, recorded_of_cooldownFor hfor hhint, ?_⟩ hnone
    exact lt_of_coolsDown (hclock.float _ (monotonicReadings_firstReading hfirst)) hdeadline hcools

/-- In every run of a process whose monotonic clock never goes back: when it executes a request,
or overwrites or deletes the cooldown of a target, no cooldown that it has recorded for the
target is in force; and it defers no other requests than those whose target cools down, as long
as the clock is not below zero. -/
theorem own_cooldowns_respected (hr : Runs h s) (hclock : MonotonicClock t h)
    (hs : Step s (.did t c e r) s') :
    (∀ id request, e = .execute id request → Clear h t request.target) ∧
    (∀ target deadline, e = .cooldownSet target deadline → Clear h t target) ∧
    (∀ target, e = .cooldownPop target → Clear h t target) ∧
    ∀ id detail delay, e = .transaction (.failOrRetry id detail delay) → execution h t = none →
      ∃ row first, s.shared.db.row? id = some row ∧ firstReading h t = some first ∧
        (¬ InForce h t row.target first.monotonic → first.monotonic < 0) := by
  obtain ⟨hfollows, hknows⟩ := Runs.cools hr
  have hal := hfollows.allowed hs
  have hk := (hknows t).1
  have hrespects := Runs.respects hr hclock
  refine ⟨?_, ?_, ?_, ?_⟩
  · rintro id request rfl
    obtain ⟨cooldown, first, hph, hfirst⟩ := hal
    rw [hph] at hk hrespects
    exact (hrespects.execute hk hfirst).clear hclock
  · rintro target deadline rfl
    obtain ⟨seconds, monotonic, hph, -⟩ := hal
    rw [hph] at hrespects
    exact Passed.clear hrespects.waits hclock
  · rintro target rfl
    have hph : cooling.phase h t = .executed target none := hal
    rw [hph] at hrespects
    exact Passed.clear hrespects.waits hclock
  · rintro id detail delay rfl hnot
    exact Runs.deferred hr hclock hs hnot

end Runs

section Sample

def Eff.executes : Eff → Option String
  | .execute _ request => some request.target
  | _ => none

/-- The request that is put off, with its detail and delay. -/
def Eff.schedules : Eff → Option (String × String × Int)
  | .transaction (.failOrRetry id detail delay) => some (id, detail, delay)
  | _ => none

theorem Eff.schedules_eq {e : Eff} {id detail : String} {delay : Int}
    (h : e.schedules = some (id, detail, delay)) :
    e = .transaction (.failOrRetry id detail delay) := by
  unfold schedules at h
  split at h <;> cases h
  rfl

def nineAt (monotonic : ℚ) (uuid : String) : Choice :=
  { Choice.calm with
    monotonic := monotonic
    uuid := uuid
    outcome := .error (.retryableAdapterError "rate limited" (some 9)) }

open Interleaving.Turn in
/-- A process accepts a request, another one runs a step of the worker so far. -/
def workTurns (monotonic : ℚ) (uuid : String) (n : ℕ) : List (Interleaving.Turn ℕ Call Choice) :=
  start 0 (.submit ⟨some .database⟩ keylessRequest) ::
    List.replicate 8 (go 0 (nineAt monotonic uuid)) ++
  start 1 (.runOnce sampleWorker) :: List.replicate n (go 1 (nineAt monotonic uuid))

def workPlay (turns : List (Interleaving.Turn ℕ Call Choice)) : List (Event ℕ) × System ℕ :=
  letI := emptyPayload
  Interleaving.State.play machine turns ([], System.initial)

theorem workPlay_runs (turns : List (Interleaving.Turn ℕ Call Choice)) :
    @Runs ℕ _ emptyPayload (workPlay turns).1 (workPlay turns).2 := by
  let _ := emptyPayload
  have hr : Runs [] System.initial := .init ⟨rfl, fun _ => rfl, fun _ _ => rfl⟩
  exact Interleaving.Runs.play turns hr

/-- Told to wait at second zero, the worker executes for the target again at second ten. -/
def cooledTurns : List (Interleaving.Turn ℕ Call Choice) :=
  workTurns 0 "a" 12 ++ workTurns 10 "b" 4

theorem own_cooldowns_respected_sample : letI := emptyPayload
    ∃ c e r s', Step (workPlay cooledTurns).2 (.did 1 c e r) s' ∧ e.executes = some "erp" ∧
      recorded (workPlay cooledTurns).1 1 "erp" = [(9, 0)] ∧
      Clear (workPlay cooledTurns).1 1 "erp" := by
  let _ := emptyPayload
  have hexecutes : ((workPlay cooledTurns).2.pending 1).map Eff.executes = some (some "erp") := by
    decide +kernel
  obtain ⟨e, hpending, htarget⟩ := Option.map_eq_some_iff.mp hexecutes
  obtain ⟨s', hs, -⟩ := Interleaving.State.pending_step hpending Choice.calm
  have hclock : MonotonicClock 1 (workPlay cooledTurns).1 :=
    ⟨by decide +kernel, by decide +kernel⟩
  obtain ⟨hexecute, -⟩ := own_cooldowns_respected (workPlay_runs _) hclock hs
  refine ⟨_, e, _, s', hs, htarget, by decide +kernel, ?_⟩
  cases e with
  | execute id request =>
    have heq : request.target = "erp" := Option.some.inj htarget
    exact heq ▸ hexecute id request rfl
  | _ => cases htarget

def belowZero : List (Event ℕ) × System ℕ := workPlay (workTurns (-1) "a" 5)

/-- A clock that reads less than zero makes a target without a cooldown look cooled down. -/
theorem fresh_target_deferred : letI := emptyPayload
    ∃ c id detail delay r s' row, Runs belowZero.1 belowZero.2 ∧ MonotonicClock 1 belowZero.1 ∧
      Step belowZero.2 (.did 1 c (.transaction (.failOrRetry id detail delay)) r) s' ∧
      execution belowZero.1 1 = none ∧ belowZero.2.shared.db.row? id = some row ∧
      ∀ time, ¬ InForce belowZero.1 1 row.target time := by
  let _ := emptyPayload
  have hschedules : (belowZero.2.pending 1).map Eff.schedules =
      some (some ("a", AutomationWorker.coolingDetail "erp", 1)) := by decide +kernel
  obtain ⟨e, hpending, hdelay⟩ := Option.map_eq_some_iff.mp hschedules
  obtain rfl := Eff.schedules_eq hdelay
  obtain ⟨s', hs, -⟩ := Interleaving.State.pending_step hpending Choice.calm
  have hrow : (belowZero.2.shared.db.row? "a").map (·.target) = some "erp" := by decide +kernel
  obtain ⟨row, hrow, htarget⟩ := Option.map_eq_some_iff.mp hrow
  have hnone : execution belowZero.1 1 = none := by
    rw [← Option.isNone_iff_eq_none]
    decide +kernel
  refine ⟨_, "a", _, 1, _, s', row, workPlay_runs _, ⟨by decide +kernel, by decide +kernel⟩,
    hs, hnone, hrow, ?_⟩
  have hrecorded : recorded belowZero.1 1 "erp" = [] := by decide +kernel
  rintro time ⟨seconds, begun, hmem, -⟩
  rw [htarget, hrecorded] at hmem
  cases hmem

end Sample

end Orchestrator
