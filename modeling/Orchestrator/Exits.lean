import Orchestrator.Backoff

/-!
# The numbers of the exits

After its claim a `run_once` leaves by one of four exits. Each but the success computes a delay,
from a cooldown, from a hint, or from the attempt and a draw. It leaves its request RUNNING only
where such a number, or the date of the next attempt, is out of range.
-/

namespace Orchestrator

open Interaction Discipline AutomationRepository Library
set_option autoImplicit false

/-- The exit that a `run_once` takes, with the numbers that it has read. -/
inductive Exit where
  | outside
  | searching (worker : AutomationWorker)
  | claimed (worker : AutomationWorker) (requestId : String)
  | compares (worker : AutomationWorker) (requestId : String) (cooldownUntil : Float64)
  | executes (worker : AutomationWorker) (requestId : String)
  | defers (requestId : String) (cooldownUntil : Float64)
  | hinted (requestId : String) (seconds : Int)
  | failed (worker : AutomationWorker) (requestId : String)
  | attempted (worker : AutomationWorker) (requestId : String) (attempt : Int)
  | due (requestId : String) (delay : Int)
  | succeeded (requestId : String)
  | settled
  | stranded (requestId : String)

namespace Exit

def requestId? : Exit → Option String
  | outside | searching _ | settled => none
  | claimed _ id | compares _ id _ | executes _ id | defers id _ | hinted id _ | failed _ id
  | attempted _ id _ | due id _ | succeeded id | stranded id => some id

def allows (ph : Exit) : Eff → Prop
  | .transaction (.claim ..) | .transaction (.claimNext _) => ∃ worker, ph = searching worker
  | .execute id _ => ∃ worker, ph = executes worker id
  | .transaction (.failOrRetry id _ delay) => ph = due id delay
  | .transaction (.updateStatus id ..) => ph = succeeded id
  | _ => True

/-- What the tables answer about a request that is held. -/
def admits (ph : Exit) (e : Eff) (r : e.Res) : Prop :=
  ∀ id, ph.requestId? = some id → Progress.admits (.holding id) e r

/-- The delay, unless it is out of range. -/
def scheduled (requestId : String) : Except FloatError Int → Exit
  | .ok delay => due requestId delay
  | .error _ => stranded requestId

def took : Exit → String → Exit
  | searching worker, id => claimed worker id
  | ph, _ => ph

def cooled : Exit → Float64 → Exit
  | claimed worker id, cooldownUntil => compares worker id cooldownUntil
  | ph, _ => ph

/-- The monotonic clock is read for the comparison, for the deferral, and for the deadline of a
hint. -/
def read : Exit → ℚ → Exit
  | compares worker id cooldownUntil, monotonic =>
    if Float64.lt (.fin monotonic) cooldownUntil then defers id cooldownUntil
    else executes worker id
  | defers id cooldownUntil, monotonic =>
    scheduled id (AutomationWorker.deferralDelay cooldownUntil monotonic)
  | hinted id seconds, monotonic =>
    scheduled id ((AutomationWorker.cooldownUntil monotonic seconds).map fun _ => seconds)
  | ph, _ => ph

def executed : Exit → Except PyExc String → Exit
  | executes _ id, .ok _ => succeeded id
  | executes _ id, .error (.retryableAdapterError _ (some seconds)) => hinted id seconds
  | executes worker id, .error _ => failed worker id
  | ph, _ => ph

def reread : Exit → Int → Exit
  | failed worker id, attempt => attempted worker id attempt
  | ph, _ => ph

def drew : Exit → ℚ → Exit
  | attempted worker id attempt, draw => scheduled id (worker.backoffFor attempt draw)
  | ph, _ => ph

/-- A failure that could not be recorded leaves the request as it was. -/
def refused : Exit → Exit
  | due id _ => stranded id
  | ph => ph

def next (ph : Exit) : (e : Eff) → e.Res → Exit
  | .transaction (.claim ..), .ok (some (id, _)) => ph.took id
  | .transaction (.claimNext _), .ok (some (id, _)) => ph.took id
  | .cooldownGet _, cooldown => ph.cooled (cooldown.getD (.fin 0))
  | .monotonic, monotonic => ph.read monotonic
  | .execute .., r => ph.executed r
  | .transaction (.get _), .ok (some row) => ph.reread row.attemptCount
  | .random, draw => ph.drew draw
  | .transaction (.failOrRetry ..), .ok _ => settled
  | .transaction (.failOrRetry ..), .error _ => ph.refused
  | .transaction (.updateStatus ..), .ok _ => settled
  | _, _ => ph

def Left (ph : Exit) : Prop := ph.requestId? = none ∨ ∃ id, ph = stranded id

/-- A call ends with nothing in hand, unless a number was out of range. -/
def Ends : Call → Exit → Reply → Prop
  | .runOnce _, ph, _ => ph.Left
  | _, _, _ => True

/-- No number that the step computes is out of range: the cooldown, the hint and the back-off are
floats, and the next attempt, if one is left, is due before the end of year 9999. -/
def Fits (db : Database) (c : Choice) : Exit → Eff → Prop
  | defers _ cooldownUntil, .monotonic =>
    ∃ deadline, cooldownUntil = .fin deadline ∧ |deadline - c.monotonic| < Float64.limit
  | hinted _ seconds, .monotonic => seconds.natAbs < Float64.limit
  | attempted worker _ attempt, .random => ∃ ratio, worker.BackoffFits attempt c.random ratio
  | due id delay, .transaction (.failOrRetry ..) =>
    ∀ row, db.row? id = some row → row.Schedulable c.utc delay
  | _, _ => True

theorem requestId?_scheduled (id : String) (x : Except FloatError Int) :
    (scheduled id x).requestId? = some id := by
  cases x <;> rfl

theorem requestId?_read (ph : Exit) (monotonic : ℚ) :
    (ph.read monotonic).requestId? = ph.requestId? := by
  cases ph with
  | compares worker id cooldownUntil =>
    simp only [read]
    split <;> rfl
  | defers id cooldownUntil => exact requestId?_scheduled ..
  | hinted id seconds => exact requestId?_scheduled ..
  | _ => rfl

theorem requestId?_executed (ph : Exit) (r : Except PyExc String) :
    (ph.executed r).requestId? = ph.requestId? := by
  unfold executed
  split <;> rfl

theorem requestId?_drew (ph : Exit) (draw : ℚ) : (ph.drew draw).requestId? = ph.requestId? := by
  cases ph with
  | attempted worker id attempt => exact requestId?_scheduled ..
  | _ => rfl

theorem requestId?_next {ph : Exit} {lph : Phase} {e : Eff} {r : e.Res}
    (hold : ph.requestId? = lph.holding) (hal : ph.allows e) (hlal : lph.allows e) :
    (ph.next e r).requestId? = (lph.next e r).holding := by
  cases e with
  | cooldownGet target =>
    refine Eq.trans ?_ hold
    cases ph <;> rfl
  | monotonic => exact (requestId?_read ph r).trans hold
  | random => exact (requestId?_drew ph r).trans hold
  | execute id request =>
    obtain rfl : lph = .claimed id := hlal
    refine (requestId?_executed ph r).trans (hold.trans ?_)
    cases r <;> rfl
  | transaction op =>
    cases op with
    | claim id now =>
      obtain ⟨worker, rfl⟩ := hal
      rcases r with exc | _ | ⟨id', request⟩
      · exact hold
      · exact hold
      · rfl
    | claimNext now =>
      obtain ⟨worker, rfl⟩ := hal
      rcases r with exc | _ | ⟨id', request⟩
      · exact hold
      · exact hold
      · rfl
    | get id =>
      rcases r with exc | _ | row
      · exact hold
      · exact hold
      · refine Eq.trans ?_ hold
        cases ph <;> rfl
    | failOrRetry id detail delay =>
      obtain rfl : ph = due id delay := hal
      cases r with
      | error exc => exact hold
      | ok _ => rfl
    | updateStatus id status detail now =>
      cases r with
      | error exc => exact hold
      | ok _ => rfl
    | _ => exact hold
  | _ => exact hold

end Exit

def exits : Interleaving.Protocol Eff Eff.Res Call Exit where
  allowed := Exit.allows
  admits := Exit.admits
  next := Exit.next
  idle := .outside
  start
    | .runOnce worker => .searching worker
    | _ => .outside

/-- Whoever does no work of a worker. -/
def onlooker : Discipline Eff Eff.Res Unit where
  allowed _ e := e.kind ≠ .works
  admits _ _ _ := True
  next _ _ _ := ()

theorem onlooker_ignores {k : Eff.Kind} (hk : k ≠ .works) : onlooker.Ignores (·.kind = k) := by
  rintro e rfl ph
  exact ⟨hk, fun _ => rfl⟩

theorem onlooker_plain : onlooker.Ignores Eff.Plain := ignores_plain (onlooker_ignores (by decide))

theorem onlooker_still : onlooker.Ignores Eff.Still := ignores_still (onlooker_ignores (by decide))

theorem exits_onlooker {α : Type} {x : Py α} (hx : onlooker.Neutral x) {ph : Exit}
    (hph : ph = .outside ∨ ∃ worker, ph = .searching worker) :
    exits.wp x.run (fun ph' _ => ph' = ph) ph := by
  refine Discipline.wp_stays ?_ (hx ())
  intro e hkind
  cases e with
  | execute => exact absurd rfl hkind
  | transaction op =>
    cases op with
    | claim | claimNext | failOrRetry | updateStatus => exact absurd rfl hkind
    | get id =>
      refine ⟨trivial, fun r => ⟨trivial, ?_⟩⟩
      rcases r with exc | _ | row <;> rcases hph with rfl | ⟨worker, rfl⟩ <;> rfl
    | _ => exact ⟨trivial, fun _ => ⟨trivial, rfl⟩⟩
  | _ =>
    refine ⟨trivial, fun r => ⟨trivial, ?_⟩⟩
    rcases hph with rfl | ⟨worker, rfl⟩ <;> rfl

theorem exits_bind {α β : Type} {x : Py α} {f : α → Py β} (hx : onlooker.Neutral x) {ph : Exit}
    (hph : ph = .outside ∨ ∃ worker, ph = .searching worker) {Q : Exit → Except PyExc β → Prop}
    (hf : ∀ a, exits.wp (f a).run Q ph) (herror : ∀ exc, Q ph (.error exc)) :
    exits.wp (x >>= f).run Q ph := by
  rw [wp_except_bind]
  apply exits.wp_mono (exits_onlooker hx hph)
  rintro ph r rfl
  cases r with
  | ok a => exact hf a
  | error exc => exact herror exc

/-- After a search the process holds what was claimed, or nothing. -/
def Exit.AfterSearch (worker : AutomationWorker) (ph : Exit) :
    Except PyExc (Option (String × AutomationRequest)) → Prop
  | .ok (some (id, _)) => ph = .claimed worker id
  | _ => ph = .searching worker

namespace AutomationWorker

variable (worker : AutomationWorker) {id : String} {request : AutomationRequest}

theorem exits_claimNext : exits.wp claimNext.run (Exit.AfterSearch worker) (.searching worker) := by
  apply exits_bind (neutral_utcNow onlooker_plain) (.inr ⟨worker, rfl⟩) ?_ fun _ => rfl
  intro now
  refine ⟨⟨worker, rfl⟩, ?_⟩
  intro r _
  rcases r with exc | _ | ⟨id, request⟩ <;> rfl

theorem exits_claim (id : String) :
    exits.wp (claim id).run (Exit.AfterSearch worker) (.searching worker) := by
  apply exits_bind (neutral_utcNow onlooker_plain) (.inr ⟨worker, rfl⟩) ?_ fun _ => rfl
  intro now
  refine ⟨⟨worker, rfl⟩, ?_⟩
  intro r _
  rcases r with exc | _ | ⟨id, request⟩ <;> rfl

theorem exits_claimWork :
    exits.wp worker.claimWork.run (Exit.AfterSearch worker) (.searching worker) := by
  apply exits_bind (neutral_dispatcherOr onlooker_still _) (.inr ⟨worker, rfl⟩) ?_ fun _ => rfl
  intro dispatcher
  cases dispatcher with
  | database => exact exits_claimNext worker
  | redis redisUrl queueName client =>
    apply exits_bind (neutral_consume onlooker_still _) (.inr ⟨worker, rfl⟩) ?_ fun _ => rfl
    intro message
    cases message with
    | none => exact exits_claimNext worker
    | some id =>
      simp only [wp_except_bind]
      apply exits.wp_mono (exits_claim worker id) ?_
      intro ph r hr
      rcases r with exc | _ | ⟨id, request⟩ <;> cases hr
      · rfl
      · exact exits_claimNext worker
      · rfl

theorem exits_failOrRetry (detail : String) (delay : Int) :
    exits.wp (failOrRetry id detail delay).run (fun ph _ => ph.Left) (.due id delay) := by
  refine ⟨rfl, ?_⟩
  intro r _
  cases r with
  | ok _ => exact .inl rfl
  | error exc => exact .inr ⟨id, rfl⟩

theorem exits_schedule (x : Except FloatError Int) (detail : String) :
    exits.wp (Py.ofFloat x >>= fun delay => failOrRetry id detail delay).run
      (fun ph _ => ph.Left) (.scheduled id x) := by
  cases x with
  | error e => exact .inr ⟨id, rfl⟩
  | ok delay => exact exits_failOrRetry detail delay

theorem exits_deferTarget (cooldownUntil : Float64) :
    exits.wp (deferTarget id request cooldownUntil).run (fun ph _ => ph.Left)
      (.defers id cooldownUntil) :=
  ⟨trivial, fun _ _ => exits_schedule _ _⟩

theorem exits_currentAttempt {ph : Exit} (hold : ph.requestId? = some id) :
    exits.wp (currentAttempt id).run (fun ph' r => ∃ attempt, r = .ok attempt ∧
      ph' = ph.reread attempt) ph := by
  have hget : exits.wp (AutomationRepository.get id).run (fun ph' r => ∃ result,
      r = .ok (some result) ∧ ph' = ph.reread result.attemptCount) ph := by
    rw [AutomationRepository.get, wp_except_bind, Py.wp_transaction]
    refine ⟨trivial, ?_⟩
    intro r hr
    obtain ⟨row, result, rfl, hres⟩ := hr id hold rfl
    simp only [wp_except_bind, Py.wp_ofExcept, hres, wp_except_pure]
    exact ⟨result, rfl, by rw [toResult_attemptCount hres]; rfl⟩
  rw [currentAttempt, wp_except_bind]
  apply exits.wp_mono hget
  intro ph' r hr
  obtain ⟨result, rfl, rfl⟩ := hr
  exact ⟨result.attemptCount, rfl, rfl⟩

theorem exits_backoff (detail : String) :
    exits.wp (do let attempt ← currentAttempt id
                 let retryDelay ← worker.backoff attempt
                 failOrRetry id detail retryDelay : Py Unit).run (fun ph _ => ph.Left)
      (.failed worker id) := by
  rw [wp_except_bind]
  apply exits.wp_mono (exits_currentAttempt rfl)
  intro ph r hr
  obtain ⟨attempt, rfl, rfl⟩ := hr
  exact ⟨trivial, fun _ _ => exits_schedule _ _⟩

theorem exits_hinted (text : String) (seconds : Int) :
    exits.wp (worker.rateLimited id request text (some seconds)).run (fun ph _ => ph.Left)
      (.hinted id seconds) := by
  rw [rateLimited, wp_except_bind]
  apply exits.wp_mono (exits_currentAttempt rfl)
  intro ph r hr
  obtain ⟨attempt, rfl, rfl⟩ := hr
  refine ⟨trivial, fun monotonic _ => ?_⟩
  change exits.wp (Py.ofFloat (cooldownUntil monotonic seconds) >>= _).run _
    (.scheduled id ((cooldownUntil monotonic seconds).map fun _ => seconds))
  cases cooldownUntil monotonic seconds with
  | error e => exact .inr ⟨id, rfl⟩
  | ok deadline => exact ⟨trivial, fun _ _ => exits_failOrRetry text seconds⟩

theorem exits_complete (detail : String) :
    exits.wp (complete id detail).run (fun ph _ => ph.Left) (.succeeded id) := by
  refine ⟨trivial, fun now _ => ⟨rfl, ?_⟩⟩
  intro r hr
  obtain rfl := hr id rfl rfl
  exact .inl rfl

theorem exits_runAdapter :
    exits.wp (worker.runAdapter id request).run (fun ph _ => ph.Left) (.executes worker id) := by
  refine ⟨⟨worker, rfl⟩, ?_⟩
  intro r _
  rcases r with exc | detail
  · cases exc with
    | retryableAdapterError text hint =>
      cases hint with
      | none => exact exits_backoff worker text
      | some seconds => exact exits_hinted worker text seconds
    | _ => exact exits_backoff worker _
  · exact ⟨trivial, fun _ _ => exits_complete detail⟩

theorem exits_processClaimed :
    exits.wp (worker.processClaimed id request).run (fun ph _ => ph.Left)
      (.claimed worker id) := by
  refine ⟨trivial, fun cooldown _ => ⟨trivial, fun monotonic _ => ?_⟩⟩
  change exits.wp (ite (Float64.lt (.fin monotonic) (cooldown.getD (.fin 0)) = true)
    (deferTarget id request _) (worker.runAdapter id request)).run _
    (ite (Float64.lt (.fin monotonic) (cooldown.getD (.fin 0)) = true) (.defers id _)
      (.executes worker id))
  split
  · exact exits_deferTarget _
  · exact exits_runAdapter worker

theorem exits_runOnce :
    exits.wp worker.runOnce.run (fun ph _ => ph.Left) (.searching worker) := by
  rw [runOnce, wp_except_bind]
  apply exits.wp_mono (exits_claimWork worker)
  intro ph r hr
  rcases r with exc | _ | ⟨id, request⟩
  · obtain rfl : ph = .searching worker := hr
    exact .inl rfl
  · obtain rfl : ph = .searching worker := hr
    exact .inl rfl
  · obtain rfl : ph = .claimed worker id := hr
    apply (wp_except_bind ..).mpr (exits.wp_mono (exits_processClaimed worker) ?_)
    intro ph r hr
    rcases r with exc | ⟨⟩ <;> exact hr

end AutomationWorker

theorem exits_code (call : Call) : exits.wp call.code (Exit.Ends call) (exits.start call) := by
  have submits : onlooker.Ignores (·.kind = .submits) := onlooker_ignores (by decide)
  have replays : onlooker.Ignores (·.kind = .replays) := onlooker_ignores (by decide)
  cases call with
  | create id request =>
    have h := exits_onlooker (neutral_create onlooker_plain submits id request) (.inl rfl)
    exact (wp_bind ..).mpr (exits.wp_mono h fun _ _ _ => trivial)
  | submit service request =>
    have h := exits_onlooker (neutral_submit onlooker_plain submits service request) (.inl rfl)
    exact (wp_bind ..).mpr (exits.wp_mono h fun _ _ _ => trivial)
  | replayDeadLetter service id =>
    have h := exits_onlooker (neutral_replayDeadLetter onlooker_plain replays service id)
      (.inl rfl)
    exact (wp_bind ..).mpr (exits.wp_mono h fun _ _ _ => trivial)
  | runOnce worker =>
    exact (wp_bind ..).mpr (exits.wp_mono worker.exits_runOnce fun _ _ hr => hr)

namespace Exit

variable {db : Database} {c : Choice} {ph : Exit} {id : String}

theorem scheduled_ne_stranded {id' : String} {x : Except FloatError Int} {delay : Int}
    (hx : x = .ok delay) : scheduled id' x ≠ stranded id := by
  subst hx
  rintro ⟨⟩

theorem read_ne_stranded (hfits : ph.Fits db c .monotonic) (hne : ph ≠ stranded id) :
    ph.read c.monotonic ≠ stranded id := by
  cases ph with
  | compares worker id' cooldownUntil =>
    simp only [read]
    split <;> rintro ⟨⟩
  | defers id' cooldownUntil =>
    obtain ⟨deadline, rfl, hlt⟩ := hfits
    exact scheduled_ne_stranded
      (AutomationWorker.deferralDelay_eq_ok.mpr ⟨deadline, rfl, hlt, rfl⟩)
  | hinted id' seconds =>
    have hlt : seconds.natAbs < Float64.limit := hfits
    have hdeadline : (AutomationWorker.cooldownUntil c.monotonic seconds).map (fun _ => seconds) =
        .ok seconds := by
      rw [AutomationWorker.cooldownUntil, Float64.ofInt, if_pos hlt]
      rfl
    exact scheduled_ne_stranded hdeadline
  | _ => exact hne

theorem drew_ne_stranded (hfits : ph.Fits db c .random) (hne : ph ≠ stranded id) :
    ph.drew c.random ≠ stranded id := by
  cases ph with
  | attempted worker id' attempt =>
    obtain ⟨ratio, hfit⟩ := hfits
    exact scheduled_ne_stranded (worker.backoffFor_eq_ok.mpr ⟨ratio, hfit, rfl⟩)
  | _ => exact hne

theorem executed_ne_stranded (r : Except PyExc String) (hne : ph ≠ stranded id) :
    ph.executed r ≠ stranded id := by
  unfold executed
  split <;> first | exact hne | rintro ⟨⟩

theorem stranded_scheduled {x : Except FloatError Int}
    (hx : ∀ delay, x ≠ .ok delay) : scheduled id x = stranded id := by
  cases x with
  | ok delay => exact absurd rfl (hx delay)
  | error e => rfl

theorem stranded_next {e : Eff} {r : e.Res} (hal : (stranded id).allows e) :
    (stranded id).next e r = stranded id := by
  cases e with
  | execute id' request =>
    obtain ⟨worker, hph⟩ := hal
    cases hph
  | transaction op =>
    cases op with
    | claim id' now | claimNext now =>
      obtain ⟨worker, hph⟩ := hal
      cases hph
    | get id' => rcases r with exc | _ | row <;> rfl
    | failOrRetry | updateStatus => cases hal
    | _ => rfl
  | _ => rfl

end Exit

section Runs
variable {T : Type} [DecidableEq T] [JsonCodec] {h evs : List (Event T)} {s s' : System T}
variable {ev : Event T} {t : T} {c : Choice} {e : Eff} {r : e.Res} {id : String}

/-- A process keeps to its exit, and has its request in hand. -/
theorem Runs.leaves (hr : Runs h s) : exits.Follows Exit.Ends h s ∧
    ∀ t, (exits.phase h t).requestId? = holding h t := by
  have hk : exits.Keeps machine Initial Exit.Ends (fun _ => True)
      (fun (h : List (Event T)) _ =>
        ∀ t, (exits.phase h t).requestId? = holding h t) := by
    refine ⟨exits_code, id, fun _ _ _ => rfl, ?_, ?_, ?_, fun _ _ hold _ => hold⟩
    · intro h s s' t call _ _ hold _ _ t'
      rw [holding, exits.phase_start, lifecycle.phase_start]
      by_cases ht : t' = t
      · subst ht
        rw [Function.update_self, Function.update_self]
        cases call <;> rfl
      · rw [Function.update_of_ne ht, Function.update_of_ne ht]
        exact hold t'
    · intro h s s' t c e r hr _ hold hal hs
      have hr : Runs h s := hr
      refine ⟨?_, fun t' => ?_⟩
      · intro id hid
        refine admits_of_claimedRow hs ?_
        rintro id' ⟨⟩
        exact hr.claimedRow ((hold t).symm.trans hid)
      · rw [holding, exits.phase_did, lifecycle.phase_did]
        by_cases ht : t' = t
        · subst ht
          rw [Function.update_self, Function.update_self]
          exact Exit.requestId?_next (hold t') hal (hr.follows.1.allowed hs)
        · rw [Function.update_of_ne ht, Function.update_of_ne ht]
          exact hold t'
    · intro h s s' t call reply _ _ hold _ _ t'
      rw [holding, exits.phase_stop, lifecycle.phase_stop]
      by_cases ht : t' = t
      · subst ht
        rw [Function.update_self, Function.update_self]
        rfl
      · rw [Function.update_of_ne ht, Function.update_of_ne ht]
        exact hold t'
  exact hk.runs (fun _ hi => hi.2.1) hr trivial

def Representable (h : List (Event T)) (s : System T) : Event T → Prop
  | .did t c e _ => (exits.phase h t).Fits s.shared.db c e
  | _ => True

theorem next_ne_stranded (hr : Runs h s) (hs : Step s (.did t c e r) s')
    (hfits : Representable h s (.did t c e r)) (hne : exits.phase h t ≠ .stranded id) :
    (exits.phase h t).next e r ≠ .stranded id := by
  have hal := (Runs.leaves hr).1.allowed hs
  have hold := (Runs.leaves hr).2 t
  rw [Representable] at hfits
  generalize exits.phase h t = ph at hal hold hfits hne ⊢
  cases e with
  | cooldownGet target => cases ph <;> first | exact hne | rintro ⟨⟩
  | monotonic =>
    obtain rfl : c.monotonic = r := congrArg Prod.fst hs.did_handle
    exact Exit.read_ne_stranded hfits hne
  | random =>
    obtain rfl : c.random = r := congrArg Prod.fst hs.did_handle
    exact Exit.drew_ne_stranded hfits hne
  | execute id' request => exact Exit.executed_ne_stranded r hne
  | transaction op =>
    cases op with
    | claim id' now =>
      obtain ⟨worker, rfl⟩ := hal
      rcases r with exc | _ | ⟨id', request⟩ <;> rintro ⟨⟩
    | claimNext now =>
      obtain ⟨worker, rfl⟩ := hal
      rcases r with exc | _ | ⟨id', request⟩ <;> rintro ⟨⟩
    | get id' =>
      rcases r with exc | _ | row
      · exact hne
      · exact hne
      · cases ph <;> first | exact hne | rintro ⟨⟩
    | failOrRetry id' detail delay =>
      obtain rfl : ph = .due id' delay := hal
      cases r with
      | ok _ => rintro ⟨⟩
      | error exc =>
        obtain ⟨row, hc⟩ := hr.claimedRow hold.symm
        obtain ⟨nextAttemptAt, hnext⟩ := RequestRow.schedulable_iff.mp (hfits row hc.stored)
        rcases commit_failOrRetryTx hc.stored (step_commit hs) with
          ⟨_, -, hok, -⟩ | ⟨exc, herror, -, -⟩
        · cases hok
        · rw [hnext] at herror
          cases herror
    | updateStatus id' status detail now =>
      cases r with
      | ok _ => rintro ⟨⟩
      | error exc => exact hne
    | _ => exact hne
  | _ => exact hne

theorem next_stranded (hr : Runs h s) (hs : Step s (.did t c e r) s')
    (hnot : ¬ Representable h s (.did t c e r)) :
    ∃ id, (exits.phase h t).next e r = .stranded id := by
  have hal := (Runs.leaves hr).1.allowed hs
  rw [Representable] at hnot
  generalize exits.phase h t = ph at hal hnot ⊢
  unfold Exit.Fits at hnot
  split at hnot
  · next id cooldownUntil =>
    obtain rfl : c.monotonic = r := congrArg Prod.fst hs.did_handle
    refine ⟨id, Exit.stranded_scheduled fun delay hdelay => hnot ?_⟩
    obtain ⟨deadline, hdeadline, hlt, -⟩ := AutomationWorker.deferralDelay_eq_ok.mp hdelay
    exact ⟨deadline, hdeadline, hlt⟩
  · next id seconds =>
    refine ⟨id, ?_⟩
    change Exit.scheduled id ((AutomationWorker.cooldownUntil r seconds).map _) = _
    rw [AutomationWorker.cooldownUntil, Float64.ofInt, if_neg hnot]
    rfl
  · next worker id attempt =>
    obtain rfl : c.random = r := congrArg Prod.fst hs.did_handle
    refine ⟨id, Exit.stranded_scheduled fun delay hdelay => hnot ?_⟩
    obtain ⟨ratio, hfits, -⟩ := worker.backoffFor_eq_ok.mp hdelay
    exact ⟨ratio, hfits⟩
  · next id' delay' id detail delay =>
    push Not at hnot
    obtain ⟨row, hrow, hlate⟩ := hnot
    obtain ⟨rfl, rfl⟩ : id' = id ∧ delay' = delay := by simpa [exits, Exit.allows] using hal
    rcases commit_failOrRetryTx hrow (step_commit hs) with ⟨_, hnext, -, -⟩ | ⟨exc, -, rfl, -⟩
    · exact absurd (RequestRow.schedulable_iff.mpr ⟨_, hnext⟩) hlate
    · exact ⟨id', rfl⟩
  · exact absurd trivial hnot

theorem unstranded_step (hr : Runs h s) (hs : Step s ev s') (hfits : Representable h s ev)
    (hne : ∀ t id, exits.phase h t ≠ .stranded id) (t : T) (id : String) :
    exits.phase (ev :: h) t ≠ .stranded id := by
  cases ev with
  | start t' call =>
    rw [exits.phase_start]
    by_cases ht : t = t'
    · subst ht
      rw [Function.update_self]
      cases call <;> rintro ⟨⟩
    · rw [Function.update_of_ne ht]
      exact hne t id
  | did t' c e r =>
    rw [exits.phase_did]
    by_cases ht : t = t'
    · subst ht
      rw [Function.update_self]
      exact next_ne_stranded hr hs hfits (hne t id)
    · rw [Function.update_of_ne ht]
      exact hne t id
  | stop t' call reply =>
    rw [exits.phase_stop]
    by_cases ht : t = t'
    · subst ht
      rw [Function.update_self]
      rintro ⟨⟩
    · rw [Function.update_of_ne ht]
      exact hne t id
  | disturb => exact hne t id

theorem stop_unstranded {call : Call} {reply : Reply} (hr : Runs h s)
    (hs : Step s (.stop t call reply) s') (hne : ∀ id, exits.phase h t ≠ .stranded id) :
    holding h t = none := by
  obtain ⟨hfollows, hold⟩ := Runs.leaves hr
  rw [← hold t]
  cases hid : (exits.phase h t).requestId? with
  | none => rfl
  | some id =>
    obtain ⟨worker, p, hp⟩ := hr.working (t := t) (by
      rw [((Runs.progresses hr).2 t id).mpr ((hold t).symm.trans hid)]
      rintro ⟨⟩)
    cases hs with
    | stop _ hrun =>
      have hend : Exit.Ends call (exits.phase h t) reply := (hfollows t).2 _ _ hrun
      obtain ⟨rfl, -⟩ : call = .runOnce worker ∧ _ := by simpa [hrun] using hp
      rcases hend with hnone | ⟨id', hstranded⟩
      · rw [hid] at hnone
        cases hnone
      · exact absurd hstranded (hne id')

end Runs

end Orchestrator
