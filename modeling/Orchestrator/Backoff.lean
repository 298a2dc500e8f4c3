import Orchestrator.Cooldowns
import Orchestrator.Journal
import Orchestrator.Progress

/-!
# Backing off

A retry without a hint waits for `_backoff`: the delay doubles with each attempt up to a cap,
and jitter comes on top of what was capped. The attempt is read from the table after the
failure; since the request is still held then, it is the attempt that has just failed.
-/

namespace Orchestrator

open Interaction Discipline Table Library AutomationRepository AutomationWorker
set_option autoImplicit false

namespace AutomationWorker

variable (worker : AutomationWorker) {attempt attempt' : Int} {draw ratio : ℚ}

/-- Settings that are not negative, and a draw of `random.random()`. -/
structure Jitters (ratio draw : ℚ) : Prop where
  number : worker.jitterRatio = .fin ratio
  delay : 0 ≤ worker.retryDelaySeconds
  cap : 0 ≤ worker.maxRetryDelaySeconds
  ratio : 0 ≤ ratio
  draw : 0 ≤ draw ∧ draw < 1

/-- What holds of a back-off: the cap bounds it only together with the jitter. -/
structure Bounds (ratio : ℚ) (attempt delay : Int) : Prop where
  least : worker.backoffBase attempt ≤ delay
  most : delay ≤ ⌊(worker.backoffBase attempt : ℚ) * (1 + ratio)⌋
  capped : delay ≤ ⌊(worker.maxRetryDelaySeconds : ℚ) * (1 + ratio)⌋

theorem backoffBase_le_max (attempt : Int) :
    worker.backoffBase attempt ≤ worker.maxRetryDelaySeconds := min_le_left _ _

theorem backoffBase_nonneg (hdelay : 0 ≤ worker.retryDelaySeconds)
    (hcap : 0 ≤ worker.maxRetryDelaySeconds) (attempt : Int) :
    0 ≤ worker.backoffBase attempt :=
  le_min hcap (mul_nonneg hdelay (by positivity))

theorem backoffBase_mono (hdelay : 0 ≤ worker.retryDelaySeconds) (hle : attempt ≤ attempt') :
    worker.backoffBase attempt ≤ worker.backoffBase attempt' := by
  apply min_le_min_left
  apply mul_le_mul_of_nonneg_left ?_ hdelay
  have hexponent : (max 0 (attempt - 1)).toNat ≤ (max 0 (attempt' - 1)).toNat := by omega
  exact pow_le_pow_right₀ (by omega) hexponent

section Numbers
variable {worker} (hj : worker.Jitters ratio draw)
include hj

theorem Jitters.base_nonneg (attempt : Int) : (0 : ℚ) ≤ worker.backoffBase attempt := by
  exact_mod_cast worker.backoffBase_nonneg hj.delay hj.cap attempt

theorem Jitters.jittered_eq (attempt : Int) : worker.jittered attempt draw ratio =
    ⌊(worker.backoffBase attempt : ℚ) * (1 + ratio * draw)⌋ := by
  have hbase := hj.base_nonneg attempt
  have hfactor : 0 ≤ ratio * draw := mul_nonneg hj.ratio hj.draw.1
  have heq : (worker.backoffBase attempt : ℚ) + worker.backoffBase attempt * ratio * draw =
      worker.backoffBase attempt * (1 + ratio * draw) := by ring
  rw [jittered, heq]
  apply max_eq_right
  apply Int.floor_nonneg.mpr
  positivity

theorem Jitters.draw_le : 1 + ratio * draw ≤ 1 + ratio := by
  have hle : ratio * draw ≤ ratio * 1 := mul_le_mul_of_nonneg_left hj.draw.2.le hj.ratio
  rw [mul_one] at hle
  exact add_le_add_right hle 1

theorem Jitters.bounds (attempt : Int) :
    worker.Bounds ratio attempt (worker.jittered attempt draw ratio) := by
  have hbase := hj.base_nonneg attempt
  have hratio := hj.ratio
  have hfactor : 0 ≤ ratio * draw := mul_nonneg hratio hj.draw.1
  have hmax : (worker.backoffBase attempt : ℚ) ≤ worker.maxRetryDelaySeconds := by
    exact_mod_cast worker.backoffBase_le_max attempt
  have hmost : worker.jittered attempt draw ratio ≤
      ⌊(worker.backoffBase attempt : ℚ) * (1 + ratio)⌋ := by
    rw [hj.jittered_eq]
    exact Int.floor_le_floor (mul_le_mul_of_nonneg_left hj.draw_le hbase)
  refine ⟨?_, hmost, hmost.trans ?_⟩
  · rw [hj.jittered_eq, Int.le_floor]
    exact le_mul_of_one_le_right hbase (by linarith)
  · exact Int.floor_le_floor (mul_le_mul_of_nonneg_right hmax (by linarith))

theorem Jitters.mono (hle : attempt ≤ attempt') :
    worker.jittered attempt draw ratio ≤ worker.jittered attempt' draw ratio := by
  have hfactor : 0 ≤ ratio * draw := mul_nonneg hj.ratio hj.draw.1
  have hbase : (worker.backoffBase attempt : ℚ) ≤ worker.backoffBase attempt' := by
    exact_mod_cast worker.backoffBase_mono hj.delay hle
  rw [hj.jittered_eq, hj.jittered_eq]
  exact Int.floor_le_floor (mul_le_mul_of_nonneg_right hbase (by linarith))

theorem Jitters.fits (hcap : (worker.maxRetryDelaySeconds : ℚ) * (1 + ratio) < Float64.limit)
    (attempt : Int) : worker.BackoffFits attempt draw ratio := by
  have hbase := hj.base_nonneg attempt
  have hratio := hj.ratio
  have hdraw := hj.draw.1
  have hmax : (worker.backoffBase attempt : ℚ) ≤ worker.maxRetryDelaySeconds := by
    exact_mod_cast worker.backoffBase_le_max attempt
  have hmost : (worker.backoffBase attempt : ℚ) * (1 + ratio) < Float64.limit :=
    (mul_le_mul_of_nonneg_right hmax (by linarith)).trans_lt hcap
  have hscaled : 0 ≤ worker.backoffBase attempt * ratio := mul_nonneg hbase hratio
  have hjitter : worker.backoffBase attempt * ratio * draw ≤ worker.backoffBase attempt * ratio :=
    mul_le_of_le_one_right hscaled hj.draw.2.le
  have hjitter' : 0 ≤ worker.backoffBase attempt * ratio * draw := mul_nonneg hscaled hdraw
  rw [mul_add, mul_one] at hmost
  refine ⟨hj.number, ?_, ?_, ?_, ?_⟩
  · have hcast : ((worker.backoffBase attempt).natAbs : ℚ) = worker.backoffBase attempt := by
      rw [Nat.cast_natAbs, Int.cast_abs, abs_of_nonneg hbase]
    have hlt : ((worker.backoffBase attempt).natAbs : ℚ) < Float64.limit := by linarith
    exact_mod_cast hlt
  · rw [abs_of_nonneg hscaled]
    linarith
  · rw [abs_of_nonneg hjitter']
    linarith
  · rw [abs_of_nonneg (add_nonneg hbase hjitter')]
    linarith

end Numbers

end AutomationWorker

/-- A failure whose retry waits for the local policy. -/
def unhinted (r : Except PyExc String) : Bool := !r.isOk && (hintOf r).isNone

/-- How far a process has come after a failure without a hint. -/
inductive Pacing where
  | outside
  | working (worker : AutomationWorker)
  | failed (worker : AutomationWorker) (requestId : String)
  | reread (worker : AutomationWorker) (requestId : String) (attempt : Int)
  | drawn (worker : AutomationWorker) (requestId : String) (attempt : Int) (draw : ℚ)

namespace Pacing

/-- Before a failure a delay may be anything; after it, it is the back-off. -/
def Schedules : Pacing → String → Int → Prop
  | working _, _, _ => True
  | drawn worker id attempt draw, id', delay =>
    id' = id ∧ worker.backoffFor attempt draw = .ok delay
  | _, _, _ => False

def allows (ph : Pacing) : Eff → Prop
  | .execute .. => ∃ worker, ph = working worker
  | .random => ∀ worker id attempt draw, ph ≠ drawn worker id attempt draw
  | .transaction (.get id) => ∀ worker id', ph = failed worker id' → id = id'
  | .transaction (.failOrRetry id _ delay) => ph.Schedules id delay
  | _ => True

def executed : Pacing → String → Except PyExc String → Pacing
  | working worker, id, r => if unhinted r = true then failed worker id else working worker
  | ph, _, _ => ph

def found : Pacing → Option RequestRow → Pacing
  | failed worker id, row => reread worker id ((row.map (·.attemptCount)).getD 1)
  | ph, _ => ph

def draws : Pacing → ℚ → Pacing
  | reread worker id attempt, draw => drawn worker id attempt draw
  | ph, _ => ph

def next (ph : Pacing) : (e : Eff) → e.Res → Pacing
  | .execute id _, r => ph.executed id r
  | .transaction (.get _), .ok row => ph.found row
  | .random, draw => ph.draws draw
  | .transaction (.failOrRetry ..), .ok _ => outside
  | _, _ => ph

def Unfailed (ph : Pacing) : Prop := ph = outside ∨ ∃ worker, ph = working worker

end Pacing

def pacing : Interleaving.Protocol Eff Eff.Res Call Pacing where
  allowed := Pacing.allows
  admits _ _ _ := True
  next := Pacing.next
  idle := .outside
  start
    | .runOnce worker => .working worker
    | _ => .outside

def bystander : Discipline Eff Eff.Res Unit where
  allowed _ e := e.kind ≠ .works ∨ e.Claims
  admits _ _ _ := True
  next _ _ _ := ()

theorem bystander_ignores {k : Eff.Kind} (hk : k ≠ .works) : bystander.Ignores (·.kind = k) := by
  rintro e rfl ph
  exact ⟨.inl hk, fun _ => rfl⟩

theorem bystander_quiet : bystander.Ignores (·.kind = .quiet) := bystander_ignores (by decide)

theorem bystander_claims : bystander.Ignores Eff.Claims := fun _ he _ => ⟨.inr he, fun _ => rfl⟩

theorem pacing_bystander {α : Type} {x : Py α} (hx : bystander.Neutral x) {ph : Pacing}
    (hph : ph.Unfailed) : pacing.wp x.run (fun ph' _ => ph' = ph) ph := by
  refine Discipline.wp_stays ?_ (hx ())
  rintro e (hkind | ⟨id, now, rfl⟩ | ⟨now, rfl⟩)
  · cases e with
    | execute => exact absurd rfl hkind
    | random =>
      rcases hph with rfl | ⟨worker, rfl⟩ <;>
        exact ⟨by rintro _ _ _ _ ⟨⟩, fun _ => ⟨trivial, rfl⟩⟩
    | transaction op =>
      cases op with
      | failOrRetry => exact absurd rfl hkind
      | get id =>
        rcases hph with rfl | ⟨worker, rfl⟩ <;>
          exact ⟨by rintro _ _ ⟨⟩, fun r => ⟨trivial, by cases r <;> rfl⟩⟩
      | _ => exact ⟨trivial, fun _ => ⟨trivial, rfl⟩⟩
    | _ => exact ⟨trivial, fun _ => ⟨trivial, rfl⟩⟩
  · exact ⟨trivial, fun _ => ⟨trivial, rfl⟩⟩
  · exact ⟨trivial, fun _ => ⟨trivial, rfl⟩⟩

theorem toResult_attemptCount {row : RequestRow} {result : AutomationResult}
    (h : toResult row = .ok result) : result.attemptCount = row.attemptCount := by
  unfold toResult at h
  cases hstatus : AutomationStatus.ofValue row.status with
  | error exc =>
    rw [hstatus] at h
    cases h
  | ok status =>
    cases hchannel : ExecutionChannel.ofValue row.executionChannel with
    | error exc =>
      rw [hstatus, hchannel] at h
      cases h
    | ok channel =>
      rw [hstatus, hchannel] at h
      cases h
      rfl

namespace AutomationWorker

variable (worker : AutomationWorker) {id : String} {request : AutomationRequest}

theorem pacing_failOrRetry (ph : Pacing) {delay : Int} (h : ph.Schedules id delay)
    (detail : String) : pacing.wp (failOrRetry id detail delay).run (fun _ _ => True) ph :=
  ⟨h, fun _ _ => trivial⟩

theorem pacing_bind {α β : Type} {x : Py α} {f : α → Py β} (hx : bystander.Neutral x)
    (hf : ∀ a, pacing.wp (f a).run (fun _ _ => True) (.working worker)) :
    pacing.wp (x >>= f).run (fun _ _ => True) (.working worker) := by
  rw [wp_except_bind]
  apply pacing.wp_mono (pacing_bystander hx (.inr ⟨worker, rfl⟩))
  rintro ph r rfl
  cases r with
  | ok a => exact hf a
  | error exc => trivial

theorem pacing_currentAttempt : pacing.wp (currentAttempt id).run
    (fun ph r => ∀ attempt, r = .ok attempt → ph = .reread worker id attempt)
    (.failed worker id) := by
  have hget : pacing.wp (AutomationRepository.get id).run
      (fun ph r => ∀ result, r = .ok result →
        ph = .reread worker id ((result.map (·.attemptCount)).getD 1)) (.failed worker id) := by
    rw [AutomationRepository.get, wp_except_bind, Py.wp_transaction]
    refine ⟨?_, ?_⟩
    · rintro worker' id' hph
      cases hph
      rfl
    · intro r _
      rcases r with exc | _ | row
      · rintro result hresult
        cases hresult
      · rintro result hresult
        cases hresult
        rfl
      · simp only [wp_except_bind, Py.wp_ofExcept]
        cases hrow : toResult row with
        | error exc =>
          rintro result hresult
          cases hresult
        | ok result =>
          rintro _ ⟨⟩
          change Pacing.reread worker id row.attemptCount = .reread worker id result.attemptCount
          rw [toResult_attemptCount hrow]
  rw [currentAttempt, wp_except_bind]
  apply pacing.wp_mono hget
  intro ph r hr
  rcases r with exc | _ | result
  · rintro attempt hattempt
    cases hattempt
  · rintro attempt ⟨⟩
    exact hr none rfl
  · rintro attempt ⟨⟩
    exact hr (some result) rfl

theorem pacing_backoff (detail : String) :
    pacing.wp (do let attempt ← currentAttempt id
                  let retryDelay ← worker.backoff attempt
                  failOrRetry id detail retryDelay : Py Unit).run (fun _ _ => True)
      (.failed worker id) := by
  rw [wp_except_bind]
  apply pacing.wp_mono (pacing_currentAttempt worker)
  intro ph r hr
  rcases r with exc | attempt
  · trivial
  · obtain rfl := hr attempt rfl
    refine ⟨fun _ _ _ _ hph => (by cases hph), ?_⟩
    intro draw _
    change pacing.wp (Py.ofFloat (worker.backoffFor attempt draw) >>= _).run _
      (.drawn worker id attempt draw)
    cases hdelay : worker.backoffFor attempt draw with
    | error e => trivial
    | ok delay => exact pacing_failOrRetry (.drawn worker id attempt draw) ⟨rfl, hdelay⟩ detail

theorem pacing_rateLimited (text : String) (hint : Option Int) :
    pacing.wp (worker.rateLimited id request text hint).run (fun _ _ => True)
      (if hint.isNone then .failed worker id else .working worker) := by
  cases hint with
  | none => exact pacing_backoff worker text
  | some delay =>
    apply pacing_bind worker (neutral_currentAttempt (ignores_still bystander_quiet) id)
    intro attempt
    apply pacing_bind worker (neutral_ask bystander_quiet .monotonic rfl)
    intro monotonic
    apply pacing_bind worker (neutral_ofFloat _)
    intro deadline
    apply pacing_bind worker
      (neutral_ask bystander_quiet (.cooldownSet request.target deadline) rfl)
    exact fun _ => pacing_failOrRetry (.working worker) trivial text

theorem pacing_runAdapter :
    pacing.wp (worker.runAdapter id request).run (fun _ _ => True) (.working worker) := by
  refine ⟨⟨worker, rfl⟩, ?_⟩
  intro r _
  rcases r with exc | detail
  · cases exc with
    | retryableAdapterError text hint =>
      have h : pacing.wp (worker.rateLimited id request text hint).run _ _ :=
        worker.pacing_rateLimited text hint
      cases hint <;> exact h
    | _ => exact pacing_backoff worker _
  · apply pacing_bind worker (neutral_ask bystander_quiet (.cooldownPop request.target) rfl)
    intro _
    apply pacing_bind worker (neutral_utcNow (ignores_plain bystander_quiet))
    exact fun now => ⟨trivial, fun _ _ => trivial⟩

theorem pacing_processClaimed :
    pacing.wp (worker.processClaimed id request).run (fun _ _ => True) (.working worker) := by
  apply pacing_bind worker (neutral_ask bystander_quiet (.cooldownGet request.target) rfl)
  intro cooldown
  apply pacing_bind worker (neutral_ask bystander_quiet .monotonic rfl)
  intro monotonic
  split
  · apply pacing_bind worker (neutral_ask bystander_quiet .monotonic rfl)
    intro monotonic
    apply pacing_bind worker (neutral_ofFloat _)
    exact fun delay => pacing_failOrRetry (.working worker) trivial _
  · exact pacing_runAdapter worker

theorem pacing_runOnce :
    pacing.wp worker.runOnce.run (fun _ _ => True) (.working worker) := by
  apply pacing_bind worker (worker.neutral_claimWork bystander_quiet bystander_claims)
  intro claimed
  rcases claimed with _ | ⟨id, request⟩
  · trivial
  · apply (wp_except_bind ..).mpr (pacing.wp_mono worker.pacing_processClaimed ?_)
    intro ph r _
    rcases r with exc | ⟨⟩ <;> trivial

end AutomationWorker

theorem pacing_code (call : Call) :
    pacing.wp call.code (fun _ _ => True) (pacing.start call) := by
  have quiet := bystander_quiet
  have submits : bystander.Ignores (·.kind = .submits) := bystander_ignores (by decide)
  have replays : bystander.Ignores (·.kind = .replays) := bystander_ignores (by decide)
  cases call with
  | create id request =>
    have h := pacing_bystander (neutral_create (ignores_plain quiet) submits id request) (.inl rfl)
    exact (wp_bind ..).mpr (pacing.wp_mono h fun _ _ _ => trivial)
  | submit service request =>
    have h := pacing_bystander (neutral_submit (ignores_plain quiet) submits service request)
      (.inl rfl)
    exact (wp_bind ..).mpr (pacing.wp_mono h fun _ _ _ => trivial)
  | replayDeadLetter service id =>
    have h := pacing_bystander (neutral_replayDeadLetter (ignores_plain quiet) replays service id)
      (.inl rfl)
    exact (wp_bind ..).mpr (pacing.wp_mono h fun _ _ _ => trivial)
  | runOnce worker =>
    exact (wp_bind ..).mpr (pacing.wp_mono worker.pacing_runOnce fun _ _ _ => trivial)

section Histories
variable {T : Type} [DecidableEq T]

def calling : List (Event T) → T → Option Call
  | [], _ => none
  | .start t' call :: h, t => if t' = t then some call else calling h t
  | _ :: h, t => calling h t

def lastDraw : List (Event T) → T → Option ℚ
  | [], _ => none
  | .did t' _ .random draw :: h, t => if t' = t then some draw else lastDraw h t
  | _ :: h, t => lastDraw h t

/-- The request whose execution failed without a hint in the call that a process is in, until
the process settles it. -/
def owed : List (Event T) → T → Option String
  | [], _ => none
  | .start t' _ :: h, t => if t' = t then none else owed h t
  | .stop t' _ _ :: h, t => if t' = t then none else owed h t
  | .did t' _ (.execute id _) r :: h, t =>
    if t' = t then if unhinted r = true then some id else none else owed h t
  | .did t' _ (.transaction (.failOrRetry ..)) (.ok _) :: h, t =>
    if t' = t then none else owed h t
  | _ :: h, t => owed h t

theorem owed_other {h : List (Event T)} {t t' : T} {c : Choice} {e : Eff} {r : e.Res}
    (ht : t' ≠ t) : owed (.did t c e r :: h) t' = owed h t' := by
  cases e with
  | execute id request => exact if_neg (Ne.symm ht)
  | transaction op =>
    cases op with
    | failOrRetry id detail delay =>
      cases r with
      | ok _ => exact if_neg (Ne.symm ht)
      | error exc => rfl
    | _ => rfl
  | _ => rfl

end Histories

def HasAttempt (db : Database) (requestId : String) (attempt : Int) : Prop :=
  ∃ row, db.row? requestId = some row ∧ row.attemptCount = attempt

/-- What the phase of a process says about its history and the tables. -/
def Paces (db : Database) (call : Option Call) (draw : Option ℚ) (owed : Option String) :
    Pacing → Prop
  | .outside => owed = none
  | .working worker => call = some (.runOnce worker) ∧ owed = none
  | .failed worker id => call = some (.runOnce worker) ∧ owed = some id
  | .reread worker id attempt =>
    call = some (.runOnce worker) ∧ owed = some id ∧ HasAttempt db id attempt
  | .drawn worker id attempt draw' =>
    call = some (.runOnce worker) ∧ owed = some id ∧ HasAttempt db id attempt ∧ draw = some draw'

theorem Paces.keep {db db' : Database} {call : Option Call} {draw : Option ℚ}
    {owed : Option String} {ph : Pacing} (hp : Paces db call draw owed ph)
    (hrow : ∀ id, owed = some id → db'.row? id = db.row? id) : Paces db' call draw owed ph := by
  have kept : ∀ {id attempt}, owed = some id → HasAttempt db id attempt →
      HasAttempt db' id attempt := by
    rintro id attempt howed ⟨row, hold, hattempt⟩
    exact ⟨row, (hrow id howed).trans hold, hattempt⟩
  cases ph with
  | reread worker id attempt => exact ⟨hp.1, hp.2.1, kept hp.2.1 hp.2.2⟩
  | drawn worker id attempt draw => exact ⟨hp.1, hp.2.1, kept hp.2.1 hp.2.2.1, hp.2.2.2⟩
  | _ => exact hp

section Runs
variable {T : Type} [DecidableEq T] [JsonCodec] {h : List (Event T)} {s s' : System T}
variable {t t' : T} {c : Choice} {e : Eff} {r : e.Res} {id : String}

/-- No step changes the row of a request that its holder goes on holding. -/
theorem Change.row?_held {phases : T → Phase} {ph : Phase} {mark : Option (String × Job.Mark)}
    {db db' : Database} (hx : Excludes phases db) (hc : Change db (phases t) mark db' ph)
    (hold : (phases t').holding = some id)
    (hkeep : (Function.update phases t ph t').holding = some id) : db'.row? id = db.row? id := by
  obtain ⟨row, hrow, hrunning⟩ := hx.marked t' id hold
  have hfree : ∀ {id' row'} (tr : Transition), db.row? id' = some row' →
      row'.status ≠ AutomationStatus.running.value → (db.move id' tr).row? id = db.row? id := by
    intro id' row' tr hrow' hne
    apply Database.row?_move_of_ne
    rintro rfl
    rw [hrow] at hrow'
    cases hrow'
    exact hne hrunning
  have hmine : ∀ {id'} (tr : Transition), (phases t).holding = some id' → ph.holding = none →
      (db.move id' tr).row? id = db.row? id := by
    intro id' tr hold' hidle
    apply Database.row?_move_of_ne
    rintro rfl
    obtain rfl := hx.unique t' t id hold hold'
    rw [Function.update_self, hidle] at hkeep
    cases hkeep
  cases hc with
  | quiet => rfl
  | execute ok hph => rfl
  | enqueue hsub => rw [hrow, hsub.row? hrow]
  | start hrow' hel => exact hfree _ hrow' (RequestRow.not_running_of_eligible _ hel)
  | settle hph hrow' hnext =>
    apply hmine _ ?_ rfl
    rcases hph with hph | hph <;> rw [hph] <;> rfl
  | finish hph =>
    apply hmine _ ?_ rfl
    rw [hph]
    rfl
  | requeue hrow' hdead => exact hfree _ hrow' (by rw [hdead]; decide)

theorem Runs.owes (hr : Runs h s) (howed : owed h t = some id) :
    lifecycle.phase h t = .failed id := by
  have hall : ∀ t id, owed h t = some id → lifecycle.phase h t = .failed id := by
    apply Interleaving.Runs.invariant
      (I := fun h _ => ∀ t id, owed h t = some id → lifecycle.phase h t = .failed id) ?_ ?_ hr
    · intro s _ t id howed
      cases howed
    · intro h s s' ev hr ih hs t' id howed
      have hr : Runs h s := hr
      cases ev with
      | start t call =>
        rw [lifecycle.phase_start]
        rw [owed] at howed
        split at howed
        · cases howed
        · next ht => rw [Function.update_of_ne (Ne.symm ht), ih t' id howed]
      | stop t call reply =>
        rw [lifecycle.phase_stop]
        rw [owed] at howed
        split at howed
        · cases howed
        · next ht => rw [Function.update_of_ne (Ne.symm ht), ih t' id howed]
      | disturb => exact ih t' id howed
      | did t c e r =>
        have hal := hr.follows.1.allowed hs
        rw [lifecycle.phase_did]
        by_cases ht : t' = t
        · subst ht
          rw [Function.update_self]
          have hsame : owed h t' = some id → lifecycle.phase h t' = .failed id := ih t' id
          generalize lifecycle.phase h t' = lph at hal hsame ⊢
          cases e with
          | execute id' request =>
            simp only [owed, if_true] at howed
            cases r with
            | ok detail => simp [unhinted, Except.isOk, Except.toBool] at howed
            | error exc =>
              split at howed
              · cases howed
                rfl
              · cases howed
          | transaction op =>
            cases op with
            | claim id' now =>
              obtain rfl : lph = .idle := hal
              cases hsame howed
            | claimNext now =>
              obtain rfl : lph = .idle := hal
              cases hsame howed
            | updateStatus id' status detail now =>
              obtain ⟨rfl, -⟩ := hal
              cases hsame howed
            | failOrRetry id' detail delay =>
              cases r with
              | ok _ => simp [owed] at howed
              | error exc => exact hsame howed
            | _ => exact hsame howed
          | _ => exact hsame howed
        · rw [Function.update_of_ne ht]
          rw [owed_other ht] at howed
          exact ih t' id howed
  exact hall t id howed

theorem row?_owed (hr : Runs h s) (hs : Step s (.did t c e r) s') (howed : owed h t' = some id)
    (howed' : owed (.did t c e r :: h) t' = some id) :
    s'.shared.db.row? id = s.shared.db.row? id := by
  have hlater := Runs.owes (hr.step hs) howed'
  rw [lifecycle.phase_did] at hlater
  have hold : (lifecycle.phase h t').holding = some id := by
    rw [hr.owes howed]
    rfl
  apply Change.row?_held hr.follows.2 (change_of_step (hr.follows.1.allowed hs) hs) hold
  exact congrArg Phase.holding hlater

theorem Paces.step (hr : Runs h s) (hs : Step s (.did t c e r) s')
    (hal : (pacing.phase h t).allows e)
    (hp : Paces s.shared.db (calling h t) (lastDraw h t) (owed h t) (pacing.phase h t)) :
    Paces s'.shared.db (calling (.did t c e r :: h) t) (lastDraw (.did t c e r :: h) t)
      (owed (.did t c e r :: h) t) ((pacing.phase h t).next e r) := by
  have hrow : ∀ id, owed h t = some id → owed (.did t c e r :: h) t = some id →
      s'.shared.db.row? id = s.shared.db.row? id := fun id => row?_owed hr hs
  generalize pacing.phase h t = ph at hal hp ⊢
  cases e with
  | execute id request =>
    obtain ⟨worker, rfl⟩ := hal
    obtain ⟨hcall, -⟩ := hp
    have howed : owed (.did t c (.execute id request) r :: h) t =
        if unhinted r = true then some id else none := if_pos rfl
    rw [howed]
    simp only [Pacing.next, Pacing.executed]
    split
    · exact ⟨hcall, rfl⟩
    · exact ⟨hcall, rfl⟩
  | random =>
    have hdraw : lastDraw (.did t c .random r :: h) t = some r := if_pos rfl
    rw [hdraw]
    have hp := hp.keep fun id howed => hrow id howed howed
    cases ph with
    | reread worker id attempt => exact ⟨hp.1, hp.2.1, hp.2.2, rfl⟩
    | drawn worker id attempt draw => exact absurd rfl (hal worker id attempt draw)
    | _ => exact hp
  | transaction op =>
    cases op with
    | get id =>
      have hkept := hp.keep fun id howed => hrow id howed howed
      cases r with
      | error exc => exact hkept
      | ok found =>
        cases ph with
        | failed worker id' =>
          obtain rfl : id = id' := hal worker id' rfl
          obtain ⟨hcall, howed⟩ := hp
          obtain ⟨rfl, hdb⟩ := step_outcome hs
          have hold : (lifecycle.phase h t).holding = some id := by
            rw [hr.owes howed]
            rfl
          obtain ⟨row, hrow, -⟩ := hr.follows.2.marked t id hold
          refine ⟨hcall, howed, row, ?_, ?_⟩
          · rw [hdb, hrow]
          · rw [hrow]
            rfl
        | _ => exact hkept
    | failOrRetry id detail delay =>
      cases r with
      | ok _ => exact if_pos rfl
      | error exc => exact hp.keep fun id howed => hrow id howed howed
    | _ => exact hp.keep fun id howed => hrow id howed howed
  | _ => exact hp.keep fun id howed => hrow id howed howed

/-- In every run, every process paces its retries and knows what its phase says. -/
theorem Runs.paces (hr : Runs h s) : pacing.Follows (fun _ _ _ => True) h s ∧ ∀ t,
    Paces s.shared.db (calling h t) (lastDraw h t) (owed h t) (pacing.phase h t) := by
  have hfollows : ∀ {h : List (Event T)} {s : System T}, Runs h s →
      pacing.Follows (fun _ _ _ => True) h s := fun hr =>
    Interleaving.Protocol.follows_runs pacing_code (fun _ _ _ => trivial) (fun _ hi => hi.2.1) hr
  refine ⟨hfollows hr, ?_⟩
  induction hr with
  | init hi => exact fun t => rfl
  | @step h s s' ev hr hs ih =>
    have hr : Runs h s := hr
    intro t'
    have hp := ih t'
    cases ev with
    | start t call =>
      rw [hs.start_shared, pacing.phase_start, calling, owed]
      by_cases ht : t' = t
      · subst ht
        rw [Function.update_self, if_pos rfl, if_pos rfl]
        cases call with
        | runOnce worker => exact ⟨rfl, rfl⟩
        | _ => rfl
      · rw [Function.update_of_ne ht, if_neg (Ne.symm ht), if_neg (Ne.symm ht)]
        exact hp
    | stop t call reply =>
      rw [hs.stop_shared, pacing.phase_stop, owed]
      by_cases ht : t' = t
      · subst ht
        rw [Function.update_self, if_pos rfl]
        rfl
      · rw [Function.update_of_ne ht, if_neg (Ne.symm ht)]
        exact hp
    | disturb =>
      have hdb : s'.shared.db = s.shared.db := hs.disturb_shared
      rw [hdb]
      exact hp
    | did t c e r =>
      rw [pacing.phase_did]
      by_cases ht : t' = t
      · subst ht
        rw [Function.update_self]
        exact hp.step hr hs ((hfollows hr).allowed hs)
      · have hdraw : lastDraw (.did t c e r :: h) t' = lastDraw h t' := by
          cases e with
          | random => exact if_neg (Ne.symm ht)
          | _ => rfl
        have howed := owed_other (h := h) (c := c) (r := r) ht
        rw [Function.update_of_ne ht, hdraw, howed]
        apply hp.keep
        intro id howed'
        exact row?_owed hr hs howed' (howed.trans howed')

theorem Runs.runningDetail {row : RequestRow} (hr : Runs h s)
    (hrow : s.shared.db.row? id = some row)
    (hrunning : row.status = AutomationStatus.running.value) :
    row.detail = attemptDetail row.attemptCount := by
  have hall : ∀ row, s.shared.db.row? id = some row →
      row.status = AutomationStatus.running.value →
        row.detail = attemptDetail row.attemptCount := by
    apply hr.each (R := fun row _ _ => ∀ row', row = some row' →
      row'.status = AutomationStatus.running.value → row'.detail = attemptDetail row'.attemptCount)
    · intro row' hrow'
      cases hrow'
    · intro row row' log entries ms m hI hm
      have hnot : ∀ {row : RequestRow} {tr : Transition}, tr.status ≠ .running →
          (row.set tr.values).status ≠ AutomationStatus.running.value := by
        intro row tr hne heq
        exact hne (AutomationStatus.value_inj.mp heq)
      cases hm with
      | execute ok hrun hlast => exact hI
      | start n hel =>
        rintro _ ⟨⟩ -
        rfl
      | enqueue request now n =>
        have hne : AutomationStatus.queued.value ≠ AutomationStatus.running.value := by decide
        rintro _ ⟨⟩ hst
        exact absurd hst hne
      | @settle _ row clock delay nextAttemptAt detail n hrun hlast hnext =>
        rintro _ ⟨⟩ hst
        refine absurd hst (hnot ?_)
        rcases row.failureStatus_cases with hcase | hcase <;> simp [RequestRow.settled, hcase]
      | finish detail now n hrun hlast =>
        rintro _ ⟨⟩ hst
        exact absurd hst (hnot (by simp [Transition.completed]))
      | requeue now n hdead =>
        rintro _ ⟨⟩ hst
        exact absurd hst (hnot (by simp [Transition.replayed]))
  exact hall row hrow hrunning

end Runs

/-- The log of a request ends with the start of this attempt. -/
def Database.LastStarted (db : Database) (requestId : String) (attempt : Int) : Prop :=
  ∃ e, (db.auditLog requestId).getLast? = some e ∧ e.status = AutomationStatus.running.value ∧
    e.detail = attemptDetail attempt

/-- The row after a failure: it is due the delay after the failure, if an attempt is left. -/
structure RequestRow.Rescheduled (row row' : RequestRow) (failed : Instant) (delay : Int) :
    Prop where
  updated : row'.updatedAt = failed.isoformat
  attempt : row'.attemptCount = row.attemptCount
  retried : row.attemptCount < row.maxAttempts →
    row'.status = AutomationStatus.retrying.value ∧ ∃ due : Instant,
      (due.us : Int) = failed.us + 1000000 * delay ∧ row'.nextAttemptAt = some due.isoformat
  spent : row.maxAttempts ≤ row.attemptCount →
    row'.status = AutomationStatus.deadLetter.value ∧ row'.nextAttemptAt = none

theorem RequestRow.rescheduled {row : RequestRow} {failed : Instant} {delay : Int}
    {nextAttemptAt : Option String} (hnext : row.nextAttempt failed delay = .ok nextAttemptAt)
    (detail : String) : row.Rescheduled
      (row.set (row.settled detail nextAttemptAt failed.isoformat).values) failed delay := by
  have hstatus : ∀ b, row.exhausted = b →
      (row.set (row.settled detail nextAttemptAt failed.isoformat).values).status =
        (if b then AutomationStatus.deadLetter else .retrying).value := by
    intro b hb
    change row.failureStatus.value = _
    rw [failureStatus, hb]
  refine ⟨rfl, rfl, ?_, ?_⟩
  · intro hleft
    have hopen : row.exhausted = false := by
      unfold exhausted
      exact decide_eq_false (by omega)
    rcases nextAttempt_ok hnext with ⟨hexhausted, -⟩ | ⟨-, due, hdue, rfl⟩
    · cases hopen.symm.trans hexhausted
    · exact ⟨hstatus false hopen, due, Instant.addSeconds_us hdue, rfl⟩
  · intro hspent
    have hexhausted : row.exhausted = true := by
      unfold exhausted
      exact decide_eq_true hspent
    rcases nextAttempt_ok hnext with ⟨-, rfl⟩ | ⟨hopen, -⟩
    · exact ⟨hstatus true hexhausted, rfl⟩
    · cases hopen.symm.trans hexhausted

section Claim
variable {T : Type} [DecidableEq T] [JsonCodec] {h : List (Event T)} {s s' : System T}
variable {t : T} {c : Choice} {id : String}

omit [JsonCodec] in
/-- The delay is the back-off of the attempt just made, for the last draw of the process, and the
request is put off by it or a number is out of range. -/
def BacksOff (h : List (Event T)) (s s' : System T) (t : T) (id : String)
    (worker : AutomationWorker) (failed : Instant) (delay : Int) (r : Except PyExc Unit) : Prop :=
  ∃ draw row, lastDraw h t = some draw ∧ s.shared.db.row? id = some row ∧
    s.shared.db.LastStarted id row.attemptCount ∧
    worker.backoffFor row.attemptCount draw = .ok delay ∧
    ((r = .ok () ∧ ∃ row', s'.shared.db.row? id = some row' ∧ row.Rescheduled row' failed delay) ∨
      ∃ exc, r = .error exc ∧ exc.OutOfRange)

theorem settles_owed {id' detail : String} {delay : Int} {r : Except PyExc Unit}
    {worker : AutomationWorker} (hr : Runs h s) (howed : owed h t = some id)
    (hcall : calling h t = some (.runOnce worker))
    (hs : Step s (.did t c (.transaction (.failOrRetry id' detail delay)) r) s') :
    id' = id ∧ BacksOff h s s' t id worker c.utc delay r := by
  obtain ⟨hfollows, hpaces⟩ := hr.paces
  have hal : (pacing.phase h t).Schedules id' delay := hfollows.allowed hs
  have hp := hpaces t
  have hold : holding h t = some id := by
    rw [holding, hr.owes howed]
    rfl
  obtain ⟨row, hrow, hrunning⟩ := hr.follows.2.marked t id hold
  cases hph : pacing.phase h t with
  | drawn worker' id'' attempt draw =>
    rw [hph] at hal hp
    obtain ⟨hcall', howed', ⟨row', hrow', rfl⟩, hdraw⟩ := hp
    obtain ⟨rfl, hdelay⟩ := hal
    obtain rfl : id = id' := by simpa [howed] using howed'
    obtain rfl : worker = worker' := by simpa [hcall] using hcall'
    obtain rfl : row = row' := by simpa [hrow] using hrow'
    refine ⟨rfl, draw, row, hdraw, hrow, ?_, hdelay, ?_⟩
    · have hj := hr.journaled id
      rw [hrow] at hj
      obtain ⟨e, hlast, hstatus, hdetail, -⟩ := hj.last
      exact ⟨e, hlast, hstatus ▸ hrunning, hdetail ▸ hr.runningDetail hrow hrunning⟩
    · rcases commit_failOrRetryTx hrow (step_commit hs) with
        ⟨nextAttemptAt, hnext, rfl, hdb⟩ | ⟨exc, hnext, rfl, -⟩
      · refine .inl ⟨rfl, _, ?_, RequestRow.rescheduled hnext detail⟩
        rw [hdb]
        exact Database.row?_move_self _ hrow
      · exact .inr ⟨exc, rfl, RequestRow.nextAttempt_error hnext⟩
  | outside =>
    rw [hph] at hp
    rw [show owed h t = none from hp] at howed
    cases howed
  | working worker' =>
    rw [hph] at hp
    rw [hp.2] at howed
    cases howed
  | _ =>
    rw [hph] at hal
    exact hal.elim

theorem calling_of_owed (hr : Runs h s) (howed : owed h t = some id) :
    ∃ worker, calling h t = some (.runOnce worker) := by
  have hp := hr.paces.2 t
  cases hph : pacing.phase h t with
  | outside =>
    rw [hph] at hp
    rw [show owed h t = none from hp] at howed
    cases howed
  | _ =>
    rw [hph] at hp
    exact ⟨_, hp.1⟩

/-- How the back-offs of a worker lie, with a draw of the jitter. -/
structure AutomationWorker.Spaces (worker : AutomationWorker) (ratio draw : ℚ) : Prop where
  bounds : ∀ attempt, worker.Bounds ratio attempt (worker.jittered attempt draw ratio)
  grows : ∀ attempt attempt', attempt ≤ attempt' →
    worker.jittered attempt draw ratio ≤ worker.jittered attempt' draw ratio
  exact_of_ok : ∀ attempt delay, worker.backoffFor attempt draw = .ok delay →
    delay = worker.jittered attempt draw ratio
  ok_of_cap : (worker.maxRetryDelaySeconds : ℚ) * (1 + ratio) < Float64.limit → ∀ attempt,
    worker.backoffFor attempt draw = .ok (worker.jittered attempt draw ratio)

omit [JsonCodec] in
theorem AutomationWorker.Jitters.spaces {worker : AutomationWorker} {ratio draw : ℚ}
    (hj : worker.Jitters ratio draw) : worker.Spaces ratio draw where
  bounds := hj.bounds
  grows _ _ hle := hj.mono hle
  exact_of_ok attempt delay hdelay := by
    obtain ⟨ratio', hfits, rfl⟩ := worker.backoffFor_eq_ok.mp hdelay
    obtain rfl : ratio = ratio' := by simpa [hj.number] using hfits.number
    rfl
  ok_of_cap hcap attempt := worker.backoffFor_eq_ok.mpr ⟨ratio, hj.fits hcap attempt, rfl⟩

/-- A back-off is at least its base, at most the base with the largest jitter, and grows with
the attempt. It may exceed the configured maximum, by no more than the jitter of that maximum.
In every run, what a process settles after a failure without a hint is due exactly the back-off
of the attempt just made after the failure; it is settled unless a number is out of range. -/
theorem backoff_bounds_and_schedules :
    (∀ worker ratio draw, AutomationWorker.Jitters worker ratio draw → worker.Spaces ratio draw) ∧
    ∀ (h : List (Event T)) (s : System T) (t : T) (id : String), Runs h s →
      owed h t = some id → ∃ worker, calling h t = some (.runOnce worker) ∧
        (∀ c id' detail delay r s',
          Step s (.did t c (.transaction (.failOrRetry id' detail delay)) r) s' →
          id' = id ∧ BacksOff h s s' t id worker c.utc delay r) ∧
        ∀ call reply s', Step s (.stop t call reply) s' →
          ∃ exc, reply = .ran (.error exc) ∧ exc.OutOfRange := by
  refine ⟨fun _ _ _ hj => hj.spaces, ?_⟩
  intro h s t id hr howed
  obtain ⟨worker, hcall⟩ := calling_of_owed hr howed
  refine ⟨worker, hcall, ?_, ?_⟩
  · exact fun c id' detail delay r s' hs => settles_owed hr howed hcall hs
  · intro call reply s' hs
    have hold : holding h t = some id := by
      rw [holding, hr.owes howed]
      rfl
    exact stop_holding hr hs hold

end Claim

section Sample

/-- The adapter fails, and the draw is one half. -/
def boom : Choice := { Choice.calm with random := 1 / 2, outcome := .error (.other "boom") }

open Interleaving.Turn in
/-- The first attempt has failed, and its retry is about to be scheduled. -/
def failedOnce : List (Event ℕ) × System ℕ :=
  workPlay (start 0 (.submit ⟨some .database⟩ keylessRequest) :: List.replicate 8 (go 0 boom) ++
    start 1 (.runOnce sampleWorker) :: List.replicate 7 (go 1 boom))

theorem sampleWorker_jitters : sampleWorker.Jitters (1 / 5) (1 / 2) :=
  ⟨rfl, by decide, by decide, by norm_num, by norm_num⟩

theorem backoff_bounds_and_schedules_sample : letI := emptyPayload
    sampleWorker.Bounds (1 / 5) 1 (sampleWorker.jittered 1 (1 / 2) (1 / 5)) ∧
      ∃ worker s' r, calling failedOnce.1 1 = some (.runOnce worker) ∧
        BacksOff failedOnce.1 failedOnce.2 s' 1 "a" worker boom.utc 5 r := by
  let _ := emptyPayload
  have howed : owed failedOnce.1 1 = some "a" := by decide +kernel
  have hschedules : (failedOnce.2.pending 1).map Eff.schedules = some (some ("a", "boom", 5)) := by
    decide +kernel
  obtain ⟨e, hpending, hdelay⟩ := Option.map_eq_some_iff.mp hschedules
  obtain rfl := Eff.schedules_eq hdelay
  obtain ⟨s', hs, -⟩ := Interleaving.State.pending_step hpending boom
  obtain ⟨hspaces, hsettled⟩ := backoff_bounds_and_schedules (T := ℕ)
  obtain ⟨worker, hcall, hsettles, -⟩ := hsettled _ _ 1 "a" (workPlay_runs _) howed
  have hbounds := (hspaces _ _ _ sampleWorker_jitters).bounds 1
  exact ⟨hbounds, worker, s', _, hcall, (hsettles _ _ _ _ _ _ hs).2⟩

/-- The seventh attempt waits for 330 seconds, with a maximum of 300. -/
theorem backoff_over_maximum : sampleWorker.Jitters (1 / 5) (1 / 2) ∧
    sampleWorker.maxRetryDelaySeconds = 300 ∧ sampleWorker.backoffFor 7 (1 / 2) = .ok 330 := by
  refine ⟨sampleWorker_jitters, rfl, ?_⟩
  have hdelay : (sampleWorker.backoffFor 7 (1 / 2)).toOption = some 330 := by decide +kernel
  cases hcase : sampleWorker.backoffFor 7 (1 / 2) with
  | error e =>
    rw [hcase] at hdelay
    cases hdelay
  | ok delay =>
    rw [hcase] at hdelay
    exact congrArg Except.ok (Option.some.inj hdelay)

end Sample

end Orchestrator
