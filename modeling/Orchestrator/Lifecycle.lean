import Orchestrator.Footprint

/-!
# The discipline of a worker

Between a successful claim and the `complete` or `fail_or_retry` that settles it, a
worker holds one request. It executes the adapter and settles only for that request.
-/

namespace Orchestrator

open Interaction Library
set_option autoImplicit false

/-- What a process has done for the request it holds. -/
inductive Phase where
  | idle
  | claimed (requestId : String)
  | succeeded (requestId : String)
  | failed (requestId : String)
deriving DecidableEq

namespace Phase

def holding : Phase → Option String
  | idle => none
  | claimed id | succeeded id | failed id => some id

def allows (ph : Phase) : Eff → Prop
  | .execute id _ => ph = claimed id
  | .transaction (.claim ..) | .transaction (.claimNext _) => ph = idle
  | .transaction (.failOrRetry id _ _) => ph = claimed id ∨ ph = failed id
  | .transaction (.updateStatus id status _ _) => ph = succeeded id ∧ status = .completed
  | _ => True

def next (ph : Phase) : (e : Eff) → e.Res → Phase
  | .execute id _, .ok _ => succeeded id
  | .execute id _, .error _ => failed id
  | .transaction (.claim ..), .ok (some (id, _)) => claimed id
  | .transaction (.claimNext _), .ok (some (id, _)) => claimed id
  | .transaction (.failOrRetry ..), .ok _ => idle
  | .transaction (.updateStatus ..), .ok _ => idle
  | _, _ => ph

end Phase

def lifecycle : Interleaving.Protocol Eff Eff.Res Call Phase where
  allowed := Phase.allows
  admits _ _ _ := True
  next := Phase.next
  idle := .idle
  start _ := .idle

open Discipline AutomationRepository

theorem lifecycle_ignores {k : Eff.Kind} (hk : k ≠ .works) : lifecycle.Ignores (·.kind = k) := by
  rintro e rfl ph
  cases e with
  | execute => exact absurd rfl hk
  | transaction op => cases op <;> first | exact absurd rfl hk | exact ⟨trivial, fun _ => rfl⟩
  | _ => exact ⟨trivial, fun _ => rfl⟩

theorem lifecycle_quiet : lifecycle.Ignores (·.kind = .quiet) := lifecycle_ignores (by decide)

theorem lifecycle_plain : lifecycle.Ignores Eff.Plain := ignores_plain lifecycle_quiet

theorem lifecycle_still : lifecycle.Ignores Eff.Still := ignores_still lifecycle_quiet

/-- After a claim the process holds what was claimed, if anything was. -/
def AfterClaim (ph : Phase) : Except PyExc (Option (String × AutomationRequest)) → Prop
  | .ok (some (id, _)) => ph = .claimed id
  | _ => ph = .idle

theorem wp_claimNext : lifecycle.wp claimNext.run AfterClaim .idle := by
  apply (neutral_utcNow lifecycle_plain).wp_bind ?_ fun _ => rfl
  intro now
  refine ⟨rfl, ?_⟩
  intro r _
  rcases r with x | _ | ⟨id, request⟩ <;> rfl

theorem wp_claim (id : String) : lifecycle.wp (claim id).run AfterClaim .idle := by
  apply (neutral_utcNow lifecycle_plain).wp_bind ?_ fun _ => rfl
  intro now
  refine ⟨rfl, ?_⟩
  intro r _
  rcases r with x | _ | ⟨id, request⟩ <;> rfl

namespace AutomationWorker

variable (worker : AutomationWorker)

theorem wp_claimWork : lifecycle.wp worker.claimWork.run AfterClaim .idle := by
  apply (neutral_dispatcherOr lifecycle_still _).wp_bind ?_ fun _ => rfl
  intro dispatcher
  cases dispatcher with
  | database => exact wp_claimNext
  | redis redisUrl queueName client =>
    apply (neutral_consume lifecycle_still _).wp_bind ?_ fun _ => rfl
    intro message
    cases message with
    | none => exact wp_claimNext
    | some id =>
      simp only [wp_except_bind]
      apply lifecycle.wp_mono (wp_claim id) ?_
      intro ph r hr
      rcases r with x | _ | ⟨id, request⟩ <;> cases hr
      · rfl
      · exact wp_claimNext
      · rfl

theorem wp_failOrRetry {ph : Phase} {id : String} (h : ph = .claimed id ∨ ph = .failed id)
    (detail : String) (delay : Int) :
    lifecycle.wp (failOrRetry id detail delay).run (fun _ _ => True) ph :=
  ⟨h, fun _ _ => trivial⟩

theorem wp_rateLimited (id : String) (request : AutomationRequest) (text : String)
    (hint : Option Int) : lifecycle.wp (worker.rateLimited id request text hint).run
      (fun _ _ => True) (.failed id) := by
  apply (neutral_currentAttempt lifecycle_still id).wp_bind ?_ fun _ => trivial
  intro attempt
  cases hint with
  | none =>
    apply (neutral_backoff lifecycle_still worker attempt).wp_bind ?_ fun _ => trivial
    exact fun delay => wp_failOrRetry (.inr rfl) _ _
  | some delay =>
    apply (neutral_ask lifecycle_quiet .monotonic rfl).wp_bind ?_ fun _ => trivial
    intro monotonic
    apply (neutral_ofFloat _).wp_bind ?_ fun _ => trivial
    intro deadline
    apply (neutral_ask lifecycle_quiet (.cooldownSet request.target deadline)
      rfl).wp_bind ?_ fun _ => trivial
    exact fun _ => wp_failOrRetry (.inr rfl) _ _

theorem wp_executionFailed (id : String) (exc : PyExc) :
    lifecycle.wp (worker.executionFailed id exc).run (fun _ _ => True) (.failed id) := by
  apply (neutral_currentAttempt lifecycle_still id).wp_bind ?_ fun _ => trivial
  intro attempt
  apply (neutral_backoff lifecycle_still worker attempt).wp_bind ?_ fun _ => trivial
  exact fun delay => wp_failOrRetry (.inr rfl) _ _

theorem wp_runAdapter (id : String) (request : AutomationRequest) :
    lifecycle.wp (worker.runAdapter id request).run (fun _ _ => True) (.claimed id) := by
  refine ⟨rfl, ?_⟩
  intro r _
  rcases r with exc | detail
  · cases exc with
    | retryableAdapterError text hint => exact wp_rateLimited worker id request text hint
    | _ => exact wp_executionFailed worker id _
  · apply (neutral_ask lifecycle_quiet (.cooldownPop request.target)
      rfl).wp_bind ?_ fun _ => trivial
    intro _
    apply (neutral_utcNow lifecycle_plain).wp_bind ?_ fun _ => trivial
    exact fun now => ⟨⟨rfl, rfl⟩, fun _ _ => trivial⟩

theorem wp_processClaimed (id : String) (request : AutomationRequest) :
    lifecycle.wp (worker.processClaimed id request).run (fun _ _ => True) (.claimed id) := by
  apply (neutral_ask lifecycle_quiet (.cooldownGet request.target)
    rfl).wp_bind ?_ fun _ => trivial
  intro cooldown
  apply (neutral_ask lifecycle_quiet .monotonic rfl).wp_bind ?_ fun _ => trivial
  intro monotonic
  split
  · apply (neutral_ask lifecycle_quiet .monotonic rfl).wp_bind ?_ fun _ => trivial
    intro monotonic
    apply (neutral_ofFloat _).wp_bind ?_ fun _ => trivial
    exact fun delay => wp_failOrRetry (.inl rfl) _ _
  · exact wp_runAdapter worker id request

theorem wp_runOnce : lifecycle.wp worker.runOnce.run (fun _ _ => True) .idle := by
  rw [runOnce, wp_except_bind]
  apply lifecycle.wp_mono (wp_claimWork worker)
  intro ph r hr
  rcases r with x | _ | ⟨id, request⟩ <;> cases hr
  · trivial
  · trivial
  · apply (wp_except_bind ..).mpr (lifecycle.wp_mono (wp_processClaimed worker id request) ?_)
    intro ph r _
    rcases r with x | _ <;> trivial

end AutomationWorker

theorem lifecycle_code (call : Call) :
    lifecycle.wp call.code (fun _ _ => True) (lifecycle.start call) := by
  cases call with
  | create id request =>
    have h := neutral_create lifecycle_plain (lifecycle_ignores (by decide)) id request
    exact (wp_bind ..).mpr (lifecycle.wp_mono (h _) fun _ _ _ => trivial)
  | submit service request =>
    have h := neutral_submit lifecycle_plain (lifecycle_ignores (by decide)) service request
    exact (wp_bind ..).mpr (lifecycle.wp_mono (h _) fun _ _ _ => trivial)
  | replayDeadLetter service id =>
    have h := neutral_replayDeadLetter lifecycle_plain (lifecycle_ignores (by decide)) service id
    exact (wp_bind ..).mpr (lifecycle.wp_mono (h _) fun _ _ _ => trivial)
  | runOnce worker =>
    exact (wp_bind ..).mpr (lifecycle.wp_mono worker.wp_runOnce fun _ _ _ => trivial)

end Orchestrator
