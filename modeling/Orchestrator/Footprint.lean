import Orchestrator.System

/-!
# Which effects each call performs

The effects fall into four classes. A discipline that ignores a class is untouched by
the code that performs no other effects, so its proofs look only at the code that does.
-/

namespace Orchestrator

open Interaction Library Discipline AutomationRepository
set_option autoImplicit false

namespace Eff

inductive Kind where
  | quiet
  | submits
  | replays
  | works
deriving DecidableEq

def kind : Eff → Kind
  | execute .. => .works
  | uuid4 => .submits
  | transaction (.get _) => .quiet
  | transaction (.selectByKey _) | transaction (.insertRequest ..) => .submits
  | transaction (.replayDeadLetter ..) => .replays
  | transaction (.claimNext _) | transaction (.claim ..) => .works
  | transaction (.failOrRetry ..) | transaction (.updateStatus ..) => .works
  | _ => .quiet

/-- The quiet effects that touch neither a clock nor the cooldown table. -/
def Still : Eff → Prop
  | utcNow | monotonic | cooldownGet _ | cooldownSet .. | cooldownPop _ => False
  | e => e.kind = .quiet

/-- The quiet effects that touch neither the cooldown table nor the clock it is kept by. -/
def Plain : Eff → Prop
  | monotonic | cooldownGet _ | cooldownSet .. | cooldownPop _ => False
  | e => e.kind = .quiet

/-- The effects of a search for work. -/
def Claims (e : Eff) : Prop := (∃ id now, e = transaction (.claim id now)) ∨
  ∃ now, e = transaction (.claimNext now)

end Eff

variable {Phase : Type} {D : Discipline Eff Eff.Res Phase}

section Quiet

theorem neutral_ofFloat {α : Type} (x : Except FloatError α) : D.Neutral (Py.ofFloat x) :=
  .ofExcept _

theorem ignores_plain (quiet : D.Ignores (·.kind = .quiet)) : D.Ignores Eff.Plain := by
  intro e he
  apply quiet
  cases e <;> first | exact he | exact absurd he id

theorem plain_still (plain : D.Ignores Eff.Plain) : D.Ignores Eff.Still := by
  intro e he
  apply plain
  cases e <;> first | exact he | exact absurd he id

theorem ignores_still (quiet : D.Ignores (·.kind = .quiet)) : D.Ignores Eff.Still :=
  plain_still (ignores_plain quiet)

theorem neutral_ask (quiet : D.Ignores (·.kind = .quiet)) (e : Eff) (he : e.kind = .quiet) :
    D.Neutral (Py.ask e) :=
  .effect e (quiet e he) rfl

theorem neutral_utcNow (plain : D.Ignores Eff.Plain) : D.Neutral Py.utcNow :=
  .bind (.effect .utcNow (plain _ rfl) rfl) fun _ => .ret _

variable (still : D.Ignores Eff.Still)
include still

theorem neutral_get (id : String) : D.Neutral (AutomationRepository.get id) := by
  refine .bind (.effect (.transaction (.get id)) (still _ rfl) rfl) ?_
  intro row
  cases row with
  | none => exact .ret _
  | some row => exact .bind (.ofExcept _) fun _ => .ret _

theorem neutral_getenv (name : String) : D.Neutral (Py.ask (.getenv name)) :=
  .effect (.getenv name) (still _ rfl) rfl

theorem neutral_dispatcherOr (dispatch : Option DispatchQueue) :
    D.Neutral (dispatcherOr dispatch) := by
  cases dispatch with
  | some dispatch => exact .ret _
  | none =>
    refine .bind (neutral_getenv still _) fun backend => ?_
    simp only
    split
    · exact .ret _
    · split
      · exact .bind (neutral_getenv still _) fun _ =>
          .bind (neutral_getenv still _) fun _ => .ret _
      · exact .raise _

theorem neutral_connect (redisUrl : String) (client : Bool) :
    D.Neutral (DispatchQueue.connect redisUrl client) := by
  cases client with
  | true => exact .ret _
  | false => exact .effect (.redisFromUrl redisUrl) (still _ rfl) rfl

theorem neutral_consume (dispatcher : DispatchQueue) : D.Neutral dispatcher.consume := by
  cases dispatcher with
  | database => exact .ret _
  | redis redisUrl queueName client =>
    exact .bind (neutral_connect still _ _) fun _ => .effect (.blpop queueName) (still _ rfl) rfl

theorem neutral_announce (service : AutomationService) (id : String) :
    D.Neutral (service.announce id) := by
  refine .bind (neutral_dispatcherOr still _) ?_
  intro dispatcher
  cases dispatcher with
  | database => exact .ret _
  | redis redisUrl queueName client =>
    exact .bind (neutral_connect still _ _) fun _ =>
      .effect (.rpush queueName id) (still _ rfl) rfl

theorem neutral_readBack (id : String) : D.Neutral (AutomationService.readBack id) := by
  refine .bind (neutral_get still id) ?_
  intro result
  cases result with
  | none => exact .raise _
  | some result => exact .ret _

theorem neutral_backoff (worker : AutomationWorker) (attempt : Int) :
    D.Neutral (worker.backoff attempt) :=
  .bind (.effect .random (still _ rfl) rfl) fun _ => neutral_ofFloat _

theorem neutral_currentAttempt (id : String) :
    D.Neutral (AutomationWorker.currentAttempt id) := by
  refine .bind (neutral_get still id) ?_
  intro result
  cases result with
  | none => exact .ret _
  | some result => exact .ret _

end Quiet

section Submissions
variable (plain : D.Ignores Eff.Plain) (submits : D.Ignores (·.kind = .submits))
include submits

theorem neutral_selectByKey (key : String) : D.Neutral (Py.transaction (.selectByKey key)) :=
  .effect (.transaction (.selectByKey key)) (submits _ rfl) rfl

theorem neutral_findExisting (key : Option String) : D.Neutral (findExisting key) := by
  unfold findExisting
  split
  · exact .ret _
  · exact .bind (neutral_selectByKey submits _) fun _ => .ret _

theorem neutral_insertOrFind (id : String) (request : AutomationRequest) (now : String) :
    D.Neutral (insertOrFind id request now) := by
  refine .bind (Py.neutral_attempt (.effect (.transaction (.insertRequest id request now))
    (submits _ rfl) rfl)) ?_
  intro r
  cases r with
  | ok _ => exact .ret _
  | error exc =>
    simp only
    split
    · split
      · exact .raise _
      · refine .bind (neutral_selectByKey submits _) ?_
        intro existing
        cases existing with
        | none => exact .raise _
        | some existing => exact .ret _
    · exact .raise _

include plain

theorem neutral_create (id : String) (request : AutomationRequest) :
    D.Neutral (create id request) := by
  refine .bind (neutral_utcNow plain) fun now => .bind (neutral_findExisting submits _) ?_
  intro existing
  cases existing with
  | none => exact neutral_insertOrFind submits _ _ _
  | some existing => exact .ret _

theorem neutral_submit (service : AutomationService) (request : AutomationRequest) :
    D.Neutral (service.submit request) := by
  refine .bind (.effect .uuid4 (submits _ rfl) rfl) fun id =>
    .bind (neutral_create plain submits _ _) fun id =>
      .bind (neutral_announce (plain_still plain) _ _) fun _ => ?_
  exact neutral_readBack (plain_still plain) id

end Submissions

theorem neutral_replayDeadLetter (plain : D.Ignores Eff.Plain)
    (replays : D.Ignores (·.kind = .replays)) (service : AutomationService) (id : String) :
    D.Neutral (service.replayDeadLetter id) := by
  refine .bind (.bind (neutral_utcNow plain) fun now => .bind ?_ fun _ => .ofExcept _) fun _ =>
    .bind (neutral_announce (plain_still plain) _ _) fun _ => .ret _
  exact .effect (.transaction (.replayDeadLetter id now)) (replays _ rfl) rfl

section Claims
variable (quiet : D.Ignores (·.kind = .quiet)) (claims : D.Ignores Eff.Claims)

theorem ignores_claims (works : D.Ignores (·.kind = .works)) : D.Ignores Eff.Claims := by
  rintro e (⟨id, now, rfl⟩ | ⟨now, rfl⟩) <;> exact works _ rfl

include quiet claims

theorem neutral_claimNext : D.Neutral claimNext :=
  .bind (neutral_utcNow (ignores_plain quiet)) fun now =>
    .effect (.transaction (.claimNext now)) (claims _ (.inr ⟨now, rfl⟩)) rfl

theorem neutral_claim (id : String) : D.Neutral (claim id) :=
  .bind (neutral_utcNow (ignores_plain quiet)) fun now =>
    .effect (.transaction (.claim id now)) (claims _ (.inl ⟨id, now, rfl⟩)) rfl

theorem AutomationWorker.neutral_claimWork (worker : AutomationWorker) :
    D.Neutral worker.claimWork := by
  refine .bind (neutral_dispatcherOr (ignores_still quiet) _) ?_
  intro dispatcher
  cases dispatcher with
  | database => exact neutral_claimNext quiet claims
  | redis redisUrl queueName client =>
    refine .bind (neutral_consume (ignores_still quiet) _) ?_
    intro message
    cases message with
    | none => exact neutral_claimNext quiet claims
    | some id =>
      refine .bind (neutral_claim quiet claims id) ?_
      intro claimed
      cases claimed with
      | none => exact neutral_claimNext quiet claims
      | some claimed => exact .ret _

end Claims

section Workers
variable (quiet : D.Ignores (·.kind = .quiet)) (works : D.Ignores (·.kind = .works))
include works

theorem neutral_failOrRetry (id detail : String) (delay : Int) :
    D.Neutral (failOrRetry id detail delay) :=
  .effect (.transaction (.failOrRetry id detail delay)) (works _ rfl) rfl

include quiet

theorem neutral_complete (id detail : String) : D.Neutral (complete id detail) :=
  .bind (neutral_utcNow (ignores_plain quiet)) fun now =>
    .effect (.transaction (.updateStatus id .completed detail now)) (works _ rfl) rfl

namespace AutomationWorker
variable (worker : AutomationWorker)

theorem neutral_rateLimited (id : String) (request : AutomationRequest) (text : String)
    (hint : Option Int) : D.Neutral (worker.rateLimited id request text hint) := by
  refine .bind (neutral_currentAttempt (ignores_still quiet) id) ?_
  intro attempt
  cases hint with
  | none =>
    exact .bind (neutral_backoff (ignores_still quiet) worker attempt) fun _ =>
      neutral_failOrRetry works _ _ _
  | some delay =>
    exact .bind (neutral_ask quiet .monotonic rfl) fun _ => .bind (neutral_ofFloat _) fun _ =>
      .bind (neutral_ask quiet (.cooldownSet _ _) rfl) fun _ => neutral_failOrRetry works _ _ _

theorem neutral_executionFailed (id : String) (exc : PyExc) :
    D.Neutral (worker.executionFailed id exc) :=
  .bind (neutral_currentAttempt (ignores_still quiet) id) fun attempt =>
    .bind (neutral_backoff (ignores_still quiet) worker attempt) fun _ =>
      neutral_failOrRetry works _ _ _

theorem neutral_runAdapter (id : String) (request : AutomationRequest) :
    D.Neutral (worker.runAdapter id request) := by
  refine .bind (.effect (.execute id request) (works _ rfl) rfl) ?_
  intro r
  cases r with
  | ok detail =>
    exact .bind (neutral_ask quiet (.cooldownPop _) rfl) fun _ =>
      neutral_complete quiet works _ _
  | error exc =>
    cases exc with
    | retryableAdapterError text hint => exact neutral_rateLimited quiet works worker _ _ _ _
    | _ => exact neutral_executionFailed quiet works worker _ _

theorem neutral_runOnce : D.Neutral worker.runOnce := by
  refine .bind (neutral_claimWork quiet (ignores_claims works) worker) ?_
  intro claimed
  cases claimed with
  | none => exact .ret _
  | some claimed =>
    refine .bind (.bind (neutral_ask quiet (.cooldownGet _) rfl) fun cooldown =>
      .bind (neutral_ask quiet .monotonic rfl) fun monotonic => ?_) fun _ => .ret _
    split
    · exact .bind (neutral_ask quiet .monotonic rfl) fun _ =>
        .bind (neutral_ofFloat _) fun _ => neutral_failOrRetry works _ _ _
    · exact neutral_runAdapter quiet works worker _ _

end AutomationWorker

end Workers

end Orchestrator
