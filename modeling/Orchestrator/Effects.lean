import Orchestrator.Library.Interaction
import Orchestrator.Repository

/-!
# Effects of the processes and their answers

A process reads clocks, the environment and its cooldown table, talks to the broker,
executes adapters and runs transactions. `Choice` is what the surroundings decide about
one effect; everything else about the answer is fixed by `handle`.
-/

namespace Orchestrator

open Interaction Library Transaction
set_option autoImplicit false

inductive TransactionOp where
  | selectByKey (idempotencyKey : String)
  | insertRequest (requestId : String) (request : AutomationRequest) (now : String)
  | claimNext (now : String)
  | claim (requestId now : String)
  | failOrRetry (requestId detail : String) (retryDelaySeconds : Int)
  | replayDeadLetter (requestId now : String)
  | updateStatus (requestId : String) (status : AutomationStatus) (detail now : String)
  | get (requestId : String)

namespace TransactionOp

abbrev Result : TransactionOp → Type
  | selectByKey _ => Option String
  | insertRequest .. | failOrRetry .. | updateStatus .. => Unit
  | claimNext _ | claim .. => Option (String × AutomationRequest)
  | replayDeadLetter .. => RequestRow
  | get _ => Option RequestRow

/-- The block of each transaction; `clock` is read by those that read it inside. -/
def body [JsonCodec] (connection : Connection) (clock : Instant) :
    (op : TransactionOp) → Sql op.Result
  | selectByKey key => .select (·.selectByKey key)
  | insertRequest id request now => insertRequestTx connection id request now
  | claimNext now => claimNextTx connection now
  | claim id now => claimTx connection id now
  | failOrRetry id detail delay => failOrRetryTx connection id detail delay clock
  | replayDeadLetter id now => replayDeadLetterTx connection id now
  | updateStatus id status detail now => updateStatusTx connection id status detail now
  | get id => .select (·.row? id)

end TransactionOp

inductive Eff where
  | utcNow
  | monotonic
  | random
  | uuid4
  | getenv (name : String)
  | cooldownGet (target : String)
  | cooldownSet (target : String) (deadline : Float64)
  | cooldownPop (target : String)
  | redisFromUrl (url : String)
  | rpush (queueName requestId : String)
  | blpop (queueName : String)
  | execute (requestId : String) (request : AutomationRequest)
  | transaction (op : TransactionOp)

namespace Eff

abbrev Res : Eff → Type
  | utcNow => Instant
  | monotonic | random => ℚ
  | uuid4 => String
  | getenv _ => Option String
  | cooldownGet _ => Option Float64
  | cooldownSet .. | cooldownPop _ => Unit
  | redisFromUrl _ | rpush .. => Except PyExc Unit
  | blpop _ => Except PyExc (Option String)
  | execute .. => Except PyExc String
  | transaction op => Except PyExc op.Result

end Eff

/-- The database and the broker's lists, which all processes share. -/
structure Shared where
  db : Database
  queues : String → List String

/-- `_target_cooldowns` of one worker. -/
abbrev Cooldowns := String → Option Float64

/-- What the surroundings decide about one effect. -/
structure Choice where
  utc : Instant
  monotonic : ℚ
  random : ℚ
  uuid : String
  env : String → Option String
  fromUrl : Except PyExc Unit
  rpush : Except PyExc Unit
  blpop : Except PyExc Unit
  outcome : Except PyExc String
  connection : Connection

def handle [JsonCodec] (c : Choice) :
    (e : Eff) → Shared → Cooldowns → e.Res × Shared × Cooldowns
  | .utcNow, s, l => (c.utc, s, l)
  | .monotonic, s, l => (c.monotonic, s, l)
  | .random, s, l => (c.random, s, l)
  | .uuid4, s, l => (c.uuid, s, l)
  | .getenv name, s, l => (c.env name, s, l)
  | .cooldownGet target, s, l => (l target, s, l)
  | .cooldownSet target deadline, s, l => ((), s, Function.update l target (some deadline))
  | .cooldownPop target, s, l => ((), s, Function.update l target none)
  | .redisFromUrl _, s, l => (c.fromUrl, s, l)
  | .rpush queueName requestId, s, l =>
    match c.rpush with
    | .ok () =>
      let items := s.queues queueName ++ [requestId]
      (.ok (), { s with queues := Function.update s.queues queueName items }, l)
    | .error x => (.error x, s, l)
  | .blpop queueName, s, l =>
    match c.blpop, s.queues queueName with
    | .error x, _ => (.error x, s, l)
    | .ok (), [] => (.ok none, s, l)
    | .ok (), id :: ids =>
      (.ok (some id), { s with queues := Function.update s.queues queueName ids }, l)
  | .execute .., s, l => (c.outcome, s, l)
  | .transaction op, s, l =>
    let (answer, db) := (op.body c.connection c.utc).commit s.db
    (answer, { s with db := db }, l)

/-- Code of the program: effects, and exceptions that pass through. -/
abbrev Py := ExceptT PyExc (Prog Eff Eff.Res)

namespace Py

/-- An effect that cannot raise. -/
def ask (e : Eff) : Py e.Res := ExceptT.mk (Prog.perform e >>= fun r => pure (.ok r))

def transaction (op : TransactionOp) : Py op.Result :=
  ExceptT.mk (Prog.perform (Eff.transaction op))

def ofFloat {α : Type} (x : Except FloatError α) : Py α :=
  ExceptT.mk (pure (x.mapError PyExc.ofFloat))

def ofExcept {α : Type} (x : Except PyExc α) : Py α := ExceptT.mk (pure x)

/-- The outcome of a call as a value, for the `except` clauses around it. -/
def attempt {α : Type} (x : Py α) : Py (Except PyExc α) :=
  ExceptT.mk (x.run >>= fun r => pure (.ok r))

def utcNow : Py String := do
  let now ← ask .utcNow
  return now.isoformat

section Rules
variable {Phase : Type} (D : Discipline Eff Eff.Res Phase) {α : Type}

@[simp] theorem wp_transaction (op : TransactionOp) (Q : Phase → Except PyExc op.Result → Prop)
    (ph : Phase) : @Discipline.wp _ _ _ (no_index (Except PyExc op.Result)) D
        (@ExceptT.run _ _ (no_index op.Result) (transaction op)) Q ph =
      (D.allowed ph (.transaction op) ∧ ∀ r, D.admits ph (.transaction op) r →
        Q (D.next ph (.transaction op) r) r) := rfl

theorem wp_utcNow (Q : Phase → Except PyExc String → Prop) (ph : Phase) :
    D.wp utcNow.run Q ph = (D.allowed ph .utcNow ∧ ∀ now : Instant,
      D.admits ph .utcNow now → Q (D.next ph .utcNow now) (.ok now.isoformat)) := rfl

@[simp] theorem wp_ofExcept (x : Except PyExc α) (Q : Phase → Except PyExc α → Prop)
    (ph : Phase) : D.wp (ofExcept x).run Q ph = Q ph x := rfl

@[simp] theorem wp_attempt (x : Py α) (Q : Phase → Except PyExc (Except PyExc α) → Prop)
    (ph : Phase) : D.wp x.attempt.run Q ph = D.wp x.run (fun ph' r => Q ph' (.ok r)) ph := by
  change D.wp (x.run >>= fun r => pure (.ok r)) Q ph = _
  rw [Discipline.wp_bind]
  rfl

theorem neutral_attempt {D : Discipline Eff Eff.Res Phase} {x : Py α} (hx : D.Neutral x) :
    D.Neutral x.attempt := by
  intro ph
  rw [wp_attempt]
  exact hx ph

end Rules

end Py

end Orchestrator
