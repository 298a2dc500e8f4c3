import Orchestrator.Callers
import Orchestrator.Library.Session

/-!
# Row and event together

`transaction()` over a connection with pending writes, where any statement, the commit and
the code in between may raise. Whatever is raised and wherever, the tables are as before or
have all the writes of the block.
-/

namespace Orchestrator

open Interaction Transaction Pending
set_option autoImplicit false

/-- What is raised in one use of `transaction()`, and what `is_active` says of its handle. -/
structure Plan where
  begin : Option (Raised PyExc)
  statements : ℕ → Option (Fault PyExc)
  commit : Option (Raised PyExc)
  handleActive : Bool

section Manager
variable {α : Type} (immediate : Bool) (plan : Plan) (block : Sql α)

/-- The `try` block; the handle commits, or the connection where there is none. -/
def transactionBody : Block Database PyExc α := do
  if immediate then Block.action plan.begin Session.beginImmediate
  else Block.action plan.begin Session.beginHandle
  let a ← Block.statements plan.statements block
  Block.action plan.commit Session.commit
  return a

def undo (session : Session Database) : Session Database :=
  if session.handle && plan.handleActive then session.rollbackHandle else session.rollback

/-- `transaction()`. -/
def transaction : Block Database PyExc α :=
  Block.finally_ (Block.exceptException (transactionBody immediate plan block) (undo plan))
    Session.close

theorem undo_published (session : Session Database) :
    (undo plan session).published = session.published := by
  unfold undo
  split <;> rfl

theorem transactionBody_eq (db : Database) :
    transactionBody immediate plan block (Session.opened db) =
      match plan.begin, attempt block plan.statements db, plan.commit with
      | some r, _, _ => (.error r, Session.opened db)
      | none, (.error r, pending), _ => (.error r, ⟨db, some pending, !immediate, false⟩)
      | none, (.ok _, pending), some r => (.error r, ⟨db, some pending, !immediate, false⟩)
      | none, (.ok a, pending), none => (.ok a, ⟨pending, none, !immediate, false⟩) := by
  obtain ⟨begin, statements, commit, handleActive⟩ := plan
  cases begin with
  | some r => cases immediate <;> rfl
  | none =>
    simp only
    rcases hblock : attempt block statements db with ⟨r, pending⟩
    have hstatements : ∀ handle, Block.statements statements block ⟨db, some db, handle, false⟩ =
        (r, ⟨db, some pending, handle, false⟩) := by
      intro handle
      simp [Block.statements, Session.current, hblock]
    have hbegin : transactionBody immediate ⟨none, statements, commit, handleActive⟩ block
        (Session.opened db) = (Block.statements statements block >>= fun a =>
          Block.action commit Session.commit >>= fun _ => pure a)
            ⟨db, some db, !immediate, false⟩ := by
      cases immediate <;> rfl
    rw [hbegin]
    change Block.bind _ _ _ = _
    rw [Block.bind, hstatements]
    cases r with
    | error r => rfl
    | ok a => cases commit <;> rfl

def raisedIn (db : Database) : Option (Raised PyExc) :=
  match plan.begin, (attempt block plan.statements db).1, plan.commit with
  | some r, _, _ | none, .error r, _ | none, .ok _, some r => some r
  | none, .ok _, none => none

/-- Nothing is swallowed, everything is closed, and the writes are all there or none is. -/
theorem transaction_spec (db : Database) :
    (transaction immediate plan block (Session.opened db)).2.closed = true ∧
    (transaction immediate plan block (Session.opened db)).2.pending = none ∧
    match raisedIn plan block db with
    | some r => (transaction immediate plan block (Session.opened db)).1 = .error r ∧
        (transaction immediate plan block (Session.opened db)).2.published = db
    | none => ∃ a db', (transaction immediate plan block (Session.opened db)).1 = .ok a ∧
        (transaction immediate plan block (Session.opened db)).2.published = db' ∧
          block.exec db = .ok (a, db') := by
  refine ⟨rfl, rfl, ?_⟩
  have hfst : (transaction immediate plan block (Session.opened db)).1 =
      (transactionBody immediate plan block (Session.opened db)).1 :=
    Block.exceptException_fst _ _ _
  have hpublished : (transaction immediate plan block (Session.opened db)).2.published =
      (transactionBody immediate plan block (Session.opened db)).2.published :=
    Block.exceptException_published _ (undo_published plan) _
  rw [hfst, hpublished, transactionBody_eq, raisedIn]
  rcases hblock : attempt block plan.statements db with ⟨r, pending⟩
  cases plan.begin with
  | some r => exact ⟨rfl, rfl⟩
  | none =>
    cases r with
    | error r => exact ⟨rfl, rfl⟩
    | ok a =>
      cases plan.commit with
      | some r => exact ⟨rfl, rfl⟩
      | none => exact ⟨a, pending, rfl, rfl, exec_of_attempt hblock⟩

structure Plan.Calm (plan : Plan) : Prop where
  begin : plan.begin = none
  statements : ∀ n, plan.statements n = none
  commit : plan.commit = none

theorem transaction_calm (hcalm : plan.Calm) (db : Database) :
    (transaction immediate plan block (Session.opened db)).1 =
        (block.commit db).1.mapError .exception ∧
      (transaction immediate plan block (Session.opened db)).2.published =
        (block.commit db).2 := by
  obtain ⟨-, -, hcases⟩ := transaction_spec immediate plan block db
  rw [raisedIn, hcalm.begin, hcalm.commit] at hcases
  cases hexec : block.exec db with
  | error exc =>
    have hattempt := attempt_of_exec_error hcalm.statements hexec
    rw [hattempt] at hcases
    rw [Tx.commit_of_error hexec]
    exact hcases
  | ok result =>
    obtain ⟨a, db'⟩ := result
    have hattempt := attempt_of_exec hcalm.statements hexec
    rw [hattempt] at hcases
    obtain ⟨a', db'', hok, hpublished, hexec'⟩ := hcases
    rw [hexec] at hexec'
    cases hexec'
    rw [Tx.commit_of_ok hexec]
    exact ⟨hok, hpublished⟩

end Manager

/-- The operations that ask for `BEGIN IMMEDIATE`, which only SQLite gets. -/
def TransactionOp.immediate : TransactionOp → Bool
  | claimNext _ | claim .. | replayDeadLetter .. => true
  | _ => false

/-- One use of `transaction()` by an operation. -/
structure TransactionRun where
  op : TransactionOp
  before : Database
  raised : Option (Raised PyExc)
  session : Session Database

/-- The tables are as before if something was raised; the connection is closed anyway. -/
structure TransactionRun.Atomic [JsonCodec] (run : TransactionRun) : Prop where
  closed : run.session.closed = true
  discarded : run.session.pending = none
  nothing : ∀ r, run.raised = some r → run.session.published = run.before
  everything : run.raised = none → ∃ connection clock a,
    (run.op.body connection clock).exec run.before = .ok (a, run.session.published)

/-- A caller, with what is raised in its coming transactions, and those that it has made. -/
structure Client where
  world : World
  plans : ℕ → Plan
  runs : List TransactionRun

variable [JsonCodec]

namespace Client

/-- The use of `transaction()` that comes next. -/
def session (client : Client) (op : TransactionOp) :
    Except (Raised PyExc) op.Result × Session Database :=
  let choice := client.world.choices 0
  transaction (op.immediate && choice.connection.dialect = .sqlite) (client.plans 0)
    (op.body choice.connection choice.utc) (Session.opened client.world.db)

def run (client : Client) (op : TransactionOp) : TransactionRun where
  op := op
  before := client.world.db
  raised := raisedIn (client.plans 0)
    (op.body (client.world.choices 0).connection (client.world.choices 0).utc) client.world.db
  session := (client.session op).2

def after (client : Client) (op : TransactionOp) : Client where
  world := client.world.next.withDb (client.session op).2.published
  plans n := client.plans (n + 1)
  runs := client.runs ++ [client.run op]

end Client

/-- Execution with failing transactions. No `except` clause of the repository catches what is
no `Exception`, so that it ends the call at once. -/
def execFaulty {α : Type} : Prog Eff Eff.Res α → Client → Except String α × Client
  | .ret a, client => (.ok a, client)
  | .call (.transaction op) k, client =>
    match (client.session op).1 with
    | .ok a => execFaulty (k (.ok a)) (client.after op)
    | .error (.exception exc) => execFaulty (k (.error exc)) (client.after op)
    | .error (.base text) => (.error text, client.after op)
  | .call e k, client =>
    execFaulty (k (World.answer e client.world).1)
      { client with world := (World.answer e client.world).2 }

/-- The transactions follow one another on the same tables. -/
def Chained : Database → List TransactionRun → Database → Prop
  | db, [], db' => db' = db
  | db, run :: runs, db' => run.before = db ∧ Chained run.session.published runs db'

theorem Client.run_atomic (client : Client) (op : TransactionOp) : (client.run op).Atomic := by
  obtain ⟨hclosed, hpending, hcases⟩ := transaction_spec
    (op.immediate && (client.world.choices 0).connection.dialect = .sqlite) (client.plans 0)
    (op.body (client.world.choices 0).connection (client.world.choices 0).utc) client.world.db
  refine ⟨hclosed, hpending, ?_, ?_⟩
  · intro r hraised
    change raisedIn _ _ _ = some r at hraised
    rw [hraised] at hcases
    exact hcases.2
  · intro hraised
    change raisedIn _ _ _ = none at hraised
    rw [hraised] at hcases
    obtain ⟨a, db', -, hpublished, hexec⟩ := hcases
    refine ⟨(client.world.choices 0).connection, (client.world.choices 0).utc, a, ?_⟩
    change _ = Except.ok (a, (client.session op).2.published)
    rw [show (client.session op).2.published = db' from hpublished]
    exact hexec

theorem answer_db (e : Eff) (he : ∀ op, e ≠ .transaction op) (w : World) :
    (World.answer e w).2.db = w.db := by
  have hh : handle (w.choices 0) e w.shared w.cooldowns =
      ((World.answer e w).1, (World.answer e w).2.shared, (World.answer e w).2.cooldowns) := rfl
  rcases handle_db hh with hdb | ⟨op, rfl⟩
  · exact hdb
  · exact absurd rfl (he op)

/-- Whatever is raised, an execution is a chain of atomic uses of `transaction()`. -/
theorem execFaulty_runs {α : Type} (p : Prog Eff Eff.Res α) (client : Client) :
    ∃ runs, (execFaulty p client).2.runs = client.runs ++ runs ∧
      Chained client.world.db runs (execFaulty p client).2.world.db ∧ ∀ run ∈ runs, run.Atomic := by
  induction p generalizing client with
  | ret a => exact ⟨[], by simp [execFaulty], rfl, by simp⟩
  | call e k ih =>
    cases e with
    | transaction op =>
      have hnext : ∀ {α : Type} (out : Except String α × Client), (∃ runs,
          out.2.runs = (client.after op).runs ++ runs ∧
          Chained (client.after op).world.db runs out.2.world.db ∧ ∀ run ∈ runs, run.Atomic) →
          ∃ runs, out.2.runs = client.runs ++ runs ∧
          Chained client.world.db runs out.2.world.db ∧ ∀ run ∈ runs, run.Atomic := by
        intro α out hout
        obtain ⟨runs, hruns, hchain, hatomic⟩ := hout
        refine ⟨client.run op :: runs, ?_, ⟨rfl, hchain⟩, ?_⟩
        · rw [hruns]
          simp [Client.after]
        · exact List.forall_mem_cons.mpr ⟨client.run_atomic op, hatomic⟩
      simp only [execFaulty]
      split
      · exact hnext _ (ih _ _)
      · exact hnext _ (ih _ _)
      · exact hnext _ ⟨[], by simp, rfl, by simp⟩
    | _ =>
      obtain ⟨runs, hruns, hchain, hatomic⟩ := ih _ { client with
        world := (World.answer _ client.world).2 }
      refine ⟨runs, hruns, ?_, hatomic⟩
      rw [answer_db _ (by simp)] at hchain
      exact hchain

theorem execFaulty_bind {α β : Type} (p : Prog Eff Eff.Res α) (f : α → Prog Eff Eff.Res β)
    (client : Client) :
    execFaulty (p >>= f) client =
      match execFaulty p client with
      | (.ok a, client') => execFaulty (f a) client'
      | (.error text, client') => (.error text, client') := by
  induction p generalizing client with
  | ret a => rfl
  | call e k ih =>
    cases e with
    | transaction op =>
      simp only [Prog.call_bind, execFaulty]
      split
      · exact ih _ _
      · exact ih _ _
      · rfl
    | _ => exact ih _ _

/-- What a piece of code returns or raises, exceptions outside `Exception` included. -/
def Py.execFaulty {α : Type} (x : Py α) (client : Client) :
    Except (Raised PyExc) α × Client :=
  match Orchestrator.execFaulty x.run client with
  | (.ok (.ok a), client') => (.ok a, client')
  | (.ok (.error exc), client') => (.error (.exception exc), client')
  | (.error text, client') => (.error (.base text), client')

/-- What is raised in a transaction of the code leaves the code. -/
def Py.Surfaces {α : Type} (x : Py α) : Prop :=
  ∀ client, ∃ runs, (x.execFaulty client).2.runs = client.runs ++ runs ∧
    ∀ run ∈ runs, ∀ r, run.raised = some r → (x.execFaulty client).1 = .error r

namespace Py
variable {α β : Type}

theorem execFaulty_bind (x : Py α) (f : α → Py β) (client : Client) :
    (x >>= f).execFaulty client =
      match x.execFaulty client with
      | (.ok a, client') => (f a).execFaulty client'
      | (.error r, client') => (.error r, client') := by
  unfold Py.execFaulty
  rw [ExceptT.run_bind, Orchestrator.execFaulty_bind]
  rcases Orchestrator.execFaulty x.run client with ⟨r, client'⟩
  rcases r with text | exc | a
  · rfl
  · rfl
  · rfl

theorem Surfaces.bind {x : Py α} {f : α → Py β} (hx : x.Surfaces) (hf : ∀ a, (f a).Surfaces) :
    (x >>= f).Surfaces := by
  intro client
  obtain ⟨runs, hruns, hraised⟩ := hx client
  rw [execFaulty_bind]
  rcases hexec : x.execFaulty client with ⟨r, client'⟩
  rw [hexec] at hruns hraised
  cases r with
  | error r => exact ⟨runs, hruns, fun run hrun r' hr' => by
      cases hraised run hrun r' hr'
      rfl⟩
  | ok a =>
    obtain ⟨later, hlater, hraised'⟩ := hf a client'
    refine ⟨runs ++ later, ?_, ?_⟩
    · rw [hlater, hruns, List.append_assoc]
    · intro run hrun r hr
      rcases List.mem_append.mp hrun with hrun | hrun
      · cases hraised run hrun r hr
      · exact hraised' run hrun r hr

theorem surfaces_ofExcept (x : Except PyExc α) : (ofExcept x).Surfaces := by
  intro client
  exact ⟨[], by cases x <;> simp [Py.execFaulty, ofExcept, Orchestrator.execFaulty], by simp⟩

theorem surfaces_pure (a : α) : (pure a : Py α).Surfaces := surfaces_ofExcept (.ok a)

theorem execFaulty_utcNow (client : Client) : utcNow.execFaulty client =
    (.ok (client.world.choices 0).utc.isoformat, { client with world := client.world.next }) := rfl

theorem surfaces_utcNow : utcNow.Surfaces := by
  intro client
  rw [execFaulty_utcNow]
  exact ⟨[], by simp, by simp⟩

theorem execFaulty_transaction (op : TransactionOp) (client : Client) :
    @Py.execFaulty _ (no_index op.Result) (transaction op) client =
      ((client.session op).1, client.after op) := by
  unfold Py.execFaulty transaction Prog.perform
  simp only [ExceptT.run_mk, Orchestrator.execFaulty]
  rcases (client.session op).1 with (exc | text) | a
  · rfl
  · rfl
  · rfl

theorem session_raised (client : Client) (op : TransactionOp) (r : Raised PyExc)
    (hr : (client.run op).raised = some r) : (client.session op).1 = .error r := by
  obtain ⟨-, -, hcases⟩ := transaction_spec
    (op.immediate && (client.world.choices 0).connection.dialect = .sqlite) (client.plans 0)
    (op.body (client.world.choices 0).connection (client.world.choices 0).utc) client.world.db
  change raisedIn _ _ _ = some r at hr
  rw [hr] at hcases
  exact hcases.1

theorem session_ok {client : Client} {op : TransactionOp} {a : op.Result}
    (h : (client.session op).1 = .ok a) :
    (op.body (client.world.choices 0).connection (client.world.choices 0).utc).exec
      client.world.db = .ok (a, (client.after op).world.db) := by
  obtain ⟨-, -, hcases⟩ := transaction_spec
    (op.immediate && (client.world.choices 0).connection.dialect = .sqlite) (client.plans 0)
    (op.body (client.world.choices 0).connection (client.world.choices 0).utc) client.world.db
  unfold Client.session at h
  split at hcases
  · rw [hcases.1] at h
    cases h
  · obtain ⟨a', db', hok, hpublished, hexec⟩ := hcases
    rw [hok] at h
    cases h
    rw [hexec, ← hpublished]
    rfl

theorem execFaulty_attempt (x : Py α) (client : Client) :
    x.attempt.execFaulty client =
      match x.execFaulty client with
      | (.ok a, client') => (.ok (.ok a), client')
      | (.error (.exception exc), client') => (.ok (.error exc), client')
      | (.error (.base text), client') => (.error (.base text), client') := by
  unfold Py.execFaulty
  rw [show x.attempt.run = (x.run >>= fun r => pure (Except.ok r)) from rfl,
    Orchestrator.execFaulty_bind]
  rcases Orchestrator.execFaulty x.run client with ⟨text | exc | a, client'⟩
  · rfl
  · rfl
  · rfl

theorem surfaces_transaction (op : TransactionOp) : (transaction op).Surfaces := by
  intro client
  rw [execFaulty_transaction]
  refine ⟨[client.run op], rfl, ?_⟩
  intro run hrun r hr
  obtain rfl := List.mem_singleton.mp hrun
  exact session_raised client op r hr

end Py

open AutomationRepository

theorem surfaces_claimNext : claimNext.Surfaces :=
  Py.surfaces_utcNow.bind fun _ => Py.surfaces_transaction _

theorem surfaces_claim (id : String) : (claim id).Surfaces :=
  Py.surfaces_utcNow.bind fun _ => Py.surfaces_transaction _

theorem surfaces_complete (id detail : String) : (complete id detail).Surfaces :=
  Py.surfaces_utcNow.bind fun _ => Py.surfaces_transaction _

theorem surfaces_failOrRetry (id detail : String) (delay : Int) :
    (failOrRetry id detail delay).Surfaces := Py.surfaces_transaction _

theorem surfaces_replayDeadLetter (id : String) :
    (AutomationRepository.replayDeadLetter id).Surfaces :=
  Py.surfaces_utcNow.bind fun _ =>
    (Py.surfaces_transaction _).bind fun _ => Py.surfaces_ofExcept _

theorem surfaces_findExisting (key : Option String) : (findExisting key).Surfaces := by
  unfold findExisting
  split
  · exact Py.surfaces_pure _
  · exact (Py.surfaces_transaction _).bind fun _ => Py.surfaces_pure _

/-- The one exception that is not passed on: a clash of keys, after which the row that has
the key is looked up, or something else is raised. -/
def Recovers (id : String) (request : AutomationRequest) (run : TransactionRun)
    (r : Raised PyExc) (out : Except (Raised PyExc) String × Client) : Prop :=
  ∃ now key exc, run.op = .insertRequest id request now ∧
    request.idempotencyKey = some key ∧ r = .exception exc ∧ exc.isIntegrityError = true ∧
    ((∃ r', out.1 = .error r') ∨
      ∃ existing, out.1 = .ok existing ∧ out.2.world.db.selectByKey key = some existing)

theorem execFaulty_lookup (client : Client) (key : String) (exc : PyExc)
    {out : Except (Raised PyExc) String × Client}
    (hout : Py.execFaulty (Py.transaction (.selectByKey key) >>= fun found =>
      match found with
      | none => throw exc
      | some existing => pure existing) client = out) :
    out.2 = client.after (.selectByKey key) ∧
    (∀ r, (client.run (.selectByKey key)).raised = some r → out.1 = .error r) ∧
    ((∃ r, out.1 = .error r) ∨
      ∃ existing, out.1 = .ok existing ∧ out.2.world.db.selectByKey key = some existing) := by
  have hraised := Py.session_raised client (.selectByKey key)
  rw [Py.execFaulty_bind, Py.execFaulty_transaction] at hout
  rcases hsession : (client.session (.selectByKey key)).1 with r | found
  · rw [hsession] at hout hraised
    subst hout
    refine ⟨rfl, ?_, .inl ⟨r, rfl⟩⟩
    intro r' hr'
    cases hraised r' hr'
    rfl
  · have hexec := Py.session_ok hsession
    simp only [TransactionOp.body, Tx.exec_select, Except.ok.injEq, Prod.mk.injEq] at hexec
    obtain ⟨hvalue, hdb⟩ := hexec
    rw [hsession] at hout hraised
    have hnone : ∀ r, (client.run (.selectByKey key)).raised ≠ some r := by
      intro r hr
      cases hraised r hr
    cases found with
    | none =>
      subst hout
      exact ⟨rfl, fun r hr => absurd hr (hnone r), .inl ⟨_, rfl⟩⟩
    | some existing =>
      subst hout
      refine ⟨rfl, fun r hr => absurd hr (hnone r), .inr ⟨existing, rfl, ?_⟩⟩
      change (client.after (.selectByKey key)).world.db.selectByKey key = some existing
      rw [← hdb, hvalue]

theorem surfaces_insertOrFind (id : String) (request : AutomationRequest) (now : String)
    (client : Client) :
    ∃ runs, ((insertOrFind id request now).execFaulty client).2.runs = client.runs ++ runs ∧
      ∀ run ∈ runs, ∀ r, run.raised = some r →
        ((insertOrFind id request now).execFaulty client).1 = .error r ∨
          Recovers id request run r ((insertOrFind id request now).execFaulty client) := by
  have hraised := Py.session_raised client (.insertRequest id request now)
  have single : ∀ {out : Except (Raised PyExc) String × Client} {r : Raised PyExc},
      (client.session (.insertRequest id request now)).1 = .error r →
      out = (.error r, client.after (.insertRequest id request now)) →
      ∃ runs, out.2.runs = client.runs ++ runs ∧ ∀ run ∈ runs, ∀ r, run.raised = some r →
        out.1 = .error r ∨ Recovers id request run r out := by
    intro out r hsession hout
    refine ⟨[client.run (.insertRequest id request now)], by rw [hout]; rfl, ?_⟩
    intro run hrun r' hr'
    obtain rfl := List.mem_singleton.mp hrun
    have hsame := hraised r' hr'
    rw [hsession] at hsame
    cases hsame
    exact .inl (by rw [hout])
  rw [insertOrFind, Py.execFaulty_bind, Py.execFaulty_attempt, Py.execFaulty_transaction]
  rcases hfirst : (client.session (.insertRequest id request now)).1 with (exc | text) | _
  · simp only
    split
    · next hintegrity =>
      split
      · exact single hfirst rfl
      · next key hkey =>
        have hkey' : request.idempotencyKey = some key := (Option.filter_eq_some_iff.mp hkey).1
        generalize hout : Py.execFaulty (_ >>= _) (client.after _) = out
        obtain ⟨hclient, hlate, hcases⟩ := execFaulty_lookup _ key exc hout
        refine ⟨[client.run (.insertRequest id request now),
          (client.after (.insertRequest id request now)).run (.selectByKey key)], ?_, ?_⟩
        · rw [hclient]
          simp [Client.after]
        · intro run hrun r hr
          rcases List.mem_pair.mp hrun with rfl | rfl
          · have hsame := hraised r hr
            rw [hfirst] at hsame
            cases hsame
            exact .inr ⟨now, key, exc, rfl, hkey', rfl, hintegrity, hcases⟩
          · exact .inl (hlate r hr)
    · exact single hfirst rfl
  · exact single hfirst rfl
  · refine ⟨[client.run (.insertRequest id request now)], rfl, ?_⟩
    intro run hrun r hr
    obtain rfl := List.mem_singleton.mp hrun
    have hsame := hraised r hr
    rw [hfirst] at hsame
    cases hsame

theorem surfaces_create (id : String) (request : AutomationRequest) (client : Client) :
    ∃ runs, ((create id request).execFaulty client).2.runs = client.runs ++ runs ∧
      ∀ run ∈ runs, ∀ r, run.raised = some r →
        ((create id request).execFaulty client).1 = .error r ∨
          Recovers id request run r ((create id request).execFaulty client) := by
  obtain ⟨runs, hruns, hraised⟩ :=
    (Py.surfaces_utcNow.bind fun _ => surfaces_findExisting request.idempotencyKey) client
  rw [create, Py.execFaulty_bind, Py.execFaulty_utcNow]
  rw [Py.execFaulty_bind, Py.execFaulty_utcNow] at hruns hraised
  simp only at hruns hraised ⊢
  rw [Py.execFaulty_bind]
  rcases hfind : (findExisting request.idempotencyKey).execFaulty
    { client with world := client.world.next } with ⟨r | existing, client'⟩
  · rw [hfind] at hruns hraised
    refine ⟨runs, hruns, ?_⟩
    intro run hrun r' hr'
    cases hraised run hrun r' hr'
    exact .inl rfl
  · rw [hfind] at hruns hraised
    have hcalm : ∀ run ∈ runs, ∀ r, run.raised ≠ some r := by
      intro run hrun r hr
      cases hraised run hrun r hr
    cases existing with
    | some existing => exact ⟨runs, hruns, fun run hrun r hr => absurd hr (hcalm run hrun r)⟩
    | none =>
      obtain ⟨later, hlater, hcases⟩ := surfaces_insertOrFind id request
        (client.world.choices 0).utc.isoformat client'
      refine ⟨runs ++ later, ?_, ?_⟩
      · change ((insertOrFind _ _ _).execFaulty client').2.runs = _
        rw [hlater, hruns, List.append_assoc]
      · intro run hrun r hr
        rcases List.mem_append.mp hrun with hrun | hrun
        · exact absurd hr (hcalm run hrun r)
        · exact hcases run hrun r hr

/-- The exception that leaves a call. -/
def leaves : Except String RepositoryReply → Option (Raised PyExc)
  | .error text => some (.base text)
  | .ok (.created (.error exc)) | .ok (.claimed (.error exc)) | .ok (.written (.error exc))
  | .ok (.replayed (.error exc)) => some (.exception exc)
  | _ => none

def RepositoryCall.execFaulty (call : RepositoryCall) (world : World) (plans : ℕ → Plan) :
    Except String RepositoryReply × Client :=
  Orchestrator.execFaulty call.code ⟨world, plans, []⟩

/-- A submission with a key whose insertion clashed: it returns the id of the row that has
the key, or something else is raised. -/
def RepositoryCall.Recovers (call : RepositoryCall) (run : TransactionRun) (r : Raised PyExc)
    (out : Except String RepositoryReply × Client) : Prop :=
  ∃ id request now key exc, call = .create id request ∧ run.op = .insertRequest id request now ∧
    request.idempotencyKey = some key ∧ r = .exception exc ∧ exc.isIntegrityError = true ∧
    ((∃ r', leaves out.1 = some r') ∨ ∃ existing, out.1 = .ok (.created (.ok existing)) ∧
      out.2.world.db.selectByKey key = some existing)

theorem execFaulty_wrap {α : Type} (x : Py α) (wrap : Except PyExc α → RepositoryReply)
    (hwrap : ∀ exc, leaves (.ok (wrap (.error exc))) = some (.exception exc)) (client : Client) :
    (execFaulty (x.run >>= fun r => pure (wrap r)) client).2 = (x.execFaulty client).2 ∧
    (∀ r, (x.execFaulty client).1 = .error r →
      leaves (execFaulty (x.run >>= fun r => pure (wrap r)) client).1 = some r) ∧
    ∀ a, (x.execFaulty client).1 = .ok a →
      (execFaulty (x.run >>= fun r => pure (wrap r)) client).1 = .ok (wrap (.ok a)) := by
  rw [execFaulty_bind, Py.execFaulty]
  rcases execFaulty x.run client with ⟨text | exc | a, client'⟩
  · refine ⟨rfl, ?_, ?_⟩
    · intro r hr
      cases hr
      rfl
    · intro a ha
      cases ha
  · refine ⟨rfl, ?_, ?_⟩
    · intro r hr
      cases hr
      exact hwrap exc
    · intro a ha
      cases ha
  · refine ⟨rfl, ?_, ?_⟩
    · intro r hr
      cases hr
    · intro a' ha'
      cases ha'
      rfl

theorem Py.Surfaces.leaves {α : Type} {x : Py α} (hx : x.Surfaces)
    (wrap : Except PyExc α → RepositoryReply)
    (hwrap : ∀ exc, Orchestrator.leaves (.ok (wrap (.error exc))) = some (.exception exc))
    (world : World) (plans : ℕ → Plan) :
    ∀ run ∈ (Orchestrator.execFaulty (x.run >>= fun r => pure (wrap r)) ⟨world, plans, []⟩).2.runs,
      ∀ r, run.raised = some r → Orchestrator.leaves
        (Orchestrator.execFaulty (x.run >>= fun r => pure (wrap r)) ⟨world, plans, []⟩).1 =
          some r := by
  obtain ⟨hclient, herror, -⟩ := execFaulty_wrap x wrap hwrap ⟨world, plans, []⟩
  obtain ⟨runs, hruns, hraised⟩ := hx ⟨world, plans, []⟩
  rw [hclient, hruns]
  intro run hrun r hr
  exact herror r (hraised run hrun r hr)

/-- What is raised inside a transaction leaves the call, unless a submission recovers. -/
theorem RepositoryCall.surfaces (call : RepositoryCall) (world : World) (plans : ℕ → Plan) :
    ∀ run ∈ (call.execFaulty world plans).2.runs, ∀ r, run.raised = some r →
      leaves (call.execFaulty world plans).1 = some r ∨
        call.Recovers run r (call.execFaulty world plans) := by
  intro run hrun r hr
  cases call with
  | claim id =>
    exact .inl ((surfaces_claim id).leaves .claimed (fun _ => rfl) world plans run hrun r hr)
  | claimNext =>
    exact .inl (surfaces_claimNext.leaves .claimed (fun _ => rfl) world plans run hrun r hr)
  | complete id detail =>
    exact .inl ((surfaces_complete id detail).leaves .written (fun _ => rfl) world plans run hrun
      r hr)
  | failOrRetry id detail delay =>
    exact .inl ((surfaces_failOrRetry id detail delay).leaves .written (fun _ => rfl) world plans
      run hrun r hr)
  | replayDeadLetter id =>
    exact .inl ((surfaces_replayDeadLetter id).leaves .replayed (fun _ => rfl) world plans run hrun
      r hr)
  | create id request =>
    obtain ⟨hclient, herror, hok⟩ := execFaulty_wrap
      (AutomationRepository.create id request) .created (fun _ => rfl) ⟨world, plans, []⟩
    obtain ⟨runs, hruns, hraised⟩ := surfaces_create id request ⟨world, plans, []⟩
    have hcode : (create id request).code =
        (AutomationRepository.create id request).run >>= fun r => pure (.created r) := rfl
    rw [RepositoryCall.execFaulty, hcode] at hrun ⊢
    rw [hclient, hruns] at hrun
    rcases hraised run hrun r hr with hleaves | ⟨now, key, exc, hop, hkey, hexc, hin, hend⟩
    · exact .inl (herror r hleaves)
    · refine .inr ⟨id, request, now, key, exc, rfl, hop, hkey, hexc, hin, ?_⟩
      rcases hend with ⟨r', hr'⟩ | ⟨existing, hexisting, hselect⟩
      · exact .inl ⟨r', herror r' hr'⟩
      · refine .inr ⟨existing, hok existing hexisting, ?_⟩
        rw [hclient]
        exact hselect

theorem execFaulty_calm {α : Type} (p : Prog Eff Eff.Res α) {client : Client}
    (hcalm : ∀ n, (client.plans n).Calm) :
    (execFaulty p client).1 = .ok (p.exec World.answer client.world).1 ∧
      (execFaulty p client).2.world = (p.exec World.answer client.world).2 := by
  induction p generalizing client with
  | ret a => exact ⟨rfl, rfl⟩
  | call e k ih =>
    cases e with
    | transaction op =>
      obtain ⟨hanswer, hpublished⟩ := transaction_calm
        (op.immediate && (client.world.choices 0).connection.dialect = .sqlite) (client.plans 0)
        (op.body (client.world.choices 0).connection (client.world.choices 0).utc) (hcalm 0)
        client.world.db
      have hworld : (client.after op).world = (World.answer (.transaction op) client.world).2 := by
        change client.world.next.withDb (client.session op).2.published = _
        rw [show (client.session op).2.published = _ from hpublished]
        rfl
      have hnext : ∀ n, ((client.after op).plans n).Calm := fun n => hcalm (n + 1)
      simp only [execFaulty, Prog.exec_call]
      rw [← hworld, show (client.session op).1 = _ from hanswer]
      cases hcommit : ((op.body (client.world.choices 0).connection
        (client.world.choices 0).utc).commit client.world.db).1 with
      | ok a =>
        rw [show (World.answer (.transaction op) client.world).1 = .ok a from hcommit]
        exact ih _ hnext
      | error exc =>
        rw [show (World.answer (.transaction op) client.world).1 = .error exc from hcommit]
        exact ih _ hnext
    | _ => exact ih _ hcalm

/-- Whatever is raised and wherever, in either branch of `transaction()`: every transaction of
a call closes its connection and writes row and event together or nothing, and what was
raised in it leaves the call, unless a submission finds the row that has its key. Where nothing
is raised from outside, the call does what it does in the other modules. -/
theorem row_and_event_all_or_nothing (call : RepositoryCall) (world : World)
    (plans : ℕ → Plan) :
    Chained world.db (call.execFaulty world plans).2.runs
      (call.execFaulty world plans).2.world.db ∧
    (∀ run ∈ (call.execFaulty world plans).2.runs, run.Atomic) ∧
    (∀ run ∈ (call.execFaulty world plans).2.runs, ∀ r, run.raised = some r →
      leaves (call.execFaulty world plans).1 = some r ∨
        call.Recovers run r (call.execFaulty world plans)) ∧
    ((∀ n, (plans n).Calm) →
      (call.execFaulty world plans).1 = .ok (call.code.exec World.answer world).1 ∧
        (call.execFaulty world plans).2.world = (call.code.exec World.answer world).2) := by
  obtain ⟨runs, hruns, hchain, hatomic⟩ := execFaulty_runs call.code ⟨world, plans, []⟩
  have hsame : (call.execFaulty world plans).2.runs = runs := hruns
  refine ⟨?_, ?_, call.surfaces world plans, fun hcalm => execFaulty_calm call.code hcalm⟩
  · rw [hsame]
    exact hchain
  · rw [hsame]
    exact hatomic

end Orchestrator
