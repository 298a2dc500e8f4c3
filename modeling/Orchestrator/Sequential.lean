import Orchestrator.Conversions
import Orchestrator.System

/-!
# One process on its own

The sequential meaning of the program: a call runs against the shared state while no
other process moves, and the surroundings decide about its effects one after another.
Such an execution is a run of the whole system.
-/

namespace Orchestrator

open Interaction Library
set_option autoImplicit false

/-- The decisions of the surroundings about the coming effects, and the state a process sees. -/
structure World where
  choices : ℕ → Choice
  shared : Shared
  cooldowns : Cooldowns

namespace World

def db (w : World) : Database := w.shared.db

def next (w : World) : World := { w with choices := fun n => w.choices (n + 1) }

def withDb (w : World) (db : Database) : World := { w with shared := { w.shared with db := db } }

@[simp] theorem next_choices (w : World) (n : ℕ) : w.next.choices n = w.choices (n + 1) := rfl

@[simp] theorem next_shared (w : World) : w.next.shared = w.shared := rfl

@[simp] theorem next_cooldowns (w : World) : w.next.cooldowns = w.cooldowns := rfl

@[simp] theorem next_db (w : World) : w.next.db = w.db := rfl

@[simp] theorem withDb_choices (w : World) (db : Database) :
    (w.withDb db).choices = w.choices := rfl

@[simp] theorem withDb_db (w : World) (db : Database) : (w.withDb db).db = db := rfl

@[simp] theorem withDb_cooldowns (w : World) (db : Database) :
    (w.withDb db).cooldowns = w.cooldowns := rfl

variable [JsonCodec]

def answer (e : Eff) (w : World) : e.Res × World :=
  let (r, shared, cooldowns) := handle (w.choices 0) e w.shared w.cooldowns
  (r, { choices := fun n => w.choices (n + 1), shared := shared, cooldowns := cooldowns })

theorem handle_eq (e : Eff) (w : World) : handle (w.choices 0) e w.shared w.cooldowns =
    ((answer e w).1, (answer e w).2.shared, (answer e w).2.cooldowns) := rfl

end World

section Sequential
variable [JsonCodec]

/-- What a piece of code returns or raises, and the world after it. -/
def Py.exec {α : Type} (x : Py α) (w : World) : Except PyExc α × World := x.run.exec World.answer w

namespace Py
variable {α β : Type}

@[simp] theorem exec_bind (x : Py α) (f : α → Py β) (w : World) :
    (x >>= f).exec w =
      match x.exec w with
      | (.ok a, w') => (f a).exec w'
      | (.error exc, w') => (.error exc, w') := by
  simp only [Py.exec, Prog.exec_except_bind]
  rcases x.run.exec World.answer w with ⟨r, w'⟩
  cases r <;> rfl

theorem exec_bind_ok {x : Py α} {f : α → Py β} {w w' : World} {b : β}
    (h : (x >>= f).exec w = (.ok b, w')) :
    ∃ a w'', x.exec w = (.ok a, w'') ∧ (f a).exec w'' = (.ok b, w') := by
  rw [exec_bind] at h
  cases hx : x.exec w with
  | mk r w'' =>
    rw [hx] at h
    cases r with
    | ok a => exact ⟨a, w'', rfl, h⟩
    | error exc => cases h

@[simp] theorem exec_pure (a : α) (w : World) : (pure a : Py α).exec w = (.ok a, w) := rfl

@[simp] theorem exec_ofExcept (x : Except PyExc α) (w : World) : (ofExcept x).exec w = (x, w) := rfl

@[simp] theorem exec_ofFloat (x : Except FloatError α) (w : World) :
    (ofFloat x).exec w = (x.mapError PyExc.ofFloat, w) := rfl

theorem exec_ask (e : Eff) (w : World) :
    (ask e).exec w = (.ok (World.answer e w).1, (World.answer e w).2) := rfl

@[simp] theorem exec_ask_monotonic (w : World) :
    @Py.exec _ ℚ (ask .monotonic) w = (.ok (w.choices 0).monotonic, w.next) := rfl

@[simp] theorem exec_utcNow (w : World) :
    utcNow.exec w = (.ok (w.choices 0).utc.isoformat, w.next) := rfl

@[simp] theorem exec_transaction (op : TransactionOp) (w : World) :
    @Py.exec _ (no_index op.Result) (transaction op) w =
      (((op.body (w.choices 0).connection (w.choices 0).utc).commit w.db).1,
        w.next.withDb ((op.body (w.choices 0).connection (w.choices 0).utc).commit w.db).2) := rfl

@[simp] theorem exec_attempt (x : Py α) (w : World) :
    x.attempt.exec w = (.ok (x.exec w).1, (x.exec w).2) := by
  change Prog.exec World.answer (x.run >>= fun r => pure (Except.ok r)) w = _
  rw [Prog.exec_bind]
  rfl

end Py

theorem exec_get (id : String) (w : World) :
    (AutomationRepository.get id).exec w =
      match w.db.row? id with
      | none => (.ok none, w.next)
      | some row => ((toResult row).map some, w.next) := by
  have hselect : (Py.transaction (.get id)).exec w = (.ok (w.db.row? id), w.next) := rfl
  rw [AutomationRepository.get, Py.exec_bind, hselect]
  cases w.db.row? id with
  | none => rfl
  | some row =>
    simp only [Py.exec_bind, Py.exec_ofExcept]
    cases toResult row <;> rfl

section Alone
variable {T : Type} [DecidableEq T]

/-- The world of a process between two of its calls. -/
def System.world (s : System T) (t : T) (choices : ℕ → Choice) : World :=
  ⟨choices, s.shared, s.locals t⟩

/-- The system after a call that a process makes while no other process moves. -/
def System.alone (s : System T) (t : T) (choices : ℕ → Choice) (call : Call) : System T :=
  { s with
    shared := (call.code.exec World.answer (s.world t choices)).2.shared
    locals := Function.update s.locals t
      (call.code.exec World.answer (s.world t choices)).2.cooldowns }

def System.traceAlone (s : System T) (t : T) (choices : ℕ → Choice) (call : Call)
    (h : List (Event T)) : List (Event T) :=
  .stop t call (call.code.exec World.answer (s.world t choices)).1 ::
    Interleaving.trace World.answer (fun w _ => w.choices 0) t call.code (s.world t choices)
      (.start t call :: h)

/-- A sequential execution is a run in which no other process moves. -/
theorem Runs.alone {h : List (Event T)} {s : System T} (hr : Runs h s) {t : T}
    (hidle : s.running t = none) (choices : ℕ → Choice) (call : Call) :
    Runs (s.traceAlone t choices call h) (s.alone t choices call) := by
  exact Interleaving.Runs.call (M := machine) World.handle_eq call hr hidle rfl rfl

theorem System.alone_course {s : System T} {t : T} (hidle : s.running t = none)
    (choices : ℕ → Choice) (call : Call) :
    ∃ s₁ s₂, Step s (.start t call) s₁ ∧
      Steps s₁ (Interleaving.trace World.answer (fun w _ => w.choices 0) t call.code
        (s.world t choices) []) s₂ ∧
      Step s₂ (.stop t call (call.code.exec World.answer (s.world t choices)).1)
        (s.alone t choices call) :=
  Interleaving.Steps.call (M := machine) World.handle_eq call hidle rfl rfl

theorem Steps.alone {s : System T} {t : T} (hidle : s.running t = none) (choices : ℕ → Choice)
    (call : Call) : Steps s (s.traceAlone t choices call []) (s.alone t choices call) := by
  have hrefl : Interleaving.Runs machine (fun s₀ => s₀ = s) [] s := .init rfl
  exact (Interleaving.Runs.call (M := machine) (w := s.world t choices) World.handle_eq call hrefl
    hidle rfl rfl).steps

/-- Calls that processes make one after another, each with what the surroundings decide. -/
def System.inTurn : List (T × (ℕ → Choice) × Call) → List (Event T) → System T →
    List (Event T) × System T
  | [], h, s => (h, s)
  | (t, choices, call) :: calls, h, s =>
    inTurn calls (s.traceAlone t choices call h) (s.alone t choices call)

theorem Runs.inTurn (calls : List (T × (ℕ → Choice) × Call)) {h : List (Event T)} {s : System T}
    (hr : Runs h s) (hidle : ∀ t, s.running t = none) :
    Runs (System.inTurn calls h s).1 (System.inTurn calls h s).2 := by
  induction calls generalizing h s with
  | nil => exact hr
  | cons call calls ih =>
    obtain ⟨t, choices, call⟩ := call
    exact ih (Runs.alone hr (hidle t) choices call) hidle

end Alone

end Sequential

section Sample

/-- The `json` module on the one payload of the sample runs. -/
@[reducible] def emptyPayload : JsonCodec :=
  { readingCodec fun s =>
      if s = "{}" then .ok (.obj []) else .error (.jsonDecodeError "Expecting value") with
    dumps := fun _ => "{}" }

/-- Surroundings in which nothing goes wrong, at the start of 2024. -/
def Choice.calm : Choice where
  utc := ⟨63839664000000000, by decide⟩
  monotonic := 0
  random := 0
  uuid := "a"
  env _ := none
  fromUrl := .ok ()
  rpush := .ok ()
  blpop := .ok ()
  outcome := .ok "done"
  connection := ⟨.sqlite, true, [], fun _ => 0⟩

def twiceRequest : AutomationRequest := { sampleRequest with maxAttempts := 2, valid := by decide }

def keylessRequest : AutomationRequest :=
  { sampleRequest with idempotencyKey := none, valid := by decide }

def sampleWorker : AutomationWorker := ⟨5, 300, .fin (1 / 5), some .database⟩

def System.initial : System ℕ := ⟨⟨.empty, fun _ => []⟩, fun _ _ => none, fun _ => none⟩

/-- A history and a state: those of calls made in turn from the initial state. -/
def inTurn (calls : List (ℕ × (ℕ → Choice) × Call)) : List (Event ℕ) × System ℕ :=
  letI := emptyPayload
  System.inTurn calls [] System.initial

theorem inTurn_runs (calls : List (ℕ × (ℕ → Choice) × Call)) :
    @Runs ℕ _ emptyPayload (inTurn calls).1 (inTurn calls).2 := by
  let _ := emptyPayload
  have hr : Runs [] System.initial := .init ⟨rfl, fun _ => rfl, fun _ _ => rfl⟩
  exact Runs.inTurn calls hr fun _ => rfl

/-- A submission with one attempt, a run in which it fails, and its replay. -/
def sampleCalls : List (ℕ × (ℕ → Choice) × Call) :=
  [(0, fun _ => .calm, .submit ⟨some .database⟩ sampleRequest),
    (1, fun _ => { Choice.calm with outcome := .error (.adapterError "refused") },
      .runOnce sampleWorker),
    (2, fun _ => .calm, .replayDeadLetter ⟨some .database⟩ "a")]

/-- The history and the state after the first calls of the sample. -/
def sampleRun (n : ℕ) : List (Event ℕ) × System ℕ := inTurn (sampleCalls.take n)

end Sample

end Orchestrator
