import Orchestrator.Classification
import Orchestrator.Library.Expansion
import Orchestrator.Sequential

/-!
# Workers with their adapters

In the core system the surroundings decide the outcome of an execution. Here a worker runs the
adapter of the request's channel instead, one effect of its HTTP client at a time, while other
processes move. Seen from the tables such a run is a run of the core system.
-/

namespace Orchestrator

open Interaction Interleaving
set_option autoImplicit false

inductive WorkerEff where
  | program (e : Eff)
  | http (e : HttpEff)

abbrev WorkerEff.Res : WorkerEff → Type
  | program e => e.Res
  | http e => e.Res

/-- What the surroundings decide about one effect; a post is answered with `reply`. -/
structure WorkerChoice extends Choice where
  reply : Except PyExc AdapterResponse

def HttpEff.answer (c : WorkerChoice) : (e : HttpEff) → e.Res
  | getenv name => c.env name
  | utcNow => c.utc
  | post .. | postForm .. => c.reply

section Machine
variable [JsonCodec] [JsonText]

/-- `ADAPTERS[request.execution_channel].execute(request)`. -/
def adapters (request : AutomationRequest) : Http String :=
  match request.executionChannel with
  | .api => ApiAdapter.execute ⟨none, none, none⟩ request
  | .rpa => RpaAdapter.execute ⟨none, none, none⟩ request

/-- An execution runs the adapter; every other effect is one of the machine. -/
def Eff.impl : (e : Eff) → Prog WorkerEff WorkerEff.Res e.Res
  | .execute _ request => (adapters request).run.embed .http fun _ r => r
  | e => Prog.perform (WorkerEff.program e)

def workerHandle (c : WorkerChoice) :
    (e : WorkerEff) → Shared → Cooldowns → e.Res × Shared × Cooldowns
  | .program e, s, l => handle c.toChoice e s l
  | .http e, s, l => (e.answer c, s, l)

def workerMachine :
    Machine WorkerEff WorkerEff.Res Call WorkerChoice Shared Cooldowns Reply where
  code call := call.code.expand Eff.impl
  handle := workerHandle
  disturbs s s' := s'.db = s.db

variable (T : Type)

abbrev WorkerEvent := Interleaving.Event T WorkerEff WorkerEff.Res Call WorkerChoice Reply

abbrev WorkerSystem := Interleaving.State T WorkerEff WorkerEff.Res Call Shared Cooldowns Reply

variable {T} [DecidableEq T]

def WorkersInitial (s : WorkerSystem T) : Prop :=
  s.shared.db = .empty ∧ (∀ t, s.running t = none) ∧ ∀ t target, s.locals t target = none

/-- Every run of the processes, with the adapters that workers call. -/
abbrev WorkerRuns (h : List (WorkerEvent T)) (s : WorkerSystem T) : Prop :=
  Interleaving.Runs workerMachine WorkersInitial h s

end Machine

section Refinement
variable [JsonCodec] [JsonText]

def expansion : Expansion workerMachine machine where
  shared := id
  own := id
  impl := Eff.impl
  code _ := rfl
  disturbs h := h

omit [JsonCodec] [JsonText] in
theorem Http.orGetenv_none (name : String) {α : Type} (f : Option String → Http α) :
    (Http.orGetenv none name >>= f).run = .call (.getenv name) fun value => (f value).run := rfl

theorem adapters_call (request : AutomationRequest) :
    ∃ e k, (adapters request).run = .call e k := by
  unfold adapters
  split
  · exact ⟨_, _, Http.orGetenv_none _ _⟩
  · exact ⟨_, _, rfl⟩

theorem implements_adapter {id : String} {request : AutomationRequest}
    {p : Prog HttpEff HttpEff.Res (Except PyExc String)} (hp : ∃ e k, p = .call e k) :
    expansion.Implements (.execute id request) (p.embed .http fun _ r => r) := by
  induction p with
  | ret r =>
    obtain ⟨e, k, hp⟩ := hp
    cases hp
  | call e k ih =>
    intro c s l
    have hanswer : (workerMachine.handle c (.http e) s l) = (e.answer c, s, l) := rfl
    rw [hanswer]
    cases hk : k (e.answer c) with
    | ret outcome =>
      refine .inl ⟨{ c.toChoice with outcome := outcome }, outcome, ?_, rfl⟩
      change (k (e.answer c)).embed _ _ = _
      rw [hk]
      rfl
    | call e' k' => exact .inr ⟨rfl, rfl, ih (e.answer c) ⟨e', k', hk⟩⟩

theorem implements_impl (e : Eff) : expansion.Implements e e.impl := by
  cases e with
  | execute id request => exact implements_adapter (adapters_call request)
  | _ => exact fun c s l => .inl ⟨c.toChoice, _, rfl, rfl⟩

/-- The latest effect towards an effect of the core system: a step of the adapter inside an
execution, and the effect itself otherwise. -/
theorem impl_path {e : Eff} {answers : List ((e : WorkerEff) × e.Res)} {e₁ : WorkerEff}
    {r₁ : e₁.Res} {q : Prog WorkerEff WorkerEff.Res e.Res}
    (h : e.impl.Path (answers ++ [⟨e₁, r₁⟩]) q) :
    (∃ id request, e = .execute id request) ∧ (∃ e₂, e₁ = .http e₂) ∨
      ∃ r, (⟨e₁, r₁⟩ : (e : WorkerEff) × e.Res) = ⟨.program e, r⟩ ∧ q = .ret r := by
  have single : e.impl = Prog.perform (WorkerEff.program e) →
      ∃ r, (⟨e₁, r₁⟩ : (e : WorkerEff) × e.Res) = ⟨.program e, r⟩ ∧ q = .ret r := by
    intro himpl
    rw [himpl] at h
    rcases h.perform with ⟨hnil, -⟩ | ⟨r, hr, hq⟩
    · simp at hnil
    · rcases List.append_eq_singleton_iff.mp hr with ⟨-, hlast⟩ | ⟨-, hlast⟩
      · exact ⟨r, List.singleton_inj.mp hlast, hq⟩
      · cases hlast
  cases e with
  | execute id request =>
    exact .inl ⟨⟨id, request, rfl⟩, h.embedded _ (List.mem_append_right _ List.mem_cons_self)⟩
  | _ => exact .inr (single rfl)

variable {T : Type} [DecidableEq T] {h : List (WorkerEvent T)} {s : WorkerSystem T}

theorem WorkerRuns.joint (hr : WorkerRuns h s) : ∃ h' s',
    expansion.Joint WorkersInitial Initial h s h' s' ∧ expansion.Matches h s s' := by
  refine Expansion.joint implements_impl (fun _ hi => hi.2.1) ?_ hr
  exact fun _ hi => ⟨hi.1, fun _ => rfl, hi.2.2⟩

/-- An answer to an adapter, as one to its worker. -/
def HttpEff.toWorker (answer : (e : HttpEff) × e.Res) : (e : WorkerEff) × e.Res :=
  ⟨.http answer.1, answer.2⟩

omit [JsonCodec] [JsonText] in
theorem map_toWorker {answers : List ((e : WorkerEff) × e.Res)}
    {answers' : List ((e : HttpEff) × e.Res)}
    (h : List.Forall₂ (fun a a' => ∃ r, a = ⟨.http a'.1, r⟩ ∧ r = a'.2) answers answers') :
    answers = answers'.map HttpEff.toWorker := by
  induction h with
  | nil => rfl
  | cons hhead _ ih =>
    obtain ⟨r, rfl, rfl⟩ := hhead
    rw [ih]
    rfl

end Refinement

section Sample

def WorkerChoice.online : WorkerChoice where
  toChoice := { Choice.calm with
    env := fun name => if name = "TARGET_API_BASE_URL" then some "http://erp" else none }
  reply := .ok ⟨⟨200, "OK", "{}"⟩, none⟩

def WorkerSystem.initial : WorkerSystem ℕ :=
  ⟨⟨.empty, fun _ => []⟩, fun _ _ => none, fun _ => none⟩

/-- A submission, and a worker that takes it and posts it. -/
def postedRun : List (WorkerEvent ℕ) × WorkerSystem ℕ :=
  letI := emptyPayload
  letI := noText
  Interleaving.State.play workerMachine
    ([.start 0 (.create "a" keylessRequest)] ++ List.replicate 4 (.go 0 .online) ++
      [.start 1 (.runOnce sampleWorker)] ++ List.replicate 20 (.go 1 .online))
    ([], WorkerSystem.initial)

theorem postedRun_runs : @WorkerRuns emptyPayload noText ℕ _ postedRun.1 postedRun.2 := by
  let _ := emptyPayload
  let _ := noText
  have hr : WorkerRuns [] WorkerSystem.initial := .init ⟨rfl, fun _ => rfl, fun _ _ => rfl⟩
  exact Interleaving.Runs.play _ hr

end Sample

end Orchestrator
