import Mathlib.Data.Nat.Notation
import Orchestrator.Library.Transaction

/-!
# Connections with pending writes

A connection sees its own writes at once and the others see them when they are committed.
Every statement may fail, before or after it took effect, with an exception of either
kind. `Block` is code that uses one connection, with the two clauses that clean up after
it: `except Exception: …; raise` and `finally`.
-/

namespace Orchestrator.Pending

open Transaction
set_option autoImplicit false

universe u

/-- What code raises: an `Exception`, or an exception that is none. -/
inductive Raised (ε : Type u) where
  | exception (x : ε)
  | base (text : String)

/-- A statement that fails; a late failure comes when its writes are pending already. -/
structure Fault (ε : Type u) where
  raised : Raised ε
  late : Bool

variable {σ ε α β : Type u}

/-- A block of statements under given faults: the answer, and the writes that are pending. -/
def attempt : Tx σ ε α → (ℕ → Option (Fault ε)) → σ → Except (Raised ε) α × σ
  | .ret a, faults, s =>
    match faults 0 with
    | some fault => (.error fault.raised, s)
    | none => (.ok a, s)
  | .raise x, _, s => (.error (.exception x), s)
  | .read k, faults, s =>
    match faults 0 with
    | some fault => (.error fault.raised, s)
    | none => attempt (k s) (fun n => faults (n + 1)) s
  | .write f k, faults, s =>
    match faults 0, f s with
    | some fault, .ok s' => (.error fault.raised, if fault.late then s' else s)
    | some fault, .error _ => (.error fault.raised, s)
    | none, .ok s' => attempt k (fun n => faults (n + 1)) s'
    | none, .error x => (.error (.exception x), s)

theorem exec_of_attempt {block : Tx σ ε α} {faults : ℕ → Option (Fault ε)} {s s' : σ} {a : α}
    (h : attempt block faults s = (.ok a, s')) : block.exec s = .ok (a, s') := by
  induction block generalizing faults s with
  | ret b =>
    simp only [attempt] at h
    split at h <;> cases h
    rfl
  | raise x => cases h
  | read k ih =>
    simp only [attempt] at h
    split at h
    · cases h
    · exact ih s h
  | write f k ih =>
    simp only [attempt] at h
    simp only [Tx.exec]
    split at h
    · cases h
    · cases h
    · next hf =>
      rw [hf]
      exact ih h
    · cases h

theorem attempt_calm (block : Tx σ ε α) {faults : ℕ → Option (Fault ε)}
    (hcalm : ∀ n, faults n = none) (s : σ) : match block.exec s with
      | .ok (a, s') => attempt block faults s = (.ok a, s')
      | .error x => (attempt block faults s).1 = .error (.exception x) := by
  induction block generalizing faults s with
  | ret b => simp only [Tx.exec, attempt, hcalm 0]
  | raise x => simp only [Tx.exec, attempt]
  | read k ih =>
    simp only [Tx.exec, attempt, hcalm 0]
    exact ih s (fun n => hcalm (n + 1)) s
  | write f k ih =>
    simp only [Tx.exec, attempt, hcalm 0]
    cases f s with
    | ok s₁ => exact ih (fun n => hcalm (n + 1)) s₁
    | error x => rfl

theorem attempt_of_exec {block : Tx σ ε α} {faults : ℕ → Option (Fault ε)} {s s' : σ} {a : α}
    (hcalm : ∀ n, faults n = none) (h : block.exec s = .ok (a, s')) :
    attempt block faults s = (.ok a, s') := by
  have hattempt := attempt_calm block hcalm s
  rw [h] at hattempt
  exact hattempt

theorem attempt_of_exec_error {block : Tx σ ε α} {faults : ℕ → Option (Fault ε)} {s : σ} {x : ε}
    (hcalm : ∀ n, faults n = none) (h : block.exec s = .error x) :
    (attempt block faults s).1 = .error (.exception x) := by
  have hattempt := attempt_calm block hcalm s
  rw [h] at hattempt
  exact hattempt

/-- A connection: what is published, the writes that only it sees, whether it was asked for
a handle, and whether it was closed. -/
structure Session (σ : Type u) where
  published : σ
  pending : Option σ
  handle : Bool
  closed : Bool

namespace Session

def opened (s : σ) : Session σ := ⟨s, none, false, false⟩

def current (c : Session σ) : σ := c.pending.getD c.published

/-- A transaction that is begun by a statement. -/
def beginImmediate (c : Session σ) : Session σ := { c with pending := some c.published }

/-- A transaction that is begun by asking for its handle. -/
def beginHandle (c : Session σ) : Session σ :=
  { c with pending := some c.published, handle := true }

def commit (c : Session σ) : Session σ := { c with published := c.current, pending := none }

def rollback (c : Session σ) : Session σ := { c with pending := none }

def rollbackHandle (c : Session σ) : Session σ := { c with pending := none, handle := false }

/-- Closing discards what is pending. -/
def close (c : Session σ) : Session σ := { c with pending := none, closed := true }

end Session

/-- Code over one connection. -/
def Block (σ ε α : Type u) : Type u := Session σ → Except (Raised ε) α × Session σ

namespace Block

def bind (x : Block σ ε α) (f : α → Block σ ε β) : Block σ ε β := fun c =>
  match x c with
  | (.ok a, c') => f a c'
  | (.error r, c') => (.error r, c')

instance : Monad (Block σ ε) where
  pure a := fun c => (.ok a, c)
  bind := bind

/-- One action that either takes effect or raises without any. -/
def action (fault : Option (Raised ε)) (f : Session σ → Session σ) : Block σ ε PUnit :=
  fun c =>
    match fault with
    | some r => (.error r, c)
    | none => (.ok ⟨⟩, f c)

def statements (faults : ℕ → Option (Fault ε)) (block : Tx σ ε α) : Block σ ε α := fun c =>
  ((attempt block faults c.current).1,
    { c with pending := some (attempt block faults c.current).2 })

/-- `except Exception: …; raise`. -/
def exceptException (x : Block σ ε α) (cleanup : Session σ → Session σ) : Block σ ε α :=
  fun c =>
    match x c with
    | (.error (.exception e), c') => (.error (.exception e), cleanup c')
    | (r, c') => (r, c')

/-- `finally: …`. -/
def finally_ (x : Block σ ε α) (cleanup : Session σ → Session σ) : Block σ ε α := fun c =>
  ((x c).1, cleanup (x c).2)

theorem exceptException_fst (x : Block σ ε α) (cleanup : Session σ → Session σ)
    (c : Session σ) : (x.exceptException cleanup c).1 = (x c).1 := by
  unfold exceptException
  split
  · next h => rw [h]
  · next h => rw [h]

theorem exceptException_published (x : Block σ ε α) {cleanup : Session σ → Session σ}
    (hcleanup : ∀ c, (cleanup c).published = c.published) (c : Session σ) :
    (x.exceptException cleanup c).2.published = (x c).2.published := by
  unfold exceptException
  split
  · next h => rw [h, hcleanup]
  · next h => rw [h]

end Block

end Orchestrator.Pending
