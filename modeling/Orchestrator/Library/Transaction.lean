import Mathlib.Logic.Basic

/-!
# Transactions with pending writes

A transaction reads the state it has built so far, writes to it statement by
statement, and may raise. `Tx.exec` runs the statements on the pending state;
`Tx.commit` publishes the pending state at the end, or nothing when the
transaction raised.
-/

namespace Orchestrator.Transaction

set_option autoImplicit false

universe u

inductive Tx (σ ε α : Type u) : Type u where
  | ret (a : α) : Tx σ ε α
  | raise (x : ε) : Tx σ ε α
  | read (k : σ → Tx σ ε α) : Tx σ ε α
  | write (f : σ → Except ε σ) (k : Tx σ ε α) : Tx σ ε α

namespace Tx
variable {σ ε α β : Type u}

def bind : Tx σ ε α → (α → Tx σ ε β) → Tx σ ε β
  | ret a, f => f a
  | raise x, _ => raise x
  | read k, f => read fun s => (k s).bind f
  | write g k, f => write g (k.bind f)

instance : Monad (Tx σ ε) where
  pure := ret
  bind := bind

/-- A SELECT: a query on the pending state. -/
def select (q : σ → α) : Tx σ ε α := read fun s => ret (q s)

/-- An INSERT or UPDATE: it changes the pending state or raises. -/
def execute (f : σ → Except ε σ) : Tx σ ε PUnit := write f (ret ⟨⟩)

def exec : Tx σ ε α → σ → Except ε (α × σ)
  | ret a, s => .ok (a, s)
  | raise x, _ => .error x
  | read k, s => exec (k s) s
  | write f k, s =>
    match f s with
    | .ok s' => exec k s'
    | .error x => .error x

/-- The answer to the caller and the committed state. -/
def commit (p : Tx σ ε α) (s : σ) : Except ε α × σ :=
  match exec p s with
  | .ok (a, s') => (.ok a, s')
  | .error x => (.error x, s)

@[simp] theorem exec_pure (a : α) (s : σ) : exec (pure a : Tx σ ε α) s = .ok (a, s) := rfl

@[simp] theorem exec_raise (x : ε) (s : σ) : exec (raise x : Tx σ ε α) s = .error x := rfl

@[simp] theorem exec_select (q : σ → α) (s : σ) :
    exec (select q : Tx σ ε α) s = .ok (q s, s) := rfl

@[simp] theorem exec_execute (f : σ → Except ε σ) (s : σ) :
    exec (execute f) s = (f s).map fun s' => (⟨⟩, s') := by
  simp only [execute, exec]
  cases f s <;> rfl

@[simp] theorem exec_bind (p : Tx σ ε α) (f : α → Tx σ ε β) (s : σ) :
    exec (p >>= f) s =
      match exec p s with
      | .ok (a, s') => exec (f a) s'
      | .error x => .error x := by
  induction p generalizing s with
  | ret a => rfl
  | raise x => rfl
  | read k ih => exact ih s s
  | write g k ih =>
    change exec (write g (k >>= f)) s = _
    simp only [exec]
    cases g s with
    | ok s' => exact ih s'
    | error x => rfl

theorem commit_of_ok {p : Tx σ ε α} {s s' : σ} {a : α} (h : exec p s = .ok (a, s')) :
    commit p s = (.ok a, s') := by simp [commit, h]

theorem commit_of_error {p : Tx σ ε α} {s : σ} {x : ε} (h : exec p s = .error x) :
    commit p s = (.error x, s) := by simp [commit, h]

theorem exec_of_commit {p : Tx σ ε α} {s s' : σ} {a : α} (h : commit p s = (.ok a, s')) :
    exec p s = .ok (a, s') := by
  unfold commit at h
  split at h <;> simp_all

theorem exec_of_commit_error {p : Tx σ ε α} {s s' : σ} {x : ε}
    (h : commit p s = (.error x, s')) : exec p s = .error x := by
  unfold commit at h
  split at h <;> simp_all

theorem commit_error_state {p : Tx σ ε α} {s s' : σ} {x : ε} (h : commit p s = (.error x, s')) :
    s' = s := by
  unfold commit at h
  split at h <;> simp_all

end Tx

end Orchestrator.Transaction
