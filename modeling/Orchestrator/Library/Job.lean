import Mathlib.Tactic.Ring

/-!
# Jobs with a budget of attempts

One job goes through marks: it is enqueued, started, executed, settled after a failure
or without any execution, finished, and enqueued again once it is dead. An attempt is
counted when it starts. A history is the list of its marks, the latest first.

The counted attempts are the failed executions and the deferrals, which are starts
settled without an execution; so a dead job was really tried as often as its budget
says exactly when it was never deferred.
-/

namespace Orchestrator.Job

set_option autoImplicit false

inductive Mark where
  | enqueue
  | start
  | execute (ok : Bool)
  | settle
  | finish
  | requeue
deriving DecidableEq

inductive Stage where
  | waiting
  | claimed
  | succeeded
  | failed
  | done
  | dead
deriving DecidableEq

/-- Where a job goes that settles after `n` counted attempts. -/
def settled (budget n : ℤ) : Stage := if budget ≤ n then .dead else .waiting

/-- The histories of a job, with the stage and the counted attempts they lead to. -/
inductive Life (budget : ℤ) : List Mark → Stage → ℤ → Prop where
  | enqueue : Life budget [.enqueue] .waiting 0
  | start {w : List Mark} {n : ℤ} (h : Life budget w .waiting n) :
      Life budget (.start :: w) .claimed (n + 1)
  | succeed {w : List Mark} {n : ℤ} (h : Life budget w .claimed n) :
      Life budget (.execute true :: w) .succeeded n
  | fail {w : List Mark} {n : ℤ} (h : Life budget w .claimed n) :
      Life budget (.execute false :: w) .failed n
  | defer {w : List Mark} {n : ℤ} (h : Life budget w .claimed n) :
      Life budget (.settle :: w) (settled budget n) n
  | settle {w : List Mark} {n : ℤ} (h : Life budget w .failed n) :
      Life budget (.settle :: w) (settled budget n) n
  | finish {w : List Mark} {n : ℤ} (h : Life budget w .succeeded n) :
      Life budget (.finish :: w) .done n
  | requeue {w : List Mark} {n : ℤ} (h : Life budget w .dead n) :
      Life budget (.requeue :: w) .waiting 0

/-- Failed executions since the job was last enqueued. -/
def tried : List Mark → ℤ
  | [] | .enqueue :: _ | .requeue :: _ => 0
  | .execute false :: w => tried w + 1
  | _ :: w => tried w

/-- Starts since the job was last enqueued that were settled without an execution. -/
def deferred : List Mark → ℤ
  | [] | .enqueue :: _ | .requeue :: _ => 0
  | .settle :: .start :: w => deferred w + 1
  | _ :: w => deferred w

def started : List Mark → ℤ
  | [] => 0
  | .start :: w => started w + 1
  | _ :: w => started w

def executions : List Mark → ℤ
  | [] => 0
  | .execute _ :: w => executions w + 1
  | _ :: w => executions w

def requeues : List Mark → ℤ
  | [] => 0
  | .requeue :: w => requeues w + 1
  | _ :: w => requeues w

namespace Stage

/-- The attempt under way, where no failure has been counted for it. -/
def pending : Stage → ℤ
  | claimed | succeeded | done => 1
  | _ => 0

/-- The execution that a claimed job still has coming. -/
def owed : Stage → ℤ
  | claimed => 1
  | _ => 0

/-- What the counter may be: a waiting job has attempts left, a dead one has none. -/
def within (budget n : ℤ) : Stage → Prop
  | waiting => 0 ≤ n ∧ n < budget
  | dead => n = budget
  | _ => 0 ≤ n ∧ n ≤ budget

end Stage

variable {budget n : ℤ} {w : List Mark} {stage : Stage}

theorem settled_pending (budget n : ℤ) : (settled budget n).pending = 0 := by
  unfold settled
  split <;> rfl

theorem settled_owed (budget n : ℤ) : (settled budget n).owed = 0 := by
  unfold settled
  split <;> rfl

theorem settled_within (h : 0 ≤ n ∧ n ≤ budget) : (settled budget n).within budget n := by
  unfold settled
  split
  · simp only [Stage.within]
    omega
  · simp only [Stage.within]
    omega

theorem deferred_cons {m : Mark} (hd : deferred w = 0)
    (hm : m = .settle → w.head? ≠ some .start) : deferred (m :: w) = 0 := by
  cases m with
  | settle =>
    cases w with
    | nil => rfl
    | cons m' w =>
      have hne : m' ≠ .start := by simpa using hm rfl
      cases m' <;> first | exact absurd rfl hne | exact hd
  | enqueue | requeue => rfl
  | _ => exact hd

namespace Life

theorem claimed_start (h : Life budget w .claimed n) : ∃ w', w = .start :: w' := by
  generalize hs : Stage.claimed = stage at h
  cases h with
  | start h => exact ⟨_, rfl⟩
  | defer h | settle h =>
    unfold settled at hs
    split at hs <;> cases hs
  | _ => cases hs

theorem failed_execute (h : Life budget w .failed n) : ∃ w', w = .execute false :: w' := by
  generalize hs : Stage.failed = stage at h
  cases h with
  | fail h => exact ⟨_, rfl⟩
  | defer h | settle h =>
    unfold settled at hs
    split at hs <;> cases hs
  | _ => cases hs

theorem stage_of_start (h : Life budget (.start :: w) stage n) : stage = .claimed := by
  cases h
  rfl

theorem stage_of_execute {ok : Bool} (h : Life budget (.execute ok :: w) stage n) :
    stage = if ok then .succeeded else .failed := by
  cases h <;> rfl

/-- What may follow an execution: it is finished after a success, and settled after a failure. -/
theorem after_execute {ok : Bool} {w₁ w₂ : List Mark}
    (h : Life budget (w₂ ++ .execute ok :: w₁) stage n) :
    (w₂ = [] ∧ stage = if ok then .succeeded else .failed) ∨
      (ok = true ∧ w₂ = [.finish] ∧ stage = .done) ∨
      ok = false ∧ ∃ w, w₂ = w ++ [.settle] := by
  induction w₂ generalizing stage n with
  | nil => exact .inl ⟨rfl, h.stage_of_execute⟩
  | cons m w₂ ih =>
    have later : (ok = false ∧ ∃ w, w₂ = w ++ [.settle]) →
        ok = false ∧ ∃ w, m :: w₂ = w ++ [.settle] := by
      rintro ⟨hok, w, rfl⟩
      exact ⟨hok, m :: w, rfl⟩
    generalize hw : m :: w₂ ++ .execute ok :: w₁ = w at h
    cases h with
    | enqueue => simp at hw
    | finish h =>
      obtain ⟨rfl, rfl⟩ := List.cons.inj hw
      rcases ih h with ⟨rfl, hst⟩ | ⟨-, -, hst⟩ | hsettled
      · cases ok
        · cases hst
        · exact .inr (.inl ⟨rfl, rfl, rfl⟩)
      · cases hst
      · exact .inr (.inr (later hsettled))
    | settle h =>
      obtain ⟨rfl, rfl⟩ := List.cons.inj hw
      rcases ih h with ⟨rfl, hst⟩ | ⟨-, -, hst⟩ | hsettled
      · cases ok
        · exact .inr (.inr ⟨rfl, [], rfl⟩)
        · cases hst
      · cases hst
      · exact .inr (.inr (later hsettled))
    | start h | succeed h | fail h | defer h | requeue h =>
      obtain ⟨rfl, rfl⟩ := List.cons.inj hw
      rcases ih h with ⟨-, hst⟩ | ⟨-, -, hst⟩ | hsettled
      · cases ok <;> cases hst
      · cases hst
      · exact .inr (.inr (later hsettled))

theorem between_executions {ok ok' : Bool} {w₁ w₂ : List Mark}
    (h : Life budget (.execute ok' :: (w₂ ++ .execute ok :: w₁)) stage n) :
    ok = false ∧ ∃ w, w₂ = w ++ [.settle] := by
  have hclaimed : ∃ n, Life budget (w₂ ++ .execute ok :: w₁) .claimed n := by
    cases h with
    | succeed h => exact ⟨_, h⟩
    | fail h => exact ⟨_, h⟩
  obtain ⟨n, hclaimed⟩ := hclaimed
  rcases hclaimed.after_execute with ⟨-, hst⟩ | ⟨-, -, hst⟩ | hsettled
  · cases ok <;> cases hst
  · cases hst
  · exact hsettled

theorem within (hb : 1 ≤ budget) (h : Life budget w stage n) : stage.within budget n := by
  induction h with
  | defer h ih | settle h ih => exact settled_within ih
  | _ =>
    simp only [Stage.within] at *
    omega

/-- Every counted attempt is a failed execution, a deferral or under way. -/
theorem attempts (h : Life budget w stage n) : n = tried w + deferred w + stage.pending := by
  induction h with
  | defer h ih =>
    obtain ⟨w', rfl⟩ := h.claimed_start
    rw [settled_pending]
    simp only [tried, deferred, Stage.pending] at ih ⊢
    omega
  | settle h ih =>
    obtain ⟨w', rfl⟩ := h.failed_execute
    rw [settled_pending]
    simpa only [tried, deferred, Stage.pending] using ih
  | _ =>
    simp only [tried, deferred, Stage.pending] at *
    omega

theorem executions_owed (hb : 1 ≤ budget) (h : Life budget w stage n) :
    executions w + stage.owed ≤ budget * requeues w + n := by
  induction h with
  | enqueue => simp [executions, requeues, Stage.owed]
  | defer h ih | settle h ih =>
    rw [settled_owed]
    simp only [executions, requeues, Stage.owed] at ih ⊢
    omega
  | requeue h ih =>
    have hn : _ = budget := h.within hb
    have hmul : ∀ r : ℤ, budget * (r + 1) = budget * r + budget := fun r => by ring
    simp only [executions, requeues, Stage.owed, hmul] at ih ⊢
    omega
  | _ =>
    simp only [executions, requeues, Stage.owed] at *
    omega

/-- A job is executed at most as often as its budget allows after each time it is enqueued. -/
theorem executions_le (hb : 1 ≤ budget) (h : Life budget w stage n) :
    executions w ≤ budget * (1 + requeues w) := by
  have howed := h.executions_owed hb
  have hmul : budget * (1 + requeues w) = budget + budget * requeues w := by ring
  have hn : n ≤ budget := by
    have hw := h.within hb
    cases stage <;> simp only [Stage.within] at hw <;> omega
  have hpos : 0 ≤ stage.owed := by cases stage <;> simp [Stage.owed]
  omega

/-- A job is started at most as often as its budget allows after each time it is enqueued. -/
theorem started_le (hb : 1 ≤ budget) (h : Life budget w stage n) :
    started w ≤ budget * (1 + requeues w) := by
  have hn : n ≤ budget := by
    have hw := h.within hb
    cases stage <;> simp only [Stage.within] at hw <;> omega
  have hcounted : started w ≤ budget * requeues w + n := by
    clear hn
    induction h with
    | requeue h ih =>
      have hn : _ = budget := h.within hb
      have hmul : ∀ r : ℤ, budget * (r + 1) = budget * r + budget := fun r => by ring
      simp only [started, requeues, hmul] at ih ⊢
      omega
    | _ =>
      simp only [started, requeues] at *
      omega
  have hmul : budget * (1 + requeues w) = budget + budget * requeues w := by ring
  omega

/-- A dead job was tried as often as its budget says exactly when it was never deferred. -/
theorem tried_iff (hb : 1 ≤ budget) (h : Life budget w .dead n) :
    tried w = budget ↔ deferred w = 0 := by
  have hn : n = budget := h.within hb
  have hattempts := h.attempts
  simp only [Stage.pending] at hattempts
  omega

end Life

end Orchestrator.Job
