import Mathlib.Data.List.Chain

/-!
# Append-only logs

Folds over a log that is read from its first entry on and grows at its end: the entries
since the last one of a kind, the neighbours that stand in a relation, and what a legal
order of entries says about both.
-/

namespace Orchestrator.EventLog

set_option autoImplicit false

universe u

variable {α : Type u}

/-- The entries after the last one that satisfies `p`. -/
def sinceLast (p : α → Bool) (log : List α) : List α :=
  (log.reverse.takeWhile fun a => !p a).reverse

/-- How many neighbours of the log stand in a relation. -/
def adjacent (r : α → α → Bool) : List α → ℕ
  | a :: b :: log => (if r a b then 1 else 0) + adjacent r (b :: log)
  | _ => 0

variable {p q : α → Bool} {r : α → α → Bool} {legal : α → α → Prop} {log : List α} {a b : α}

theorem sinceLast_snoc (p : α → Bool) (log : List α) (a : α) :
    sinceLast p (log ++ [a]) = if p a then [] else sinceLast p log ++ [a] := by
  rw [sinceLast, List.reverse_append]
  cases hp : p a with
  | true => simp [hp]
  | false => simp [hp, sinceLast]

theorem sinceLast_map {β : Type u} (f : β → α) (log : List β) :
    sinceLast p (log.map f) = (sinceLast (fun b => p (f b)) log).map f := by
  rw [sinceLast, sinceLast, ← List.map_reverse, List.takeWhile_map, List.map_reverse]
  rfl

theorem adjacent_snoc (hlast : log.getLast? = some b) :
    adjacent r (log ++ [a]) = adjacent r log + if r b a then 1 else 0 := by
  induction log with
  | nil => cases hlast
  | cons c log ih =>
    cases log with
    | nil =>
      obtain rfl : c = b := by simpa using hlast
      simp [adjacent]
    | cons d log =>
      rw [List.getLast?_cons_cons] at hlast
      have hd := ih hlast
      simp only [List.cons_append, adjacent] at hd ⊢
      omega

theorem chain_snoc (hc : log.IsChain legal) (hlast : log.getLast? = some b) (hba : legal b a) :
    (log ++ [a]).IsChain legal := by
  apply hc.append (by simp)
  intro x hx y hy
  obtain rfl : b = x := by simpa [hlast] using hx
  obtain rfl : a = y := by simpa using hy
  exact hba

theorem head?_snoc (hhead : log.head? = some b) : (log ++ [a]).head? = some b := by
  rw [List.head?_append, hhead]
  rfl

theorem final_of_chain (hc : log.IsChain legal) (hfinal : ∀ b, ¬ legal a b) {pre post : List α}
    (hlog : log = pre ++ a :: post) : post = [] := by
  cases post with
  | nil => rfl
  | cons b post =>
    rw [hlog, List.isChain_append_cons_cons] at hc
    exact absurd hc.2.1 (hfinal b)

/-- Where every `p` can only be followed by a `q`, the pairs of both count the `p`s but the last. -/
theorem countP_eq_adjacent (hc : log.IsChain legal)
    (hpq : ∀ a b, legal a b → p a = true → q b = true) :
    log.countP p = adjacent (fun a b => p a && q b) log + if log.getLast?.any p then 1 else 0 := by
  induction log with
  | nil => rfl
  | cons a log ih =>
    cases log with
    | nil => cases hp : p a <;> simp [adjacent, hp]
    | cons b log =>
      obtain ⟨hab, hc⟩ := List.isChain_cons_cons.mp hc
      have hb := ih hc
      rw [List.countP_cons, hb, List.getLast?_cons_cons, adjacent]
      cases hp : p a with
      | false =>
        simp only [Bool.false_and, Bool.false_eq_true, if_false]
        omega
      | true =>
        simp only [hpq a b hab hp, Bool.and_self, if_true]
        omega

end Orchestrator.EventLog
