import Mathlib.Algebra.Order.BigOperators.Group.List
import Mathlib.Data.Finset.Card
import Orchestrator.Budget
import Orchestrator.Custody
import Orchestrator.Dispatching
import Orchestrator.Exits
import Orchestrator.Scheduling

/-!
# The queue drains

Every claim uses up one attempt, and nothing but a submission or a replay brings attempts
back. So the attempts that are left bound the claims of every run; and a row that is RUNNING
is in the hands of a `run_once`, which settles it.
-/

namespace Orchestrator

open Interaction Job Lease Table
set_option autoImplicit false

/-- The attempts that a row may still make. -/
def RequestRow.left (row : RequestRow) : Int :=
  if row.status = AutomationStatus.completed.value ∨
    row.status = AutomationStatus.deadLetter.value then 0
  else row.maxAttempts - row.attemptCount

def Database.left (db : Database) : Int := (db.requests.map RequestRow.left).sum

/-- The attempts left to the QUEUED and RETRYING rows. -/
def Database.waitingBudget (db : Database) : Int :=
  ((db.requests.filter RequestRow.waiting).map fun row => row.maxAttempts - row.attemptCount).sum

def Database.NoneRunning (db : Database) : Prop := ∀ id, ¬ db.HasStatus id .running

theorem RequestRow.Ok.left_nonneg {row : RequestRow} (hok : row.Ok) : 0 ≤ row.left := by
  have hrange := hok.range
  unfold left
  split <;> omega

theorem RequestRow.Ok.status_cases {row : RequestRow} (hok : row.Ok) :
    row.waiting = true ∨ row.status = AutomationStatus.running.value ∨
      row.status = AutomationStatus.completed.value ∨
      row.status = AutomationStatus.deadLetter.value := by
  have hknown := hok.known
  simp only [List.map_cons, List.map_nil, List.mem_cons, List.not_mem_nil, or_false] at hknown
  rcases hknown with hst | hst | hst | hst | hst
  · exact .inl (by simp [waiting, hst])
  · exact .inr (.inl hst)
  · exact .inl (by simp [waiting, hst])
  · exact .inr (.inr (.inr hst))
  · exact .inr (.inr (.inl hst))

theorem left_move {db : Database} {id : String} {row : RequestRow} {tr : Transition}
    (hrow : db.row? id = some row) :
    (db.move id tr).left = db.left - row.left + (row.set tr.values).left :=
  sum_map_updateAt db.primaryKey hrow

theorem left_started {row : RequestRow} {now : String} (hel : row.eligible now = true) :
    (row.set (row.started now).values).left = row.left - 1 := by
  have hwait := RequestRow.status_of_eligible hel
  have hnew : (row.set (row.started now).values).left = row.maxAttempts - (row.attemptCount + 1) :=
    if_neg (by simp [RequestRow.set, Transition.values, RequestRow.started])
  have hold : row.left = row.maxAttempts - row.attemptCount := by
    apply if_neg
    rcases hwait with hst | hst <;> simp [hst]
  omega

theorem left_settled {row : RequestRow} (hok : row.Ok)
    (hrun : row.status = AutomationStatus.running.value) (detail now : String)
    (nextAttemptAt : Option String) :
    (row.set (row.settled detail nextAttemptAt now).values).left ≤ row.left := by
  have hrange := hok.range
  have hold : row.left = row.maxAttempts - row.attemptCount := if_neg (by simp [hrun])
  have hnew : (row.set (row.settled detail nextAttemptAt now).values).left = 0 ∨
      (row.set (row.settled detail nextAttemptAt now).values).left =
        row.maxAttempts - row.attemptCount := by
    unfold RequestRow.left
    split
    · exact .inl rfl
    · exact .inr rfl
  omega

theorem left_completed {row : RequestRow} (hok : row.Ok) (detail now : String) :
    (row.set (Transition.completed .completed detail now).values).left ≤ row.left := by
  have hnew : (row.set (Transition.completed .completed detail now).values).left = 0 :=
    if_pos (.inl rfl)
  rw [hnew]
  exact hok.left_nonneg

theorem sum_filter_waiting {rows : List RequestRow}
    (hrows : ∀ row ∈ rows, row.left =
      if row.waiting = true then row.maxAttempts - row.attemptCount else 0) :
    (rows.map RequestRow.left).sum =
      ((rows.filter RequestRow.waiting).map fun row => row.maxAttempts - row.attemptCount).sum := by
  induction rows with
  | nil => rfl
  | cons row rows ih =>
    have hrest := ih fun row' hrow' => hrows row' (List.mem_cons_of_mem _ hrow')
    have hfirst := hrows row List.mem_cons_self
    rw [List.map_cons, List.sum_cons, List.filter_cons, hfirst, hrest]
    split
    · rw [List.map_cons, List.sum_cons]
    · rw [zero_add]

theorem Database.NoneRunning.left_eq {db : Database} (hnone : db.NoneRunning)
    (hok : ∀ row ∈ db.requests, row.Ok) : db.left = db.waitingBudget := by
  apply sum_filter_waiting
  intro row hrow
  have hrun : row.status ≠ AutomationStatus.running.value :=
    fun hst => hnone row.requestId ⟨row, row?_of_mem hrow, hst⟩
  rcases (hok row hrow).status_cases with hwait | hst | hst
  · have hopen : ¬ (row.status = AutomationStatus.completed.value ∨
        row.status = AutomationStatus.deadLetter.value) := by
      simp only [RequestRow.waiting, Bool.or_eq_true, decide_eq_true_eq] at hwait
      rcases hwait with hst | hst <;> simp [hst]
    rw [RequestRow.left, if_neg hopen, if_pos hwait]
  · exact absurd hst hrun
  · have hdone : row.waiting = false := by
      rcases hst with hst | hst <;> simp [RequestRow.waiting, hst]
    rw [RequestRow.left, if_pos hst, hdone]
    rfl

section Steps
variable {T : Type}

/-- The step commits a claim. -/
def starts (ev : Event T) : Bool :=
  match markOf ev with
  | some (_, .start) => true
  | _ => false

/-- The step submits nothing and replays nothing. -/
def NoNewWork (ev : Event T) : Prop :=
  ∀ id, markOf ev ≠ some (id, .enqueue) ∧ markOf ev ≠ some (id, .requeue)

variable [JsonCodec] [DecidableEq T] {h : List (Event T)} {s s' : System T} {ev : Event T}

/-- Every step but a submission and a replay keeps the attempts that are left, and a claim uses
one of them. -/
theorem left_step (hr : Runs h s) (hs : Step s ev s') (hnew : NoNewWork ev) :
    s'.shared.db.left + (if starts ev then 1 else 0) ≤ s.shared.db.left := by
  cases ev with
  | start t call =>
    rw [hs.start_shared]
    exact (add_zero _).le
  | stop t call reply =>
    rw [hs.stop_shared]
    exact (add_zero _).le
  | disturb =>
    rw [show s'.shared.db = s.shared.db from hs.disturb_shared]
    exact (add_zero _).le
  | did t c e r =>
    have hc := change_of_step (hr.follows.1.allowed hs) hs
    have hx := hr.follows.2
    have ok : ∀ {id row}, s.shared.db.row? id = some row → row.Ok := hr.row_ok
    rw [starts]
    unfold NoNewWork at hnew
    generalize markOf (.did t c e r : Event T) = mark at hc hnew
    generalize s'.shared.db = db' at hc ⊢
    generalize (lifecycle.phase h t).next e r = ph at hc
    cases hc with
    | quiet => exact (add_zero _).le
    | execute succeeded hph => exact (add_zero _).le
    | @enqueue db' id now request hsub => exact absurd rfl (hnew id).1
    | @requeue id now row hrow hdead => exact absurd rfl (hnew id).2
    | start hrow hel =>
      rw [left_move hrow, left_started hel]
      simp only [if_true]
      omega
    | @settle id detail row clock delay nextAttemptAt hph hrow hnext =>
      have hrun : row.status = AutomationStatus.running.value := by
        apply hx.running (t := t) ?_ hrow
        rcases hph with hph | hph <;> rw [hph] <;> rfl
      have hleft := left_settled (ok hrow) hrun detail clock.isoformat nextAttemptAt
      rw [left_move hrow]
      simp only [Bool.false_eq_true, if_false]
      omega
    | @finish id detail now hph =>
      obtain ⟨row, hrow, -⟩ := hx.marked t id (by rw [hph]; rfl)
      have hleft := left_completed (ok hrow) detail now
      rw [left_move hrow]
      simp only [Bool.false_eq_true, if_false]
      omega

theorem left_steps {evs : List (Event T)} (hr : Runs h s) (hl : Steps s evs s')
    (hnew : ∀ ev ∈ evs, NoNewWork ev) :
    s'.shared.db.left + evs.countP starts ≤ s.shared.db.left := by
  induction hl with
  | refl => exact (add_zero _).le
  | @step evs s' s'' ev hl hs ih =>
    have hbefore := ih fun ev' hev' => hnew ev' (List.mem_cons_of_mem _ hev')
    have hstep := left_step (hr.append hl) hs (hnew ev List.mem_cons_self)
    rw [List.countP_cons]
    push_cast
    omega

theorem Runs.left_nonneg (hr : Runs h s) : 0 ≤ s.shared.db.left := by
  apply List.sum_nonneg
  intro n hn
  obtain ⟨row, hrow, rfl⟩ := List.mem_map.mp hn
  exact (hr.row_ok (Database.row?_of_mem hrow)).left_nonneg

end Steps

section Claimants
variable {T : Type} {h evs : List (Event T)} {t : T}

def ranTrue : Event T → Bool
  | .stop _ (.runOnce _) (.ran (.ok true)) => true
  | _ => false

def Progress.Claimed (ph : Progress) : Prop := (∃ id, ph = .holding id) ∨ ph = .settled

theorem Progress.claimed_before {ph : Progress} {c : Choice} {e : Eff} {r : e.Res}
    (hal : ph.allows e) (hnot : starts (.did t c e r : Event T) = false)
    (hc : (ph.next e r).Claimed) : ph.Claimed := by
  cases e with
  | transaction op =>
    cases op with
    | claimNext now =>
      rcases r with exc | _ | ⟨id, request⟩
      · exact hc
      · simp [Progress.Claimed, Progress.next] at hc
      · cases hnot
    | claim id now =>
      rcases r with exc | _ | ⟨id, request⟩
      · exact hc
      · exact hc
      · cases hnot
    | failOrRetry id detail delay => exact .inl ⟨id, hal⟩
    | updateStatus id status detail now => exact .inl ⟨id, hal⟩
    | _ => exact hc
  | _ => exact hc

theorem Progress.claimed_after {ph : Progress} {e : Eff} {r : e.Res} (hal : ph.allows e)
    (hc : ph.Claimed) : (ph.next e r).Claimed := by
  have hsearch : ph ≠ .searching := by
    rintro rfl
    simp [Progress.Claimed] at hc
  cases e with
  | transaction op =>
    cases op with
    | claimNext now => exact absurd hal hsearch
    | claim id now => exact absurd hal hsearch
    | failOrRetry id detail delay =>
      cases r with
      | error exc => exact hc
      | ok _ => exact .inr rfl
    | updateStatus id status detail now =>
      cases r with
      | error exc => exact hc
      | ok _ => exact .inr rfl
    | _ => exact hc
  | _ => exact hc

variable [DecidableEq T]

/-- The processes that have claimed a row in the call they are in. -/
def claimants : List (Event T) → Finset T
  | [] => ∅
  | .did t c e r :: evs =>
    if starts (.did t c e r : Event T) = true then insert t (claimants evs) else claimants evs
  | .stop t _ _ :: evs => (claimants evs).erase t
  | _ :: evs => claimants evs

variable [JsonCodec] {s s' : System T}

def System.Idle (s : System T) : Prop := ∀ t, ¬ s.Working t

theorem Runs.outside (hr : Runs h s) (hidle : ¬ s.Working t) : progress.phase h t = .outside := by
  by_contra hph
  exact hidle (hr.working hph)

theorem mem_claimants (hr : Runs h s) (hidle : s.Idle) (hl : Steps s evs s')
    (hc : (progress.phase (evs ++ h) t).Claimed) : t ∈ claimants evs := by
  induction hl generalizing t with
  | refl =>
    rw [List.nil_append, hr.outside (hidle t)] at hc
    simp [Progress.Claimed] at hc
  | @step evs s' s'' ev hl hs ih =>
    cases ev with
    | start t' call =>
      rw [List.cons_append, progress.phase_start] at hc
      by_cases ht : t = t'
      · subst ht
        rw [Function.update_self] at hc
        cases call <;> simp [Progress.Claimed, progress] at hc
      · rw [Function.update_of_ne ht] at hc
        exact ih hc
    | did t' c e r =>
      have hal := (Runs.progresses (hr.append hl)).1.allowed hs
      rw [List.cons_append, progress.phase_did] at hc
      rw [claimants]
      by_cases ht : t = t'
      · subst ht
        rw [Function.update_self] at hc
        split
        · exact Finset.mem_insert_self t _
        · next hnot => exact ih (Progress.claimed_before hal (by simpa using hnot) hc)
      · rw [Function.update_of_ne ht] at hc
        split
        · exact Finset.mem_insert_of_mem (ih hc)
        · exact ih hc
    | stop t' call reply =>
      rw [List.cons_append, progress.phase_stop] at hc
      by_cases ht : t = t'
      · subst ht
        rw [Function.update_self] at hc
        simp [Progress.Claimed, progress] at hc
      · rw [Function.update_of_ne ht] at hc
        exact Finset.mem_erase.mpr ⟨ht, ih hc⟩
    | disturb => exact ih hc

theorem ranTrue_claimant {call : Call} {reply : Reply} {s'' : System T} (hr : Runs h s)
    (hidle : s.Idle) (hl : Steps s evs s') (hs : Step s' (.stop t call reply) s'')
    (hret : ranTrue (.stop t call reply : Event T) = true) : t ∈ claimants evs := by
  have hend : progress.wp (.ret reply) (Progress.Ends call) (progress.phase (evs ++ h) t) := by
    cases hs with
    | stop _ hrun => exact ((Runs.progresses (hr.append hl)).1 t).2 _ _ hrun
  unfold ranTrue at hret
  split at hret
  · next heq =>
    cases heq
    exact mem_claimants hr hidle hl (.inr hend)
  · cases hret

theorem ranTrue_le_starts (hr : Runs h s) (hidle : s.Idle) (hl : Steps s evs s') :
    evs.countP ranTrue + (claimants evs).card ≤ evs.countP starts := by
  induction hl with
  | refl => exact le_rfl
  | @step evs s' s'' ev hl hs ih =>
    rw [List.countP_cons, List.countP_cons]
    cases ev with
    | did t c e r =>
      have hcard := Finset.card_insert_le t (claimants evs)
      rw [claimants, if_neg (by simp [ranTrue])]
      split <;> omega
    | stop t call reply =>
      have hle := Finset.card_erase_le (s := claimants evs) (a := t)
      rw [claimants]
      cases hret : ranTrue (.stop t call reply : Event T) with
      | false =>
        simp only [Bool.false_eq_true, if_false]
        omega
      | true =>
        have hmem := ranTrue_claimant hr hidle hl hs hret
        have hcard := Finset.card_erase_add_one hmem
        simp only [if_true]
        omega
    | start t call =>
      simp only [ranTrue, claimants, Bool.false_eq_true, if_false]
      omega
    | disturb =>
      simp only [ranTrue, claimants, Bool.false_eq_true, if_false]
      omega

theorem ranTrue_le_left (hr : Runs h s) (hidle : s.Idle) (hl : Steps s evs s')
    (hnew : ∀ ev ∈ evs, NoNewWork ev) : (evs.countP ranTrue : ℤ) ≤ s.shared.db.left := by
  have hstarts := ranTrue_le_starts hr hidle hl
  have hleft := left_steps hr hl hnew
  have hnonneg := Runs.left_nonneg (hr.append hl)
  omega

end Claimants

section Stranding
variable {T : Type} [DecidableEq T] [JsonCodec] {h evs : List (Event T)} {s s' : System T}

/-- The steps from a state, each of which meets the condition. -/
abbrev StepsWithin (ok : List (Event T) → System T → Event T → System T → Prop) (s : System T)
    (evs : List (Event T)) (s' : System T) : Prop :=
  Interleaving.RunsWithin machine (· = s) ok evs s'

theorem Runs.unstranded (hr : Runs h s) {t : T} (hidle : ¬ s.Working t) (id : String) :
    exits.phase h t ≠ .stranded id := by
  intro hph
  have hold : holding h t = some id := by
    rw [← (Runs.leaves hr).2 t, hph]
    rfl
  have hprogress := ((Runs.progresses hr).2 t id).mpr hold
  rw [hr.outside hidle] at hprogress
  cases hprogress

theorem lost_of_stranded {t : T} {id : String} {call : Call} {reply : Reply} (hr : Runs h s)
    (hs : Step s (.stop t call reply) s') (hph : exits.phase h t = .stranded id) :
    Lost (.stop t call reply :: h) id := by
  have hold : holding h t = some id := by
    rw [← (Runs.leaves hr).2 t, hph]
    rfl
  exact .inl ⟨hold, stop_holding hr hs hold⟩

theorem unlost_steps (hr : Runs h s) (hne : ∀ t id, exits.phase h t ≠ .stranded id)
    (hw : StepsWithin (fun evs s ev _ => Representable (evs ++ h) s ev) s evs s') :
    (∀ t id, exits.phase (evs ++ h) t ≠ .stranded id) ∧ ∀ id, Lost (evs ++ h) id → Lost h id := by
  induction hw with
  | init heq => exact ⟨hne, fun _ => id⟩
  | @step evs s' s'' ev hw hs hok ih =>
    obtain ⟨hne', hlost⟩ := ih
    have hr' := hr.append hw.runs.steps
    refine ⟨unstranded_step hr' hs hok hne', ?_⟩
    intro id hnow
    cases ev with
    | stop t call reply =>
      have hfree : holding (evs ++ h) t = none := stop_unstranded hr' hs (hne' t)
      rcases hnow with ⟨hold, -⟩ | hnow
      · cases hfree.symm.trans hold
      · exact hlost id hnow
    | _ => exact hlost id hnow

theorem stranded_steps (hr : Runs h s) (hl : Steps s evs s') :
    StepsWithin (fun evs s ev _ => Representable (evs ++ h) s ev) s evs s' ∨
      (∃ t id, exits.phase (evs ++ h) t = .stranded id) ∨ ∃ id, Lost (evs ++ h) id := by
  induction hl with
  | refl => exact .inl (.init rfl)
  | @step evs s' s'' ev hl hs ih =>
    have hr' := hr.append hl
    rcases ih with hw | ⟨t, id, hph⟩ | ⟨id, hlost⟩
    · by_cases hok : Representable (evs ++ h) s' ev
      · exact .inl (hw.step hs hok)
      · cases ev with
        | did t c e r =>
          obtain ⟨id, hph⟩ := next_stranded hr' hs hok
          refine .inr (.inl ⟨t, id, ?_⟩)
          rw [List.cons_append, exits.phase_did, Function.update_self]
          exact hph
        | _ => exact absurd trivial hok
    · cases ev with
      | start t' call =>
        have ht : t ≠ t' := by
          rintro rfl
          have hidle : ¬ System.Working s' t := by
            rintro ⟨worker, p, hp⟩
            cases hs with
            | start _ _ hnone => simp [hnone] at hp
          exact Runs.unstranded hr' hidle id hph
        refine .inr (.inl ⟨t, id, ?_⟩)
        rw [List.cons_append, exits.phase_start, Function.update_of_ne ht, hph]
      | did t' c e r =>
        refine .inr (.inl ⟨t, id, ?_⟩)
        rw [List.cons_append, exits.phase_did]
        by_cases ht : t = t'
        · subst ht
          have hal := (Runs.leaves hr').1.allowed hs
          rw [hph] at hal ⊢
          rw [Function.update_self]
          exact Exit.stranded_next hal
        · rw [Function.update_of_ne ht, hph]
      | stop t' call reply =>
        by_cases ht : t = t'
        · subst ht
          exact .inr (.inr ⟨id, lost_of_stranded hr' hs hph⟩)
        · refine .inr (.inl ⟨t, id, ?_⟩)
          rw [List.cons_append, exits.phase_stop, Function.update_of_ne ht, hph]
      | disturb => exact .inr (.inl ⟨t, id, hph⟩)
    · exact .inr (.inr ⟨id, lost_cons hlost ev⟩)

/-- From one quiet moment to the next: no row is left RUNNING exactly if all numbers could be
represented. -/
theorem noneRunning_iff (hr : Runs h s) (hidle : s.Idle) (hnone : s.shared.db.NoneRunning)
    (hl : Steps s evs s') (hidle' : s'.Idle) : s'.shared.db.NoneRunning ↔
      StepsWithin (fun evs s ev _ => Representable (evs ++ h) s ev) s evs s' := by
  have hr' := hr.append hl
  constructor
  · intro hnone'
    rcases stranded_steps hr hl with hw | ⟨t, id, hph⟩ | ⟨id, hlost⟩
    · exact hw
    · exact absurd hph (Runs.unstranded hr' (hidle' t) id)
    · exact absurd (Runs.lost hr' hlost).1 (hnone' id)
  · intro hw id hrun
    rcases Runs.held_or_lost hr' hrun with ⟨t, hold⟩ | hlost
    · have hprogress := ((Runs.progresses hr').2 t id).mpr hold
      rw [Runs.outside hr' (hidle' t)] at hprogress
      cases hprogress
    · have hbefore := (unlost_steps hr (fun t => hr.unstranded (hidle t)) hw).2 id hlost
      exact hnone id (hr.lost hbefore).1

end Stranding

section Searching
variable {T : Type} {h mid : List (Event T)} {t : T} {c : Choice} {e : Eff} {r : e.Res}

theorem Progress.claimed_of_starts {ph : Progress}
    (hstart : starts (.did t c e r : Event T) = true) : (ph.next e r).Claimed := by
  cases e with
  | transaction op =>
    cases op with
    | claimNext now =>
      rcases r with exc | _ | ⟨id, request⟩
      · cases hstart
      · cases hstart
      · exact .inl ⟨id, rfl⟩
    | claim id now =>
      rcases r with exc | _ | ⟨id, request⟩
      · cases hstart
      · cases hstart
      · exact .inl ⟨id, rfl⟩
    | _ => cases r <;> cases hstart
  | _ => cases hstart

theorem Progress.searching_of_starts {ph : Progress} (hal : ph.allows e)
    (hstart : starts (.did t c e r : Event T) = true) : ph = .searching := by
  cases e with
  | transaction op =>
    cases op with
    | claimNext now => exact hal
    | claim id now => exact hal
    | _ => cases r <;> cases hstart
  | _ => cases hstart

theorem Progress.drained_before {ph : Progress} {now : String} (hd : ph.next e r = .drained now) :
    ph = .drained now ∨
      (.did t c e r : Event T) = .did t c (.transaction (.claimNext now)) (.ok none) := by
  cases e with
  | transaction op =>
    cases op with
    | claimNext now' =>
      rcases r with exc | _ | ⟨id, request⟩
      · exact .inl hd
      · cases hd
        exact .inr rfl
      · cases hd
    | claim id now' =>
      rcases r with exc | _ | ⟨id, request⟩
      · exact .inl hd
      · exact .inl hd
      · cases hd
    | failOrRetry id detail delay =>
      cases r with
      | error exc => exact .inl hd
      | ok _ => cases hd
    | updateStatus id status detail now' =>
      cases r with
      | error exc => exact .inl hd
      | ok _ => cases hd
    | _ => exact .inl hd
  | _ => exact .inl hd

variable [DecidableEq T] [JsonCodec] {s s' : System T}

theorem same_db (hr : Runs h s) (hs : Step s (.did t c e r) s')
    (hnew : NoNewWork (.did t c e r : Event T)) (hstart : starts (.did t c e r : Event T) = false)
    (hnot : ¬ (progress.phase h t).Claimed) : s'.shared.db = s.shared.db := by
  have hnone : ∀ id, (lifecycle.phase h t).holding ≠ some id := by
    intro id hold
    exact hnot (.inl ⟨id, ((Runs.progresses hr).2 t id).mpr hold⟩)
  have hc := change_of_step (hr.follows.1.allowed hs) hs
  rw [starts] at hstart
  unfold NoNewWork at hnew
  generalize markOf (.did t c e r : Event T) = mark at hc hnew hstart
  generalize s'.shared.db = db' at hc ⊢
  generalize (lifecycle.phase h t).next e r = ph at hc
  cases hc with
  | quiet => rfl
  | execute succeeded hph => rfl
  | @enqueue db' id now request hsub => exact absurd rfl (hnew id).1
  | @requeue id now row hrow hdead => exact absurd rfl (hnew id).2
  | start hrow hel => cases hstart
  | @settle id detail row clock delay nextAttemptAt hph hrow hnext =>
    refine absurd ?_ (hnone id)
    rcases hph with hph | hph <;> rw [hph] <;> rfl
  | @finish id detail now hph =>
    refine absurd ?_ (hnone id)
    rw [hph]
    rfl

theorem same_db_of_outside (hr : Runs h s) (hs : Step s (.did t c e r) s')
    (hnew : NoNewWork (.did t c e r : Event T)) (hout : progress.phase h t = .outside) :
    s'.shared.db = s.shared.db := by
  have hal := (Runs.progresses hr).1.allowed hs
  rw [hout] at hal
  apply same_db hr hs hnew
  · cases hstart : starts (.did t c e r : Event T) with
    | false => rfl
    | true => cases Progress.searching_of_starts hal hstart
  · simp [hout, Progress.Claimed]

omit [DecidableEq T] [JsonCodec] in
theorem System.Working.not_idle (hw : s.Working t) : s.running t ≠ none := by
  obtain ⟨worker, p, hp⟩ := hw
  simp [hp]

theorem System.Working.before {ev : Event T} (hs : Step s ev s') (hw : s'.Working t) :
    s.Working t ∨ ∃ worker, ev = .start t (.runOnce worker) := by
  obtain ⟨worker, p, hp⟩ := hw
  cases hs with
  | start t' call hidle =>
    by_cases ht : t = t'
    · subst ht
      obtain ⟨rfl, -⟩ : call = .runOnce worker ∧ _ := by simpa using hp
      exact .inr ⟨worker, rfl⟩
    · simp only [Function.update_of_ne ht] at hp
      exact .inl ⟨worker, p, hp⟩
  | @did t' c call e k hrun =>
    by_cases ht : t = t'
    · subst ht
      obtain ⟨rfl, -⟩ : call = .runOnce worker ∧ _ := by simpa using hp
      exact .inl ⟨worker, _, hrun⟩
    · simp only [Function.update_of_ne ht] at hp
      exact .inl ⟨worker, p, hp⟩
  | stop t' hrun =>
    by_cases ht : t = t'
    · subst ht
      simp at hp
    · simp only [Function.update_of_ne ht] at hp
      exact .inl ⟨worker, p, hp⟩
  | disturb shared hd => exact .inl ⟨worker, p, hp⟩

/-- What is known of a `run_once` that is alone, as long as it has claimed nothing. -/
def Searched (db : Database) (mid : List (Event T)) (s' : System T) (t : T)
    (ph : Progress) : Prop :=
  ph.Claimed ∨ s'.shared.db = db ∧ ∀ now, ph = .drained now →
    ∃ c, .did t c (.transaction (.claimNext now)) (.ok none) ∈ mid ∧
      (c.connection.locked = [] → ∀ row ∈ db.requests, row.eligible now = false)

omit [DecidableEq T] [JsonCodec] in
theorem Searched.keep {db : Database} {ph : Progress} {ev : Event T}
    (hbefore : Searched db mid s t ph) (hdb : s'.shared.db = s.shared.db) :
    Searched db (ev :: mid) s' t ph := by
  rcases hbefore with hc | ⟨hsame, hdrained⟩
  · exact .inl hc
  · refine .inr ⟨hdb.trans hsame, ?_⟩
    intro now hph
    obtain ⟨c, hmem, hnone⟩ := hdrained now hph
    exact ⟨c, List.mem_cons_of_mem _ hmem, hnone⟩

theorem Searched.did {db : Database} {ph : Progress} (hr : Runs h s) (hs : Step s (.did t c e r) s')
    (hnew : NoNewWork (.did t c e r : Event T)) (hph : progress.phase h t = ph)
    (hbefore : Searched db mid s t ph) : Searched db (.did t c e r :: mid) s' t (ph.next e r) := by
  subst hph
  have hal := (Runs.progresses hr).1.allowed hs
  by_cases hc : (progress.phase h t).Claimed
  · exact .inl (Progress.claimed_after hal hc)
  · obtain ⟨hdb, hdrained⟩ := hbefore.resolve_left hc
    cases hstart : starts (.did t c e r : Event T) with
    | true => exact .inl (Progress.claimed_of_starts hstart)
    | false =>
      refine .inr ⟨(same_db hr hs hnew hstart hc).trans hdb, ?_⟩
      intro now hnow
      rcases Progress.drained_before (t := t) (c := c) hnow with hph | hev
      · obtain ⟨c', hmem, hnone⟩ := hdrained now hph
        exact ⟨c', List.mem_cons_of_mem _ hmem, hnone⟩
      · cases hev
        refine ⟨c, List.mem_cons_self, ?_⟩
        intro hlocks
        have hcommit := step_commit hs
        rw [← hdb]
        exact claimNextTx_none hlocks (Transaction.Tx.exec_of_commit hcommit)

theorem search_steps {worker : AutomationWorker} {s₂ : System T} (hr : Runs h s) (hidle : s.Idle)
    (hs : Step s (.start t (.runOnce worker)) s₂) (hl : Steps s₂ mid s')
    (halone : ∀ t' worker', .start t' (.runOnce worker') ∉ mid) (hnew : ∀ ev ∈ mid, NoNewWork ev) :
    (∀ t', s'.Working t' → t' = t) ∧ (s'.Working t → Searched s.shared.db mid s' t
      (progress.phase (mid ++ .start t (.runOnce worker) :: h) t)) := by
  induction hl with
  | refl =>
    refine ⟨?_, ?_⟩
    · intro t' hw
      rcases System.Working.before hs hw with hw' | ⟨worker', hev⟩
      · exact absurd hw' (hidle t')
      · cases hev
        rfl
    · intro _
      refine .inr ⟨by rw [hs.start_shared], ?_⟩
      intro now hnow
      rw [List.nil_append, progress.phase_start, Function.update_self] at hnow
      cases hnow
  | @step mid s' s'' ev hl hs' ih =>
    obtain ⟨honly, hsearch⟩ := ih (fun t' worker' hmem => halone t' worker'
      (List.mem_cons_of_mem _ hmem)) fun ev' hev' => hnew ev' (List.mem_cons_of_mem _ hev')
    have hr' := (hr.step hs).append hl
    have before : ∀ t', System.Working s'' t' → System.Working s' t' := by
      intro t' hw
      rcases System.Working.before hs' hw with hw' | ⟨worker', rfl⟩
      · exact hw'
      · exact absurd List.mem_cons_self (halone t' worker')
    refine ⟨fun t' hw => honly t' (before t' hw), ?_⟩
    intro hw
    have hsearch := hsearch (before t hw)
    cases ev with
    | start t' call =>
      have ht : t ≠ t' := by
        rintro rfl
        cases hs' with
        | start _ _ hnone => exact (before t hw).not_idle hnone
      rw [List.cons_append, progress.phase_start, Function.update_of_ne ht]
      exact hsearch.keep (congrArg Shared.db hs'.start_shared)
    | did t' c e r =>
      rw [List.cons_append, progress.phase_did]
      by_cases ht : t = t'
      · subst ht
        rw [Function.update_self]
        exact hsearch.did hr' hs' (hnew _ List.mem_cons_self) rfl
      · rw [Function.update_of_ne ht]
        have hout := Runs.outside hr' fun hw' => ht (honly t' hw').symm
        exact hsearch.keep (same_db_of_outside hr' hs' (hnew _ List.mem_cons_self) hout)
    | stop t' call reply =>
      have ht : t ≠ t' := by
        rintro rfl
        cases hs' with
        | stop _ hrun => exact hw.not_idle (Function.update_self ..)
      rw [List.cons_append, progress.phase_stop, Function.update_of_ne ht]
      exact hsearch.keep (congrArg Shared.db hs'.stop_shared)
    | disturb => exact hsearch.keep hs'.disturb_shared

/-- No `run_once` starts, and the fallback looks for rows that are due at `now`. Nobody is there
to lock a row. -/
def undisturbed (now : String) : Event T → Bool
  | .start _ (.runOnce _) => false
  | .did _ c (.transaction (.claimNext now')) _ => now' = now && c.connection.locked.isEmpty
  | _ => true

/-- From `s` to `s'`, a `run_once` of `t` is alone and returns False, after it has looked for rows
that are due at `now`. -/
structure FoundNothing (s : System T) (mid : List (Event T)) (s' : System T) (t : T)
    (now : String) : Prop where
  idle : s.Idle
  course : ∃ worker s₂ s₃, Step s (.start t (.runOnce worker)) s₂ ∧ Steps s₂ mid s₃ ∧
    Step s₃ (.stop t (.runOnce worker) (.ran (.ok false))) s'
  alone : ∀ ev ∈ mid, undisturbed now ev = true

/-- A `run_once` that is alone and returns False found the tables as it leaves them, and no row
that is eligible. -/
theorem FoundNothing.not_eligible {now : String} (hr : Runs h s) (hf : FoundNothing s mid s' t now)
    (hnew : ∀ ev ∈ mid, NoNewWork ev) :
    s'.shared.db = s.shared.db ∧ ∀ row ∈ s.shared.db.requests, row.eligible now = false := by
  obtain ⟨worker, s₂, s₃, hstart, hmid, hstop⟩ := hf.course
  have hno : ∀ t' worker', .start t' (.runOnce worker') ∉ mid := by
    intro t' worker' hmem
    cases hf.alone _ hmem
  obtain ⟨-, hsearch⟩ := search_steps hr hf.idle hstart hmid hno hnew
  have hr₃ := (hr.step hstart).append hmid
  have hrun : s₃.running t = some (.runOnce worker, .ret (.ran (.ok false))) := by
    cases hstop with
    | stop _ hrun => exact hrun
  obtain ⟨now', hnow'⟩ : ∃ now', progress.phase (mid ++ .start t (.runOnce worker) :: h) t =
    .drained now' := ((Runs.progresses hr₃).1 t).2 _ _ hrun
  rcases hsearch ⟨worker, _, hrun⟩ with hc | ⟨hdb, hdrained⟩
  · simp [hnow', Progress.Claimed] at hc
  · obtain ⟨c, hmem, hnone⟩ := hdrained now' hnow'
    obtain ⟨rfl, hlocks⟩ : now' = now ∧ c.connection.locked = [] := by
      simpa [undisturbed] using hf.alone _ hmem
    exact ⟨by rw [hstop.stop_shared, hdb], hnone hlocks⟩

end Searching

section Draining
variable {T : Type} [DecidableEq T] [JsonCodec] {h evs : List (Event T)} {s s₁ : System T}

def Database.DueBy (db : Database) (now : String) : Prop :=
  ∀ row ∈ db.requests, ∀ at' ∈ row.nextAttemptAt, at' ≤ now

instance (db : Database) (now : String) : Decidable (db.DueBy now) :=
  inferInstanceAs (Decidable (∀ row ∈ db.requests, ∀ at' ∈ row.nextAttemptAt, at' ≤ now))

def RequestRow.Done (row : RequestRow) : Prop :=
  row.status = AutomationStatus.completed.value ∨ row.status = AutomationStatus.deadLetter.value

instance (row : RequestRow) : Decidable row.Done := inferInstanceAs (Decidable (_ ∨ _))

omit [DecidableEq T] [JsonCodec] in
theorem RequestRow.Done.not_running {row : RequestRow} (hdone : row.Done) :
    row.status ≠ AutomationStatus.running.value := by
  rcases hdone with hst | hst <;> rw [hst] <;> decide

omit [DecidableEq T] [JsonCodec] in
theorem Database.DueBy.not_waiting {db : Database} {now : String} {row : RequestRow}
    (hdue : db.DueBy now) (hrow : row ∈ db.requests) (hnot : row.eligible now = false) :
    row.waiting = false := by
  rw [RequestRow.eligible_eq, Bool.and_eq_false_iff] at hnot
  apply hnot.resolve_right
  cases hnext : row.nextAttemptAt with
  | none => simp
  | some at' => simp [decide_eq_true (hdue row hrow at' hnext)]

end Draining

section Sample

instance {T : Type} (ev : Event T) : Decidable (NoNewWork ev) :=
  match h : markOf ev with
  | some (id, .enqueue) => isFalse fun hnew => (hnew id).1 h
  | some (id, .requeue) => isFalse fun hnew => (hnew id).2 h
  | none | some (_, .start) | some (_, .execute _) | some (_, .settle) | some (_, .finish) =>
    isTrue fun id => by simp [h]

def Reply.ran? : Reply → Option Bool
  | .ran (.ok b) => some b
  | _ => none

theorem Reply.eq_of_ran? {reply : Reply} {b : Bool} (h : reply.ran? = some b) :
    reply = .ran (.ok b) := by
  unfold Reply.ran? at h
  split at h <;> cases h
  rfl

def queuedRun (request : AutomationRequest) : List (Event ℕ) × System ℕ :=
  inTurn [(0, fun _ => .calm, .submit ⟨some .database⟩ request)]

/-- A request has been accepted, and its first attempt fails. -/
def refusedTrace (request : AutomationRequest) (worker : AutomationWorker) : List (Event ℕ) :=
  letI := emptyPayload
  (queuedRun request).2.traceAlone 1 refusing (.runOnce worker) []

def refusedRun (request : AutomationRequest) (worker : AutomationWorker) : System ℕ :=
  letI := emptyPayload
  (queuedRun request).2.alone 1 refusing (.runOnce worker)

/-- Another worker looks for work after that. -/
def searchTrace (request : AutomationRequest) (worker : AutomationWorker) : List (Event ℕ) :=
  letI := emptyPayload
  Interleaving.trace World.answer (fun w _ => w.choices 0) 2 (Call.runOnce sampleWorker).code
    ((refusedRun request worker).world 2 fun _ => .calm) []

def emptyRun (request : AutomationRequest) (worker : AutomationWorker) : System ℕ :=
  letI := emptyPayload
  (refusedRun request worker).alone 2 (fun _ => .calm) (.runOnce sampleWorker)

theorem System.idle_of_running {s : System ℕ} (hs : ∀ t, s.running t = none) : s.Idle := by
  rintro t ⟨worker, p, hp⟩
  rw [hs t] at hp
  cases hp

theorem foundNothing_emptyRun {request : AutomationRequest} {worker : AutomationWorker}
    (hfalse : letI := emptyPayload
      Reply.ran? ((Call.runOnce sampleWorker).code.exec World.answer
        ((refusedRun request worker).world 2 fun _ => .calm)).1 = some false)
    (halone : ∀ ev ∈ searchTrace request worker,
      undisturbed Choice.calm.utc.isoformat ev = true) : letI := emptyPayload
    FoundNothing (refusedRun request worker) (searchTrace request worker)
      (emptyRun request worker) 2 Choice.calm.utc.isoformat := by
  let _ := emptyPayload
  obtain ⟨s₂, s₃, hstart, hmid, hstop⟩ := System.alone_course (s := refusedRun request worker)
    (t := 2) rfl (fun _ => .calm) (.runOnce sampleWorker)
  rw [Reply.eq_of_ran? hfalse] at hstop
  exact ⟨System.idle_of_running fun _ => rfl, ⟨sampleWorker, s₂, s₃, hstart, hmid, hstop⟩, halone⟩

theorem noneRunning_of_forall {db : Database}
    (hall : ∀ row ∈ db.requests, row.status ≠ AutomationStatus.running.value) :
    db.NoneRunning := by
  rintro id ⟨row, hrow, hst⟩
  exact hall row (Database.row?_mem hrow) hst

/-- The first retry is due in more than thirty thousand years. -/
def patient : AutomationWorker :=
  { sampleWorker with retryDelaySeconds := 10 ^ 12, maxRetryDelaySeconds := 10 ^ 12 }

def hints {T : Type} : Event T → List Int
  | .did _ _ (.execute ..) r => (hintOf r).toList
  | _ => []

end Sample

end Orchestrator
