import Orchestrator.Exclusion
import Orchestrator.Readings
import Orchestrator.Settlement

/-!
# How far a `run_once` has come

A `run_once` claims one row at most, and settles what it claimed before it returns True. It
returns False after a `claim_next` that found nothing. After its claim it raises only where a
number is out of range.
-/

namespace Orchestrator

open Interaction Discipline AutomationRepository Library
set_option autoImplicit false

/-- What Python raises for a number or a date that cannot be represented. -/
def PyExc.OutOfRange (exc : PyExc) : Prop :=
  (∃ text, exc = .overflowError text) ∨ ∃ e, exc = .ofFloat e

theorem Instant.addSeconds_error {now : Instant} {seconds : Int} {exc : PyExc}
    (h : now.addSeconds seconds = .error exc) : exc.OutOfRange := by
  unfold addSeconds at h
  split at h
  · split at h <;> cases h
    exact .inl ⟨_, rfl⟩
  · cases h
    exact .inl ⟨_, rfl⟩

theorem RequestRow.nextAttempt_error {row : RequestRow} {now : Instant} {delay : Int} {exc : PyExc}
    (h : row.nextAttempt now delay = .error exc) : exc.OutOfRange :=
  Instant.addSeconds_error (addSeconds_of_nextAttempt_error h)

/-- How far the `run_once` of a process has come; other calls stay outside. -/
inductive Progress where
  | outside
  | searching
  | drained (now : String)
  | holding (requestId : String)
  | settled

namespace Progress

def allows (ph : Progress) : Eff → Prop
  | .transaction (.claim ..) | .transaction (.claimNext _) => ph = searching
  | .transaction (.failOrRetry id _ _) | .transaction (.updateStatus id ..) => ph = holding id
  | _ => True

/-- What the tables answer about a request that is held. -/
def admits : Progress → (e : Eff) → e.Res → Prop
  | holding id, .transaction (.get id'), r => id' = id →
    ∃ row result, r = .ok (some row) ∧ toResult row = .ok result
  | holding id, .transaction (.failOrRetry id' _ _), r => id' = id →
    r = .ok () ∨ ∃ exc, r = .error exc ∧ exc.OutOfRange
  | holding id, .transaction (.updateStatus id' _ _ _), r => id' = id → r = .ok ()
  | _, _, _ => True

def next : Progress → (e : Eff) → e.Res → Progress
  | _, .transaction (.claim ..), .ok (some (id, _)) => holding id
  | _, .transaction (.claimNext _), .ok (some (id, _)) => holding id
  | _, .transaction (.claimNext now), .ok none => drained now
  | _, .transaction (.failOrRetry ..), .ok _ => settled
  | _, .transaction (.updateStatus ..), .ok _ => settled
  | ph, _, _ => ph

def Ends : Call → Progress → Reply → Prop
  | .runOnce _, ph, .ran (.ok true) => ph = settled
  | .runOnce _, ph, .ran (.ok false) => ∃ now, ph = drained now
  | .runOnce _, ph, .ran (.error exc) => ∀ id, ph = holding id → exc.OutOfRange
  | .runOnce _, _, _ => False
  | _, _, _ => True

end Progress

def progress : Interleaving.Protocol Eff Eff.Res Call Progress where
  allowed := Progress.allows
  admits := Progress.admits
  next := Progress.next
  idle := .outside
  start
    | .runOnce _ => .searching
    | _ => .outside

theorem progress_ignores {k : Eff.Kind} (hk : k ≠ .works) : progress.Ignores (·.kind = k) := by
  rintro e rfl ph
  cases e with
  | execute => exact absurd rfl hk
  | transaction op => cases op <;> first | exact absurd rfl hk | exact ⟨trivial, fun _ => rfl⟩
  | _ => exact ⟨trivial, fun _ => rfl⟩

theorem progress_quiet : progress.Ignores (·.kind = .quiet) := progress_ignores (by decide)

theorem progress_plain : progress.Ignores Eff.Plain := ignores_plain progress_quiet

theorem progress_still : progress.Ignores Eff.Still := ignores_still progress_quiet

/-- After a search the process holds what was claimed, or has found nothing. -/
def AfterSearch (ph : Progress) : Except PyExc (Option (String × AutomationRequest)) → Prop
  | .ok (some (id, _)) => ph = .holding id
  | .ok none => ∃ now, ph = .drained now
  | .error _ => ph = .searching

theorem progress_claimNext : progress.wp claimNext.run AfterSearch .searching := by
  apply (neutral_utcNow progress_plain).wp_bind ?_ fun _ => rfl
  intro now
  refine ⟨rfl, ?_⟩
  intro r _
  rcases r with exc | _ | ⟨id, request⟩
  · rfl
  · exact ⟨now, rfl⟩
  · rfl

theorem progress_claim (id : String) : progress.wp (claim id).run
    (fun ph r => match r with
      | .ok (some (id, _)) => ph = .holding id
      | _ => ph = .searching) .searching := by
  apply (neutral_utcNow progress_plain).wp_bind ?_ fun _ => rfl
  intro now
  refine ⟨rfl, ?_⟩
  intro r _
  rcases r with exc | _ | ⟨id, request⟩ <;> rfl

namespace AutomationWorker

variable (worker : AutomationWorker)

theorem progress_claimWork : progress.wp worker.claimWork.run AfterSearch .searching := by
  apply (neutral_dispatcherOr progress_still _).wp_bind ?_ fun _ => rfl
  intro dispatcher
  cases dispatcher with
  | database => exact progress_claimNext
  | redis redisUrl queueName client =>
    apply (neutral_consume progress_still _).wp_bind ?_ fun _ => rfl
    intro message
    cases message with
    | none => exact progress_claimNext
    | some id =>
      simp only [wp_except_bind]
      apply progress.wp_mono (progress_claim id) ?_
      intro ph r hr
      rcases r with exc | _ | ⟨id, request⟩ <;> cases hr
      · rfl
      · exact progress_claimNext
      · rfl

/-- The exits of `run_once` after a claim. -/
def Settles (ph : Progress) : Except PyExc Unit → Prop
  | .ok _ => ph = .settled
  | .error exc => ∀ id, ph = .holding id → exc.OutOfRange

variable {id : String}

theorem progress_failOrRetry (detail : String) (delay : Int) :
    progress.wp (failOrRetry id detail delay).run Settles (.holding id) := by
  refine ⟨rfl, ?_⟩
  intro r hr
  rcases hr rfl with rfl | ⟨exc, rfl, hout⟩
  · rfl
  · exact fun _ _ => hout

theorem progress_complete (detail : String) :
    progress.wp (complete id detail).run Settles (.holding id) := by
  refine ⟨trivial, fun now _ => ⟨rfl, ?_⟩⟩
  intro r hr
  obtain rfl := hr rfl
  rfl

/-- The code keeps the request, and raises only where a number is out of range. -/
def Keeps {α : Type} (id : String) (x : Py α) : Prop :=
  progress.wp x.run (fun ph r => ph = .holding id ∧ ∀ exc, r = .error exc → exc.OutOfRange)
    (.holding id)

section Keeping
variable {α β : Type} {x : Py α}

theorem Keeps.bind {f : α → Py β} (hx : Keeps id x) (hf : ∀ a, Keeps id (f a)) :
    Keeps id (x >>= f) := by
  rw [Keeps, wp_except_bind]
  apply progress.wp_mono hx
  intro ph r hr
  obtain ⟨rfl, hout⟩ := hr
  cases r with
  | ok a => exact hf a
  | error exc =>
    refine ⟨rfl, ?_⟩
    intro exc' hexc
    cases hexc
    exact hout exc rfl

theorem Keeps.settle {f : α → Py Unit} (hx : Keeps id x)
    (hf : ∀ a, progress.wp (f a).run Settles (.holding id)) :
    progress.wp (x >>= f).run Settles (.holding id) := by
  rw [wp_except_bind]
  apply progress.wp_mono hx
  intro ph r hr
  obtain ⟨rfl, hout⟩ := hr
  cases r with
  | ok a => exact hf a
  | error exc => exact fun _ _ => hout exc rfl

theorem keeps_ask (e : Eff) (he : e.kind = .quiet) : Keeps id (Py.ask e) := by
  have hq := progress_quiet e he (.holding id)
  exact ⟨hq.1, fun r _ => ⟨hq.2 r, by simp⟩⟩

theorem keeps_ofFloat (x : Except FloatError α) : Keeps id (Py.ofFloat x) := by
  refine ⟨rfl, ?_⟩
  intro exc hexc
  cases x with
  | ok a => cases hexc
  | error e =>
    cases hexc
    exact .inr ⟨e, rfl⟩

theorem keeps_currentAttempt : Keeps id (currentAttempt id) := by
  have hget : progress.wp (AutomationRepository.get id).run
      (fun ph r => ph = .holding id ∧ ∃ result, r = .ok (some result)) (.holding id) := by
    rw [AutomationRepository.get, wp_except_bind, Py.wp_transaction]
    refine ⟨trivial, ?_⟩
    intro r hr
    obtain ⟨row, result, rfl, hres⟩ := hr rfl
    simp only [wp_except_bind, Py.wp_ofExcept, hres, wp_except_pure]
    exact ⟨rfl, result, rfl⟩
  rw [Keeps, currentAttempt, wp_except_bind]
  apply progress.wp_mono hget
  intro ph r hr
  obtain ⟨rfl, result, rfl⟩ := hr
  exact ⟨rfl, by simp⟩

theorem keeps_backoff (attempt : Int) : Keeps id (worker.backoff attempt) :=
  (keeps_ask .random rfl).bind fun _ => keeps_ofFloat _

end Keeping

variable {request : AutomationRequest}

theorem progress_rateLimited (text : String) (hint : Option Int) :
    progress.wp (worker.rateLimited id request text hint).run Settles (.holding id) := by
  apply keeps_currentAttempt.settle
  intro attempt
  cases hint with
  | none => exact (keeps_backoff worker attempt).settle fun delay => progress_failOrRetry text delay
  | some delay =>
    apply (keeps_ask .monotonic rfl).settle
    intro monotonic
    apply (keeps_ofFloat _).settle
    intro deadline
    apply (keeps_ask (.cooldownSet request.target deadline) rfl).settle
    exact fun _ => progress_failOrRetry text delay

theorem progress_executionFailed (exc : PyExc) :
    progress.wp (worker.executionFailed id exc).run Settles (.holding id) := by
  apply keeps_currentAttempt.settle
  intro attempt
  exact (keeps_backoff worker attempt).settle fun delay => progress_failOrRetry exc.str delay

theorem progress_runAdapter :
    progress.wp (worker.runAdapter id request).run Settles (.holding id) := by
  refine ⟨trivial, ?_⟩
  intro r _
  rcases r with exc | detail
  · cases exc with
    | retryableAdapterError text hint => exact progress_rateLimited worker text hint
    | _ => exact progress_executionFailed worker _
  · exact (keeps_ask (.cooldownPop request.target) rfl).settle fun _ => progress_complete detail

theorem progress_processClaimed :
    progress.wp (worker.processClaimed id request).run Settles (.holding id) := by
  apply (keeps_ask (.cooldownGet request.target) rfl).settle
  intro cooldown
  apply (keeps_ask .monotonic rfl).settle
  intro monotonic
  split
  · apply (keeps_ask .monotonic rfl).settle
    intro monotonic
    apply (keeps_ofFloat _).settle
    exact fun delay => progress_failOrRetry _ delay
  · exact progress_runAdapter worker

theorem progress_runOnce : progress.wp worker.runOnce.run
    (fun ph r => Progress.Ends (.runOnce worker) ph (.ran r)) .searching := by
  rw [runOnce, wp_except_bind]
  apply progress.wp_mono (progress_claimWork worker)
  intro ph r hr
  rcases r with exc | _ | ⟨id, request⟩
  · obtain rfl : ph = .searching := hr
    exact fun id hid => by cases hid
  · exact hr
  · obtain rfl : ph = .holding id := hr
    apply (wp_except_bind ..).mpr (progress.wp_mono (progress_processClaimed worker) ?_)
    intro ph r hr
    rcases r with exc | ⟨⟩ <;> exact hr

end AutomationWorker

theorem progress_code (call : Call) :
    progress.wp call.code (Progress.Ends call) (progress.start call) := by
  have submits : progress.Ignores (·.kind = .submits) := progress_ignores (by decide)
  cases call with
  | create id request =>
    have h := neutral_create progress_plain submits id request
    exact (wp_bind ..).mpr (progress.wp_mono (h _) fun _ _ _ => trivial)
  | submit service request =>
    have h := neutral_submit progress_plain submits service request
    exact (wp_bind ..).mpr (progress.wp_mono (h _) fun _ _ _ => trivial)
  | replayDeadLetter service id =>
    have h := neutral_replayDeadLetter progress_plain (progress_ignores (by decide)) service id
    exact (wp_bind ..).mpr (progress.wp_mono (h _) fun _ _ _ => trivial)
  | runOnce worker =>
    exact (wp_bind ..).mpr (progress.wp_mono worker.progress_runOnce fun _ _ hr => hr)

section Runs
variable [JsonCodec] {T : Type} [DecidableEq T] {h : List (Event T)} {s s' : System T}
variable {t : T} {c : Choice} {op : TransactionOp} {r : Except PyExc op.Result}

theorem step_commit (hs : Step s (.did t c (.transaction op) r) s') :
    (op.body c.connection c.utc).commit s.shared.db = (r, s'.shared.db) :=
  handle_commit hs.did_handle

theorem Runs.channel (hr : Runs h s) {id : String} {row : RequestRow}
    (hrow : s.shared.db.row? id = some row) :
    ∃ channel, ExecutionChannel.ofValue row.executionChannel = .ok channel := by
  have hall : ∀ id row, s.shared.db.row? id = some row →
      ∃ channel, ExecutionChannel.ofValue row.executionChannel = .ok channel := by
    apply hr.each_write (I := fun db => ∀ id row, db.row? id = some row →
      ∃ channel, ExecutionChannel.ofValue row.executionChannel = .ok channel)
    · intro id row hrow
      cases hrow
    · intro clock db op r db' _ hI hw
      have moved : ∀ id' tr id row, (db.move id' tr).row? id = some row →
          ∃ channel, ExecutionChannel.ofValue row.executionChannel = .ok channel := by
        intro id' tr id row hrow
        rw [Database.row?_move, Option.map_eq_some_iff] at hrow
        obtain ⟨old, hold, rfl⟩ := hrow
        have hchannel := hI id old hold
        split <;> exact hchannel
      cases hw with
      | nothing => exact hI
      | @inserted _ id' now request hsub =>
        intro id row hrow
        rcases hsub.row_cases hrow with ⟨-, rfl⟩ | ⟨-, hrow⟩
        · exact ⟨request.executionChannel, ExecutionChannel.ofValue_value _⟩
        · exact hI id row hrow
      | _ => exact moved _ _
  exact hall id row hrow

/-- The progress of a process and its lifecycle tell the same of what it holds. -/
def Agrees (h : List (Event T)) : Prop :=
  ∀ t id, progress.phase h t = .holding id ↔ holding h t = some id

theorem Runs.claimedRow {id : String} (hr : Runs h s) (hold : holding h t = some id) :
    ∃ row, ClaimedRow s.shared.db id row := by
  obtain ⟨row, hrow, hst⟩ := hr.follows.2.marked t id hold
  exact ⟨row, hrow, hst, hr.channel hrow⟩

theorem admits_of_claimedRow {e : Eff} {r : e.Res} {ph : Progress} (hs : Step s (.did t c e r) s')
    (hheld : ∀ id, ph = .holding id → ∃ row, ClaimedRow s.shared.db id row) :
    progress.admits ph e r := by
  cases ph with
  | holding id =>
    obtain ⟨row, hc⟩ := hheld id rfl
    cases e with
    | transaction op =>
      have hcommit := step_commit hs
      cases op with
      | get id' =>
        rintro rfl
        obtain ⟨result, hres, -⟩ := hc.result
        have hr : r = .ok (s.shared.db.row? id') := (congrArg Prod.fst hcommit).symm
        exact ⟨row, result, hr.trans (by rw [hc.stored]), hres⟩
      | failOrRetry id' detail delay =>
        rintro rfl
        rcases commit_failOrRetryTx hc.stored hcommit with ⟨_, -, hr, -⟩ | ⟨exc, hnext, hr, -⟩
        · exact .inl hr
        · exact .inr ⟨exc, hr, RequestRow.nextAttempt_error hnext⟩
      | updateStatus id' status detail now =>
        rintro rfl
        have hexec := updateStatusTx_eq c.connection status detail now hc.stored
        exact (congrArg Prod.fst ((Transaction.Tx.commit_of_ok hexec).symm.trans hcommit)).symm
      | _ => trivial
    | _ => trivial
  | _ => trivial

omit [JsonCodec] [DecidableEq T] in
theorem holding_next {ph : Progress} {lph : Phase} {e : Eff} {r : e.Res}
    (hold : ∀ id, ph = .holding id ↔ lph.holding = some id) (hal : lph.allows e) (id : String) :
    ph.next e r = .holding id ↔ (lph.next e r).holding = some id := by
  cases e with
  | execute id' request =>
    have hid := hold id
    obtain rfl : lph = .claimed id' := hal
    cases r <;> exact hid
  | transaction op =>
    cases op with
    | claim id' now =>
      rcases r with exc | _ | ⟨id', request⟩
      · exact hold id
      · exact hold id
      · simp [Progress.next, Phase.next, Phase.holding]
    | claimNext now =>
      rcases r with exc | _ | ⟨id', request⟩
      · exact hold id
      · obtain rfl : lph = .idle := hal
        simp [Progress.next, Phase.next, Phase.holding]
      · simp [Progress.next, Phase.next, Phase.holding]
    | failOrRetry id' detail delay =>
      cases r with
      | error exc => exact hold id
      | ok _ => simp [Progress.next, Phase.next, Phase.holding]
    | updateStatus id' status detail now =>
      cases r with
      | error exc => exact hold id
      | ok _ => simp [Progress.next, Phase.next, Phase.holding]
    | _ => exact hold id
  | _ => exact hold id

omit [JsonCodec] in
theorem Agrees.update {ev : Event T} {ph : Progress} {lph : Phase} (ha : Agrees h)
    (hph : progress.phase (ev :: h) = Function.update (progress.phase h) t ph)
    (hlph : lifecycle.phase (ev :: h) = Function.update (lifecycle.phase h) t lph)
    (hself : ∀ id, ph = .holding id ↔ lph.holding = some id) : Agrees (ev :: h) := by
  intro t' id
  rw [hph, holding, hlph]
  by_cases ht : t' = t
  · subst ht
    rw [Function.update_self, Function.update_self]
    exact hself id
  · rw [Function.update_of_ne ht, Function.update_of_ne ht]
    exact ha t' id

/-- A process follows the progress of its calls and holds what it claimed. -/
theorem Runs.progresses (hr : Runs h s) : progress.Follows Progress.Ends h s ∧ Agrees h := by
  have hk : progress.Keeps machine Initial Progress.Ends (fun _ => True)
      (fun (h : List (Event T)) _ => Agrees h) := by
    refine ⟨progress_code, id, ?_, ?_, ?_, ?_, ?_⟩
    · intro s _ t id
      simp [Interleaving.Protocol.phase, holding, progress, lifecycle, Phase.holding]
    · intro h s s' t call _ _ ha _ _
      refine ha.update (progress.phase_start h t call) (lifecycle.phase_start h t call) ?_
      intro id
      cases call <;> simp [progress, lifecycle, Phase.holding]
    · intro h s s' t c e r hr _ ha hal hs
      have hr : Runs h s := hr
      refine ⟨?_, ?_⟩
      · exact admits_of_claimedRow hs fun id hid => hr.claimedRow ((ha t id).mp hid)
      · refine ha.update (progress.phase_did h t c e r) (lifecycle.phase_did h t c e r) ?_
        exact holding_next (ha t) (hr.follows.1.allowed hs)
    · intro h s s' t call reply _ _ ha _ _
      refine ha.update (progress.phase_stop h t call reply) (lifecycle.phase_stop h t call reply) ?_
      intro id
      simp [progress, lifecycle, Phase.holding]
    · exact fun _ _ ha _ => ha
  exact hk.runs (fun _ hi => hi.2.1) hr trivial

def System.Working (s : System T) (t : T) : Prop :=
  ∃ worker p, s.running t = some (.runOnce worker, p)

omit [JsonCodec] in
theorem progress_next_outside {e : Eff} {r : e.Res} (hal : progress.allowed .outside e) :
    progress.next .outside e r = .outside := by
  cases e with
  | transaction op => cases op <;> first | rfl | simp [progress, Progress.allows] at hal
  | _ => rfl

omit [JsonCodec] in
theorem System.Working.other {running : Option (Call × Prog Eff Eff.Res Reply)} {t' : T}
    (hw : s.Working t') (hrun : s'.running = Function.update s.running t running) (hne : t' ≠ t) :
    s'.Working t' := by
  obtain ⟨worker, p, hp⟩ := hw
  exact ⟨worker, p, by rw [hrun, Function.update_of_ne hne, hp]⟩

theorem Runs.working (hr : Runs h s) (hph : progress.phase h t ≠ .outside) : s.Working t := by
  induction hr generalizing t with
  | init hi => exact absurd rfl hph
  | @step h s s' ev hr hs ih =>
    cases hs with
    | start t' call hidle =>
      rw [progress.phase_start] at hph
      by_cases ht : t = t'
      · subst ht
        rw [Function.update_self] at hph
        cases call with
        | runOnce worker => exact ⟨worker, _, Function.update_self ..⟩
        | _ => exact absurd rfl hph
      · rw [Function.update_of_ne ht] at hph
        exact (ih hph).other rfl ht
    | @did t' c call e k hrun =>
      rw [progress.phase_did] at hph
      by_cases ht : t = t'
      · subst ht
        rw [Function.update_self] at hph
        have hbefore : progress.phase h t ≠ .outside := by
          intro hout
          have hal := (((Runs.progresses hr).1 t).2 _ _ hrun).1
          rw [hout] at hph hal
          exact hph (progress_next_outside hal)
        obtain ⟨worker, p, hp⟩ := ih hbefore
        obtain ⟨rfl, -⟩ : call = .runOnce worker ∧ _ := by simpa [hrun] using hp
        exact ⟨worker, _, Function.update_self ..⟩
      · rw [Function.update_of_ne ht] at hph
        exact (ih hph).other rfl ht
    | stop t' hrun =>
      rw [progress.phase_stop] at hph
      by_cases ht : t = t'
      · subst ht
        exact absurd (Function.update_self ..) hph
      · rw [Function.update_of_ne ht] at hph
        exact (ih hph).other rfl ht
    | disturb shared hd => exact ih hph

/-- A call that ends while it holds a request has raised, for a number out of range. -/
theorem stop_holding {call : Call} {reply : Reply} {id : String} (hr : Runs h s)
    (hs : Step s (.stop t call reply) s') (hold : holding h t = some id) :
    ∃ exc, reply = .ran (.error exc) ∧ exc.OutOfRange := by
  obtain ⟨hfollows, hagrees⟩ := hr.progresses
  have hph : progress.phase h t = .holding id := (hagrees t id).mpr hold
  obtain ⟨worker, p, hp⟩ := hr.working (t := t) (by simp [hph])
  cases hs with
  | stop _ hrun =>
    have hend : Progress.Ends call (progress.phase h t) reply := (hfollows t).2 _ _ hrun
    obtain ⟨rfl, -⟩ : call = .runOnce worker ∧ _ := by simpa [hrun] using hp
    rw [hph] at hend
    cases reply with
    | ran r =>
      rcases r with exc | _ | _
      · exact ⟨exc, rfl, hend id rfl⟩
      · obtain ⟨now, hnow⟩ : ∃ now, Progress.holding id = .drained now := hend
        cases hnow
      · cases hend
    | _ => exact hend.elim

end Runs

end Orchestrator
