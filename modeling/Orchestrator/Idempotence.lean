import Orchestrator.Journal
import Orchestrator.Submission

/-!
# Idempotent submission in every run

The calls of `create` keep the registry consistent whatever the other processes do, as
long as no id is handed out twice.
-/

namespace Orchestrator

open Interaction Registry
set_option autoImplicit false

/-- The request ids handed out so far: to calls of `create` and by `uuid4`. -/
def candidates {T : Type} : List (Event T) → List String
  | [] => []
  | .start _ (.create id _) :: h => id :: candidates h
  | .did _ _ .uuid4 id :: h => id :: candidates h
  | _ :: h => candidates h

theorem candidates_sublist {T : Type} (ev : Event T) (h : List (Event T)) :
    (candidates h).Sublist (candidates (ev :: h)) := by
  cases ev with
  | start t call =>
    cases call with
    | create id request => exact List.sublist_cons_self _ _
    | _ => exact .refl _
  | did t c e r =>
    cases e with
    | uuid4 => exact List.sublist_cons_self _ _
    | _ => exact .refl _
  | _ => exact .refl _

variable [JsonCodec] {T : Type} [DecidableEq T] {h : List (Event T)} {s s' : System T} {t : T}

theorem step_selectByKey {c : Choice} {key : String} {r : Except PyExc (Option String)}
    (hs : Step s (.did t c (.transaction (.selectByKey key)) r) s') :
    r = .ok (s.shared.db.selectByKey key) ∧ s'.shared.db = s.shared.db := by
  have hh := hs.did_handle
  simp only [machine, handle, Prod.mk.injEq] at hh
  obtain ⟨hr, hsh, -⟩ := hh
  rw [← hr, ← hsh]
  exact ⟨rfl, rfl⟩

theorem Runs.change {c : Choice} {e : Eff} {r : e.Res} (hr : Runs h s)
    (hs : Step s (.did t c e r) s') :
    Change s.shared.db (lifecycle.phase h t) (markOf (.did t c e r)) s'.shared.db
      ((lifecycle.phase h t).next e r) :=
  change_of_step (hr.follows.1.allowed hs) hs

theorem consistent_selectByKey {c : Choice} {key : String} {r : Except PyExc (Option String)}
    (hc : Consistent (submission.phase h) (candidates h) s.shared.db.submissions)
    (hal : (submission.phase h t).allows (.transaction (.selectByKey key)))
    (hs : Step s (.did t c (.transaction (.selectByKey key)) r) s') :
    (submission.phase h t).admits (.transaction (.selectByKey key)) r ∧
      Consistent (Function.update (submission.phase h) t
        ((submission.phase h t).next (.transaction (.selectByKey key)) r)) (candidates h)
        s'.shared.db.submissions := by
  obtain ⟨rfl, hdb⟩ := step_selectByKey hs
  rw [hdb, Database.selectByKey_eq]
  obtain ⟨id, request, hkey, hph⟩ := hal
  constructor
  · refine ⟨_, rfl, ?_⟩
    intro id' request' hconf hnone
    obtain ⟨key', winner, hkey', hfind⟩ := hc.conflict t id' request' hconf
    have hsame : request' = request := by
      rcases hph with hph | hph <;> rw [hph] at hconf <;> cases hconf
      rfl
    rw [hsame, hkey] at hkey'
    cases hkey'
    rw [hnone] at hfind
    cases hfind
  · cases hfind : findKey key s.shared.db.submissions with
    | none => exact hc.unchanged
    | some existing =>
      have hreg : Promised s.shared.db.submissions id request existing := .found hkey hfind
      rcases hph with hph | hph
      · simp only [Submitting.next, hph]
        split
        · rw [← hph]
          exact hc.unchanged
        · exact hc.settle hreg
      · simp only [Submitting.next, hph]
        exact hc.settle hreg

theorem consistent_insertRequest {c : Choice} {id now : String} {request : AutomationRequest}
    {r : Except PyExc Unit}
    (hc : Consistent (submission.phase h) (candidates h) s.shared.db.submissions)
    (hal : (submission.phase h t).allows (.transaction (.insertRequest id request now)))
    (hs : Step s (.did t c (.transaction (.insertRequest id request now)) r) s') :
    (submission.phase h t).admits (.transaction (.insertRequest id request now)) r ∧
      Consistent (Function.update (submission.phase h) t
        ((submission.phase h t).next (.transaction (.insertRequest id request now)) r))
        (candidates h) s'.shared.db.submissions := by
  have hph : submission.phase h t = .creating id request := hal
  have ho := step_outcome hs
  cases r with
  | ok _ =>
    obtain ⟨hsubs, hkey⟩ := Submitted.submissions ho
    refine ⟨.inl rfl, ?_⟩
    rw [hsubs]
    simp only [Submitting.next, hph]
    exact hc.insert hph hkey
  | error x =>
    obtain ⟨hdb, hx, htaken⟩ := ho
    have hfree := hc.exclusive.marked t id (by rw [hph]; rfl)
    have hnone : s.shared.db.row? id = none := Database.row?_eq_none.mpr hfree.2
    have htaken : s.shared.db.keyTaken request.idempotencyKey = true := by
      rcases htaken with hrow | htaken
      · exact absurd hnone hrow
      · exact htaken
    cases hkey : request.idempotencyKey with
    | none => simp [hkey, Database.keyTaken] at htaken
    | some key =>
      simp only [hkey, Database.keyTaken, decide_eq_true_eq, ← Database.submissions_key] at htaken
      obtain ⟨winner, hfind⟩ : ∃ winner, findKey key s.shared.db.submissions = some winner := by
        apply Option.ne_none_iff_exists'.mp
        intro hnone
        exact find_eq_none.mp hnone htaken
      refine ⟨.inr ⟨x, rfl, hx, by simp [hkey]⟩, ?_⟩
      rw [hdb]
      simp only [Submitting.next, hph]
      exact hc.clash hph hkey hfind

theorem consistent_did {c : Choice} {e : Eff} {r : e.Res} (hr : Runs h s)
    (hfresh : (candidates (.did t c e r :: h)).Nodup)
    (hc : Consistent (submission.phase h) (candidates h) s.shared.db.submissions)
    (hal : (submission.phase h t).allows e) (hs : Step s (.did t c e r) s') :
    (submission.phase h t).admits e r ∧
      Consistent (Function.update (submission.phase h) t ((submission.phase h t).next e r))
        (candidates (.did t c e r :: h)) s'.shared.db.submissions := by
  have hsame : (∀ id, markOf (.did t c e r) ≠ some (id, .enqueue)) →
      s'.shared.db.submissions = s.shared.db.submissions := (hr.change hs).submissions
  cases e with
  | uuid4 =>
    obtain ⟨request, hph⟩ := hal
    refine ⟨trivial, ?_⟩
    rw [hsame (by simp [markOf])]
    simp only [Submitting.next, hph]
    exact hc.enter request (List.nodup_cons.mp hfresh).1
  | transaction op =>
    cases op with
    | selectByKey key => exact consistent_selectByKey hc hal hs
    | insertRequest id request now => exact consistent_insertRequest hc hal hs
    | _ =>
      refine ⟨trivial, ?_⟩
      rw [hsame ?_]
      · exact hc.unchanged
      · intro id heq
        obtain ⟨_, _, _, _, hev⟩ := enqueue_of_markOf heq
        cases hev
  | _ =>
    refine ⟨trivial, ?_⟩
    rw [hsame (by simp [markOf])]
    exact hc.unchanged

/-- A call has handed in a request, and its INSERT has committed. -/
def InsertedBy (h : List (Event T)) (call : Call) (id : String) (request : AutomationRequest) :
    Prop :=
  call.Submits id request ∧
    ∃ now, Interleaving.Performed h call (.transaction (.insertRequest id request now)) (.ok ())

/-- A call of `create` that has ended returned an id, as the registry promises it. -/
def Answered (h : List (Event T)) (subs : List Submission) : Prop :=
  ∀ t id request reply, .stop t (.create id request) reply ∈ h →
    ∃ result, reply = .created (.ok result) ∧ Promised subs id request result

omit [DecidableEq T] in
theorem Answered.mono {subs subs' : List Submission} {ev : Event T} (ha : Answered h subs)
    (hp : subs <+: subs') (hev : ∀ t call reply, ev ≠ .stop t call reply) :
    Answered (ev :: h) subs' := by
  intro t id request reply hmem
  rcases List.mem_cons.mp hmem with heq | hmem
  · exact absurd heq.symm (hev _ _ _)
  · obtain ⟨result, hreply, hreg⟩ := ha t id request reply hmem
    exact ⟨result, hreply, hreg.mono hp⟩

theorem submission_keeps :
    submission.Keeps machine Initial Returns (fun h : List (Event T) => (candidates h).Nodup)
      (fun h s => Consistent (submission.phase h) (candidates h) s.shared.db.submissions ∧
        Answered h s.shared.db.submissions) where
  code := submission_code
  past hn := hn.sublist (candidates_sublist _ _)
  init := by
    intro s hi
    rw [hi.1]
    refine ⟨⟨.of_free fun _ => rfl, ?_, ?_, ?_⟩, ?_⟩
    · simp [Database.submissions, Database.empty]
    · intro _ _ _ hph
      cases hph
    · intro _ _ _ _ hph
      cases hph
    · intro _ _ _ _ hmem
      cases hmem
  start := by
    intro h s s' t call _ hfresh hI hidle hs
    rw [submission.phase_start, hs.start_shared]
    refine ⟨?_, hI.2.mono List.prefix_rfl (by simp)⟩
    cases call with
    | create id request => exact hI.1.enter request (List.nodup_cons.mp hfresh).1
    | submit service request => exact hI.1.wait request
    | _ => exact hI.1.leave
  did := by
    intro h s s' t c e r hr hfresh hI hal hs
    rw [submission.phase_did]
    obtain ⟨had, hc⟩ := consistent_did hr hfresh hI.1 hal hs
    exact ⟨had, hc, hI.2.mono (Runs.change hr hs).submissions_grow (by simp)⟩
  stop := by
    intro h s s' t call reply _ _ hI hQ hs
    rw [submission.phase_stop, hs.stop_shared]
    refine ⟨hI.1.leave, ?_⟩
    intro t' id request reply' hmem
    rcases List.mem_cons.mp hmem with heq | hmem
    · cases heq
      obtain ⟨result, hph, hreply⟩ := hQ id request rfl
      exact ⟨result, hreply, hI.1.created t id request result hph⟩
    · exact hI.2 t' id request reply' hmem
  disturb := by
    intro h s s' _ _ hI hs
    rw [show s'.shared.db = s.shared.db from hs.disturb_shared]
    exact ⟨hI.1, hI.2.mono List.prefix_rfl (by simp)⟩

omit [JsonCodec] in
theorem InsertedBy.later {call : Call} {id : String} {request : AutomationRequest}
    (hi : InsertedBy h call id request) (ev : Event T) : InsertedBy (ev :: h) call id request := by
  obtain ⟨hsubmits, now, hperformed⟩ := hi
  exact ⟨hsubmits, now, hperformed.later ev⟩

/-- The registry lists the insertions that have committed, each by the call that handed in the
request. -/
structure Inserted (h : List (Event T)) (subs : List Submission) : Prop where
  origin : ∀ sub ∈ subs, ∃ call request, InsertedBy h call sub.requestId request ∧
    sub = submissionOf sub.requestId request
  listed : ∀ t c id request now,
    .did t c (.transaction (.insertRequest id request now)) (.ok ()) ∈ h →
      submissionOf id request ∈ subs

theorem Inserted.unchanged {subs : List Submission} {ev : Event T} (hi : Inserted h subs)
    (hev : ∀ id, markOf ev ≠ some (id, .enqueue)) : Inserted (ev :: h) subs where
  origin sub hmem := by
    obtain ⟨call, request, hby, hsub⟩ := hi.origin sub hmem
    exact ⟨call, request, hby.later ev, hsub⟩
  listed t c id request now hmem := by
    rcases List.mem_cons.mp hmem with rfl | hmem
    · exact absurd rfl (hev id)
    · exact hi.listed t c id request now hmem

theorem Inserted.insert {subs : List Submission} {c : Choice} {id now : String}
    {request : AutomationRequest} {call : Call} (hi : Inserted h subs)
    (hby : InsertedBy (.did t c (.transaction (.insertRequest id request now)) (.ok ()) :: h)
      call id request) :
    Inserted (.did t c (.transaction (.insertRequest id request now)) (.ok ()) :: h)
      (subs ++ [submissionOf id request]) where
  origin sub hmem := by
    rcases List.mem_append.mp hmem with hmem | hmem
    · obtain ⟨call', request', hby', hsub⟩ := hi.origin sub hmem
      exact ⟨call', request', hby'.later _, hsub⟩
    · obtain rfl := List.mem_singleton.mp hmem
      exact ⟨call, request, hby, rfl⟩
  listed t' c' id' request' now' hmem := by
    rcases List.mem_cons.mp hmem with heq | hmem
    · cases heq
      exact List.mem_append_right _ (List.mem_singleton_self _)
    · exact List.mem_append_left _ (hi.listed t' c' id' request' now' hmem)

theorem Runs.insertedBy (hr : Runs h s) {c : Choice} {id now : String} {request : AutomationRequest}
    (hs : Step s (.did t c (.transaction (.insertRequest id request now)) (.ok ())) s') :
    ∃ call, InsertedBy (.did t c (.transaction (.insertRequest id request now)) (.ok ()) :: h)
      call id request := by
  have hfollows := Interleaving.Protocol.follows_runs (P := creating Call.Submits)
    (Q := fun _ _ _ => True) (creating_program (fun call => call) fun hsubmits => hsubmits)
    (fun _ _ _ => trivial) (fun _ hi => hi.2.1) hr
  obtain ⟨call, hphase, hsubmits⟩ := hfollows.allowed hs
  obtain ⟨call', hcurrent, hperformed⟩ := Interleaving.Runs.performed hr (fun _ hi => hi.2.1) hs
  have hsame : (creating Call.Submits).phase h t = some call' :=
    Interleaving.Protocol.phase_current (fun call ph => ph = some call) (fun _ => rfl)
      (fun _ _ _ _ hph => hph) hcurrent
  cases hphase.symm.trans hsame
  exact ⟨call, hsubmits, now, hperformed⟩

theorem Runs.inserted (hr : Runs h s) : Inserted h s.shared.db.submissions := by
  refine hr.invariant (I := fun h s => Inserted h s.shared.db.submissions) ?_ ?_
  · intro s hi
    rw [hi.1]
    have hempty : Database.empty.submissions = [] := rfl
    refine ⟨?_, fun _ _ _ _ _ hmem => by cases hmem⟩
    simp [hempty]
  · intro h s s' ev hr hI hs
    cases ev with
    | start t call =>
      rw [hs.start_shared]
      exact hI.unchanged (by simp [markOf])
    | stop t call reply =>
      rw [hs.stop_shared]
      exact hI.unchanged (by simp [markOf])
    | disturb =>
      rw [show s'.shared.db = s.shared.db from hs.disturb_shared]
      exact hI.unchanged (by simp [markOf])
    | did t c e r =>
      by_cases hm : ∃ id, markOf (.did t c e r) = some (id, .enqueue)
      · obtain ⟨id, hm⟩ := hm
        obtain ⟨t', c', request, now, hev⟩ := enqueue_of_markOf hm
        cases hev
        obtain ⟨call, hby⟩ := Runs.insertedBy hr hs
        rw [(Submitted.submissions (step_outcome hs)).1]
        exact hI.insert hby
      · rw [(Runs.change hr hs).submissions fun id heq => hm ⟨id, heq⟩]
        exact hI.unchanged fun id heq => hm ⟨id, heq⟩

theorem Inserted.carries {db : Database} (hi : Inserted h db.submissions) {row : RequestRow}
    (hrow : row ∈ db.requests) {call : Call} {request : AutomationRequest}
    (hby : InsertedBy h call row.requestId request) : row.Carries request := by
  obtain ⟨-, now, hperformed⟩ := hby
  obtain ⟨t, c, hmem⟩ := hperformed.mem
  obtain ⟨row', hrow', hsub⟩ := List.mem_map.mp (hi.listed t c _ _ _ hmem)
  have hid : row'.requestId = row.requestId := congrArg Submission.requestId hsub
  have hsame := Database.row?_of_mem hrow'
  rw [hid, Database.row?_of_mem hrow] at hsame
  cases hsame
  exact RequestRow.carries hsub

/-- The QUEUED event of a submission, as against that of a replay. -/
def EventRow.isSubmission (e : EventRow) : Bool := e.is .queued && e.detail = queuedDetail

/-- A request was submitted once, and only a request that was has events. -/
def SubmittedOnce : Option RequestRow → List EventRow → Prop
  | none, log => log = []
  | some _, log => log.countP EventRow.isSubmission = 1

omit [JsonCodec] in
theorem Transition.not_submission {tr : Transition} (n : Nat) (id : String)
    (htr : tr.status = .queued → tr.detail ≠ queuedDetail) :
    (tr.entry n id).isSubmission = false := by
  by_cases hq : tr.status = .queued
  · simp [EventRow.isSubmission, entry, htr hq]
  · simp [EventRow.isSubmission, EventRow.is, entry, hq]

theorem SubmittedOnce.move {id : String} {row row' : Option RequestRow}
    {log entries : List EventRow} {ms : List Job.Mark} {m : Job.Mark} (ho : SubmittedOnce row log)
    (hm : Move id row ms m row' entries) : SubmittedOnce row' (log ++ entries) := by
  have once : ∀ {row : RequestRow} (tr : Transition) (n : Nat), SubmittedOnce (some row) log →
      (tr.status = .queued → tr.detail ≠ queuedDetail) →
      (log ++ [tr.entry n id]).countP EventRow.isSubmission = 1 := by
    intro row tr n ho htr
    rw [List.countP_append, List.countP_singleton, tr.not_submission n id htr]
    simpa [SubmittedOnce] using ho
  cases hm with
  | enqueue request now n =>
    obtain rfl : log = [] := ho
    rfl
  | execute ok hrun hlast =>
    rw [List.append_nil]
    exact ho
  | @settle _ row =>
    apply once _ _ ho
    rcases row.failureStatus_cases with hst | hst <;> simp [RequestRow.settled, hst]
  | start => exact once _ _ ho (by simp [RequestRow.started])
  | finish => exact once _ _ ho (by simp [Transition.completed])
  | requeue =>
    have hne : replayDetail ≠ queuedDetail := by decide
    exact once _ _ ho fun _ => hne

/-- Idempotent submission under concurrency. -/
theorem create_idempotent (hr : Runs h s) (hfresh : (candidates h).Nodup) :
    (∀ t id request reply, .stop t (.create id request) reply ∈ h →
      ∃ result, reply = .created (.ok result) ∧
        (∀ key, request.idempotencyKey = some key →
          s.shared.db.selectByKey key = some result) ∧
        (request.idempotencyKey = none →
          result = id ∧ ∃ row, s.shared.db.row? id = some row ∧ row.Carries request)) ∧
    (∀ t t' id id' request request' reply reply' key,
      .stop t (.create id request) reply ∈ h → .stop t' (.create id' request') reply' ∈ h →
      request.idempotencyKey = some key → request'.idempotencyKey = some key → reply = reply') ∧
    (∀ row ∈ s.shared.db.requests,
      (∃ call request, InsertedBy h call row.requestId request) ∧
      (∀ call request, InsertedBy h call row.requestId request → row.Carries request) ∧
      (s.shared.db.auditLog row.requestId).countP EventRow.isSubmission = 1) ∧
    ∀ row ∈ s.shared.db.requests, ∀ row' ∈ s.shared.db.requests, ∀ key,
      row.idempotencyKey = some key → row'.idempotencyKey = some key → row = row' := by
  obtain ⟨-, -, hanswered⟩ := submission_keeps.runs (fun _ hi => hi.2.1) hr hfresh
  refine ⟨?_, ?_, ?_, ?_⟩
  · intro t id request reply hmem
    obtain ⟨result, hreply, hreg⟩ := hanswered t id request reply hmem
    refine ⟨result, hreply, ?_, ?_⟩
    · intro key hkey
      rw [Database.selectByKey_eq]
      exact hreg.1 key hkey
    · intro hnone
      obtain ⟨rfl, hsub⟩ := hreg.2 hnone
      obtain ⟨row, hrow, hsub⟩ := List.mem_map.mp hsub
      obtain rfl : row.requestId = result := congrArg Submission.requestId hsub
      exact ⟨rfl, row, Database.row?_of_mem hrow, RequestRow.carries hsub⟩
  · intro t t' id id' request request' reply reply' key hmem hmem' hkey hkey'
    obtain ⟨result, rfl, hreg⟩ := hanswered t id request reply hmem
    obtain ⟨result', rfl, hreg'⟩ := hanswered t' id' request' reply' hmem'
    have heq := (hreg.1 key hkey).symm.trans (hreg'.1 key hkey')
    cases heq
    rfl
  · intro row hrow
    have hins := hr.inserted
    obtain ⟨call, request, hby, -⟩ := hins.origin _ (List.mem_map.mpr ⟨row, hrow, rfl⟩)
    refine ⟨⟨call, request, hby⟩, fun _ _ => hins.carries hrow, ?_⟩
    have ho : SubmittedOnce (s.shared.db.row? row.requestId)
        (s.shared.db.auditLog row.requestId) := by
      rw [hr.ordered.auditLog]
      exact hr.each (R := fun row log _ => SubmittedOnce row log) rfl SubmittedOnce.move
    rw [Database.row?_of_mem hrow] at ho
    exact ho
  · intro row hrow row' hrow' key hkey hkey'
    have hfind := s.shared.db.findKey_of_mem hrow hkey
    have hid : row.requestId = row'.requestId := by
      simpa [s.shared.db.findKey_of_mem hrow' hkey', eq_comm] using hfind
    have hrow₁ := Database.row?_of_mem hrow
    rw [hid, Database.row?_of_mem hrow'] at hrow₁
    cases hrow₁
    rfl

def otherRequest : AutomationRequest := { sampleRequest with target := "crm", valid := by decide }

omit [JsonCodec] in
/-- Two calls with one key and different targets: both find the key free, one inserts. -/
theorem create_idempotent_sample : letI := emptyPayload
    ∃ (h : List (Event ℕ)) (s : System ℕ), Runs h s ∧
      .stop 1 (.create "b" otherRequest) (.created (.ok "a")) ∈ h ∧
      s.shared.db.selectByKey "invoice-1" = some "a" := by
  let _ := emptyPayload
  have hr : Runs [] System.initial := .init ⟨rfl, fun _ => rfl, fun _ _ => rfl⟩
  have hr := (hr.step (.start 0 (.create "a" sampleRequest) rfl)).step
    (.start 1 (.create "b" otherRequest) rfl)
  have hr := (hr.step (.did 0 .calm rfl)).step (.did 1 .calm rfl)
  have hr := (hr.step (.did 0 .calm rfl)).step (.did 1 .calm rfl)
  have hr := (hr.step (.did 0 .calm rfl)).step (.did 1 .calm rfl)
  have hr := (hr.step (.did 1 .calm rfl)).step (.stop 1 rfl)
  have hx := (create_idempotent hr (by decide +kernel)).1 1 "b" otherRequest (.created (.ok "a"))
    List.mem_cons_self
  refine ⟨_, _, hr, List.mem_cons_self, ?_⟩
  obtain ⟨result, hreply, hkey, -⟩ := hx
  cases hreply
  exact hkey "invoice-1" rfl

end Orchestrator
