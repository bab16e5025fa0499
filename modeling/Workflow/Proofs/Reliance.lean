import Workflow.Proofs.Delivery
import Workflow.Proofs.Lifetime

/-!
# Who relies on an instance

Children, bookmarks and queued resumptions rely on an instance. Only the instance itself brings new
ones, and only while it performs a native program. So whoever runs an activity of another kind is left
alone if it was alone when it began.
-/

namespace Workflow

open Moment

variable {m m' : Moment} {ev : Event} {k x : InstanceId} {i : Instance} {w : WorkItem}
variable {e e' : Executor}

namespace Executor

/-- Nobody has the instance for a parent, it owns no bookmark, and nothing that is queued resumes it. -/
structure Alone (e : Executor) (x : InstanceId) : Prop where
  childless : ∀ {k : InstanceId} {i : Instance}, e.instances[k]? = some i → i.parent ≠ some x
  unbooked : ∀ {b : Bookmark} {g : Registration}, e.bookmarks.registrations[b]? = some g → g.owner ≠ x
  unresumed : ∀ {w : WorkItem}, w ∈ e.queue.work → w.resumes x = false

/-! ### Resumptions -/

/-- An item that resumes nobody. -/
def Still (a : QueuedItem) : Prop :=
  ∀ x, a.item.resumes x = false

/-- What is done when nobody is called resumes nobody. -/
theorem Concludes.tends_still (h : Concludes e e') : Tends Still e e' := by
  cases h with
  | rests h => exact h.tends _
  | completes h x => exact (h.tends _).trans (.completeInstance_of fun _ _ _ => rfl)
  | faults h x f => exact (h.tends _).trans (.propagate_of _ f rfl fun _ _ _ _ _ _ => rfl)
  | hands p c => exact .enqueue fun _ => rfl

/-- A resumption that is queued was queued, unless the workflow is over. -/
theorem Tends.mem_work (h : Tends Still e e') (ho : e'.outcome = none) (hw : w ∈ e'.queue.work)
    (hr : w.resumes x = true) : w ∈ e.queue.work := by
  obtain ⟨-, gains⟩ := h.arrives.cases.resolve_right fun ended => ended.1 ho
  obtain ⟨a, ha, rfl⟩ := List.mem_map.mp hw
  by_cases hn : a.arrival < e.queue.nextArrival
  · have there : a ∈ e.queue.items := gains.old ▸ mem_before.mpr ⟨ha, hn⟩
    exact List.mem_map_of_mem there
  · exact absurd (gains.new a ha (Nat.le_of_not_lt hn) x) (by rw [hr]; decide)

/-- Whether an instance owns a bookmark. -/
def Books (e : Executor) (x : InstanceId) : Prop :=
  ∃ (b : Bookmark) (g : Registration), e.bookmarks.registrations[b]? = some g ∧ g.owner = x

/-- Whoever is resumed owned the bookmark. -/
theorem books_of_resumeBookmark {b : Bookmark} {v : Value} {p : Priority}
    (hw : w ∈ (e.resumeBookmark b v p).2.queue.work) (hr : w.resumes x = true) :
    w ∈ e.queue.work ∨ e.Books x := by
  rcases e.resumeBookmark_cases b v p with ⟨-, hc⟩ | ⟨-, -, hc⟩ | ⟨g, -, hg, hc⟩
  · rw [hc] at hw
    exact .inl hw
  · rw [hc] at hw
    exact .inl hw
  · rw [hc] at hw
    rcases WorkQueue.mem_work_push.mp hw with rfl | hw
    · exact .inr ⟨b, g, hg, beq_iff_eq.mp hr⟩
    · exact .inl hw

/-- No answer resumes anybody but that to a request for it. -/
theorem books_of_answer {K : BodyKind} {y : InstanceId} (q : Request K)
    (ho : (e.answer y q).2.outcome = none) (hw : w ∈ (e.answer y q).2.queue.work)
    (hr : w.resumes x = true) : w ∈ e.queue.work ∨ e.Books x := by
  cases q with
  | context q => exact .inl (Tends.mem_work (.answerContext q) ho hw hr)
  | cancellation q => exact .inl (Tends.mem_work (.answerCancellation q) ho hw hr)
  | operation q => exact .inl (Tends.mem_work (.answerOperation q) ho hw hr)
  | scheduling q =>
    by_cases resumes : ∃ b v, q = .resume b v
    · obtain ⟨b, v, rfl⟩ := resumes
      exact books_of_resumeBookmark hw hr
    · have still : Tends Still e (e.answerScheduling y q).2 :=
        .answerScheduling_of (fun _ _ _ => rfl) (fun _ _ _ => rfl) q fun b v hq =>
          absurd ⟨b, v, hq⟩ resumes
      exact .inl (still.mem_work ho hw hr)

theorem books_of_serve {c : ExecutorCall} (hc : c.isSingle = true) (ho : (c.serve e).2.outcome = none)
    (hw : w ∈ (c.serve e).2.queue.work) (hr : w.resumes x = true) :
    w ∈ e.queue.work ∨ e.Books x := by
  cases c with
  | run | runOneStep | takeJournal => exact absurd hc Bool.false_ne_true
  | resumeBookmark b v p => exact books_of_resumeBookmark hw hr
  | cancel =>
    rcases e.cancelWorkflow_cases with same | asked | concludes
    · change w ∈ e.cancelWorkflow.2.queue.work at hw
      rw [same] at hw
      exact .inl hw
    · change w ∈ e.cancelWorkflow.2.queue.work at hw
      rw [asked] at hw
      have queued : w ∈ (e.queue.push (.cancel e.root)).work := hw
      rcases WorkQueue.mem_work_push.mp queued with rfl | hw
      · exact absurd hr Bool.false_ne_true
      · exact .inl hw
    · have announced : Tends Still e e.announce := .announce
      exact .inl ((announced.trans concludes.tends_still).mem_work ho hw hr)
  | terminate reason =>
    change w ∈ (e.terminate reason).2.queue.work at hw
    change (e.terminate reason).2.outcome = none at ho
    refine .inl (Tends.mem_work ?_ ho hw hr)
    unfold Executor.terminate
    split
    · exact .refl e
    · exact .propagate_of _ _ rfl fun _ _ _ _ _ _ => rfl
  | abort reason =>
    change w ∈ (e.abort reason).queue.work at hw
    rcases e.abort_eq reason with same | ⟨-, cleared, -⟩
    · rw [same] at hw
      exact .inl hw
    · rw [cleared] at hw
      exact absurd hw List.not_mem_nil
  | complete operation result =>
    rw [ExecutorCall.serve, completeHandle_own] at hw
    exact .inl hw
  | drainInbox => exact .inl (Tends.mem_work (.drainInbox_of fun _ _ _ _ => rfl) ho hw hr)
  | _ => exact .inl hw

end Executor

/-- A resumption that is queued at a moment was queued, or its instance owned a bookmark. -/
theorem Goes.books (g : Goes m ev m') (h : m.Sound) (ho : m'.executor.outcome = none)
    (hw : w ∈ m'.executor.queue.work) (hr : w.resumes x = true) :
    w ∈ m.executor.queue.work ∨ m.executor.Books x := by
  cases g with
  | announced e => exact .inl (Executor.Tends.mem_work .announce ho hw hr)
  | entered | collected | hosted | altered => exact .inl hw
  | @settled e => exact .inl (e.settle_keeps.2.1 ▸ hw)
  | gathered e => exact .inl (Executor.Tends.mem_work (.drainInbox_of fun _ _ _ _ => rfl) ho hw hr)
  | served hc => exact Executor.books_of_serve hc ho hw hr
  | @passed e a q _ _ hi _ hn =>
    have queued := (Executor.Concludes.dispatch hn).tends_still.mem_work ho hw hr
    refine .inl ?_
    change w ∈ e.queue.items.map _
    rw [hi]
    exact List.mem_cons_of_mem _ queued
  | @opened e a q r _ _ hi _ hn =>
    have queued := ((Executor.sends_of_errand hn).before.tends _).mem_work ho hw hr
    refine .inl ?_
    change w ∈ e.queue.items.map _
    rw [hi]
    exact List.mem_cons_of_mem _ queued
  | answered => exact Executor.books_of_answer _ ho hw hr
  | @closed r e a =>
    obtain ⟨_, _, _, pending⟩ := h
    exact .inl (((Executor.sends_of_errand pending.errand).after a e).tends_still.mem_work ho hw hr)
  | @crashed r e c =>
    exact .inl ((Executor.Concludes.raises (.refl e) r.id c.toError).tends_still.mem_work ho hw hr)

/-! ### Children and operations -/

namespace Executor

/-- Whoever is there after a child was asked for was there, or is the child. -/
theorem Placed.back_scheduleChild {X : InstanceId → Prop} (h : e.Placed X) {y : InstanceId}
    (node : NodeId) (options : ScheduleOptions)
    (hi : (e.scheduleChild y node options).2.instances[k]? = some i) :
    (∃ j, e.instances[k]? = some j ∧ i.Wanes j) ∨
      (e.nextInstance ≤ k.number ∧ i.parent = some y) := by
  unfold Executor.scheduleChild at hi
  split at hi
  · exact .inl ⟨i, hi, .refl i⟩
  · next p scope hs =>
    have there := (checkSchedule_ok hs).1
    have core : SameCore (e.adopt y (e.newChild y node scope options))
        (e.addChild y node scope options).2 := sameCore_trackScheduled _ _
    rw [core.instances] at hi
    rcases (h.planted (c := e.newChild y node scope options) there rfl).cases hi with
      ⟨rfl, rfl⟩ | ⟨rfl, rfl⟩ | ⟨-, -, hi⟩
    · exact .inl ⟨p, there, ⟨rfl, rfl, id, id⟩⟩
    · exact .inr ⟨Nat.le_refl _, rfl⟩
    · exact .inl ⟨i, hi, .refl i⟩

theorem operations_scheduleChild {y : InstanceId} (node : NodeId) (options : ScheduleOptions) :
    (e.scheduleChild y node options).2.nextOperation = e.nextOperation ∧
      (e.scheduleChild y node options).2.operations = e.operations := by
  unfold Executor.scheduleChild
  split
  · exact ⟨rfl, rfl⟩
  · next p scope _ =>
    have core : SameCore (e.adopt y (e.newChild y node scope options))
        (e.addChild y node scope options).2 := sameCore_trackScheduled _ _
    exact ⟨core.nextOperation, core.operations⟩

/-- A new scope changes no more than the scopes. -/
theorem createScope_keeps (y : InstanceId) : (e.createScope y).2.instances = e.instances ∧
    (e.createScope y).2.nextOperation = e.nextOperation ∧
    (e.createScope y).2.operations = e.operations := by
  unfold Executor.createScope
  split
  · exact ⟨rfl, rfl, rfl⟩
  · split <;> exact ⟨rfl, rfl, rfl⟩

end Executor

/-- What a step brings. -/
structure Brings (m : Moment) (ev : Event) (m' : Moment) : Prop where
  /-- Whoever is there was there, or is a child that an activity has scheduled. -/
  back : ∀ {k : InstanceId} {i : Instance}, m'.executor.instances[k]? = some i →
    (∃ j, m.executor.instances[k]? = some j ∧ i.Wanes j) ∨
      (m.executor.nextInstance ≤ k.number ∧
        ∃ r e rest, m = during r e rest ∧ r.kind = .native ∧ i.parent = some r.id)
  /-- Operations get ascending numbers. -/
  nextOperation : m.executor.nextOperation ≤ m'.executor.nextOperation
  /-- An operation that is outstanding was outstanding or has just begun. -/
  operations : ∀ {o : OperationId} {k : InstanceId}, m'.executor.operations[o]? = some k →
    m.executor.operations[o]? = some k ∨ (ev.Begins k ∧ m.executor.nextOperation ≤ o.number)

theorem Goes.brings (g : Goes m ev m') (h : m.Sound) : Brings m ev m' := by
  by_cases hq : ev.schedules = true ∨ ev.createsScope = true
  · cases g with
    | @answered r e q rest =>
      obtain ⟨_, _, _, pending⟩ := h
      obtain ⟨X, running⟩ := pending.running
      cases r
      cases q with
      | scheduling q =>
        cases q with
        | schedule node options =>
          obtain ⟨next, same⟩ := e.operations_scheduleChild node options
          refine ⟨fun hi => ?_, Nat.le_of_eq next.symm, fun ho => .inl (same ▸ ho)⟩
          refine (running.consistent.placed.back_scheduleChild node options hi).imp_right fun
            ⟨new, parent⟩ => ⟨new, _, e, _, rfl, rfl, parent⟩
        | createScope =>
          obtain ⟨there, next, same⟩ := e.createScope_keeps _
          exact ⟨fun hi => .inl ⟨_, there ▸ hi, .refl _⟩, Nat.le_of_eq next.symm,
            fun ho => .inl (same ▸ ho)⟩
        | _ => exact absurd hq nofun
      | _ => exact absurd hq nofun
    | _ => exact absurd hq nofun
  · rw [not_or, Bool.not_eq_true] at hq
    have wanes := g.wanes h hq.1 (absurd · hq.2)
    exact ⟨fun hi => .inl (wanes.back hi), wanes.nextOperation, wanes.operations⟩

/-- A workflow in which somebody is live goes on. -/
theorem Executor.Regular.consistent_of_isLive (h : e.Regular) (hl : e.isLive x = true) :
    Executor.Consistent { e with state := .runnable } Executor.Nobody := by
  cases h with
  | working h => exact h.runnable
  | resting h => exact h.consistent
  | finished h =>
    rw [h.not_isLive] at hl
    exact absurd hl Bool.false_ne_true
  | aborted h =>
    obtain ⟨i, hi, -⟩ := Executor.isLive_iff.mp hl
    rw [h.instances] at hi
    simp at hi

theorem Moment.Sound.outcome_of_isLive (h : m.Sound) (hl : m.executor.isLive x = true) :
    m.executor.outcome = none := by
  cases m with
  | between e =>
    have regular : e.Regular := Executor.Sound.regular h
    exact (regular.consistent_of_isLive hl).opened
  | during r e rest =>
    obtain ⟨_, _, _, pending⟩ := h
    obtain ⟨X, running⟩ := pending.running
    exact running.consistent.opened

/-- Whoever is alone and performs no native program stays alone. -/
theorem Goes.alone (g : Goes m ev m') (h : m.Sound) (ha : m.executor.Alone x)
    (apart : ∀ r e rest, m = during r e rest → r.kind = .native → r.id ≠ x)
    (ho : m'.executor.outcome = none) : m'.executor.Alone x where
  childless hi hp := by
    rcases (g.brings h).back hi with ⟨j, hj, wanes⟩ | ⟨-, r, e, rest, hm, native, parent⟩
    · exact ha.childless hj (wanes.parent.symm.trans hp)
    · exact apart r e rest hm native (Option.some.inj (parent.symm.trans hp))
  unbooked hg hx := by
    rcases g.registration h hg with old | ⟨-, -, r, e, rest, hm, native, owner⟩
    · exact ha.unbooked old hx
    · exact apart r e rest hm native (owner.symm.trans hx)
  unresumed {w} hw := by
    by_contra resumes
    rw [Bool.not_eq_false] at resumes
    rcases g.books h ho hw resumes with old | ⟨b, g, hg, owner⟩
    · exact absurd (ha.unresumed old) (by rw [resumes]; exact Bool.noConfusion)
    · exact ha.unbooked hg owner

end Workflow
