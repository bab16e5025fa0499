import Workflow.Proofs.Finality
import Workflow.Proofs.Integrity

/-!
# Quiescence

Completion empties the queue, and a run of a workflow that has completed does no work any more. So what
is queued afterwards stays there: it is the completions that came too late and that the host had
queued. While there is none, the workflow can be captured.
-/

namespace Workflow

namespace WorkQueue

theorem length_work (q : WorkQueue) : q.work.length = q.size :=
  List.length_map _

theorem size_push (q : WorkQueue) (w : WorkItem) (p : Priority) : (q.push w p).size = q.size + 1 := by
  rw [← length_work, ← length_work, (q.work_push_perm w p).length_eq, List.length_cons]

theorem size_eq_zero_iff {q : WorkQueue} : q.size = 0 ↔ q.work = [] := by
  rw [← length_work, List.length_eq_zero_iff]

end WorkQueue

namespace HostOperation

/-- The completions that operations queue after the workflow has completed. -/
def late (e : Executor) : List HostOperation → List OperationCompletion
  | [] => []
  | op :: rest => (if e.state.isCompleted then op.drained e else []) ++ late (op.after e) rest

end HostOperation

namespace Executor

open HostOperation (afterAll late)

variable {e e' : Executor} {op : HostOperation} {now : Timestamp}

/-- How many items are queued though the workflow has completed. -/
def backlog (e : Executor) : Nat :=
  if e.state.isCompleted then e.queue.size else 0

theorem size_queueAll (q : WorkQueue) (news : List OperationCompletion) :
    (queueAll q news).size = q.size + news.length := by
  induction news generalizing q with
  | nil => rfl
  | cons n rest ih =>
    have step : (queueAll q (n :: rest)).size = (q.push (.operation n.operation n.result)).size +
        rest.length := ih _
    rw [step, WorkQueue.size_push, List.length_cons]
    omega

/-! ### Completion empties the queue -/

/-- A piece of work completes the workflow and empties the queue, or it leaves the workflow open. -/
theorem Proper.concluded_or_open (h : e.Proper) : e.Concluded ∨ e.state.isCompleted = false := by
  cases h with
  | inl h => exact .inr (by rw [h.running]; rfl)
  | inr h => exact .inl h

/-- A workflow that has no outcome becomes idle. -/
theorem settle_open (ho : e.outcome = none) : e.settle.2.state.isCompleted = false := by
  rw [settle_of_none ho]
  split
  · next hi => rw [hi]; rfl
  · rfl

theorem Proper.settle_concluded_or_open (h : e.Proper) :
    e.settle.2.Concluded ∨ e.settle.2.state.isCompleted = false := by
  cases h with
  | inl h => exact .inr (settle_open h.opened)
  | inr h => exact .inl (h.settle.symm ▸ h)

/-- What becomes of an open workflow in a run. -/
theorem Regular.run_concluded_or_open (h : e.Regular) (hc : e.state.isCompleted = false) (limit : Nat) :
    (e.run limit).2.Concluded ∨ (e.run limit).2.state.isCompleted = false := by
  have still : e.announce.state.isCompleted = false := sameCore_announce.state.symm ▸ hc
  have ran := e.ran limit
  generalize e.run limit = r at ran ⊢
  cases ran with
  | refused _ => exact .inr hc
  | ended _ _ | unsettled _ _ _ => exact .inr still
  | settled ha ho hd hs =>
    have settled := (drainQueue_proper (.inl (h.enter ho ha)) hd).1.settle_concluded_or_open
    rw [hs] at settled
    exact settled

/-- What becomes of an open workflow when one item is done. -/
theorem Regular.runOneStep_concluded_or_open (h : e.Regular) (hc : e.state.isCompleted = false) :
    e.runOneStep.2.Concluded ∨ e.runOneStep.2.state.isCompleted = false := by
  have announced : e.announce.Regular := sameCore_announce.regular h
  have ran := e.ranOnce
  generalize e.runOneStep = r at ran ⊢
  cases ran with
  | refused _ => exact .inr hc
  | ended _ _ => exact .inr (sameCore_announce.state.symm ▸ hc)
  | unemployed _ ho _ => exact .inr (settle_open ho)
  | settled ha ho hs _ => exact (announced.step ho ha hs).settle_concluded_or_open
  | working _ _ _ _ _ => exact .inr rfl
  | completed ha ho hs _ _ => exact (announced.step ho ha hs).concluded_or_open

/-- A call completes an open workflow and empties the queue, or it leaves the workflow open. -/
theorem Regular.serve_concluded_or_open (h : e.Regular) (hc : e.state.isCompleted = false)
    (c : ExecutorCall) :
    (c.serve e).2.Concluded ∨ (c.serve e).2.state.isCompleted = false := by
  cases c with
  | run limit => exact h.run_concluded_or_open hc limit
  | runOneStep => exact h.runOneStep_concluded_or_open hc
  | resumeBookmark b v p =>
    right
    rw [ExecutorCall.serve]
    unfold Executor.resumeBookmark
    split
    · exact hc
    · split
      · exact hc
      · dsimp only
        split
        · rfl
        · exact hc
  | cancel =>
    rw [ExecutorCall.serve]
    unfold Executor.cancelWorkflow
    split
    · exact .inr hc
    · next hok =>
      split
      · exact .inr rfl
      · next hx => exact (h.cancelUnexecuted hok hx).proper.concluded_or_open
  | terminate reason =>
    rw [ExecutorCall.serve]
    unfold Executor.terminate
    split
    · exact .inr hc
    · next hok =>
      have known : (e.definition.get? NodeId.root).isSome = true := rfl
      exact .inl ((h.open_of_accepting hok).faultRoot known).1
  | abort reason =>
    right
    have aborted : (e.abort reason).state = .aborted := (abort_spec e reason).1
    rw [ExecutorCall.serve, aborted]
    rfl
  | drainInbox =>
    right
    rw [ExecutorCall.serve, Executor.drainInbox]
    dsimp only
    split
    · rfl
    · exact hc
  | complete operation result =>
    exact .inr ((sameCore_completeHandle _ _).state.symm ▸ hc)
  | listBookmarks | track | takeJournal | takeHandles | takePersistRequest | withExtensions
    | withTracking => exact .inr hc

/-! ### What is queued afterwards -/

/-- An operation on an open workflow leaves no backlog. -/
theorem Regular.backlog_of_open (h : e.Regular) (hc : e.state.isCompleted = false)
    (op : HostOperation) : (op.after e).backlog = 0 := by
  have opened : ∀ {e' : Executor}, e'.state.isCompleted = false → e'.backlog = 0 := fun ho => by
    rw [backlog, ho]
    rfl
  cases op with
  | capture now => exact opened hc
  | save store s owner unlock =>
    have same : SameCore e (e.save store s owner unlock).2.1 := sameCore_save store s owner unlock
    exact opened (same.state.symm ▸ hc)
  | call c =>
    rcases h.serve_concluded_or_open hc c with hd | ho
    · have empty : (c.serve e).2.queue.size = 0 := WorkQueue.size_eq_zero_iff.mpr hd.work
      rw [HostOperation.after, backlog, empty, ite_self]
    · exact opened ho

/-- The backlog grows by what an operation drains after the workflow has completed. -/
theorem Regular.backlog_after (h : e.Regular) (hn : op.isAbort = false) :
    (op.after e).backlog =
      e.backlog + (if e.state.isCompleted then op.drained e else []).length := by
  cases hc : e.state.isCompleted with
  | true =>
    have hf : e.state.isFinal = true := by rw [WorkflowState.isFinal, hc, Bool.true_or]
    have still := h.after_final hf (.inl hn)
    have size : (op.after e).queue.size = e.queue.size + (op.drained e).length := by
      rw [still.queue, size_queueAll]
    rw [backlog, backlog, still.state, hc, size]
    rfl
  | false =>
    have none : e.backlog = 0 := by
      rw [backlog, hc]
      rfl
    rw [h.backlog_of_open hc, none]
    rfl

/-- The backlog grows by what operations drain after the workflow has completed. -/
theorem Regular.backlog_afterAll (h : e.Regular) {ops : List HostOperation}
    (hn : ∀ op ∈ ops, op.isAbort = false) :
    (afterAll e ops).Regular ∧ (afterAll e ops).backlog = e.backlog + (late e ops).length := by
  induction ops generalizing e with
  | nil => exact ⟨h, rfl⟩
  | cons op rest ih =>
    obtain ⟨regular, total⟩ := ih (h.after op) fun op hm => hn op (List.mem_cons_of_mem _ hm)
    have first := h.backlog_after (hn op List.mem_cons_self)
    refine ⟨regular, ?_⟩
    rw [afterAll, total, first, late, List.length_append]
    omega

section Finished

variable (h : e.Finished)
include h

theorem Finished.backlog_eq : e.backlog = e.queue.size :=
  if_pos h.isCompleted

/-- A finished workflow has runnable work if something came too late. -/
theorem Finished.hasRunnableWork_iff : e.hasRunnableWork = true ↔ e.backlog ≠ 0 := by
  have empty : e.queue.isEmpty = true ↔ e.backlog = 0 := by
    rw [h.backlog_eq, WorkQueue.size_eq_zero_iff, WorkQueue.isEmpty_iff]
  rw [hasRunnableWork, WorkQueue.hasWork, Bool.not_eq_true', ← Bool.not_eq_true]
  exact not_congr empty

/-- A finished workflow can be captured unless something came too late. -/
theorem Finished.capture_iff : (∃ s, e.capture now = .ok s) ↔ e.backlog = 0 := by
  rw [h.backlog_eq, WorkQueue.size_eq_zero_iff]
  constructor
  · rintro ⟨s, hs⟩
    exact (Regular.of_capture (.finished h) hs).2.1
  · intro hw
    have free : e.operations.size = 0 := by
      rw [h.operations]
      rfl
    exact capture_ok h.tree (ensureCapturable_ok (h.state_ne rfl) (h.state_ne rfl) hw free)

end Finished

/-- Whatever a host does but abort, the queue of a workflow that has completed holds the completions
that were queued after it had completed, and nothing else. It has runnable work if there is one, and it
can be captured if there is none. -/
theorem Reachable.queue_late (h : e.Reachable) (ops : List HostOperation)
    (hn : ∀ op ∈ ops, op.isAbort = false) :
    (afterAll e ops).backlog = e.backlog + (late e ops).length ∧
      ((afterAll e ops).state.isCompleted = true →
        (afterAll e ops).queue.size = (afterAll e ops).backlog ∧
        (∀ w ∈ (afterAll e ops).queue.work, ∃ operation result, w = .operation operation result) ∧
        ((afterAll e ops).hasRunnableWork = true ↔ (afterAll e ops).backlog ≠ 0) ∧
        ∀ now : Timestamp,
          (∃ s, (afterAll e ops).capture now = .ok s) ↔ (afterAll e ops).backlog = 0) := by
  obtain ⟨regular, total⟩ := h.regular.backlog_afterAll hn
  refine ⟨total, fun hc => ?_⟩
  have finished := regular.finished_of_completed hc
  exact ⟨finished.backlog_eq.symm, finished.late, finished.hasRunnableWork_iff,
    fun _ => finished.capture_iff⟩

/-- A workflow is terminated while an operation is outstanding, which is completed then. -/
def outlived : List HostOperation :=
  [.call (.run 5), .call (.terminate "stop"), .call (.complete ⟨1⟩ (.ok .null)), .call (.run 5)]

/-- The terminated workflow can be captured until its host queues the completion. -/
theorem queue_late_outlived :
    (∃ s, (afterAll (begun (.pending "call")) outlived).capture ⟨0, 0⟩ = .ok s) ∧
      ¬ ∃ s, (afterAll (begun (.pending "call"))
        (outlived ++ [.call .drainInbox])).capture ⟨0, 0⟩ = .ok s := by
  have h : (begun (.pending "call")).Reachable := .begun rfl rfl
  obtain ⟨none, ended⟩ := h.queue_late outlived (by decide)
  obtain ⟨one, queued⟩ := h.queue_late (outlived ++ [.call .drainInbox]) (by decide)
  obtain ⟨-, -, -, captured⟩ := ended (by decide +kernel)
  obtain ⟨-, -, -, refused⟩ := queued (by decide +kernel)
  constructor
  · rw [captured ⟨0, 0⟩, none]
    decide +kernel
  · rw [refused ⟨0, 0⟩, one]
    decide +kernel

/-- A workflow that has completed need not stay without work, and then it cannot be captured. -/
theorem not_always_quiet : ¬ ∀ e : Executor, e.Reachable → e.state.isCompleted = true →
    e.hasRunnableWork = false → ∀ ops : List HostOperation, (∀ op ∈ ops, op.isAbort = false) →
      (afterAll e ops).hasRunnableWork = false ∧
        ((afterAll e ops).capture ⟨0, 0⟩).isOk = true := by
  intro quiet
  have h : (ExecutorCall.converse (begun (.pending "call")) [.run 5, .terminate "stop"]).2.Reachable :=
    (Reachable.begun rfl rfl).converse _
  have still := quiet _ h (by decide +kernel) (by decide +kernel)
    [.call (.complete ⟨1⟩ (.ok .null)), .call .drainInbox, .call (.run 5)] (by decide)
  exact absurd still.1 (by decide +kernel)

end Executor

end Workflow
