import Workflow.Proofs.Possession
import Workflow.Proofs.TwinWork
import Workflow.Store.Persist

/-!
# Final states

When a workflow completes nothing is left but its root, and when it is aborted nothing is left at all.
No operation of the host gives it another outcome then. Only an abort changes its state once more.
-/

namespace Workflow

/-- What a host may do with an executor. -/
inductive HostOperation where
  /-- Call the executor. -/
  | call (c : ExecutorCall)
  /-- Capture the workflow. -/
  | capture (now : Timestamp)
  /-- Save the workflow to a store, releasing it if asked to. -/
  | save (store : Store) (s : Surroundings) (owner : OwnerId) (unlock : Bool)

namespace HostOperation

/-- Whether the workflow is torn down. -/
def isAbort : HostOperation → Bool
  | call (.abort _) => true
  | _ => false

/-- The executor after an operation. -/
def after (e : Executor) : HostOperation → Executor
  | call c => (c.serve e).2
  | capture _ => e
  | save store s owner unlock => (e.save store s owner unlock).2.1

/-- The completions that an operation queues and leaves for a run. -/
def drained (e : Executor) : HostOperation → List OperationCompletion
  | call .drainInbox => e.inbox
  | _ => []

/-- The executor after several operations. -/
def afterAll (e : Executor) : List HostOperation → Executor
  | [] => e
  | op :: rest => afterAll (op.after e) rest

end HostOperation

namespace Executor

open HostOperation (afterAll)

variable {e : Executor} {r : Instance} {o : Outcome} {op : HostOperation}

/-! ### What is left -/

/-- How a workflow and its root have ended together. -/
inductive Ended (e : Executor) (r : Instance) : Prop
  /-- The root closed, with its result and the values of its outgoing arguments. -/
  | closed (hs : e.state = .closed) (hr : r.state = .closed)
      (ho : e.outcome = some (.completed r.result e.outputs))
  /-- The root was canceled. -/
  | canceled (hs : e.state = .canceled) (hr : r.state = .canceled)
      (ho : e.outcome = some .canceled)
  /-- The root faulted. -/
  | faulted {f : Fault} (hs : e.state = .faulted) (hr : r.state = .faulted)
      (hf : r.fault = some f) (ho : e.outcome = some (.faulted f))

/-- A workflow whose state and outcome follow from its root has ended as the root has. -/
theorem ended_of_ending {event : LifecycleEvent} (he : e.ending? = some (e.state, o, event))
    (ho : e.outcome = some o) (hr : e.instances[e.root]? = some r) : e.Ended r := by
  rw [ending?, instance?, hr, Option.bind_some] at he
  split at he
  · next hr =>
    obtain ⟨hs, hrest⟩ := Prod.mk.inj (Option.some.inj he)
    exact .closed hs.symm hr (ho.trans (congrArg some (Prod.mk.inj hrest).1.symm))
  · next hr =>
    obtain ⟨hs, hrest⟩ := Prod.mk.inj (Option.some.inj he)
    exact .canceled hs.symm hr (ho.trans (congrArg some (Prod.mk.inj hrest).1.symm))
  · next hr =>
    obtain ⟨f, hf, hrest⟩ := Option.map_eq_some_iff.mp he
    obtain ⟨hs, hrest⟩ := Prod.mk.inj hrest
    exact .faulted hs.symm hr hf (ho.trans (congrArg some (Prod.mk.inj hrest).1.symm))
  · exact absurd he.symm (Option.some_ne_none _)

/-- The end of a workflow that has ended as its root follows from the root. -/
theorem Ended.exists_ending (h : e.Ended r) (hr : e.instances[e.root]? = some r) :
    ∃ x, e.ending? = some x := by
  refine (exists_ending_iff hr).mpr ?_
  cases h with
  | closed _ hs _ =>
    rw [hs]
    exact ⟨rfl, ActivityState.noConfusion⟩
  | canceled _ hs _ =>
    rw [hs]
    exact ⟨rfl, ActivityState.noConfusion⟩
  | faulted _ hs hf _ =>
    rw [hs, hf]
    exact ⟨rfl, fun _ => rfl⟩

/-- The workflow has ended as its root has. -/
theorem Finished.ended_root (h : e.Finished) (hr : e.instances[e.root]? = some r) : e.Ended r := by
  obtain ⟨o, event, he, ho⟩ := h.ending
  exact ended_of_ending he ho hr

/-- The root is the only instance of a finished workflow. -/
theorem Finished.instances_eq (h : e.Finished) (hr : e.instances[e.root]? = some r) :
    e.instances = (∅ : InstanceTable).insert e.root r := by
  refine Std.ExtTreeMap.ext_getElem? fun k => ?_
  rw [Table.lookup_insert]
  split
  · next hk => rw [← hk, hr]
  · next hk =>
    cases hi : e.instances[k]? with
    | none => simp
    | some i => exact absurd (h.eq_root hi).symm hk

/-- An executor whose workflow has completed is finished. -/
theorem Regular.finished_of_completed (h : e.Regular) (hc : e.state.isCompleted = true) :
    e.Finished := by
  cases h with
  | finished h => exact h
  | working h => rw [h.running] at hc; exact absurd hc Bool.false_ne_true
  | resting h => rw [h.state] at hc; exact absurd hc Bool.false_ne_true
  | aborted h => rw [h.state] at hc; exact absurd hc Bool.false_ne_true

/-- When a workflow has completed, its root is the only instance, has ended like the workflow and has
no children. No bookmark, scope or operation is left, so that no bookmark can be resumed. -/
theorem Reachable.nothing_left (h : e.Reachable) (hc : e.state.isCompleted = true) :
    (∃ r, e.instances = (∅ : InstanceTable).insert e.root r ∧ e.Ended r ∧ r.children = []) ∧
      e.bookmarks = {} ∧ e.operations = ∅ ∧
      ∀ (b : Bookmark) (v : Value) (p : Priority), e.resumeBookmark b v p = (.notFound, e) := by
  have hf : e.Finished := h.regular.finished_of_completed hc
  obtain ⟨r, hr, -⟩ := hf.tree.rooted
  have childless : r.children = [] := (hf.tree.sound hr).childless (hf.ended hr)
  exact ⟨⟨r, hf.instances_eq hr, hf.ended_root hr, childless⟩, hf.bookmarks, hf.operations,
    hf.resumeBookmark⟩

/-- The workflow of a keeper and a pending operation was terminated: only the root is left. -/
theorem nothing_left_dispossessed : holders.instances.size = 3 ∧ holders.bookmarks.size = 1 ∧
    holders.bookmarks.scopes.size = 1 ∧ holders.operations.size = 1 ∧
    dispossessed.state = .faulted ∧
    (∃ r, dispossessed.instances = (∅ : InstanceTable).insert dispossessed.root r ∧
      dispossessed.Ended r ∧ r.children = []) ∧
    dispossessed.bookmarks = {} ∧ dispossessed.operations = ∅ ∧
    dispossessed.resumeBookmark ⟨.default, "keeper"⟩ .null .normal = (.notFound, dispossessed) := by
  have h : dispossessed.Reachable := ((Reachable.begun rfl rfl).converse _).served _
  have hc : dispossessed.state.isCompleted = true := by decide +kernel
  obtain ⟨alone, bookmarks, operations, unknown⟩ := h.nothing_left hc
  exact ⟨by decide +kernel, by decide +kernel, by decide +kernel, by decide +kernel,
    by decide +kernel, alone, bookmarks, operations, unknown _ _ _⟩

/-! ### What changes no more -/

/-- A workflow in a final state has completed or was aborted. -/
theorem Regular.final_cases (h : e.Regular) (hf : e.state.isFinal = true) :
    e.Finished ∨ e.Aborted := by
  cases h with
  | finished h => exact .inl h
  | aborted h => exact .inr h
  | working h => rw [h.running] at hf; exact absurd hf Bool.false_ne_true
  | resting h => rw [h.state] at hf; exact absurd hf Bool.false_ne_true

/-- A workflow that was aborted is not run. -/
theorem run_of_aborted (ha : e.state = .aborted) (limit : Nat) :
    e.run limit = (.error (.contract (.workflowAborted e.workflow)), e) := by
  rw [run, ensureNotAborted, if_pos ha]

theorem runOneStep_of_aborted (ha : e.state = .aborted) :
    e.runOneStep = (.error (.contract (.workflowAborted e.workflow)), e) := by
  rw [runOneStep, ensureNotAborted, if_pos ha]

/-- A run of a finished workflow gives its outcome. -/
theorem Finished.run (h : e.Finished) (ho : e.outcome = some o) (limit : Nat) :
    e.run limit = (.ok o, e.announce) :=
  run_of_some (if_neg (h.state_ne rfl)) (sameCore_announce.outcome.trans ho)

theorem Finished.runOneStep (h : e.Finished) : e.runOneStep = (.ok false, e.announce) := by
  have present : e.ensureNotAborted = .ok () := if_neg (h.state_ne rfl)
  have ended : e.announce.outcome.isSome = true := by
    rw [sameCore_announce.outcome]
    exact Option.isSome_iff_ne_none.mpr h.outcome_ne
  rw [Executor.runOneStep, present]
  exact if_pos ended

/-- A workflow in a final state is neither canceled nor terminated. -/
theorem not_accepting_of_final (hf : e.state.isFinal = true) : e.ensureAccepting ≠ .ok () := by
  intro hok
  obtain ⟨ha, hc⟩ := accepting_of_ok hok
  rw [WorkflowState.isFinal, hc, Bool.false_or, beq_iff_eq] at hf
  exact ha hf

theorem cancelWorkflow_of_final (hf : e.state.isFinal = true) : e.cancelWorkflow.2 = e := by
  unfold Executor.cancelWorkflow
  split
  · rfl
  · next hok => exact absurd hok (not_accepting_of_final hf)

theorem terminate_of_final (hf : e.state.isFinal = true) (reason : String) :
    (e.terminate reason).2 = e := by
  unfold Executor.terminate
  split
  · rfl
  · next hok => exact absurd hok (not_accepting_of_final hf)

/-- An abort leaves the outcome. -/
theorem abort_spec (e : Executor) (reason : String) :
    (e.abort reason).state = .aborted ∧ (e.abort reason).outcome = e.outcome := by
  unfold Executor.abort
  split
  · next ha => exact ⟨ha, rfl⟩
  · exact ⟨rfl, (sameCore_callAbortHooks _ _).outcome⟩

/-- Saving a workflow changes nothing in it. -/
theorem sameCore_save (store : Store) (s : Surroundings) (owner : OwnerId) (unlock : Bool) :
    SameCore e (e.save store s owner unlock).2.1 := by
  unfold Executor.save
  split
  · exact .refl e
  · dsimp only
    split
    · exact .refl e
    · split <;> exact {}

/-- A run of a workflow in a final state does nothing. -/
theorem Regular.sameCore_run (h : e.Regular) (hf : e.state.isFinal = true) (limit : Nat) :
    SameCore e (e.run limit).2 := by
  rcases h.final_cases hf with h | h
  · obtain ⟨o, ho⟩ := Option.ne_none_iff_exists'.mp h.outcome_ne
    rw [h.run ho]
    exact sameCore_announce
  · rw [run_of_aborted h.state]
    exact .refl e

theorem Regular.sameCore_runOneStep (h : e.Regular) (hf : e.state.isFinal = true) :
    SameCore e e.runOneStep.2 := by
  rcases h.final_cases hf with h | h
  · rw [h.runOneStep]
    exact sameCore_announce
  · rw [runOneStep_of_aborted h.state]
    exact .refl e

/-- No bookmark of a workflow in a final state is resumed. -/
theorem Regular.resumeBookmark_of_final (h : e.Regular) (hf : e.state.isFinal = true) (b : Bookmark)
    (v : Value) (p : Priority) : (e.resumeBookmark b v p).2 = e := by
  rcases h.final_cases hf with h | h
  · rw [h.resumeBookmark]
  · rw [Executor.resumeBookmark, if_pos h.state]

/-- An operation on a workflow in a final state queues what it drains and changes nothing else, unless
it aborts a workflow that has completed. -/
theorem Regular.after_final (h : e.Regular) (hf : e.state.isFinal = true)
    (hn : op.isAbort = false ∨ e.state = .aborted) :
    SameCore { e with queue := queueAll e.queue (op.drained e) } (op.after e) := by
  cases op with
  | capture now => exact .refl e
  | save store s owner unlock => exact sameCore_save store s owner unlock
  | call c =>
    cases c with
    | run limit => exact h.sameCore_run hf limit
    | runOneStep => exact h.sameCore_runOneStep hf
    | resumeBookmark b v p => exact .of_eq (h.resumeBookmark_of_final hf b v p)
    | cancel => exact .of_eq (cancelWorkflow_of_final hf)
    | terminate reason => exact .of_eq (terminate_of_final hf reason)
    | abort reason =>
      have ha : e.state = .aborted := hn.resolve_left (Bool.false_ne_true ·.symm)
      exact .of_eq (if_pos ha)
    | complete operation result => exact sameCore_completeHandle _ _
    | drainInbox =>
      refine { state := ?_ }
      -- A drain wakes an idle workflow, which a final state is not.
      have busy : e.state ≠ .idle := fun hi => by
        rw [hi] at hf
        exact absurd hf Bool.false_ne_true
      exact if_neg fun hi => busy hi.2
    | track event => exact sameCore_track event
    | listBookmarks | takeJournal | takeHandles | takePersistRequest | withExtensions
      | withTracking => exact {}

/-- An operation on a workflow in a final state leaves the outcome, and the state unless it aborts. -/
theorem Regular.after_keeps (h : e.Regular) (hf : e.state.isFinal = true) (op : HostOperation) :
    (op.after e).outcome = e.outcome ∧
      (op.after e).state = if op.isAbort then .aborted else e.state := by
  cases hn : op.isAbort with
  | false =>
    have still := h.after_final hf (.inl hn)
    exact ⟨still.outcome, still.state⟩
  | true =>
    match op, hn with
    | .call (.abort reason), _ =>
      obtain ⟨hs, ho⟩ := abort_spec e reason
      exact ⟨ho, hs⟩

/-- Every operation leads from a regular executor to a regular one. -/
theorem Regular.after (h : e.Regular) (op : HostOperation) : (op.after e).Regular := by
  cases op with
  | call c => exact h.serve c
  | capture now => exact h
  | save store s owner unlock => exact (sameCore_save store s owner unlock).regular h

/-- Operations on a workflow in a final state leave the outcome, and the state unless one aborts. -/
theorem Regular.afterAll_keeps (h : e.Regular) (hf : e.state.isFinal = true)
    (ops : List HostOperation) :
    (afterAll e ops).Regular ∧ (afterAll e ops).outcome = e.outcome ∧
      (afterAll e ops).state = if ops.any (·.isAbort) then .aborted else e.state := by
  induction ops generalizing e with
  | nil => exact ⟨h, rfl, rfl⟩
  | cons op rest ih =>
    obtain ⟨ho, hs⟩ := h.after_keeps hf op
    have final : (op.after e).state.isFinal = true := by
      rw [hs]
      split
      · rfl
      · exact hf
    obtain ⟨regular, outcome, state⟩ := ih (h.after op) final
    refine ⟨regular, outcome.trans ho, state.trans ?_⟩
    rw [List.any_cons, hs]
    cases op.isAbort <;> simp

/-- In a final state no operation of the host changes the outcome, and only an abort changes the state.
A workflow that has completed has the same outcome on every run until it is aborted, and one that was
aborted is never run again. -/
theorem Reachable.final_absorbs (h : e.Reachable) (hf : e.state.isFinal = true)
    (ops : List HostOperation) :
    (afterAll e ops).outcome = e.outcome ∧
      (afterAll e ops).state = (if ops.any (·.isAbort) then .aborted else e.state) ∧
      ((afterAll e ops).state.isCompleted = true →
        ∃ o, e.outcome = some o ∧ ∀ limit, ((afterAll e ops).run limit).1 = .ok o) ∧
      ((afterAll e ops).state = .aborted →
        (∀ limit, (afterAll e ops).run limit =
          (.error (.contract (.workflowAborted (afterAll e ops).workflow)), afterAll e ops)) ∧
        (afterAll e ops).runOneStep =
          (.error (.contract (.workflowAborted (afterAll e ops).workflow)), afterAll e ops)) := by
  obtain ⟨regular, outcome, state⟩ := h.regular.afterAll_keeps hf ops
  refine ⟨outcome, state, fun hc => ?_, fun ha => ⟨run_of_aborted ha, runOneStep_of_aborted ha⟩⟩
  have finished := regular.finished_of_completed hc
  obtain ⟨o, ho⟩ := Option.ne_none_iff_exists'.mp finished.outcome_ne
  refine ⟨o, outcome.symm.trans ho, fun limit => ?_⟩
  rw [finished.run ho]

/-- A workflow whose root has closed. -/
def concluded : Executor :=
  ((ExecutorCall.run 1).serve (begun (.parallel []))).2

/-- Nothing changes the closed workflow but an abort. -/
theorem final_absorbs_concluded : concluded.state = .closed ∧
    (afterAll concluded [.call .cancel, .call (.complete ⟨1⟩ (.ok .null)), .call .drainInbox,
      .call (.terminate "late"), .call (.run 1)]).outcome = concluded.outcome ∧
    (afterAll concluded [.call .cancel, .call (.complete ⟨1⟩ (.ok .null)), .call .drainInbox,
      .call (.terminate "late"), .call (.run 1)]).state = .closed ∧
    (afterAll concluded [.call (.abort "late"), .call (.run 1)]).outcome = concluded.outcome := by
  have h : concluded.Reachable := (Reachable.begun rfl rfl).served _
  have hs : concluded.state = .closed := by decide +kernel
  have hf : concluded.state.isFinal = true := by rw [hs]; rfl
  obtain ⟨outcome, state, -⟩ := h.final_absorbs hf [.call .cancel,
    .call (.complete ⟨1⟩ (.ok .null)), .call .drainInbox, .call (.terminate "late"), .call (.run 1)]
  exact ⟨hs, outcome, state.trans hs, (h.final_absorbs hf [.call (.abort "late"), .call (.run 1)]).1⟩

/-- An abort is an operation that changes a final state. -/
theorem not_final_fixed : ¬ ∀ e : Executor, e.Reachable → e.state.isFinal = true →
    ∀ op : HostOperation, (op.after e).state = e.state ∧ (op.after e).outcome = e.outcome := by
  intro fixed
  have h : concluded.Reachable := (Reachable.begun rfl rfl).served _
  have hf : concluded.state.isFinal = true := by decide +kernel
  have kept : (concluded.abort "late").state = concluded.state :=
    (fixed concluded h hf (.call (.abort "late"))).1
  exact absurd kept (by decide +kernel)

end Executor

end Workflow
