import Workflow.Proofs.Dispatch

/-!
# The life of a workflow

Between two calls of its host an executor works, rests, has finished, or was aborted. Every call leads
from a regular executor to a regular one.
-/

namespace Workflow.Executor

variable {e e' : Executor} {X : InstanceId → Prop} {w : WorkItem}

/-- An executor whose workflow waits: nothing is queued. -/
structure Resting (e : Executor) : Prop where
  state : e.state = .idle
  work : e.queue.work = []
  consistent : Consistent { e with state := .runnable } Nobody

/-- An executor whose workflow was aborted: nothing is left. -/
structure Aborted (e : Executor) : Prop where
  state : e.state = .aborted
  instances : e.instances = ∅
  bookmarks : e.bookmarks = {}
  operations : e.operations = ∅
  sober : e.isOverdrawn = false

/-- The invariant of an executor between two calls of its host, or between two items of work. -/
inductive Regular (e : Executor) : Prop
  /-- Work may be queued. -/
  | working (h : e.Consistent Nobody)
  /-- The workflow waits. -/
  | resting (h : e.Resting)
  /-- The workflow has completed. -/
  | finished (h : e.Finished)
  /-- The workflow was torn down. -/
  | aborted (h : e.Aborted)

/-! ### What does not matter -/

theorem SameCore.ending? (h : SameCore e e') : e'.ending? = e.ending? := by
  rw [Executor.ending?, Executor.ending?, outputs, outputs, instance?, instance?, h.instances, h.root,
    h.definition]

theorem SameCore.runnable (h : SameCore e e') :
    SameCore { e with state := .runnable } { e' with state := .runnable } :=
  ⟨h.definition, h.instances, h.nextInstance, h.root, h.queue, h.bookmarks, h.operations,
    h.nextOperation, rfl, h.outcome, h.isOverdrawn⟩

theorem SameCore.finished (h : SameCore e e') (hf : e.Finished) : e'.Finished where
  tree := by
    rw [h.definition, h.root, h.nextInstance, h.instances]
    exact hf.tree
  ended := by
    rw [h.root, h.instances]
    exact hf.ended
  bookmarks := h.bookmarks.trans hf.bookmarks
  operations := h.operations.trans hf.operations
  ending := by
    rw [h.ending?, h.state, h.outcome]
    exact hf.ending
  sober := h.isOverdrawn.trans hf.sober
  late := by
    rw [h.queue]
    exact hf.late

theorem SameCore.resting (h : SameCore e e') (hr : e.Resting) : e'.Resting :=
  ⟨h.state.trans hr.state, by rw [h.queue]; exact hr.work, h.runnable.consistent hr.consistent⟩

theorem SameCore.regular (h : SameCore e e') : e.Regular → e'.Regular
  | .working hc => .working (h.consistent hc)
  | .resting hr => .resting (h.resting hr)
  | .finished hf => .finished (h.finished hf)
  | .aborted ha => .aborted ⟨h.state.trans ha.state, h.instances.trans ha.instances,
      h.bookmarks.trans ha.bookmarks, h.operations.trans ha.operations,
      h.isOverdrawn.trans ha.sober⟩

theorem Proper.regular : e.Proper → e.Regular
  | .inl h => .working h
  | .inr h => .finished h.toFinished

/-- A finished workflow has an outcome. -/
theorem Finished.outcome_ne (h : e.Finished) : e.outcome ≠ none := by
  obtain ⟨o, event, -, ho⟩ := h.ending
  rw [ho]
  exact Option.some_ne_none o

/-- A workflow that works is runnable already. -/
theorem Consistent.runnable (h : e.Consistent X) : Consistent { e with state := .runnable } X := by
  have same : SameCore e { e with state := .runnable } := { state := h.running.symm }
  exact same.consistent h

/-- A workflow without an outcome that was not aborted works or rests. -/
theorem Regular.open (h : e.Regular) (ho : e.outcome = none) (ha : e.state ≠ .aborted) :
    Consistent { e with state := .runnable } Nobody ∧
      (e.state = .runnable ∨ e.state = .idle ∧ e.queue.work = []) := by
  cases h with
  | working h => exact ⟨h.runnable, .inl h.running⟩
  | resting h => exact ⟨h.consistent, .inr ⟨h.state, h.work⟩⟩
  | finished h => exact absurd ho h.outcome_ne
  | aborted h => exact absurd h.state ha

/-- The instances of a regular executor form a tree, unless its workflow was aborted. -/
theorem Regular.tree (h : e.Regular) (ha : e.state ≠ .aborted) :
    IsTree e.definition e.root e.nextInstance e.instances := by
  cases h with
  | working h => exact h.placed.tree
  | resting h => exact h.consistent.placed.tree
  | finished h => exact h.tree
  | aborted h => exact absurd h.state ha

/-- The instances of a regular executor form a tree, if there are any. -/
theorem Regular.tree_of_lookup (h : e.Regular) {k : InstanceId} {i : Instance}
    (hi : e.instances[k]? = some i) :
    IsTree e.definition e.root e.nextInstance e.instances := by
  cases h with
  | working h => exact h.placed.tree
  | resting h => exact h.consistent.placed.tree
  | finished h => exact h.tree
  | aborted h =>
    rw [h.instances] at hi
    simp at hi

/-- Whatever is owned in a regular executor has a live owner. -/
theorem Regular.owned (h : e.Regular) : e.Owned := by
  cases h with
  | working h => exact h.owned
  | resting h =>
    obtain ⟨h1, h2, h3, h4, h5⟩ := h.consistent.owned
    exact ⟨h1, h2, h3, h4, h5⟩
  | finished h =>
    constructor
    all_goals simp [h.bookmarks, h.operations]
  | aborted h =>
    constructor
    all_goals simp [h.bookmarks, h.operations]

/-! ### Work -/

/-- The queue after the news of completed operations have been added. -/
def queueAll (q : WorkQueue) (news : List OperationCompletion) : WorkQueue :=
  news.foldl (fun (q : WorkQueue) n => q.push (.operation n.operation n.result)) q

/-- Arrived completions are queued. -/
theorem Consistent.queueAll (h : e.Consistent X) (news : List OperationCompletion) :
    Consistent { e with queue := Executor.queueAll e.queue news } X := by
  induction news generalizing e with
  | nil => exact h
  | cons n rest ih =>
    have hn : Follows e X (e.enqueue (.operation n.operation n.result)) :=
      .enqueue h rfl fun _ => rfl
    exact ih hn.consistent

/-- A workflow goes on as it was when completions are queued. -/
theorem Consistent.drainInbox (h : e.Consistent X) : e.drainInbox.2.Consistent X := by
  have hs : SameCore { e with queue := Executor.queueAll e.queue e.inbox } e.drainInbox.2 := by
    refine { state := ?_ }
    rw [Executor.drainInbox, h.running]
    exact ite_self _
  exact hs.consistent (h.queueAll e.inbox)

/-- Work begins when completions arrive at a workflow that waits. -/
theorem Resting.drainInbox (h : e.Resting) : e.drainInbox.2.Regular := by
  cases hi : e.inbox with
  | nil =>
    have hs : SameCore e e.drainInbox.2 := by
      rw [Executor.drainInbox, hi]
      exact {}
    exact .resting (hs.resting h)
  | cons n rest =>
    have he : e.drainInbox.2 = (Executor.drainInbox { e with state := .runnable }).2 := by
      rw [Executor.drainInbox, Executor.drainInbox, hi, h.state]
      rfl
    rw [he]
    exact .working h.consistent.drainInbox

/-- What is queued when completions are queued. -/
theorem of_mem_work_queueAll {q : WorkQueue} (news : List OperationCompletion)
    (hw : w ∈ (queueAll q news).work) :
    w ∈ q.work ∨ ∃ n ∈ news, w = .operation n.operation n.result := by
  induction news generalizing q with
  | nil => exact .inl hw
  | cons n rest ih =>
    rcases ih hw with hw | ⟨m, hm, rfl⟩
    · exact (WorkQueue.mem_work_push.mp hw).symm.imp_right fun hw => ⟨n, List.mem_cons_self, hw⟩
    · exact .inr ⟨m, List.mem_cons_of_mem n hm, rfl⟩

/-- The host may queue the completions that have arrived. -/
theorem Regular.drainInbox (h : e.Regular) : e.drainInbox.2.Regular := by
  have calm : e.state ≠ .idle → e.drainInbox.2.state = e.state := by
    intro hs
    rw [Executor.drainInbox]
    exact if_neg fun hi => hs hi.2
  cases h with
  | working h => exact .working h.drainInbox
  | resting h => exact h.drainInbox
  | finished h =>
    have hs : e.drainInbox.2.state = e.state := calm (h.state_ne rfl)
    refine .finished ⟨h.tree, h.ended, h.bookmarks, h.operations, ?_, h.sober, fun w hw => ?_⟩
    · rw [hs]
      exact h.ending
    · rcases of_mem_work_queueAll e.inbox hw with hw | ⟨n, -, rfl⟩
      · exact h.late w hw
      · exact ⟨n.operation, n.result, rfl⟩
  | aborted h =>
    have hs : e.drainInbox.2.state = e.state := calm fun hi => by
      rw [h.state] at hi
      exact WorkflowState.noConfusion hi
    exact .aborted ⟨hs.trans h.state, h.instances, h.bookmarks, h.operations, h.sober⟩

/-- Nothing is lost when completions are queued. -/
theorem mem_work_queueAll {q : WorkQueue} {w : WorkItem} (news : List OperationCompletion)
    (hw : w ∈ q.work) : w ∈ (queueAll q news).work := by
  induction news generalizing q with
  | nil => exact hw
  | cons n rest ih => exact ih (WorkQueue.mem_work_push.mpr (.inr hw))

/-- Arrived completions are in the queue afterwards. -/
theorem queueAll_ne_nil {q : WorkQueue} (n : OperationCompletion) (rest : List OperationCompletion) :
    (queueAll q (n :: rest)).work ≠ [] := by
  have hm : WorkItem.operation n.operation n.result ∈ (queueAll q (n :: rest)).work :=
    mem_work_queueAll rest (WorkQueue.mem_work_push.mpr (.inl rfl))
  exact List.ne_nil_of_mem hm

/-- A step does the next item of the queue with what has arrived. -/
theorem step?_eq (e : Executor) : e.step? = e.drainInbox.2.queue.pop?.map fun next =>
    Executor.dispatch { e.drainInbox.2 with queue := next.2 } next.1 := by
  unfold step?
  generalize e.drainInbox = d
  obtain ⟨n, d⟩ := d
  dsimp only
  cases d.queue.pop? <;> rfl

/-- If there is no next item, nothing waits and nothing has arrived. -/
theorem of_step?_none (h : e.step? = none) : e.inbox = [] ∧ e.queue.work = [] := by
  rw [step?_eq, Option.map_eq_none_iff] at h
  have hw : (queueAll e.queue e.inbox).work = [] := WorkQueue.work_of_pop?_none h
  cases hi : e.inbox with
  | nil =>
    rw [hi] at hw
    exact ⟨rfl, hw⟩
  | cons n rest =>
    rw [hi] at hw
    exact absurd hw (queueAll_ne_nil n rest)

/-- A workflow that goes on works when something is queued after completions have arrived. -/
theorem Regular.drained (h : e.Regular) (ho : e.outcome = none) (ha : e.state ≠ .aborted)
    (hw : e.drainInbox.2.queue.work ≠ []) : e.drainInbox.2.Consistent Nobody := by
  cases h.drainInbox with
  | working h => exact h
  | resting h => exact absurd h.work hw
  | finished h => exact absurd ho h.outcome_ne
  | aborted h =>
    have hs := h.state
    rw [Executor.drainInbox] at hs
    split at hs
    · exact WorkflowState.noConfusion hs
    · exact absurd hs ha

/-- One item that is done leads to a proper executor. -/
theorem Regular.step (h : e.Regular) (ho : e.outcome = none) (ha : e.state ≠ .aborted)
    (hs : e.step? = some e') : e'.Proper := by
  rw [step?_eq, Option.map_eq_some_iff] at hs
  obtain ⟨⟨w, q⟩, hq, rfl⟩ := hs
  have hw := WorkQueue.work_of_pop? hq
  exact ((h.drained ho ha (by rw [hw]; exact List.cons_ne_nil w _)).dispatch hw).proper

/-- What every item keeps is kept while items are done, until none waits or the workflow has
completed. -/
theorem drainQueue_keeps {P : Executor → Prop} {limit : Nat} (h : P e)
    (item : ∀ {m n : Executor}, P m → m.outcome = none → m.step? = some n → P n)
    (hs : drainQueue limit e = some e') : P e' ∧ (e'.outcome = none → e'.step? = none) := by
  induction limit generalizing e with
  | zero =>
    unfold drainQueue at hs
    split at hs
    · next ho =>
      cases hs
      exact ⟨h, fun hn => by rw [hn] at ho; exact absurd ho Bool.false_ne_true⟩
    · cases hst : e.step? with
      | none =>
        rw [hst] at hs
        cases hs
        exact ⟨h, fun _ => hst⟩
      | some e₁ =>
        rw [hst] at hs
        exact absurd hs (Option.some_ne_none e').symm
  | succ limit ih =>
    unfold drainQueue at hs
    split at hs
    · next ho =>
      cases hs
      exact ⟨h, fun hn => by rw [hn] at ho; exact absurd ho Bool.false_ne_true⟩
    · next ho =>
      cases hst : e.step? with
      | none =>
        rw [hst] at hs
        cases hs
        exact ⟨h, fun _ => hst⟩
      | some e₁ =>
        rw [hst] at hs
        exact ih (item h (by simpa using ho) hst) hs

/-- A workflow that works was not aborted. -/
theorem Proper.not_aborted (h : e.Proper) : e.state ≠ .aborted := by
  intro ha
  cases h with
  | inl h => exact WorkflowState.noConfusion (h.running.symm.trans ha)
  | inr h => exact h.state_ne rfl ha

/-- Items are done until none waits or the workflow has completed. -/
theorem drainQueue_proper {limit : Nat} (h : e.Proper) (hs : drainQueue limit e = some e') :
    e'.Proper ∧ (e'.outcome = none → e'.queue.work = []) := by
  obtain ⟨proper, done⟩ := drainQueue_keeps (P := Proper) h
    (fun hm ho hst => hm.regular.step ho hm.not_aborted hst) hs
  exact ⟨proper, fun ho => (of_step?_none (done ho)).2⟩

/-- A workflow that works and has nothing queued comes to rest. -/
theorem Consistent.settle (h : e.Consistent Nobody) (hw : e.queue.work = []) :
    e.settle.2.Resting := by
  have hs : e.settle.2 = trackLifecycle { e with state := .idle } .idle := by
    rw [Executor.settle, h.opened, h.running]
    rfl
  rw [hs]
  have hc : SameCore e { trackLifecycle { e with state := .idle } .idle with state := .runnable } :=
    { state := h.running.symm }
  exact ⟨rfl, hw, hc.consistent h⟩

/-- A finished workflow stays as it is when work ends. -/
theorem Finished.settle (h : e.Finished) : e.settle.2 = e := by
  obtain ⟨o, event, -, ho⟩ := h.ending
  rw [Executor.settle, ho]

/-- A workflow that has come to an end or has nothing queued settles. -/
theorem Proper.settle (h : e.Proper) (hw : e.outcome = none → e.queue.work = []) :
    e.settle.2.Regular := by
  cases h with
  | inl h => exact .resting (h.settle (hw h.opened))
  | inr h => exact h.settle.symm ▸ .finished h.toFinished

/-- A workflow may be worked on unless it was aborted. -/
theorem not_aborted_of_ok (h : e.ensureNotAborted = .ok ()) : e.state ≠ .aborted := by
  unfold ensureNotAborted at h
  split at h
  · cases h
  · assumption

/-! ### Runs -/

/-- How a run ends. -/
inductive Ran (e : Executor) (limit : Nat) : Except EngineError Outcome × Executor → Prop
  /-- The workflow was aborted. -/
  | refused (ha : e.state = .aborted) :
      Ran e limit (.error (.contract (.workflowAborted e.workflow)), e)
  /-- The workflow has an outcome already. -/
  | ended {o : Outcome} (ha : e.announce.state ≠ .aborted) (ho : e.announce.outcome = some o) :
      Ran e limit (.ok o, e.announce)
  /-- Work is left when the limit is reached. -/
  | unsettled (ha : e.announce.state ≠ .aborted) (ho : e.announce.outcome = none)
      (hd : drainQueue limit { e.announce with state := .runnable } = none) :
      Ran e limit (.error (.unsettled limit), e.announce)
  /-- The work is done. -/
  | settled {m n : Executor} {o : Outcome} (ha : e.announce.state ≠ .aborted)
      (ho : e.announce.outcome = none)
      (hd : drainQueue limit { e.announce with state := .runnable } = some m)
      (hs : m.settle = (o, n)) : Ran e limit (.ok o, n)

/-- Every run ends in one of these ways. -/
theorem ran (e : Executor) (limit : Nat) : e.Ran limit (e.run limit) := by
  by_cases ha : e.state = .aborted
  · rw [run, ensureNotAborted, if_pos ha]
    exact .refused ha
  · have present : e.announce.state ≠ .aborted := sameCore_announce.state.symm ▸ ha
    rw [run, ensureNotAborted, if_neg ha]
    dsimp only
    split
    · next o ho => exact .ended present ho
    · next ho =>
      split
      · next hd => exact .unsettled present ho hd
      · next m hd => exact .settled present ho hd rfl

/-- What one step comes to. -/
inductive RanOnce (e : Executor) : Except EngineError Bool × Executor → Prop
  /-- The workflow was aborted. -/
  | refused (ha : e.state = .aborted) :
      RanOnce e (.error (.contract (.workflowAborted e.workflow)), e)
  /-- The workflow has an outcome already. -/
  | ended (ha : e.announce.state ≠ .aborted) (ho : e.announce.outcome ≠ none) :
      RanOnce e (.ok false, e.announce)
  /-- There is no item to do. -/
  | unemployed (ha : e.announce.state ≠ .aborted) (ho : e.announce.outcome = none)
      (hs : e.announce.step? = none) : RanOnce e (.ok false, e.announce.settle.2)
  /-- The last item is done. -/
  | settled {m : Executor} (ha : e.announce.state ≠ .aborted) (ho : e.announce.outcome = none)
      (hs : e.announce.step? = some m) (hw : m.queue.work = []) : RanOnce e (.ok true, m.settle.2)
  /-- An item is done and others wait. -/
  | working {m : Executor} (ha : e.announce.state ≠ .aborted) (ho : e.announce.outcome = none)
      (hs : e.announce.step? = some m) (hw : m.queue.work ≠ []) (hn : m.outcome = none) :
      RanOnce e (.ok true, { m with state := .runnable })
  /-- An item is done and the workflow has an outcome, though others wait. -/
  | completed {m : Executor} (ha : e.announce.state ≠ .aborted) (ho : e.announce.outcome = none)
      (hs : e.announce.step? = some m) (hw : m.queue.work ≠ []) (hn : m.outcome ≠ none) :
      RanOnce e (.ok true, m)

/-- Every step comes to one of these. -/
theorem ranOnce (e : Executor) : e.RanOnce e.runOneStep := by
  by_cases ha : e.state = .aborted
  · rw [runOneStep, ensureNotAborted, if_pos ha]
    exact .refused ha
  · have present : e.announce.state ≠ .aborted := sameCore_announce.state.symm ▸ ha
    rw [runOneStep, ensureNotAborted, if_neg ha]
    dsimp only
    split
    · next ho => exact .ended present (Option.isSome_iff_ne_none.mp ho)
    · next ho =>
      have ho : e.announce.outcome = none := by simpa using ho
      split
      · next hs => exact .unemployed present ho hs
      · next m hs =>
        split
        · next hq => exact .settled present ho hs (WorkQueue.isEmpty_iff.mp hq)
        · next hq =>
          have busy : m.queue.work ≠ [] := fun hw => hq (WorkQueue.isEmpty_iff.mpr hw)
          split
          · next hn => exact .working present ho hs busy (Option.isNone_iff_eq_none.mp hn)
          · next hn => exact .completed present ho hs busy (mt Option.isNone_iff_eq_none.mpr hn)

/-- The workflow of a regular executor that has neither completed nor been aborted is worked on. -/
theorem Regular.enter (h : e.Regular) (ho : e.announce.outcome = none)
    (ha : e.announce.state ≠ .aborted) :
    Consistent { e.announce with state := .runnable } Nobody :=
  ((sameCore_announce.regular h).open ho ha).1

/-- A run leads to a regular executor. -/
theorem Regular.run (h : e.Regular) (limit : Nat) : (e.run limit).2.Regular := by
  have ran := e.ran limit
  generalize e.run limit = r at ran ⊢
  cases ran with
  | refused _ => exact h
  | ended _ _ | unsettled _ _ _ => exact sameCore_announce.regular h
  | settled ha ho hd hs =>
    obtain ⟨proper, empty⟩ := drainQueue_proper (.inl (h.enter ho ha)) hd
    have settled := proper.settle empty
    rw [hs] at settled
    exact settled

/-- One step leads to a regular executor. -/
theorem Regular.runOneStep (h : e.Regular) : e.runOneStep.2.Regular := by
  have announced : e.announce.Regular := sameCore_announce.regular h
  have ran := e.ranOnce
  generalize e.runOneStep = r at ran ⊢
  cases ran with
  | refused _ => exact h
  | ended _ _ => exact announced
  | unemployed ha ho hs =>
    obtain ⟨hc, hrun | ⟨hi, -⟩⟩ := announced.open ho ha
    · have same : SameCore { e.announce with state := .runnable } e.announce := { state := hrun }
      exact .resting ((same.consistent hc).settle (of_step?_none hs).2)
    · rw [settle, ho]
      dsimp only
      rw [if_pos hi]
      exact announced
  | settled ha ho hs hw => exact (announced.step ho ha hs).settle fun _ => hw
  | working ha ho hs _ hn =>
    cases announced.step ho ha hs with
    | inl hc => exact .working hc.runnable
    | inr hf => exact absurd hn hf.outcome_ne
  | completed ha ho hs _ _ => exact (announced.step ho ha hs).regular

/-! ### Other calls -/

/-- No bookmark of a finished workflow is found. -/
theorem Finished.resumeBookmark (h : e.Finished) (b : Bookmark) (v : Value) (p : Priority) :
    e.resumeBookmark b v p = (.notFound, e) := by
  have present : e.state ≠ .aborted := h.state_ne rfl
  have unknown : e.bookmarks.resolve? b = none := by
    rw [h.bookmarks]
    simp [Registry.resolve?]
  rw [Executor.resumeBookmark, if_neg present, unknown]

/-- A value may be passed to a bookmark at any time. -/
theorem Regular.resumeBookmark (h : e.Regular) (b : Bookmark) (v : Value) (p : Priority) :
    (e.resumeBookmark b v p).2.Regular := by
  cases h with
  | working h => exact .working (Follows.resumeBookmark h b v p).consistent
  | resting h =>
    have hf := (Follows.resumeBookmark h.consistent b v p).consistent
    unfold Executor.resumeBookmark at hf ⊢
    rw [if_neg (by rw [h.state]; exact WorkflowState.noConfusion)]
    rw [if_neg WorkflowState.noConfusion] at hf
    cases hg : e.bookmarks.resolve? b with
    | none => exact .resting h
    | some g =>
      simp only [hg] at hf
      dsimp only
      rw [h.state]
      exact .working hf
  | finished h =>
    rw [h.resumeBookmark]
    exact .finished h
  | aborted h =>
    unfold Executor.resumeBookmark
    rw [if_pos h.state]
    exact .aborted h

/-- Nothing can happen to a workflow that was aborted or has completed. -/
theorem accepting_of_ok (h : e.ensureAccepting = .ok ()) :
    e.state ≠ .aborted ∧ e.state.isCompleted = false := by
  cases hn : e.ensureNotAborted with
  | error v =>
    rw [ensureAccepting, hn] at h
    exact absurd h (by simp [bind, Except.bind])
  | ok =>
    refine ⟨not_aborted_of_ok hn, ?_⟩
    rw [ensureAccepting, hn] at h
    cases hc : e.state.isCompleted with
    | false => rfl
    | true => exact absurd h (by simp [bind, Except.bind, hc])

theorem Finished.not_accepting (h : e.Finished) : e.ensureAccepting ≠ .ok () := by
  intro hok
  have hc := (accepting_of_ok hok).2
  rw [h.isCompleted] at hc
  exact absurd hc.symm Bool.false_ne_true

theorem Aborted.not_accepting (h : e.Aborted) : e.ensureAccepting ≠ .ok () :=
  fun hok => (accepting_of_ok hok).1 h.state

/-- A workflow with a live root has neither completed nor been aborted. -/
theorem Regular.accepting (h : e.Regular) (hl : e.isLive e.root = true) :
    e.ensureAccepting = .ok () := by
  have accepts : e.state ≠ .aborted → e.state.isCompleted = false → e.ensureAccepting = .ok () := by
    intro ha hc
    rw [ensureAccepting, ensureNotAborted, if_neg ha, hc]
    rfl
  cases h with
  | working h => exact accepts (by rw [h.running]; decide) (by rw [h.running]; rfl)
  | resting h => exact accepts (by rw [h.state]; decide) (by rw [h.state]; rfl)
  | finished h => exact absurd (hl.symm.trans (h.not_isLive e.root)) Bool.false_ne_true.symm
  | aborted h =>
    obtain ⟨i, hi, -⟩ := isLive_iff.mp hl
    rw [h.instances] at hi
    simp at hi

/-- The host may ask the root of a workflow that goes on to cancel. -/
theorem Consistent.requestCancel (h : e.Consistent Nobody) :
    Consistent { e.enqueue (.cancel e.root) with state := .runnable } Nobody := by
  have queued : (e.enqueue (.cancel e.root)).Consistent Nobody :=
    (Follows.enqueue h rfl fun _ => rfl).consistent
  exact queued.runnable

/-- While a workflow waits, everything in it is live and has run. -/
theorem Resting.live_executed (h : e.Resting) {k : InstanceId} {i : Instance}
    (hi : e.instances[k]? = some i) : i.state.isLive = true ∧ i.executed = true := by
  have p := h.consistent.placed
  have hl : i.state.isLive = true := by
    refine ActivityState.isLive_of_not_terminal (p.tree.sound hi).steady ?_
    by_contra ht
    have ht : i.state.isTerminal = true := by simpa using ht
    cases hp : i.parent with
    | none =>
      obtain ⟨r, hr, hrl⟩ := isLive_iff.mp p.rootLive
      have hk : k = e.root := p.tree.orphan hi hp
      cases hi.symm.trans (hk ▸ hr)
      rw [ActivityState.not_terminal_of_isLive hrl] at ht
      exact absurd ht Bool.false_ne_true
    | some q =>
      have hc : e.queue.work.countP (·.tellsOf k) = 1 := p.told hi ht hp id
      rw [h.work] at hc
      exact absurd hc (by simp)
  refine ⟨hl, ?_⟩
  by_contra hx
  have hq := (p.queued hi hl id (Bool.eq_false_iff.mpr hx)).2.2
  have hq : WorkItem.execute k ∈ e.queue.work := hq
  rw [h.work] at hq
  exact absurd hq List.not_mem_nil

/-- A workflow that may be canceled or terminated works or waits. -/
theorem Regular.open_of_accepting (h : e.Regular) (hok : e.ensureAccepting = .ok ()) :
    Consistent { e with state := .runnable } Nobody := by
  cases h with
  | working h => exact h.runnable
  | resting h => exact h.consistent
  | finished h => exact (h.not_accepting hok).elim
  | aborted h => exact (h.not_accepting hok).elim

/-- The root of a workflow that waits has run, so it is canceled at once only while the workflow
works. -/
theorem Regular.cancelUnexecuted (h : e.Regular) (hok : e.ensureAccepting = .ok ())
    (hx : ¬ ((e.instance? e.root).map (·.executed)).getD true = true) :
    Works Nobody e (e.announce.cancelInstance e.root) := by
  have ha : SameCore e e.announce := sameCore_announce
  cases h with
  | working h =>
    have hw := (ha.consistent h).cancelInstance (x := e.announce.root)
    rw [ha.root] at hw
    exact hw.after ha.root ha.nextInstance ha.instances journal_announce
  | resting h =>
    obtain ⟨i, hi, -⟩ := isLive_iff.mp h.consistent.placed.rootLive
    have hi : e.instances[e.root]? = some i := hi
    rw [instance?, hi, Option.map_some, Option.getD_some] at hx
    exact absurd (h.live_executed hi).2 hx
  | finished h => exact (h.not_accepting hok).elim
  | aborted h => exact (h.not_accepting hok).elim

/-- The host may cancel the workflow unless it has completed. -/
theorem Regular.cancelWorkflow (h : e.Regular) : e.cancelWorkflow.2.Regular := by
  unfold Executor.cancelWorkflow
  split
  · exact h
  · next hok =>
    split
    · exact .working (h.open_of_accepting hok).requestCancel
    · next hx => exact (h.cancelUnexecuted hok hx).proper.regular

/-- A fault of the root ends a workflow that works or waits. -/
theorem Consistent.faultRoot (h : Consistent { e with state := .runnable } X) {f : Fault}
    (hf : (e.definition.get? f.sourceNode).isSome = true) :
    (e.faultInstance e.root f).Concluded ∧ Falls f e e.root (e.faultInstance e.root f) := by
  obtain ⟨⟨p1, p2, p3, p4, p5, p6, p7, p8, p9⟩, ⟨o1, o2, o3, o4, o5⟩, -, -, -, hs, -⟩ := h
  have hp : e.Placed X := ⟨p1, p2, p3, p4, p5, p6, p7, p8, p9⟩
  obtain ⟨i, hi, -⟩ := isLive_iff.mp hp.rootLive
  obtain ⟨n, hn⟩ : ∃ n, e.instances.size = n + 1 := by
    refine Nat.exists_eq_succ_of_ne_zero fun hz => ?_
    rw [Std.ExtTreeMap.eq_empty_iff_size_eq_zero.mpr hz] at hi
    simp at hi
  rw [Executor.faultInstance, hn]
  exact hp.propagate_root n ⟨o1, o2, o3, o4, o5⟩ hs hf

/-- The host may fault the workflow unless it has completed. -/
theorem Regular.terminate (h : e.Regular) (reason : String) : (e.terminate reason).2.Regular := by
  unfold Executor.terminate
  split
  · exact h
  · next hok =>
    have known : (e.definition.get? NodeId.root).isSome = true := rfl
    exact .finished ((h.open_of_accepting hok).faultRoot known).1.toFinished

/-- No instance ever stops waiting for something while it waits for nothing. -/
theorem Regular.sober (h : e.Regular) : e.isOverdrawn = false := by
  cases h with
  | working h => exact h.sober
  | resting h => exact h.consistent.sober
  | finished h => exact h.sober
  | aborted h => exact h.sober

/-- The bodies of instances may be told that they are torn down. -/
theorem sameCore_callAbortHooks (reason : Fault) (told : List InstanceId) :
    SameCore e (told.foldl (fun e k => e.callAbortHook k reason) e) := by
  induction told generalizing e with
  | nil => exact .refl e
  | cons k rest ih => exact (sameCore_callAbortHook k reason).trans ih

/-- The host may abort any workflow. -/
theorem Regular.abort (h : e.Regular) (reason : String) : (e.abort reason).Regular := by
  unfold Executor.abort
  split
  · exact h
  · exact .aborted ⟨rfl, rfl, rfl, rfl, (sameCore_callAbortHooks _ _).isOverdrawn.trans h.sober⟩

end Workflow.Executor
