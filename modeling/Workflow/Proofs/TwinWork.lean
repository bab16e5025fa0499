import Workflow.Proofs.Twin

/-!
# Twins at work

Executors that are bonded answer their bodies the same, so the bodies do the same. From one item of
work to the next they stay bonded, and so they do from one call of the host to the next.
-/

namespace Workflow.Executor

variable {e r : Executor} {x k : InstanceId} {B : Bond}

theorem settle_of_some {o : Outcome} (ho : e.outcome = some o) : e.settle = (o, e) := by
  unfold settle
  rw [ho]

theorem settle_of_none (ho : e.outcome = none) : e.settle =
    if e.state = .idle then (.idle, e)
    else (.idle, trackLifecycle { e with state := .idle } .idle) := by
  unfold settle
  split
  · next hs => exact absurd (ho.symm.trans hs) (Option.some_ne_none _).symm
  · rfl

theorem run_of_some {limit : Nat} {o : Outcome} (ha : e.ensureNotAborted = .ok ())
    (ho : e.announce.outcome = some o) : e.run limit = (.ok o, e.announce) := by
  unfold run
  rw [ha]
  dsimp only
  rw [ho]

theorem run_of_none {limit : Nat} (ha : e.ensureNotAborted = .ok ())
    (ho : e.announce.outcome = none) : e.run limit =
      match drainQueue limit { e.announce with state := .runnable } with
      | none => (.error (.unsettled limit), e.announce)
      | some e => (.ok e.settle.1, e.settle.2) := by
  unfold run
  rw [ha]
  dsimp only
  split
  · next hs => exact absurd (ho.symm.trans hs) (Option.some_ne_none _).symm
  · rfl

namespace Bonded

/-! ### Answers -/

section Answers

variable (h : Bonded B e r)
include h

theorem locate (k : InstanceId) (name : String) : r.locate k name = e.locate k name := by
  rw [Executor.locate, h.resolve?]
  rfl

theorem readLocation (k : InstanceId) (l : Location) : r.readLocation k l = e.readLocation k l := by
  rw [Executor.readLocation, h.isAncestorOrSelf, h.instance?]
  rfl

theorem writeLocation (k : InstanceId) (l : Location) (v : Value) :
    Accord B (e.writeLocation k l v) (r.writeLocation k l v) := by
  unfold Executor.writeLocation
  rw [h.isAncestorOrSelf, h.instance?]
  dsimp only
  split
  · exact ⟨rfl, h.modify _ _⟩
  · exact ⟨rfl, h⟩

theorem readArgument (k : InstanceId) (name : String) :
    r.readArgument k name = e.readArgument k name := by
  rw [Executor.readArgument, h.nodeOf, h.instance?]
  rfl

theorem assignArgument (k : InstanceId) (name : String) (v : Value) :
    Accord B (e.assignArgument k name v) (r.assignArgument k name v) := by
  unfold Executor.assignArgument
  rw [h.nodeOf, h.instances]
  split
  · exact ⟨rfl, h⟩
  · split
    · exact ⟨rfl, h⟩
    · split
      · exact ⟨rfl, h.modify _ _⟩
      · exact ⟨rfl, h⟩

theorem identity (k : InstanceId) : r.identity k = e.identity k := by
  rw [Executor.identity, h.nodeOf, h.workflow]
  rfl

theorem answerContext (k : InstanceId) (q : ContextRequest) :
    Accord B (e.answerContext k q) (r.answerContext k q) := by
  cases q with
  | say text => exact ⟨rfl, h.log _⟩
  | identity => exact ⟨h.identity k, h⟩
  | locate name => exact ⟨h.locate k name, h⟩
  | read l => exact ⟨h.readLocation k l, h⟩
  | write l v => exact h.writeLocation k l v
  | argument name => exact ⟨h.readArgument k name, h⟩
  | setArgument name v => exact h.assignArgument k name v
  | services =>
    refine ⟨?_, h⟩
    obtain ⟨g, -, rfl⟩ := h
    rfl
  | property name => exact ⟨h.property? k name, h⟩
  | rerun =>
    refine ⟨?_, h⟩
    obtain ⟨g, -, rfl⟩ := h
    rfl

theorem answerCancellation (k : InstanceId) (q : CancellationRequest) :
    Accord B (e.answerCancellation k q) (r.answerCancellation k q) := by
  cases q with
  | isRequested => exact ⟨congrArg (Option.any _) (h.instance? k), h⟩
  | accept => exact h.markCanceled k

/-- Both use up a handle. -/
theorem setHandles (handles : List OperationId) :
    Bonded B { e with handles := handles } { r with handles := handles } := by
  obtain ⟨g, hq, rfl⟩ := h
  exact ⟨g, hq, rfl⟩

theorem answerOperation (q : OperationRequest) :
    Accord B (e.answerOperation q) (r.answerOperation q) := by
  cases q with
  | complete o result =>
    unfold Executor.answerOperation
    rw [h.handles]
    dsimp only
    split
    · exact (h.setHandles _).completeHandle o result
    · exact ⟨rfl, h⟩
  | discard o =>
    unfold Executor.answerOperation
    rw [h.handles]
    exact ⟨rfl, h.setHandles _⟩

theorem answerScheduling (k : InstanceId) (q : SchedulingRequest) :
    Accord B (e.answerScheduling k q) (r.answerScheduling k q) := by
  cases q with
  | children => exact ⟨congrArg (·.children) (h.nodeOf k), h⟩
  | childInstances => exact ⟨by unfold Executor.answerScheduling; rw [h.instance?], h⟩
  | schedule node options => exact h.scheduleChild k node options
  | cancelChild child => exact h.cancelChild k child
  | cancelChildren => exact ⟨rfl, h.cancelChildren k⟩
  | createBookmark name scope callback options =>
    unfold Executor.answerScheduling
    rw [h.instance?]
    exact h.createBookmark _
  | removeBookmark b => exact h.removeBookmark k b
  | removeAllBookmarks => exact ⟨rfl, h.removeAllBookmarks k⟩
  | createScope => exact h.createScope k
  | latestScope =>
    refine ⟨?_, h⟩
    obtain ⟨g, -, rfl⟩ := h
    rfl
  | createdScope n => exact ⟨h.createdScope? n, h⟩
  | resume b v => exact h.resumeBookmark b v .normal
  | setResult v => exact ⟨rfl, h.modify _ _⟩
  | addProperty name v => exact ⟨rfl, h.modify _ _⟩
  | removeProperty name =>
    exact ⟨congrArg (·.bind fun i => i.properties[name]?) (h.instance? k), h.modify _ _⟩
  | requestPersist =>
    refine ⟨rfl, ?_⟩
    obtain ⟨g, hq, rfl⟩ := h
    exact ⟨g, hq, rfl⟩

theorem answer {b : BodyKind} (k : InstanceId) (q : Request b) :
    Accord B (e.answer k q) (r.answer k q) := by
  cases q with
  | context q => exact h.answerContext k q
  | cancellation q _ => exact h.answerCancellation k q
  | operation q => exact h.answerOperation q
  | scheduling q => exact h.answerScheduling k q

/-- A program does the same with both. -/
theorem perform {b : BodyKind} {α : Type} (k : InstanceId) (p : Program b α) :
    Accord B (e.perform k p) (r.perform k p) := by
  induction p generalizing e r with
  | done a => exact ⟨rfl, h⟩
  | crash c => exact ⟨rfl, h⟩
  | ask q next ih =>
    unfold Executor.perform
    obtain ⟨ha, ht⟩ := h.answer k q
    dsimp only
    rw [ha]
    exact ih _ ht

end Answers

/-! ### Completion and faults -/

section Faults

variable (h : Bonded B e r)
include h

theorem ending? : r.ending? = e.ending? := by
  obtain ⟨g, -, rfl⟩ := h
  rfl

/-- Both drop what is queued. -/
theorem clear : Bonded B { e with queue := e.queue.clear } { r with queue := r.queue.clear } := by
  obtain ⟨g, hq, rfl⟩ := h
  exact ⟨{ g with queue := g.queue.clear }, B.clear hq, rfl⟩

/-- Both get the same outcome. -/
theorem setOutcome (o : Option Outcome) : Bonded B { e with outcome := o } { r with outcome := o } := by
  obtain ⟨g, hq, rfl⟩ := h
  exact ⟨g, hq, rfl⟩

theorem finishWorkflow : Bonded B e.finishWorkflow r.finishWorkflow := by
  unfold Executor.finishWorkflow
  rw [h.ending?]
  cases e.ending? with
  | none => exact h
  | some p =>
    obtain ⟨state, outcome, event⟩ := p
    exact (((h.clear.setOperations ∅).setState state).setOutcome (some outcome)).track _

theorem completeInstance (k : InstanceId) : Bonded B (e.completeInstance k) (r.completeInstance k) := by
  unfold Executor.completeInstance
  rw [h.instance?]
  cases e.instance? k with
  | none => exact h
  | some i =>
    dsimp only
    generalize (if i.markedCanceled = true then ActivityState.canceled else .closed) = s
    have hs : Bonded B
        { e.modify k fun i => { i with state := s } with
          bookmarks := (e.bookmarks.removeOwned k).removeScopes k }
        { r.modify k fun i => { i with state := s } with
          bookmarks := (r.bookmarks.removeOwned k).removeScopes k } := by
      obtain ⟨g, hq, rfl⟩ := h
      exact ⟨g, hq, rfl⟩
    cases i.parent with
    | none => exact (hs.trackState k s).finishWorkflow
    | some p => exact (hs.trackState k s).enqueue _

theorem tryComplete (k : InstanceId) : Bonded B (e.tryComplete k) (r.tryComplete k) := by
  unfold Executor.tryComplete
  rw [h.instance?]
  split
  · exact h.completeInstance k
  · exact h

theorem releaseResources (k : InstanceId) : Bonded B (e.releaseResources k) (r.releaseResources k) := by
  obtain ⟨g, hq, rfl⟩ := h
  exact ⟨g, hq, rfl⟩

theorem callAbortHook (k : InstanceId) (reason : Fault) :
    Bonded B (e.callAbortHook k reason) (r.callAbortHook k reason) := by
  unfold Executor.callAbortHook
  rw [h.instance?, h.definition]
  cases e.instance? k with
  | none => exact h
  | some i =>
    dsimp only
    split
    · exact h
    · exact h.log _

/-- Both get the same instances. -/
theorem setInstances (t : InstanceTable) : Bonded B { e with instances := t } { r with instances := t } := by
  obtain ⟨g, hq, rfl⟩ := h
  exact ⟨g, hq, rfl⟩

/-- An instance leaves both. -/
theorem erase (k : InstanceId) : Bonded B { e with instances := e.instances.erase k }
    { r with instances := r.instances.erase k } := by
  rw [h.instances]
  exact h.setInstances _

theorem abortInstance (reason : Fault) (k : InstanceId) :
    Bonded B (e.abortInstance reason k) (r.abortInstance reason k) := by
  unfold Executor.abortInstance
  rw [h.instance?]
  cases e.instance? k with
  | none => exact h
  | some i =>
    dsimp only
    split
    · exact h.erase k
    · exact (((h.releaseResources k).callAbortHook k reason).trackState k .faulted).erase k

/-- The same instances are torn down one after another. -/
theorem abortAll (reason : Fault) (gone : List InstanceId) :
    Bonded B (gone.foldl (fun e k => e.abortInstance reason k) e)
      (gone.foldl (fun e k => e.abortInstance reason k) r) := by
  induction gone generalizing e r with
  | nil => exact h
  | cons k rest ih => exact ih (h.abortInstance reason k)

theorem markFaulted (k : InstanceId) (f : Fault) : Bonded B (e.markFaulted k f) (r.markFaulted k f) := by
  unfold Executor.markFaulted
  rw [h.descendants]
  have ha := (h.modify k fun i => { i with state := .faulting, children := [] }).abortAll f
    (e.descendants k)
  exact ((ha.releaseResources k).modify k _).trackState k .faulted

theorem propagate (n : Nat) (k : InstanceId) (f : Fault) :
    Bonded B (propagate n k f e) (propagate n k f r) := by
  induction n generalizing e r k with
  | zero => exact h
  | succ n ih =>
    unfold Executor.propagate
    rw [h.instance?]
    cases e.instance? k with
    | none => exact h
    | some i =>
      dsimp only
      split
      · exact h
      · have hm := h.markFaulted k f
        cases i.parent with
        | none => exact (hm.trackFault f none).finishWorkflow
        | some p =>
          cases i.faultCallback with
          | none => exact ih hm p
          | some callback => exact (hm.trackFault f (some p)).enqueue _

theorem faultInstance (k : InstanceId) (f : Fault) :
    Bonded B (e.faultInstance k f) (r.faultInstance k f) := by
  unfold Executor.faultInstance
  rw [h.instances]
  exact h.propagate _ k f

theorem raise (k : InstanceId) (error : ActivityError) :
    Bonded B (e.raise k error) (r.raise k error) := by
  unfold Executor.raise
  rw [h.instance?, h.definition]
  cases e.instance? k with
  | none => exact h
  | some i => exact h.faultInstance k _

theorem invoke {b : BodyKind} {α : Type} (k : InstanceId) (callback : Callback) (p : Program b α) :
    Accord B (e.invoke k callback p) (r.invoke k callback p) := by
  unfold Executor.invoke
  rw [h.nodeOf]
  obtain ⟨result, e', r', he, hr, ht⟩ :=
    ((h.log (.call k (e.nodeOf k).body.label callback)).perform k p).cases
  dsimp only
  rw [he, hr]
  cases result with
  | ok a => exact ⟨rfl, ht⟩
  | error crash => exact ⟨rfl, ht.raise k _⟩

end Faults

/-! ### Work -/

section Work

variable (h : Bonded B e r)
include h

theorem behaviour? (k : InstanceId) : r.behaviour? k = e.behaviour? k := by
  rw [Executor.behaviour?, h.instance?, h.definition]
  rfl

theorem nativeBody? (k : InstanceId) : r.nativeBody? k = e.nativeBody? k := by
  rw [Executor.nativeBody?, h.behaviour?]
  rfl

theorem recordResult (k : InstanceId) (result : Option Value) :
    Bonded B (e.recordResult k result) (r.recordResult k result) := by
  unfold Executor.recordResult
  cases result with
  | none => exact h
  | some v => exact h.modify k _

theorem runBody (k : InstanceId) (b : Behaviour) : Accord B (e.runBody k b) (r.runBody k b) := by
  unfold Executor.runBody
  cases b with
  | code program =>
    obtain ⟨result, e', r', he, hr, ht⟩ := (h.invoke k .execute program).cases
    dsimp only
    rw [he, hr]
    cases result with
    | none => exact ⟨rfl, ht⟩
    | some result => exact ⟨rfl, ht.recordResult k result⟩
  | native body =>
    obtain ⟨result, e', r', he, hr, ht⟩ := (h.invoke k .execute body.execute).cases
    dsimp only
    rw [he, hr]
    exact ⟨rfl, ht⟩
  | async body =>
    obtain ⟨o, e₁, r₁, he₁, hr₁, ht₁⟩ := (h.beginOperation k).cases
    obtain ⟨result, e', r', he, hr, ht⟩ := (ht₁.invoke k (.start o) (body.start o)).cases
    dsimp only
    rw [he₁, hr₁]
    dsimp only
    rw [he, hr]
    exact ⟨rfl, ht⟩

theorem executeActivity (k : InstanceId) : Bonded B (e.executeActivity k) (r.executeActivity k) := by
  unfold Executor.executeActivity
  rw [h.instance?, h.behaviour?]
  cases e.instance? k with
  | none => exact h
  | some i =>
    cases e.behaviour? k with
    | none => exact h
    | some b =>
      dsimp only
      split
      · exact h
      · obtain ⟨ended, e', r', he, hr, ht⟩ := ((h.trackState k .executing).runBody k b).cases
        rw [he, hr]
        cases ended with
        | false => exact ht
        | true => exact (ht.modify k _).tryComplete k

theorem callBack (k : InstanceId) (callback : Callback) (p : Program .native Unit) :
    Bonded B (e.callBack k callback p) (r.callBack k callback p) := by
  unfold Executor.callBack
  obtain ⟨result, e', r', he, hr, ht⟩ := (h.invoke k callback p).cases
  rw [he, hr]
  cases result with
  | none => exact ht
  | some _ => exact ht.tryComplete k

theorem copyOutputs (parent : InstanceId) (child : Instance) :
    Bonded B (e.copyOutputs parent child) (r.copyOutputs parent child) := by
  unfold Executor.copyOutputs
  rw [h.definition]
  generalize (e.definition.node child.node).arguments = arguments
  induction arguments generalizing e r with
  | nil => exact h
  | cons a rest ih =>
    rw [List.foldl_cons, List.foldl_cons]
    refine ih ?_
    split
    · next target v _ _ _ =>
      rw [h.resolve?]
      cases e.resolve? parent target with
      | none => exact h
      | some owner => exact h.modify owner _
    · exact h

theorem deliverCompletion (parent child : InstanceId) :
    Bonded B (e.deliverCompletion parent child) (r.deliverCompletion parent child) := by
  unfold Executor.deliverCompletion
  rw [h.instance?]
  cases e.instance? child with
  | none => exact h
  | some c =>
    have he := h.erase child
    dsimp only
    rw [he.isLive]
    split
    · exact he
    · have ho : Bonded B
          (if c.state = .closed then Executor.copyOutputs (Executor.release (Executor.modify
              { e with instances := e.instances.erase child } parent
                fun p => { p with children := p.children.filter (· != child) }) parent 1) parent c
            else Executor.release (Executor.modify
              { e with instances := e.instances.erase child } parent
                fun p => { p with children := p.children.filter (· != child) }) parent 1)
          (if c.state = .closed then Executor.copyOutputs (Executor.release (Executor.modify
              { r with instances := r.instances.erase child } parent
                fun p => { p with children := p.children.filter (· != child) }) parent 1) parent c
            else Executor.release (Executor.modify
              { r with instances := r.instances.erase child } parent
                fun p => { p with children := p.children.filter (· != child) }) parent 1) := by
        have hm := (he.modify parent fun p =>
          { p with children := p.children.filter (· != child) }).release parent 1
        split
        · exact hm.copyOutputs parent c
        · exact hm
      rw [ho.nativeBody?]
      split
      · exact ho.callBack parent _ _
      · exact ho.tryComplete parent

theorem deliverFault (handler child : InstanceId) (tag : CallbackTag) (f : Fault) :
    Bonded B (e.deliverFault handler child tag f) (r.deliverFault handler child tag f) := by
  unfold Executor.deliverFault
  rw [h.isLive, h.nativeBody?, h.instance?]
  split
  · exact h
  · cases e.nativeBody? handler with
    | none => exact h.faultInstance handler f
    | some body =>
      dsimp only
      generalize (⟨f, child, ((e.instance? child).map (·.node)).getD f.sourceNode⟩ : FaultContext) = c
      obtain ⟨result, e', r', he, hr, ht⟩ :=
        (h.invoke handler (.childFaulted tag c) (body.childFaulted tag c)).cases
      rw [he, hr]
      cases result with
      | none => exact ht
      | some handling =>
        cases handling with
        | handled => exact ht.enqueue _
        | propagate => exact ht.faultInstance handler f

theorem runCancel (k : InstanceId) (b : Behaviour) : Accord B (e.runCancel k b) (r.runCancel k b) := by
  unfold Executor.runCancel
  cases b with
  | code program => exact ⟨rfl, h⟩
  | native body =>
    obtain ⟨result, e', r', he, hr, ht⟩ := (h.invoke k .cancel body.cancel).cases
    dsimp only
    rw [he, hr]
    exact ⟨rfl, ht⟩
  | async body =>
    obtain ⟨result, e', r', he, hr, ht⟩ := (h.invoke k .cancel body.cancel).cases
    dsimp only
    rw [he, hr]
    dsimp only
    rw [ht.instance?]
    refine ⟨rfl, ?_⟩
    dsimp only
    split
    · exact ht.abandonOperations k
    · exact ht

theorem cancelInstance (k : InstanceId) : Bonded B (e.cancelInstance k) (r.cancelInstance k) := by
  unfold Executor.cancelInstance
  rw [h.instance?, h.behaviour?]
  cases e.instance? k with
  | none => exact h
  | some i =>
    cases e.behaviour? k with
    | none => exact h
    | some b =>
      dsimp only
      split
      · exact h
      · split
        · exact (h.modify k _).completeInstance k
        · obtain ⟨ended, e', r', he, hr, ht⟩ := (((h.modify k fun i =>
            { i with cancelRequested := true, state := .canceling }).trackState k
              .canceling).runCancel k b).cases
          rw [he, hr]
          cases ended with
          | false => exact ht
          | true => exact ht.tryComplete k

theorem deliverResumption (owner : InstanceId) (b : Bookmark) (callback : Option CallbackTag)
    (v : Value) (releases : Bool) : Bonded B (e.deliverResumption owner b callback v releases)
      (r.deliverResumption owner b callback v releases) := by
  unfold Executor.deliverResumption
  rw [h.isLive]
  split
  · exact h
  · have hr : Bonded B (if releases then e.release owner 1 else e)
        (if releases then r.release owner 1 else r) := by
      split
      · exact h.release owner 1
      · exact h
    have ht := hr.trackResumed b owner
    dsimp only
    rw [ht.nativeBody?]
    split
    · exact ht.callBack owner _ _
    · exact ht.tryComplete owner

theorem completeOperation (o : OperationId) (result : Except ActivityError Value) :
    Bonded B (e.completeOperation o result) (r.completeOperation o result) := by
  unfold Executor.completeOperation
  rw [h.operations]
  cases e.operations[o]? with
  | none => exact h
  | some owner =>
    have ho := h.setOperations (e.operations.erase o)
    dsimp only
    rw [ho.isLive]
    split
    · exact ho
    · have hr := ho.release owner 1
      rw [hr.behaviour?]
      split
      · exact hr.raise owner _
      · next v body _ =>
        obtain ⟨result, e', r', he, hr', ht⟩ := (hr.invoke owner (.finish v) (body.finish v)).cases
        rw [he, hr']
        cases result with
        | none => exact ht
        | some result => exact (ht.recordResult owner result).tryComplete owner
      · exact hr

/-- Both do the same work. -/
theorem dispatch (w : WorkItem) : Bonded B (e.dispatch w) (r.dispatch w) := by
  cases w with
  | execute k => exact h.executeActivity k
  | completion parent child => exact h.deliverCompletion parent child
  | fault handler child tag f => exact h.deliverFault handler child tag f
  | cancel k => exact h.cancelInstance k
  | bookmark owner b callback v releases => exact h.deliverResumption owner b callback v releases
  | operation o result => exact h.completeOperation o result

end Work

/-! ### Runs -/

section Runs

variable (h : Bonded B e r)
include h

theorem ensureNotAborted : r.ensureNotAborted = e.ensureNotAborted := by
  rw [Executor.ensureNotAborted, h.state, h.workflow]
  rfl

theorem ensureAccepting : r.ensureAccepting = e.ensureAccepting := by
  rw [Executor.ensureAccepting, h.ensureNotAborted, h.state, h.workflow]
  rfl

/-- What waits next waits next for both. -/
theorem pop? : (e.queue.pop? = none ∧ r.queue.pop? = none) ∨ ∃ w q q',
    e.queue.pop? = some (w, q) ∧ r.queue.pop? = some (w, q') ∧
      Bonded B { e with queue := q } { r with queue := q' } := by
  have he := WorkQueue.pop?_eq_lanes e.queue
  have hr := WorkQueue.pop?_eq_lanes r.queue
  rw [h.lanes] at hr
  cases hl : e.queue.lanes with
  | nil =>
    rw [hl] at he hr
    exact .inl ⟨Option.map_eq_none_iff.mp he, Option.map_eq_none_iff.mp hr⟩
  | cons a rest =>
    rw [hl] at he hr
    obtain ⟨⟨w, q⟩, hq, heq⟩ := Option.map_eq_some_iff.mp he
    obtain ⟨⟨w', q'⟩, hq', heq'⟩ := Option.map_eq_some_iff.mp hr
    cases heq
    obtain ⟨rfl, -⟩ := Prod.mk.inj heq'
    refine .inr ⟨_, q, q', hq, hq', ?_⟩
    obtain ⟨g, hg, rfl⟩ := h
    exact ⟨{ g with queue := q' }, B.pop hg hq hq', rfl⟩

/-- Both make the same step. -/
theorem step? : (e.step? = none ∧ r.step? = none) ∨
    ∃ e' r', e.step? = some e' ∧ r.step? = some r' ∧ Bonded B e' r' := by
  have hd : Bonded B e.drainInbox.2 r.drainInbox.2 := h.drainInbox.2
  rw [step?_eq, step?_eq]
  obtain ⟨he, hr⟩ | ⟨w, q, q', he, hr, ht⟩ := hd.pop?
  · rw [he, hr]
    exact .inl ⟨rfl, rfl⟩
  · rw [he, hr]
    exact .inr ⟨_, _, rfl, rfl, ht.dispatch w⟩

theorem settle : Accord B e.settle r.settle := by
  have ho := h.outcome
  cases he : e.outcome with
  | some outcome =>
    rw [he] at ho
    rw [settle_of_some he, settle_of_some ho]
    exact ⟨rfl, h⟩
  | none =>
    rw [he] at ho
    rw [settle_of_none he, settle_of_none ho, h.state]
    split
    · exact ⟨rfl, h⟩
    · exact ⟨rfl, (h.setState .idle).track (.lifecycle .idle)⟩

/-- Both do the same items until none is left. -/
theorem drainQueue (limit : Nat) : (drainQueue limit e = none ∧ drainQueue limit r = none) ∨
    ∃ e' r', drainQueue limit e = some e' ∧ drainQueue limit r = some r' ∧ Bonded B e' r' := by
  induction limit generalizing e r with
  | zero =>
    unfold Executor.drainQueue
    rw [h.outcome]
    split
    · exact .inr ⟨e, r, rfl, rfl, h⟩
    · obtain ⟨he, hr⟩ | ⟨e', r', he, hr, -⟩ := h.step?
      · rw [he, hr]
        exact .inr ⟨e, r, rfl, rfl, h⟩
      · rw [he, hr]
        exact .inl ⟨rfl, rfl⟩
  | succ limit ih =>
    unfold Executor.drainQueue
    rw [h.outcome]
    split
    · exact .inr ⟨e, r, rfl, rfl, h⟩
    · obtain ⟨he, hr⟩ | ⟨e', r', he, hr, ht⟩ := h.step?
      · rw [he, hr]
        exact .inr ⟨e, r, rfl, rfl, h⟩
      · rw [he, hr]
        exact ih ht

theorem run (limit : Nat) : Accord B (e.run limit) (r.run limit) := by
  have hn := h.ensureNotAborted
  cases he : e.ensureNotAborted with
  | error v =>
    rw [he] at hn
    rw [Executor.run, Executor.run, he, hn]
    exact ⟨rfl, h⟩
  | ok =>
    rw [he] at hn
    have ha := h.announce
    have ho := ha.outcome
    cases hae : e.announce.outcome with
    | some outcome =>
      rw [hae] at ho
      rw [run_of_some he hae, run_of_some hn ho]
      exact ⟨rfl, ha⟩
    | none =>
      rw [hae] at ho
      rw [run_of_none he hae, run_of_none hn ho]
      obtain ⟨he, hr⟩ | ⟨e', r', he, hr, ht⟩ := (ha.setState .runnable).drainQueue limit
      · rw [he, hr]
        exact ⟨rfl, ha⟩
      · rw [he, hr]
        obtain ⟨hs, ht⟩ := ht.settle
        exact ⟨congrArg Except.ok hs, ht⟩

theorem runOneStep : Accord B e.runOneStep r.runOneStep := by
  unfold Executor.runOneStep
  rw [h.ensureNotAborted]
  cases e.ensureNotAborted with
  | error v => exact ⟨rfl, h⟩
  | ok =>
    have ha := h.announce
    dsimp only
    rw [ha.outcome]
    split
    · exact ⟨rfl, ha⟩
    · obtain ⟨he, hr⟩ | ⟨e', r', he, hr, ht⟩ := ha.step?
      · rw [he, hr]
        exact ⟨rfl, ha.settle.2⟩
      · rw [he, hr]
        have hs := ht.setState .runnable
        rw [ht.outcome] at hs
        dsimp only
        rw [WorkQueue.isEmpty_eq_lanes, WorkQueue.isEmpty_eq_lanes, ht.lanes, ht.outcome]
        split
        · exact ⟨rfl, ht.settle.2⟩
        · split
          · exact ⟨rfl, hs⟩
          · exact ⟨rfl, ht⟩

theorem cancelWorkflow : Accord B e.cancelWorkflow r.cancelWorkflow := by
  unfold Executor.cancelWorkflow
  rw [h.ensureAccepting, h.root, h.instance?]
  cases e.ensureAccepting with
  | error v => exact ⟨rfl, h⟩
  | ok =>
    dsimp only
    split
    · exact ⟨rfl, (h.enqueue _).setState .runnable⟩
    · exact ⟨rfl, h.announce.cancelInstance e.root⟩

theorem terminate (reason : String) : Accord B (e.terminate reason) (r.terminate reason) := by
  unfold Executor.terminate
  rw [h.ensureAccepting, h.root, h.definition]
  cases e.ensureAccepting with
  | error v => exact ⟨rfl, h⟩
  | ok => exact ⟨rfl, h.faultInstance e.root _⟩

/-- The bodies of the same instances are told that they are torn down. -/
theorem callAbortHooks (reason : Fault) (told : List InstanceId) :
    Bonded B (told.foldl (fun e k => e.callAbortHook k reason) e)
      (told.foldl (fun e k => e.callAbortHook k reason) r) := by
  induction told generalizing e r with
  | nil => exact h
  | cons k rest ih => exact ih (h.callAbortHook k reason)

theorem abort (reason : String) : Bonded B (e.abort reason) (r.abort reason) := by
  unfold Executor.abort
  rw [h.state, h.root, h.definition, h.instances]
  split
  · exact h
  · have ht := h.callAbortHooks (.aborted reason e.root .root e.definition.root.name)
      ((e.instances.values.filter fun i => !i.state.isTerminal).map (·.id)).reverse
    exact ((((ht.clear.setBookmarks {}).setOperations ∅).setInstances ∅).setState .aborted).track _

end Runs

end Bonded

end Workflow.Executor
