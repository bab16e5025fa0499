import Workflow.Proofs.Reloading
import Workflow.Proofs.TwinWork

/-!
# Conversations with a host

A host talks to an executor call by call. With twins it has the same conversation. A workflow that is
reloaded while it waits is a twin of the one that was not, so its host cannot tell the difference.
-/

namespace Workflow

namespace Activity

/-- An activity that fails. -/
def failing (error : ActivityError) : Activity :=
  .mk "fail" ⟨"fail", "fail", fun _ => [], .code (.fail error)⟩ [] [] []

/-- An activity that fails after it has begun its operation. -/
def failingLate (error : ActivityError) : Activity :=
  .mk "begin" ⟨"begin", "begin", fun _ => [], .async { start := fun _ => .fail error }⟩ [] [] []

/-- An activity that waits at a bookmark and handles the fault of a child. -/
def guarded (name : String) (child : Activity) : Activity :=
  ofNative name {
    execute := do
      discard <| Program.scheduling (.createBookmark name none none .once)
      discard <| Program.scheduling (.schedule ⟨1⟩ { onFaulted := some "fault" })
    childFaulted := fun _ _ => .done .handled } [child]

end Activity

/-- Whether a call changes the receivers of records. -/
def ExecutorCall.attaches : ExecutorCall → Bool
  | withTracking _ => true
  | _ => false

namespace Executor

variable {e r : Executor} {d : Definition} {s : Snapshot} {now : Timestamp} {mailbox : Nat}

/-- A call is served alike by both, unless it changes the receivers of records. -/
theorem Bonded.serve {B : Bond} (h : Bonded B e r) {c : ExecutorCall} (hc : c.attaches = false) :
    Accord B (c.serve e) (c.serve r) := by
  cases c with
  | run limit => exact h.run limit
  | runOneStep => exact h.runOneStep
  | resumeBookmark b v p => exact h.resumeBookmark b v p
  | cancel => exact h.cancelWorkflow
  | terminate reason => exact h.terminate reason
  | abort reason => exact ⟨rfl, h.abort reason⟩
  | complete o result => exact h.completeHandle o result
  | drainInbox => exact h.drainInbox
  | listBookmarks => exact ⟨h.bookmarkInfos, h⟩
  | track event => exact ⟨rfl, h.track event⟩
  | takeHandles =>
    have ho : ∀ e : Executor, e.takeHandles.1.map (·.operation) = e.handles := by
      intro e
      rw [takeHandles, List.map_map]
      exact List.map_id _
    refine ⟨(ho r).trans (h.handles.trans (ho e).symm), ?_⟩
    exact h.setHandles []
  | takeJournal | takePersistRequest | withExtensions =>
    obtain ⟨g, hq, rfl⟩ := h
    exact ⟨rfl, g, hq, rfl⟩
  | withTracking t => exact absurd hc Bool.false_ne_true.symm

namespace Twin

/-- Twins serve a call alike. -/
theorem serve (h : Twin e r) (c : ExecutorCall) : Agree (c.serve e) (c.serve r) := by
  cases c with
  | withTracking t =>
    obtain ⟨g, hq, rfl⟩ := h
    exact ⟨rfl, { g with tracking := t }, hq, rfl⟩
  | _ => exact (twin_iff.mp h).serve rfl

/-- Twins have the same conversation, and they are twins after it. -/
theorem converse (h : Twin e r) (calls : List ExecutorCall) :
    Agree (ExecutorCall.converse e calls) (ExecutorCall.converse r calls) := by
  induction calls generalizing e r with
  | nil => exact ⟨rfl, h⟩
  | cons c rest ih =>
    obtain ⟨ha, ht⟩ := h.serve c
    obtain ⟨has, ht'⟩ := ih ht
    unfold ExecutorCall.converse
    dsimp only
    rw [ha]
    exact ⟨congrArg (_ :: ·) has, ht'⟩

end Twin

/-- An executor whose host has taken its journal, its handles and its request to be saved, and which
has no completions in its inbox. -/
def collected (e : Executor) : Executor :=
  { e with journal := [], handles := [], persistRequested := false, inbox := [] }

/-- An executor at the host of another one, which has the same services and counts the same scopes. -/
def atHostOf (r e : Executor) : Executor :=
  { r with extensions := e.extensions, scopeCount := e.scopeCount, isHosted := e.isHosted }

/-- A workflow that is reloaded while it waits is a twin of the one that was not. -/
theorem Regular.twin_of_reload (h : e.Regular) (hs : e.state = .idle) (hc : e.capture now = .ok s)
    (hr : s.restore e.definition mailbox = .ok r) : Twin e.collected (r.atHostOf e) := by
  have ht := h.tree_of_capture hc
  obtain ⟨-, hwork, ho⟩ := h.of_capture hc
  have hi := (h.reloaded hc (.refl _) hr).instances_eq h hc (by rw [hs]; exact WorkflowState.noConfusion)
  obtain ⟨u, -, -, rfl⟩ := h.of_restore hc hr
  have hn : e.state.isCompleted = false := by
    rw [hs]
    rfl
  have hout : e.outcome = none := (h.resting_of_idle hs).consistent.opened
  have hover : e.isOverdrawn = false := h.sober
  rw [hn, if_neg Bool.false_ne_true] at hi ⊢
  have hi : u = e.instances := hi
  have hlanes : e.queue.lanes = [] := by
    rw [WorkQueue.work_eq_lanes, List.map_eq_nil_iff] at hwork
    exact hwork
  refine ⟨⟨mailbox, {}, some .loaded, .empty⟩, hlanes.symm, ?_⟩
  rw [hi]
  unfold atHostOf collected inGuise returned
  dsimp only
  rw [ho, hout, hover]

/-- A captured workflow comes back with the instances, bookmarks, scopes, counters and the state that
it had, only that the error of a fault is one message with all causes. Captured again it gives the
same image. If it waits, then from there on its host has the same conversation with it as with the
workflow that was never captured, and in the end one is a twin of the other. -/
theorem Reachable.reload_transparent (h : e.Reachable) (hc : e.capture now = .ok s)
    (ha : e.definition.Alike d) (hr : s.restore d mailbox = .ok r) :
    Reloaded e d r ∧ (e.state ≠ .faulted → r.instances = e.instances) ∧
      (∀ later, r.capture later = .ok { s with createdAt := later }) ∧
      (d = e.definition → e.state = .idle → ∀ calls : List ExecutorCall,
        Agree (ExecutorCall.converse e.collected calls) (ExecutorCall.converse (r.atHostOf e) calls)) := by
  have hl := h.regular.reloaded hc ha hr
  refine ⟨hl, hl.instances_eq h.regular hc, hl.capture h.regular hc ha, ?_⟩
  rintro rfl hs calls
  exact (h.regular.twin_of_reload hs hc hr).converse calls

/-- Two activities that wait side by side come back and are resumed alike. -/
theorem reload_transparent_pair : ∃ s r, waitingPair.capture ⟨0, 0⟩ = .ok s ∧
    s.restore waitingPair.definition 1 = .ok r ∧ r.instances = waitingPair.instances ∧
    Agree (ExecutorCall.converse waitingPair.collected
        [.resumeBookmark ⟨.default, "go"⟩ .null .normal, .run 5, .cancel, .run 5])
      (ExecutorCall.converse (r.atHostOf waitingPair)
        [.resumeBookmark ⟨.default, "go"⟩ .null .normal, .run 5, .cancel, .run 5]) := by
  have hs : waitingPair.state = .idle := by decide +kernel
  obtain ⟨s, hc⟩ : ∃ s, waitingPair.capture ⟨0, 0⟩ = .ok s := exists_captured (by decide +kernel)
  obtain ⟨r, hr⟩ := (reachable_waitingPair.regular.restores_iff hc (.refl _) 1).mpr (by decide +kernel)
  obtain ⟨-, hi, -, talk⟩ := reachable_waitingPair.reload_transparent hc (.refl _) hr
  exact ⟨s, r, hc, hr, hi (by rw [hs]; exact WorkflowState.noConfusion), talk rfl hs _⟩

/-- A workflow whose only activity has failed with an error that has a cause. -/
def failed : Executor :=
  (ExecutorCall.converse (begun (.failing (.custom "outer" ["inner"]))) [.run 5]).2

/-- A workflow that waits after the operation of a child was given up, and has just completed. -/
def overtaken : Executor :=
  (ExecutorCall.converse (begun (.guarded "go" (.failingLate (.custom "late" []))))
    [.run 5, .complete ⟨1⟩ (.ok .null)]).2

/-- A failed workflow does not come back with the error that it had, and a workflow that waits comes
back without completions that nobody waits for. -/
theorem not_reload_exact :
    (∃ s r, failed.Reachable ∧ failed.capture ⟨0, 0⟩ = .ok s ∧
      s.restore failed.definition 1 = .ok r ∧ r.instances ≠ failed.instances) ∧
    (∃ s r, overtaken.Reachable ∧ overtaken.state = .idle ∧ overtaken.capture ⟨0, 0⟩ = .ok s ∧
      s.restore overtaken.definition 1 = .ok r ∧ overtaken.runOneStep.1.toOption = some true ∧
      (r.atHostOf overtaken).runOneStep.1.toOption = some false) := by
  constructor
  · have h : failed.Reachable := (Reachable.begun rfl rfl).converse _
    obtain ⟨s, hc⟩ : ∃ s, failed.capture ⟨0, 0⟩ = .ok s := exists_captured (by decide +kernel)
    obtain ⟨r, hr⟩ := (h.regular.restores_iff hc (.refl _) 1).mpr (by decide +kernel)
    refine ⟨s, r, h, hc, hr, fun heq => ?_⟩
    rw [(h.regular.reloaded hc (.refl _) hr).instances] at heq
    have hroot := congrArg (fun t : InstanceTable => t[(⟨1⟩ : InstanceId)]?) heq
    have herr : ((failed.instances.map fun _ i => i.flattened)[(⟨1⟩ : InstanceId)]?.bind
        (·.fault)).map (·.error) ≠ (failed.instances[(⟨1⟩ : InstanceId)]?.bind
        (·.fault)).map (·.error) := by decide +kernel
    exact herr (congrArg (fun i : Option Instance => (i.bind (·.fault)).map (·.error)) hroot)
  · have h : overtaken.Reachable := (Reachable.begun rfl rfl).converse _
    have hs : overtaken.state = .idle := by decide +kernel
    obtain ⟨s, hc⟩ : ∃ s, overtaken.capture ⟨0, 0⟩ = .ok s := exists_captured (by decide +kernel)
    obtain ⟨r, hr⟩ := (h.regular.restores_iff hc (.refl _) 1).mpr (by decide +kernel)
    have late : overtaken.runOneStep.1.toOption = some true := by decide +kernel
    have calm : overtaken.collected.runOneStep.1.toOption = some false := by decide +kernel
    rw [← (twin_iff.mp (h.regular.twin_of_reload hs hc hr)).runOneStep.1] at calm
    exact ⟨s, r, h, hs, hc, hr, late, calm⟩

end Executor

end Workflow
