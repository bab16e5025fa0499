import Workflow.Executor.Run

/-!
# What work reports

A piece of work reports changes of activities, and the end of the workflow at most once, as the last
thing that it does. Nothing else that concerns the workflow as a whole is reported while work is done,
and no work touches the change that is still to be announced.
-/

namespace Workflow

/-- Whether an event is a change of the workflow. -/
def TrackingEvent.isLifecycle : TrackingEvent → Bool
  | lifecycle _ => true
  | _ => false

/-- Whether a change of the workflow is its end. -/
def LifecycleEvent.isEnding : LifecycleEvent → Bool
  | completed => true
  | canceled => true
  | faulted => true
  | terminated => true
  | _ => false

/-- Report events one after another. -/
def TrackingProvider.tell (t : TrackingProvider) (workflow : WorkflowId)
    (events : List TrackingEvent) : TrackingProvider :=
  events.foldl (fun t x => t.emit workflow x) t

theorem TrackingProvider.tell_append (t : TrackingProvider) (w : WorkflowId)
    (xs ys : List TrackingEvent) : t.tell w (xs ++ ys) = (t.tell w xs).tell w ys :=
  List.foldl_append

namespace Executor

variable {e e' e'' : Executor} {xs ys : List TrackingEvent} {k x : InstanceId}

/-- What is reported on the way from one executor to another. -/
structure Tells (e : Executor) (events : List TrackingEvent) (e' : Executor) : Prop where
  workflow : e'.workflow = e.workflow
  tracking : e'.tracking = e.tracking.tell e.workflow events

theorem Tells.trans (h : e.Tells xs e') (h' : e'.Tells ys e'') : e.Tells (xs ++ ys) e'' := by
  refine ⟨h'.workflow.trans h.workflow, ?_⟩
  rw [h'.tracking, h.tracking, h.workflow, TrackingProvider.tell_append]

theorem tells_track (e : Executor) (event : TrackingEvent) : e.Tells [event] (e.track event) :=
  ⟨rfl, rfl⟩

/-- Nothing is reported, and the workflow as a whole stays as it is; at most it is runnable again. -/
structure Mum (e e' : Executor) : Prop where
  workflow : e'.workflow = e.workflow
  tracking : e'.tracking = e.tracking
  outcome : e'.outcome = e.outcome
  announcement : e'.announcement = e.announcement
  state : e'.state = e.state ∨ e.state = .idle ∧ e'.state = .runnable

/-- Only changes of activities are reported, and the workflow as a whole stays as it is; at most it
is runnable again. -/
structure Quiet (e e' : Executor) : Prop where
  tells : ∃ events, e.Tells events e' ∧ ∀ x ∈ events, x.isLifecycle = false
  outcome : e'.outcome = e.outcome
  announcement : e'.announcement = e.announcement
  state : e'.state = e.state ∨ e.state = .idle ∧ e'.state = .runnable

/-- The workflow ends, and that is all that is reported. -/
structure Finishes (e e' : Executor) : Prop where
  tells : ∃ event : LifecycleEvent, event.isEnding = true ∧ e.Tells [.lifecycle event] e'
  outcome : ∃ o, e'.outcome = some o ∧ o.isCompleted = true
  announcement : e'.announcement = e.announcement
  state : e'.state.isCompleted = true

/-- Work is done; the workflow may end with it. -/
inductive Effect (e e' : Executor) : Prop
  /-- The workflow goes on. -/
  | quiet (h : Quiet e e')
  /-- The workflow ends at last. -/
  | ends {m : Executor} (h : Quiet e m) (hf : Finishes m e')

namespace Mum

theorem refl (e : Executor) : Mum e e :=
  ⟨rfl, rfl, rfl, rfl, .inl rfl⟩

/-- The workflow may be made runnable only once. -/
theorem state_trans {a b c : WorkflowState} (h : b = a ∨ a = .idle ∧ b = .runnable)
    (h' : c = b ∨ b = .idle ∧ c = .runnable) : c = a ∨ a = .idle ∧ c = .runnable := by
  rcases h with rfl | ⟨ha, rfl⟩
  · exact h'
  · rcases h' with rfl | ⟨hb, -⟩
    · exact .inr ⟨ha, rfl⟩
    · exact absurd hb WorkflowState.noConfusion

theorem trans (h : Mum e e') (h' : Mum e' e'') : Mum e e'' :=
  ⟨h'.workflow.trans h.workflow, h'.tracking.trans h.tracking, h'.outcome.trans h.outcome,
    h'.announcement.trans h.announcement, state_trans h.state h'.state⟩

theorem modify (e : Executor) (k : InstanceId) (f : Instance → Instance) : Mum e (e.modify k f) :=
  ⟨rfl, rfl, rfl, rfl, .inl rfl⟩

theorem release (e : Executor) (k : InstanceId) (n : Nat) : Mum e (e.release k n) :=
  ⟨rfl, rfl, rfl, rfl, .inl rfl⟩

theorem log (e : Executor) (entry : JournalEntry) : Mum e (e.log entry) :=
  ⟨rfl, rfl, rfl, rfl, .inl rfl⟩

theorem enqueue (e : Executor) (w : WorkItem) : Mum e (e.enqueue w) :=
  ⟨rfl, rfl, rfl, rfl, .inl rfl⟩

/-- Nothing is reported over a list if nothing is reported for any of its items. -/
theorem foldl {α : Type} {f : Executor → α → Executor} (hf : ∀ e a, Mum e (f e a)) (l : List α)
    (e : Executor) : Mum e (l.foldl f e) := by
  induction l generalizing e with
  | nil => exact .refl e
  | cons a l ih => exact (hf e a).trans (ih _)

theorem drainInbox (e : Executor) : Mum e e.drainInbox.2 := by
  refine ⟨rfl, rfl, rfl, rfl, ?_⟩
  unfold Executor.drainInbox
  dsimp only
  split
  · next h => exact .inr ⟨h.2, rfl⟩
  · exact .inl rfl

theorem resumeBookmark (e : Executor) (b : Bookmark) (v : Value) (p : Priority) :
    Mum e (e.resumeBookmark b v p).2 := by
  unfold Executor.resumeBookmark
  split
  · exact .refl e
  · split
    · exact .refl e
    · refine ⟨rfl, rfl, rfl, rfl, ?_⟩
      dsimp only
      split
      · next h => exact .inr ⟨h, rfl⟩
      · exact .inl rfl

theorem completeHandle (e : Executor) (h : OperationHandle) (result : Except ActivityError Value) :
    Mum e (e.completeHandle h result).2 := by
  unfold Executor.completeHandle
  split
  · exact ⟨rfl, rfl, rfl, rfl, .inl rfl⟩
  · exact .refl e

theorem cancelChild (e : Executor) (p c : InstanceId) : Mum e (e.cancelChild p c).2 := by
  unfold Executor.cancelChild
  split
  · exact .refl e
  · split
    · exact .enqueue e _
    · exact .refl e

theorem cancelChildren (e : Executor) (p : InstanceId) : Mum e (e.cancelChildren p) :=
  foldl (fun e _ => .enqueue e _) _ e

theorem markCanceled (e : Executor) (k : InstanceId) : Mum e (e.markCanceled k).2 := by
  unfold Executor.markCanceled
  split
  · exact .refl e
  · split
    · exact .modify e _ _
    · exact .refl e

theorem createBookmark (e : Executor) (g : Registration) : Mum e (e.createBookmark g).2 := by
  unfold Executor.createBookmark
  split
  · split
    · exact .refl e
    · dsimp only
      split <;> exact ⟨rfl, rfl, rfl, rfl, .inl rfl⟩
  · exact .refl e

theorem removeBookmark (e : Executor) (k : InstanceId) (b : Bookmark) :
    Mum e (e.removeBookmark k b).2 := by
  unfold Executor.removeBookmark
  split
  · exact .refl e
  · split
    · dsimp only
      split <;> exact ⟨rfl, rfl, rfl, rfl, .inl rfl⟩
    · exact .refl e

theorem createScope (e : Executor) (k : InstanceId) : Mum e (e.createScope k).2 := by
  unfold Executor.createScope
  split
  · exact .refl e
  · split
    · exact ⟨rfl, rfl, rfl, rfl, .inl rfl⟩
    · exact .refl e

theorem writeLocation (e : Executor) (k : InstanceId) (l : Location) (v : Value) :
    Mum e (e.writeLocation k l v).2 := by
  unfold Executor.writeLocation
  dsimp only
  split
  · exact .modify e _ _
  · exact .refl e

theorem assignArgument (e : Executor) (k : InstanceId) (name : String) (v : Value) :
    Mum e (e.assignArgument k name v).2 := by
  unfold Executor.assignArgument
  split
  · exact .refl e
  · split
    · exact .refl e
    · split
      · exact .modify e _ _
      · exact .refl e

theorem answerContext (e : Executor) (k : InstanceId) (q : ContextRequest) :
    Mum e (e.answerContext k q).2 := by
  cases q with
  | say text => exact .log e _
  | write l v => exact .writeLocation e k l v
  | setArgument name v => exact .assignArgument e k name v
  | _ => exact .refl e

theorem answerCancellation (e : Executor) (k : InstanceId) (q : CancellationRequest) :
    Mum e (e.answerCancellation k q).2 := by
  cases q with
  | isRequested => exact .refl e
  | accept => exact .markCanceled e k

theorem answerOperation (e : Executor) (q : OperationRequest) : Mum e (e.answerOperation q).2 := by
  cases q with
  | complete operation result =>
    unfold Executor.answerOperation
    dsimp only
    split
    · have unused : Mum e { e with handles := e.handles.erase operation } :=
        ⟨rfl, rfl, rfl, rfl, .inl rfl⟩
      exact unused.trans (.completeHandle _ _ _)
    · exact .refl e
  | discard operation => exact ⟨rfl, rfl, rfl, rfl, .inl rfl⟩

theorem recordResult (e : Executor) (k : InstanceId) (result : Option Value) :
    Mum e (e.recordResult k result) := by
  cases result with
  | none => exact .refl e
  | some v => exact .modify e _ _

theorem callAbortHook (e : Executor) (k : InstanceId) (reason : Fault) :
    Mum e (e.callAbortHook k reason) := by
  unfold Executor.callAbortHook
  split
  · exact .refl e
  · dsimp only
    split
    · exact .refl e
    · exact .log e _

theorem copyOutputs (e : Executor) (p : InstanceId) (c : Instance) : Mum e (e.copyOutputs p c) := by
  refine foldl (fun e a => ?_) _ e
  split
  · split
    · exact .modify e _ _
    · exact .refl e
  · exact .refl e

end Mum

namespace Quiet

theorem of_mum (h : Mum e e') : Quiet e e' :=
  ⟨⟨[], ⟨h.workflow, h.tracking⟩, fun _ hx => absurd hx List.not_mem_nil⟩,
    h.outcome, h.announcement, h.state⟩

theorem refl (e : Executor) : Quiet e e :=
  .of_mum (.refl e)

theorem trans (h : Quiet e e') (h' : Quiet e' e'') : Quiet e e'' := by
  obtain ⟨xs, tells, hxs⟩ := h.tells
  obtain ⟨ys, tells', hys⟩ := h'.tells
  refine ⟨⟨xs ++ ys, tells.trans tells', fun x hx => ?_⟩, h'.outcome.trans h.outcome,
    h'.announcement.trans h.announcement, Mum.state_trans h.state h'.state⟩
  exact (List.mem_append.mp hx).elim (hxs x) (hys x)

theorem mum (h : Quiet e e') (h' : Mum e' e'') : Quiet e e'' :=
  h.trans (.of_mum h')

/-- Only changes of activities are reported over a list if that is so for each of its items. -/
theorem foldl {α : Type} {f : Executor → α → Executor} (hf : ∀ e a, Quiet e (f e a)) (l : List α)
    (e : Executor) : Quiet e (l.foldl f e) := by
  induction l generalizing e with
  | nil => exact .refl e
  | cons a l ih => exact (hf e a).trans (ih _)

theorem track (e : Executor) {event : TrackingEvent} (hx : event.isLifecycle = false) :
    Quiet e (e.track event) :=
  ⟨⟨[event], e.tells_track event, fun _ hy => List.mem_singleton.mp hy ▸ hx⟩, rfl, rfl, .inl rfl⟩

theorem trackState (e : Executor) (k : InstanceId) (s : ActivityState) :
    Quiet e (e.trackState k s) := by
  unfold Executor.trackState
  split
  · exact .track e rfl
  · exact .refl e

theorem trackScheduled (e : Executor) (p : Option ActivityInfo) (k : InstanceId) :
    Quiet e (e.trackScheduled p k) := by
  unfold Executor.trackScheduled
  split
  · exact .track e rfl
  · exact .refl e

theorem trackResumed (e : Executor) (b : Bookmark) (k : InstanceId) :
    Quiet e (e.trackResumed b k) := by
  unfold Executor.trackResumed
  split
  · exact .track e rfl
  · exact .refl e

theorem trackFault (e : Executor) (f : Fault) (handler : Option InstanceId) :
    Quiet e (e.trackFault f handler) :=
  .track e rfl

/-! ### Answers -/

theorem scheduleChild (e : Executor) (p : InstanceId) (n : NodeId) (options : ScheduleOptions) :
    Quiet e (e.scheduleChild p n options).2 := by
  unfold Executor.scheduleChild
  split
  · exact .refl e
  · have adopted : ∀ c, Mum e (e.adopt p c) := fun _ => ⟨rfl, rfl, rfl, rfl, .inl rfl⟩
    exact (of_mum (adopted _)).trans (.trackScheduled _ _ _)

theorem answerScheduling (e : Executor) (k : InstanceId) (q : SchedulingRequest) :
    Quiet e (e.answerScheduling k q).2 := by
  cases q with
  | schedule n options => exact .scheduleChild e k n options
  | cancelChild c => exact .of_mum (.cancelChild e k c)
  | cancelChildren => exact .of_mum (.cancelChildren e k)
  | createBookmark name scope callback options => exact .of_mum (.createBookmark e _)
  | removeBookmark b => exact .of_mum (.removeBookmark e k b)
  | createScope => exact .of_mum (.createScope e k)
  | resume b v => exact .of_mum (.resumeBookmark e b v .normal)
  | _ => exact .of_mum ⟨rfl, rfl, rfl, rfl, .inl rfl⟩

theorem answer (e : Executor) (k : InstanceId) {kind : BodyKind} (q : Request kind) :
    Quiet e (e.answer k q).2 := by
  cases q with
  | context q => exact .of_mum (.answerContext e k q)
  | cancellation q _ => exact .of_mum (.answerCancellation e k q)
  | operation q => exact .of_mum (.answerOperation e q)
  | scheduling q => exact .answerScheduling e k q

/-- Whatever a program asks, only changes of activities are reported. -/
theorem perform {kind : BodyKind} {α : Type} (e : Executor) (k : InstanceId)
    (program : Program kind α) : Quiet e (e.perform k program).2 := by
  induction program generalizing e with
  | done a => exact .refl e
  | crash c => exact .refl e
  | ask q next ih => exact (Quiet.answer e k q).trans (ih _ _)

/-! ### Tearing down -/

theorem abortInstance (e : Executor) (reason : Fault) (k : InstanceId) :
    Quiet e (e.abortInstance reason k) := by
  unfold Executor.abortInstance
  split
  · exact .refl e
  · have erased : ∀ m : Executor, Mum m { m with instances := m.instances.erase k } :=
      fun m => ⟨rfl, rfl, rfl, rfl, .inl rfl⟩
    have released : Mum e (e.releaseResources k) := ⟨rfl, rfl, rfl, rfl, .inl rfl⟩
    dsimp only
    split
    · exact .of_mum (erased e)
    · exact ((of_mum (released.trans (.callAbortHook _ k reason))).trans
        (.trackState _ k .faulted)).mum (erased _)

theorem markFaulted (e : Executor) (k : InstanceId) (f : Fault) : Quiet e (e.markFaulted k f) := by
  have released : ∀ m : Executor, Mum m (m.releaseResources k) :=
    fun m => ⟨rfl, rfl, rfl, rfl, .inl rfl⟩
  have torn : Quiet e ((e.descendants k).foldl (fun e k => e.abortInstance f k)
      (e.modify k fun i => { i with state := .faulting, children := [] })) :=
    (of_mum (.modify e k _)).trans (foldl (fun e k => .abortInstance e f k) _ _)
  exact ((torn.mum (released _)).mum (.modify _ k _)).trans (.trackState _ k .faulted)

end Quiet

/-! ### Work -/

/-- A workflow whose root has ended ends. -/
theorem finishes_of_ending {s : WorkflowState} {o : Outcome} {event : LifecycleEvent}
    (h : e.ending? = some (s, o, event)) :
    s.isCompleted = true ∧ o.isCompleted = true ∧ event.isEnding = true := by
  obtain ⟨r, -, hr⟩ := Option.bind_eq_some_iff.mp h
  split at hr
  · cases hr
    exact ⟨rfl, rfl, rfl⟩
  · cases hr
    exact ⟨rfl, rfl, rfl⟩
  · obtain ⟨f, -, hf⟩ := Option.map_eq_some_iff.mp hr
    cases hf
    refine ⟨rfl, rfl, ?_⟩
    split <;> rfl
  · exact absurd hr.symm (Option.some_ne_none _)

/-- Work goes on from where only changes of activities have been reported. -/
theorem Quiet.effect (h : Quiet e e') (h' : Effect e' e'') : Effect e e'' := by
  cases h' with
  | quiet h' => exact .quiet (h.trans h')
  | ends h' hf => exact .ends (h.trans h') hf

theorem Mum.effect (h : Mum e e') (h' : Effect e' e'') : Effect e e'' :=
  (Quiet.of_mum h).effect h'

namespace Effect

theorem refl (e : Executor) : Effect e e :=
  .quiet (.refl e)

theorem of_mum (h : Mum e e') : Effect e e' :=
  .quiet (.of_mum h)

theorem finishWorkflow (e : Executor) : Effect e e.finishWorkflow := by
  unfold Executor.finishWorkflow
  split
  · exact .refl e
  · next s o event he =>
    obtain ⟨hs, ho, hx⟩ := finishes_of_ending he
    exact .ends (.refl e) ⟨⟨event, hx, rfl, rfl⟩, ⟨o, rfl, ho⟩, rfl, hs⟩

theorem completeInstance (e : Executor) (k : InstanceId) : Effect e (e.completeInstance k) := by
  unfold Executor.completeInstance
  split
  · exact .refl e
  · have marked : ∀ f g, Mum e { e.modify k f with bookmarks := g } :=
      fun _ _ => ⟨rfl, rfl, rfl, rfl, .inl rfl⟩
    have settled : ∀ f g s, Quiet e (trackState { e.modify k f with bookmarks := g } k s) :=
      fun f g s => (Quiet.of_mum (marked f g)).trans (.trackState _ k s)
    dsimp only
    split
    · exact .quiet ((settled _ _ _).mum (.enqueue _ _))
    · exact (settled _ _ _).effect (.finishWorkflow _)

theorem tryComplete (e : Executor) (k : InstanceId) : Effect e (e.tryComplete k) := by
  unfold Executor.tryComplete
  split
  · exact .completeInstance e k
  · exact .refl e

/-- A fault ends the workflow only at the root, where it goes no further. -/
theorem propagate (fuel : Nat) (k : InstanceId) (f : Fault) (e : Executor) :
    Effect e (propagate fuel k f e) := by
  induction fuel generalizing k e with
  | zero => exact .refl e
  | succ fuel ih =>
    unfold Executor.propagate
    split
    · exact .refl e
    · split
      · exact .refl e
      · refine (Quiet.markFaulted e k f).effect ?_
        split
        · exact (Quiet.trackFault _ f none).effect (.finishWorkflow _)
        · exact (Quiet.trackFault _ f _).effect (.of_mum (.enqueue _ _))
        · exact ih _ _

theorem faultInstance (e : Executor) (k : InstanceId) (f : Fault) : Effect e (e.faultInstance k f) :=
  .propagate _ k f e

theorem raise (e : Executor) (k : InstanceId) (error : ActivityError) :
    Effect e (e.raise k error) := by
  unfold Executor.raise
  split
  · exact .refl e
  · exact .faultInstance e k _

end Effect

/-- A body that answers lets the workflow go on; one that crashes may end it. -/
theorem invoke_effect {kind : BodyKind} {α : Type} (e : Executor) (k : InstanceId) (c : Callback)
    (program : Program kind α) :
    Effect e (e.invoke k c program).2 ∧
      ∀ a, (e.invoke k c program).1 = some a → Quiet e (e.invoke k c program).2 := by
  have performed : Quiet e ((e.log (.call k (e.nodeOf k).body.label c)).perform k program).2 :=
    (Quiet.of_mum (.log e _)).trans (.perform _ k program)
  unfold invoke
  dsimp only
  split
  · next hp =>
    rw [hp] at performed
    exact ⟨.quiet performed, fun _ _ => performed⟩
  · next hp =>
    rw [hp] at performed
    exact ⟨performed.effect (.raise _ k _), fun _ ha => absurd ha.symm (Option.some_ne_none _)⟩

namespace Effect

/-- What follows the answer of a body is done only if the workflow goes on. -/
theorem runBody (e : Executor) (k : InstanceId) (b : Behaviour) :
    Effect e (e.runBody k b).2 ∧ ((e.runBody k b).1 = true → Quiet e (e.runBody k b).2) := by
  cases b with
  | code program =>
    obtain ⟨effect, quiet⟩ := e.invoke_effect k .execute program
    unfold Executor.runBody
    dsimp only
    split
    · next result m hi =>
      rw [hi] at quiet
      have recorded : Quiet e (m.recordResult k result) := (quiet _ rfl).mum (.recordResult m k _)
      exact ⟨.quiet recorded, fun _ => recorded⟩
    · next hi =>
      rw [hi] at effect
      exact ⟨effect, fun h => absurd h Bool.false_ne_true⟩
  | native body =>
    obtain ⟨effect, quiet⟩ := e.invoke_effect k .execute body.execute
    exact ⟨effect, fun h => (Option.isSome_iff_exists.mp h).elim quiet⟩
  | async body =>
    have begun : Mum e (e.beginOperation k).2 := ⟨rfl, rfl, rfl, rfl, .inl rfl⟩
    obtain ⟨effect, quiet⟩ := (e.beginOperation k).2.invoke_effect k
      (.start (e.beginOperation k).1) (body.start (e.beginOperation k).1)
    exact ⟨begun.effect effect,
      fun h => (Option.isSome_iff_exists.mp h).elim fun a ha => (Quiet.of_mum begun).trans (quiet a ha)⟩

theorem executeActivity (e : Executor) (k : InstanceId) : Effect e (e.executeActivity k) := by
  unfold Executor.executeActivity
  split
  · next b _ _ =>
    split
    · exact .refl e
    · refine (Quiet.trackState e k .executing).effect ?_
      obtain ⟨effect, quiet⟩ := runBody (e.trackState k .executing) k b
      dsimp only
      split
      · next hb =>
        rw [hb] at quiet
        exact ((quiet rfl).mum (.modify _ k _)).effect (.tryComplete _ k)
      · next hb =>
        rw [hb] at effect
        exact effect
  · exact .refl e

theorem callBack (e : Executor) (k : InstanceId) (c : Callback) (program : Program .native Unit) :
    Effect e (e.callBack k c program) := by
  obtain ⟨effect, quiet⟩ := e.invoke_effect k c program
  unfold Executor.callBack
  split
  · next hi =>
    rw [hi] at quiet
    exact (quiet _ rfl).effect (.tryComplete _ k)
  · next hi =>
    rw [hi] at effect
    exact effect

theorem deliverCompletion (e : Executor) (p c : InstanceId) : Effect e (e.deliverCompletion p c) := by
  unfold Executor.deliverCompletion
  split
  · exact .refl e
  · next i _ =>
    have erased : Mum e { e with instances := e.instances.erase c } :=
      ⟨rfl, rfl, rfl, rfl, .inl rfl⟩
    dsimp only
    refine erased.effect ?_
    generalize { e with instances := e.instances.erase c } = m
    split
    · exact .refl m
    · refine (Mum.modify m p fun q => { q with children := q.children.filter (· != c) }).effect
        ((Mum.release _ p 1).effect ?_)
      generalize release _ p 1 = m
      have copied : Mum m (if i.state = .closed then m.copyOutputs p i else m) := by
        split
        · exact .copyOutputs m p i
        · exact .refl m
      refine copied.effect ?_
      generalize (if i.state = .closed then m.copyOutputs p i else m) = m
      split
      · exact .callBack _ p _ _
      · exact .tryComplete _ p

theorem deliverFault (e : Executor) (p c : InstanceId) (tag : CallbackTag) (f : Fault) :
    Effect e (e.deliverFault p c tag f) := by
  unfold Executor.deliverFault
  split
  · exact .refl e
  · split
    · exact .faultInstance e p f
    · next body _ =>
      dsimp only
      generalize (⟨f, c, ((e.instance? c).map (·.node)).getD f.sourceNode⟩ : FaultContext) = context
      obtain ⟨effect, quiet⟩ :=
        e.invoke_effect p (.childFaulted tag context) (body.childFaulted tag context)
      split
      · next hi =>
        rw [hi] at effect
        exact effect
      · next hi =>
        rw [hi] at quiet
        exact .quiet ((quiet _ rfl).mum (.enqueue _ _))
      · next hi =>
        rw [hi] at quiet
        exact (quiet _ rfl).effect (.faultInstance _ p f)

theorem runCancel (e : Executor) (k : InstanceId) (b : Behaviour) :
    Effect e (e.runCancel k b).2 ∧ ((e.runCancel k b).1 = true → Quiet e (e.runCancel k b).2) := by
  cases b with
  | code program => exact ⟨.refl e, fun _ => .refl e⟩
  | native body =>
    obtain ⟨effect, quiet⟩ := e.invoke_effect k .cancel body.cancel
    exact ⟨effect, fun h => (Option.isSome_iff_exists.mp h).elim quiet⟩
  | async body =>
    obtain ⟨effect, quiet⟩ := e.invoke_effect k .cancel body.cancel
    unfold Executor.runCancel
    dsimp only
    generalize e.invoke k .cancel body.cancel = answered at effect quiet
    obtain ⟨result, m⟩ := answered
    dsimp only at effect quiet ⊢
    split
    · next h =>
      obtain ⟨a, ha⟩ := Option.isSome_iff_exists.mp h.1
      have abandoned : Mum m (m.abandonOperations k) := ⟨rfl, rfl, rfl, rfl, .inl rfl⟩
      exact ⟨.quiet ((quiet a ha).mum abandoned), fun _ => (quiet a ha).mum abandoned⟩
    · exact ⟨effect, fun h => (Option.isSome_iff_exists.mp h).elim quiet⟩

theorem cancelInstance (e : Executor) (k : InstanceId) : Effect e (e.cancelInstance k) := by
  unfold Executor.cancelInstance
  split
  · next b _ _ =>
    split
    · exact .refl e
    · split
      · exact (Mum.modify e k _).effect (.completeInstance _ k)
      · refine (Mum.modify e k fun i =>
          { i with cancelRequested := true, state := .canceling }).effect
            ((Quiet.trackState _ k .canceling).effect ?_)
        dsimp only
        generalize trackState _ k .canceling = m
        obtain ⟨effect, quiet⟩ := runCancel m k b
        split
        · next hb =>
          rw [hb] at quiet
          exact (quiet rfl).effect (.tryComplete _ k)
        · next hb =>
          rw [hb] at effect
          exact effect
  · exact .refl e

theorem deliverResumption (e : Executor) (k : InstanceId) (b : Bookmark) (c : Option CallbackTag)
    (v : Value) (releases : Bool) : Effect e (e.deliverResumption k b c v releases) := by
  unfold Executor.deliverResumption
  split
  · exact .refl e
  · dsimp only
    have released : Mum e (if releases = true then e.release k 1 else e) := by
      split
      · exact .release e k 1
      · exact .refl e
    refine released.effect ((Quiet.trackResumed _ b k).effect ?_)
    generalize trackResumed _ b k = m
    split
    · exact .callBack _ k _ _
    · exact .tryComplete _ k

theorem completeOperation (e : Executor) (o : OperationId) (result : Except ActivityError Value) :
    Effect e (e.completeOperation o result) := by
  unfold Executor.completeOperation
  split
  · exact .refl e
  · next owner _ =>
    dsimp only
    have forgotten : Mum e { e with operations := e.operations.erase o } :=
      ⟨rfl, rfl, rfl, rfl, .inl rfl⟩
    refine forgotten.effect ?_
    split
    · exact .refl _
    · refine (Mum.release _ owner 1).effect ?_
      split
      · exact .raise _ owner _
      · next v body _ =>
        generalize Executor.release _ owner 1 = m
        obtain ⟨effect, quiet⟩ := m.invoke_effect owner (.finish v) (body.finish v)
        split
        · next hi =>
          rw [hi] at quiet
          exact ((quiet _ rfl).mum (.recordResult _ owner _)).effect (.tryComplete _ owner)
        · next hi =>
          rw [hi] at effect
          exact effect
      · exact .refl _

/-- An item of work ends the workflow at most, and as the last thing that it does. -/
theorem dispatch (e : Executor) (w : WorkItem) : Effect e (e.dispatch w) := by
  cases w with
  | execute k => exact .executeActivity e k
  | completion p c => exact .deliverCompletion e p c
  | fault p c tag f => exact .deliverFault e p c tag f
  | cancel k => exact .cancelInstance e k
  | bookmark k b c v releases => exact .deliverResumption e k b c v releases
  | operation o result => exact .completeOperation e o result

theorem step (hs : e.step? = some e') : Effect e e' := by
  unfold step? at hs
  dsimp only at hs
  split at hs
  · exact absurd hs.symm (Option.some_ne_none _)
  · cases hs
    have popped : ∀ (m : Executor) (q : WorkQueue), Mum m { m with queue := q } :=
      fun _ _ => ⟨rfl, rfl, rfl, rfl, .inl rfl⟩
    exact ((Mum.drainInbox e).trans (popped _ _)).effect (.dispatch _ _)

end Effect

end Executor

end Workflow
