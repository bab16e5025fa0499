import Workflow.Proofs.Bindings

/-!
# Dependents

Only native activities take on children and bookmarks. Whatever else happens takes dependents away or
leaves them where they are, and so whoever has one runs a native activity.
-/

namespace Workflow.Executor

variable {e e' e'' r : Executor} {d : Definition} {N : InstanceId → Prop}
variable {x k p c : InstanceId} {i : Instance} {f : Instance → Instance}

/-- An identifier that has been given out, and whose instance runs a native activity while it is
there. -/
structure IsNative (e : Executor) (k : InstanceId) : Prop where
  given : k.number < e.nextInstance
  native : ∀ {i : Instance}, e.instances[k]? = some i → (e.definition.node i.node).body.kind = .native

/-- Who is there and runs a native body runs a native activity. -/
theorem IsNative.of_nativeBody {body : NativeBody}
    (below : ∀ {i : Instance}, e.instances[x]? = some i → x.number < e.nextInstance)
    (hb : e.nativeBody? x = some body) : e.IsNative x := by
  unfold nativeBody? at hb
  split at hb
  · next b hk =>
    obtain ⟨i, hi, hbody⟩ := Option.map_eq_some_iff.mp hk
    refine ⟨below hi, fun {j} hj => ?_⟩
    cases Eq.trans (Eq.symm hi) hj
    rw [Body.kind, hbody]
    rfl
  · exact absurd hb.symm (Option.some_ne_none body)

/-- Whoever has a child or a bookmark runs a native activity, and so do some given instances. -/
structure Suited (e : Executor) (N : InstanceId → Prop) : Prop where
  given : ∀ {k : InstanceId}, N k → e.IsNative k
  below : ∀ {k : InstanceId} {i : Instance}, e.instances[k]? = some i → k.number < e.nextInstance
  parent : ∀ {k p : InstanceId} {i : Instance}, e.instances[k]? = some i → i.parent = some p →
    e.IsNative p
  owner : ∀ {b : Bookmark} {g : Registration}, e.bookmarks.registrations[b]? = some g →
    e.IsNative g.owner

/-! ### Bookmarks that go -/

/-- No bookmark is new. -/
def Sheds (e e' : Executor) : Prop :=
  ∀ (b : Bookmark) (g : Registration), e'.bookmarks.registrations[b]? = some g →
    e.bookmarks.registrations[b]? = some g

namespace Sheds

theorem of_eq (h : e'.bookmarks.registrations = e.bookmarks.registrations) : Sheds e e' :=
  fun _ _ hg => h ▸ hg

theorem refl (e : Executor) : Sheds e e :=
  of_eq rfl

theorem of_sameCore (h : SameCore e e') : Sheds e e' :=
  of_eq (by rw [h.bookmarks])

theorem trans (h : Sheds e e') (h' : Sheds e' e'') : Sheds e e'' :=
  fun b g hg => h b g (h' b g hg)

/-- The bookmarks of an owner go. -/
theorem removeOwned (h : e'.bookmarks.registrations = (e.bookmarks.removeOwned x).registrations) :
    Sheds e e' := by
  intro b g hg
  rw [h, Registry.removeOwned, Table.lookup_filter] at hg
  exact (Option.filter_eq_some_iff.mp hg).1

/-- One bookmark goes. -/
theorem unregister {b : Bookmark}
    (h : e'.bookmarks.registrations = (e.bookmarks.unregister b).registrations) : Sheds e e' := by
  intro a g hg
  rw [h, Registry.unregister, Table.lookup_erase] at hg
  split at hg
  · exact absurd hg.symm (Option.some_ne_none g)
  · exact hg

theorem finishWorkflow : Sheds e e.finishWorkflow := by
  unfold Executor.finishWorkflow
  split
  · exact refl e
  · exact of_eq rfl

theorem completeInstance : Sheds e (e.completeInstance x) := by
  unfold Executor.completeInstance
  split
  · exact refl e
  · dsimp only
    generalize hm : Executor.trackState _ x _ = m
    have removed : Sheds e m := by
      rw [← hm]
      exact removeOwned (x := x) (by rw [(sameCore_trackState _ _).bookmarks]; rfl)
    split
    · exact removed.trans (of_eq rfl)
    · exact removed.trans finishWorkflow

theorem foldl {α : Type} {f : Executor → α → Executor} (hf : ∀ e a, Sheds e (f e a)) (l : List α) :
    Sheds e (l.foldl f e) := by
  induction l generalizing e with
  | nil => exact refl e
  | cons a rest ih => exact (hf e a).trans ih

theorem abortInstance (reason : Fault) : Sheds e (e.abortInstance reason x) := by
  unfold Executor.abortInstance
  split
  · exact refl e
  · dsimp only
    split
    · exact of_eq rfl
    · have hooked := sameCore_callAbortHook (e := e.releaseResources x) x reason
      have tracked := sameCore_trackState (e := (e.releaseResources x).callAbortHook x reason) x
        .faulted
      have released : Sheds e (e.releaseResources x) := removeOwned (x := x) rfl
      exact released.trans (of_eq (congrArg Registry.registrations (hooked.trans tracked).bookmarks))

theorem markFaulted (f : Fault) : Sheds e (e.markFaulted x f) := by
  unfold Executor.markFaulted
  have torn := foldl (e := e.modify x fun i => { i with state := .faulting, children := [] })
    (fun e k => abortInstance (e := e) (x := k) f) (e.descendants x)
  have released : ∀ m : Executor, Sheds m (m.releaseResources x) := fun m => removeOwned (x := x) rfl
  refine (torn.trans (released _)).trans ?_
  exact of_eq (congrArg Registry.registrations (sameCore_trackState x .faulted).bookmarks)

theorem propagate (n : Nat) (f : Fault) : Sheds e (propagate n x f e) := by
  induction n generalizing e x with
  | zero => exact refl e
  | succ n ih =>
    unfold Executor.propagate
    split
    · exact refl e
    · split
      · exact refl e
      · have struck : Sheds e (e.markFaulted x f) := markFaulted f
        dsimp only
        split
        · exact (struck.trans (of_sameCore (sameCore_trackFault f none))).trans finishWorkflow
        · exact struck.trans (of_eq rfl)
        · exact struck.trans ih

theorem raise (error : ActivityError) : Sheds e (e.raise x error) := by
  unfold Executor.raise
  split
  · exact refl e
  · exact propagate _ _

/-- A resumption registers no bookmark. -/
theorem resumeBookmark (b : Bookmark) (v : Value) (p : Priority) :
    Sheds e (e.resumeBookmark b v p).2 := by
  unfold Executor.resumeBookmark
  split
  · exact .refl e
  · split
    · exact .refl e
    · dsimp only
      split
      · exact .unregister (b := b) rfl
      · exact .of_eq rfl

/-- Of all requests to the scheduler only one registers a bookmark. -/
theorem answerScheduling (q : SchedulingRequest)
    (hq : ∀ name scope callback options, q ≠ .createBookmark name scope callback options) :
    Sheds e (e.answerScheduling x q).2 := by
  cases q with
  | schedule node options =>
    unfold Executor.answerScheduling Executor.scheduleChild
    dsimp only
    split
    · exact .refl e
    · exact .of_eq (by rw [addChild, (sameCore_trackScheduled _ _).bookmarks]; rfl)
  | createBookmark name scope callback options => exact absurd rfl (hq name scope callback options)
  | cancelChild child =>
    unfold Executor.answerScheduling Executor.cancelChild
    dsimp only
    split
    · exact .refl e
    · split
      · exact .of_eq rfl
      · exact .refl e
  | cancelChildren => exact .foldl (f := fun e child => e.enqueue (.cancel child)) (fun _ _ => .of_eq rfl) _
  | removeBookmark b =>
    unfold Executor.answerScheduling Executor.removeBookmark
    dsimp only
    split
    · exact .refl e
    · split
      · dsimp only
        split
        · exact .unregister (b := b) rfl
        · exact .unregister (b := b) rfl
      · exact .refl e
  | removeAllBookmarks => exact .removeOwned (x := x) rfl
  | createScope =>
    unfold Executor.answerScheduling Executor.createScope
    dsimp only
    split
    · exact .refl e
    · split
      · exact .of_eq rfl
      · exact .refl e
  | resume b v => exact .resumeBookmark b v .normal
  | _ => exact .of_eq rfl

/-- A request about cancellation registers no bookmark. -/
theorem answerCancellation (q : CancellationRequest) :
    Sheds e (e.answerCancellation x q).2 := by
  cases q with
  | isRequested => exact .refl e
  | accept =>
    unfold Executor.answerCancellation Executor.markCanceled
    dsimp only
    split
    · exact .refl e
    · split
      · exact .of_eq rfl
      · exact .refl e

end Sheds

/-- An instance that is asked to cancel runs what it ran. -/
theorem behaviour?_canceling {b : Behaviour} (hb : e.behaviour? x = some b) :
    ((e.modify x fun i => { i with cancelRequested := true, state := .canceling }).trackState x
      .canceling).behaviour? x = some b := by
  have core := sameCore_trackState (e := e.modify x fun i =>
    { i with cancelRequested := true, state := .canceling }) x .canceling
  obtain ⟨i, hi, rfl⟩ := Option.map_eq_some_iff.mp hb
  have hi : e.instances[x]? = some i := hi
  rw [behaviour?, instance?, core.instances, core.definition, lookup_modify, if_pos rfl, hi]
  rfl

/-! ### Dependents that stay or go -/

namespace Suited

theorem weaken (h : e.Suited N) : e.Suited Nobody :=
  ⟨False.elim, h.below, h.parent, h.owner⟩

/-- Who is there was there, below the same parent and with the same activity. -/
theorem of_back (h : e.Suited N) (hd : e'.definition = e.definition)
    (hn : e'.nextInstance = e.nextInstance) (hs : Sheds e e')
    (back : ∀ {k : InstanceId} {i : Instance}, e'.instances[k]? = some i →
      ∃ j, e.instances[k]? = some j ∧ i.parent = j.parent ∧ i.node = j.node) : e'.Suited N := by
  have keeps : ∀ {k : InstanceId}, e.IsNative k → e'.IsNative k := fun hk => by
    refine ⟨hn ▸ hk.given, fun hi => ?_⟩
    obtain ⟨j, hj, -, same⟩ := back hi
    rw [hd, same]
    exact hk.native hj
  refine ⟨fun hk => keeps (h.given hk), fun hi => ?_, fun hi hp => ?_, fun hg => keeps (h.owner (hs _ _ hg))⟩
  · obtain ⟨j, hj, -⟩ := back hi
    exact hn ▸ h.below hj
  · obtain ⟨j, hj, same, -⟩ := back hi
    exact keeps (h.parent hj (same.symm.trans hp))

theorem of_retains (h : e.Suited N) (hr : Retains e e') (hs : Sheds e e') : e'.Suited N := by
  refine h.of_back hr.definition hr.nextInstance hs fun hi => ?_
  obtain ⟨j, hj, same⟩ := hr.back hi
  exact ⟨j, hj, same.parent, same.node⟩

theorem of_sameCore (h : e.Suited N) (hc : SameCore e e') : e'.Suited N :=
  h.of_retains (.of_sameCore hc) (.of_sameCore hc)

theorem modify (h : e.Suited N) (hf : ∀ i, (f i).parent = i.parent ∧ (f i).node = i.node) :
    (e.modify x f).Suited N := by
  refine h.of_back rfl rfl (.of_eq rfl) fun hi => ?_
  obtain ⟨j, hj, ⟨-, rfl⟩ | ⟨-, rfl⟩⟩ := lookup_modify_cases hi
  · exact ⟨j, hj, hf j⟩
  · exact ⟨_, hj, rfl, rfl⟩

/-- Who runs a native body runs a native activity. -/
theorem isNative (h : e.Suited N) {body : NativeBody} (hb : e.nativeBody? x = some body) :
    e.IsNative x :=
  .of_nativeBody h.below hb

/-- Some of the instances that run native activities may be named. -/
theorem name (h : e.Suited N) (hx : e.IsNative x) : e.Suited (· = x) :=
  ⟨fun hk => hk ▸ hx, h.below, h.parent, h.owner⟩

/-! ### Answers -/

/-- A native activity schedules a child. -/
theorem scheduleChild (h : e.Suited N) (hx : e.IsNative x) (node : NodeId) (options : ScheduleOptions) :
    (e.scheduleChild x node options).2.Suited N := by
  cases hs : e.scheduleChild x node options with
  | mk answer e' =>
    cases answer with
    | error v =>
      unfold Executor.scheduleChild at hs
      split at hs
      · cases hs
        exact h
      · cases hs
    | ok id =>
      obtain ⟨_, _, -, rfl, core⟩ := scheduleChild_eq_ok hs
      obtain ⟨scope, look⟩ := lookup_scheduleChild hs
      have next : e'.nextInstance = e.nextInstance + 1 := core.nextInstance
      have was : ∀ {k : InstanceId} {i : Instance}, e'.instances[k]? = some i →
          (k = ⟨e.nextInstance⟩ ∧ i.parent = some x) ∨
            ∃ j, e.instances[k]? = some j ∧ i.parent = j.parent ∧ i.node = j.node := by
        intro k i hi
        obtain ⟨f, hf, hk⟩ := look k
        rw [hk, Option.map_eq_some_iff] at hi
        obtain ⟨j, hj, rfl⟩ := hi
        split at hj
        · next hkn =>
          cases hj
          exact .inl ⟨hkn.symm, (hf _).parent⟩
        · exact .inr ⟨j, hj, (hf j).parent, (hf j).node⟩
      have keeps : ∀ {k : InstanceId}, e.IsNative k → e'.IsNative k := fun {k} hk => by
        refine ⟨next ▸ Nat.lt_succ_of_lt hk.given, fun hi => ?_⟩
        obtain ⟨rfl, -⟩ | ⟨j, hj, -, same⟩ := was hi
        · exact absurd hk.given (Nat.lt_irrefl _)
        · rw [core.definition, same]
          exact hk.native hj
      refine ⟨fun hk => keeps (h.given hk), fun hi => ?_, fun hi hp => ?_, fun hg => ?_⟩
      · obtain ⟨rfl, -⟩ | ⟨j, hj, -⟩ := was hi
        · exact next ▸ Nat.lt_succ_self _
        · exact next ▸ Nat.lt_succ_of_lt (h.below hj)
      · obtain ⟨-, hx'⟩ | ⟨j, hj, same, -⟩ := was hi
        · cases hx'.symm.trans hp
          exact keeps hx
        · exact keeps (h.parent hj (same.symm.trans hp))
      · rw [core.bookmarks] at hg
        exact keeps (h.owner hg)

/-- A native activity registers a bookmark. -/
theorem createBookmark (h : e.Suited N) {g : Registration} (hx : e.IsNative g.owner) :
    (e.createBookmark g).2.Suited N := by
  unfold Executor.createBookmark
  split
  · split
    · exact h
    · next outcome bookmarks hr =>
      have registered : Suited { e with bookmarks } N := by
        have keeps : ∀ {k : InstanceId}, e.IsNative k → IsNative { e with bookmarks } k :=
          fun hk => ⟨hk.given, hk.native⟩
        refine ⟨fun hk => keeps (h.given hk), h.below, fun hi hp => keeps (h.parent hi hp), ?_⟩
        intro b a hb
        unfold Registry.register at hr
        split at hr
        · split at hr
          · split at hr
            · cases hr
              exact keeps (h.owner hb)
            · cases hr
          · cases hr
            rw [Table.lookup_insert] at hb
            split at hb
            · cases hb
              exact keeps hx
            · exact keeps (h.owner hb)
        · cases hr
      dsimp only
      split
      · exact registered.modify fun _ => ⟨rfl, rfl⟩
      · exact registered
  · exact h

theorem answerContext (h : e.Suited N) (q : ContextRequest) : (e.answerContext x q).2.Suited N := by
  cases q with
  | say text => exact h.of_sameCore (sameCore_log _)
  | write l v =>
    unfold Executor.answerContext Executor.writeLocation
    dsimp only
    split
    · exact h.modify fun _ => ⟨rfl, rfl⟩
    · exact h
  | setArgument name v =>
    unfold Executor.answerContext Executor.assignArgument
    dsimp only
    split
    · exact h
    · split
      · exact h
      · split
        · exact h.modify fun _ => ⟨rfl, rfl⟩
        · exact h
  | _ => exact h

theorem answerScheduling (h : e.Suited N) (hx : e.IsNative x) (q : SchedulingRequest) :
    (e.answerScheduling x q).2.Suited N := by
  by_cases hs : ∃ node options, q = .schedule node options
  · obtain ⟨node, options, rfl⟩ := hs
    exact h.scheduleChild hx node options
  · by_cases hb : ∃ name scope callback options, q = .createBookmark name scope callback options
    · obtain ⟨name, scope, callback, options, rfl⟩ := hb
      exact h.createBookmark (g := ⟨⟨scope.getD _, name⟩, x, callback, options⟩) hx
    · refine h.of_retains (.answerScheduling q fun node options he => hs ⟨node, options, he⟩)
        (.answerScheduling q fun name scope callback options he => ?_)
      exact hb ⟨name, scope, callback, options, he⟩

theorem answerCancellation (h : e.Suited N) (q : CancellationRequest) :
    (e.answerCancellation x q).2.Suited N :=
  h.of_retains (.answerCancellation q) (.answerCancellation q)

/-- Whatever is asked, only a native activity may schedule. -/
theorem answer {K : BodyKind} (h : e.Suited N) (hx : K = .native → N x) (q : Request K) :
    (e.answer x q).2.Suited N := by
  cases q with
  | context q => exact h.answerContext q
  | cancellation q hq => exact h.answerCancellation q
  | operation q => exact h.of_sameCore (sameCore_answerOperation q)
  | scheduling q => exact h.answerScheduling (h.given (hx rfl)) q

theorem perform {K : BodyKind} {α : Type} (p : Program K α) (h : e.Suited N) (hx : K = .native → N x) :
    (e.perform x p).2.Suited N := by
  induction p generalizing e with
  | done a => exact h
  | crash c => exact h
  | ask q next ih => exact ih _ (h.answer hx q)

/-! ### Faults and completion -/

theorem completeInstance (h : e.Suited N) : (e.completeInstance x).Suited N :=
  h.of_retains .completeInstance .completeInstance

theorem tryComplete (h : e.Suited N) : (e.tryComplete x).Suited N := by
  unfold Executor.tryComplete
  split
  · exact h.completeInstance
  · exact h

theorem faultInstance (h : e.Suited N) (f : Fault) : (e.faultInstance x f).Suited N :=
  h.of_retains (.propagate _ f) (.propagate _ f)

theorem raise (h : e.Suited N) (error : ActivityError) : (e.raise x error).Suited N :=
  h.of_retains (.raise error) (.raise error)

theorem release (h : e.Suited N) (n : Nat) : (e.release x n).Suited N :=
  h.of_retains (.release n rfl rfl rfl) (.of_eq rfl)

/-- A callback, which may end in a fault. -/
theorem invoke {K : BodyKind} {α : Type} (h : e.Suited N) (hx : K = .native → N x) (callback : Callback)
    (program : Program K α) : (e.invoke x callback program).2.Suited N := by
  unfold Executor.invoke
  dsimp only
  have performed := perform program
    (h.of_sameCore (sameCore_log (.call x (e.nodeOf x).body.label callback))) hx
  generalize Executor.perform _ x program = result at performed
  obtain ⟨_ | a, m⟩ := result
  · exact performed.raise _
  · exact performed

/-- A callback after which an instance may complete. -/
theorem callBack (h : e.Suited N) (hx : N x) (callback : Callback) (program : Program .native Unit) :
    (e.callBack x callback program).Suited N := by
  have invoked := h.invoke (fun _ => hx) callback program
  unfold Executor.callBack
  generalize e.invoke x callback program = result at invoked
  obtain ⟨_ | a, m⟩ := result
  · exact invoked
  · exact invoked.tryComplete

/-! ### Items of work -/

theorem recordResult (h : e.Suited N) (result : Option Value) : (e.recordResult x result).Suited N := by
  cases result with
  | none => exact h
  | some v => exact h.modify fun _ => ⟨rfl, rfl⟩

/-- The first callback. -/
theorem runBody (h : e.Suited Nobody) {b : Behaviour} (hb : e.behaviour? x = some b) :
    (e.runBody x b).2.Suited Nobody := by
  unfold Executor.runBody
  cases b with
  | code program =>
    have invoked := h.invoke (x := x) (fun hk => BodyKind.noConfusion hk) .execute program
    dsimp only
    generalize e.invoke x .execute program = result at invoked
    obtain ⟨_ | a, m⟩ := result
    · exact invoked
    · exact invoked.recordResult a
  | native body =>
    have found : e.nativeBody? x = some body := by rw [nativeBody?, hb]
    have hx : e.IsNative x := h.isNative found
    exact ((h.name hx).invoke (fun _ => rfl) .execute body.execute).weaken
  | async body =>
    have begun : (e.beginOperation x).2.Suited Nobody :=
      h.of_retains (.of_modified (x := x) (g := Instance.incrementBusy) rfl rfl rfl fun _ => ⟨rfl, rfl, rfl⟩)
        (.of_eq rfl)
    exact begun.invoke (fun hk => BodyKind.noConfusion hk) _ _

theorem executeActivity (h : e.Suited Nobody) : (e.executeActivity x).Suited Nobody := by
  unfold Executor.executeActivity
  split
  · next i b hi hb =>
    split
    · exact h
    · have core := sameCore_trackState (e := e) x .executing
      have tracked := h.of_sameCore core
      have hb : (e.trackState x .executing).behaviour? x = some b := by
        rw [behaviour?, instance?, core.instances, core.definition]
        exact hb
      have ran := tracked.runBody hb
      dsimp only
      generalize (e.trackState x .executing).runBody x b = result at ran
      obtain ⟨_ | _, m⟩ := result
      · exact ran
      · refine tryComplete ?_
        exact ran.modify fun _ => ⟨rfl, rfl⟩
  · exact h

theorem copyOutputs (h : e.Suited N) (c : Instance) : (e.copyOutputs p c).Suited N := by
  unfold Executor.copyOutputs
  generalize (e.definition.node c.node).arguments = l
  induction l generalizing e with
  | nil => exact h
  | cons a rest ih =>
    rw [List.foldl_cons]
    refine ih ?_
    split
    · split
      · exact h.modify fun _ => ⟨rfl, rfl⟩
      · exact h
    · exact h

/-- A native activity is called back, or the instance only tries to complete. -/
theorem callsBack (h : e.Suited Nobody) {tag : Option CallbackTag} (callback : CallbackTag → Callback)
    (program : NativeBody → CallbackTag → Program .native Unit) :
    (match tag, e.nativeBody? x with
      | some tag, some body => e.callBack x (callback tag) (program body tag)
      | _, _ => e.tryComplete x).Suited Nobody := by
  split
  · next hb => exact ((h.name (h.isNative hb)).callBack rfl _ _).weaken
  · exact h.tryComplete

theorem deliverCompletion (h : e.Suited Nobody) : (e.deliverCompletion p c).Suited Nobody := by
  unfold Executor.deliverCompletion
  split
  · exact h
  · next i _ =>
    have erased : Suited { e with instances := e.instances.erase c } Nobody :=
      h.of_retains (.erase c) (.of_eq rfl)
    dsimp only
    split
    · exact erased
    · have dropped : ((e.dropChild p c).release p 1).Suited Nobody := by
        refine release ?_ 1
        exact erased.modify fun _ => ⟨rfl, rfl⟩
      have copied : (if i.state = .closed then ((e.dropChild p c).release p 1).copyOutputs p i
          else (e.dropChild p c).release p 1).Suited Nobody := by
        split
        · exact dropped.copyOutputs i
        · exact dropped
      exact copied.callsBack (.childCompleted · i.completed) fun body tag =>
        body.childCompleted tag i.completed

theorem deliverFault (h : e.Suited Nobody) (tag : CallbackTag) (f : Fault) :
    (e.deliverFault p c tag f).Suited Nobody := by
  unfold Executor.deliverFault
  split
  · exact h
  · split
    · exact h.faultInstance f
    · next body hb =>
      dsimp only
      generalize (⟨f, c, ((e.instance? c).map (·.node)).getD f.sourceNode⟩ : FaultContext) = context
      have invoked := ((h.name (h.isNative hb)).invoke (fun _ => rfl)
        (.childFaulted tag context) (body.childFaulted tag context)).weaken
      generalize e.invoke p (.childFaulted tag context) (body.childFaulted tag context) = result at invoked
      obtain ⟨_ | a, m⟩ := result
      · exact invoked
      · cases a with
        | handled => exact invoked.of_retains (.of_instances rfl rfl rfl) (.of_eq rfl)
        | propagate => exact invoked.faultInstance f

/-- The callback to cancel, if there is one. -/
theorem runCancel (h : e.Suited Nobody) {b : Behaviour} (hb : e.behaviour? x = some b) :
    (e.runCancel x b).2.Suited Nobody := by
  unfold Executor.runCancel
  cases b with
  | code program => exact h
  | native body =>
    have found : e.nativeBody? x = some body := by rw [nativeBody?, hb]
    have hx : e.IsNative x := h.isNative found
    exact ((h.name hx).invoke (fun _ => rfl) .cancel body.cancel).weaken
  | async body =>
    have invoked := h.invoke (x := x) (fun hk => BodyKind.noConfusion hk) .cancel body.cancel
    dsimp only
    split
    · exact invoked.of_retains (.release _ rfl rfl rfl) (.of_eq rfl)
    · exact invoked

/-- An instance that has run is canceling when it is asked to cancel. -/
theorem canceling (h : e.Suited N) : ((e.modify x fun i =>
    { i with cancelRequested := true, state := .canceling }).trackState x .canceling).Suited N := by
  have asked : (e.modify x fun i =>
    { i with cancelRequested := true, state := .canceling }).Suited N :=
    h.modify fun _ => ⟨rfl, rfl⟩
  exact asked.of_sameCore (sameCore_trackState x .canceling)

theorem cancelInstance (h : e.Suited Nobody) : (e.cancelInstance x).Suited Nobody := by
  unfold Executor.cancelInstance
  split
  · next i b hi hb =>
    split
    · exact h
    · split
      · refine completeInstance ?_
        exact h.modify fun _ => ⟨rfl, rfl⟩
      · have canceled := h.canceling.runCancel (behaviour?_canceling hb)
        dsimp only
        generalize Executor.runCancel _ x b = result at canceled
        obtain ⟨_ | _, m⟩ := result
        · exact canceled
        · exact canceled.tryComplete
  · exact h

theorem deliverResumption (h : e.Suited Nobody) (b : Bookmark) (callback : Option CallbackTag)
    (v : Value) (releases : Bool) : (e.deliverResumption x b callback v releases).Suited Nobody := by
  unfold Executor.deliverResumption
  split
  · exact h
  · have released : (if releases then e.release x 1 else e).Suited Nobody := by
      split
      · exact h.release 1
      · exact h
    exact (released.of_sameCore (sameCore_trackResumed b x)).callsBack (.bookmarkResumed · b v)
      fun body tag => body.bookmarkResumed tag b v

theorem completeOperation (h : e.Suited Nobody) (o : OperationId)
    (result : Except ActivityError Value) : (e.completeOperation o result).Suited Nobody := by
  unfold Executor.completeOperation
  split
  · exact h
  · next owner _ =>
    have erased : Suited { e with operations := e.operations.erase o } Nobody :=
      h.of_retains (.of_instances rfl rfl rfl) (.of_eq rfl)
    dsimp only
    split
    · exact erased
    · have released := erased.release (x := owner) 1
      generalize Executor.release _ owner 1 = m at released
      split
      · exact released.raise _
      · next v body _ =>
        have invoked := released.invoke (x := owner) (fun hk => BodyKind.noConfusion hk) (.finish v)
          (body.finish v)
        generalize m.invoke owner (.finish v) (body.finish v) = result at invoked
        obtain ⟨_ | a, n⟩ := result
        · exact invoked
        · exact (invoked.recordResult a).tryComplete
      · exact released

theorem dispatch (h : e.Suited Nobody) (w : WorkItem) : (e.dispatch w).Suited Nobody := by
  cases w with
  | execute x => exact h.executeActivity
  | completion p c => exact h.deliverCompletion
  | fault p c tag f => exact h.deliverFault tag f
  | cancel x => exact h.cancelInstance
  | bookmark x b callback v releases => exact h.deliverResumption b callback v releases
  | operation o result => exact h.completeOperation o result

/-! ### Calls of the host -/

/-- What changes neither instances nor bookmarks takes no dependents on. -/
theorem of_same (h : e.Suited N) (hd : e'.definition = e.definition)
    (hn : e'.nextInstance = e.nextInstance) (hi : e'.instances = e.instances)
    (hb : e'.bookmarks = e.bookmarks) : e'.Suited N :=
  h.of_retains (.of_instances hd hn hi) (.of_eq (congrArg Registry.registrations hb))

theorem step (h : e.Suited Nobody) (hs : e.step? = some e') : e'.Suited Nobody := by
  rw [step?_eq, Option.map_eq_some_iff] at hs
  obtain ⟨⟨w, q⟩, -, rfl⟩ := hs
  have taken : Suited { e.drainInbox.2 with queue := q } Nobody := h.of_same rfl rfl rfl rfl
  exact taken.dispatch w

theorem settle (h : e.Suited N) : e.settle.2.Suited N := by
  unfold Executor.settle
  split
  · exact h
  · split
    · exact h
    · exact h.of_same rfl rfl rfl rfl

theorem announce (h : e.Suited N) : e.announce.Suited N :=
  h.of_sameCore sameCore_announce

theorem run (h : e.Suited Nobody) (limit : Nat) : (e.run limit).2.Suited Nobody := by
  have ran := e.ran limit
  generalize e.run limit = r at ran ⊢
  cases ran with
  | refused _ => exact h
  | ended _ _ | unsettled _ _ _ => exact h.announce
  | settled ha ho hd hs =>
    have began : Suited { e.announce with state := .runnable } Nobody :=
      h.announce.of_same rfl rfl rfl rfl
    have settled := (drainQueue_keeps (P := (·.Suited Nobody)) began
      (fun hm _ hst => hm.step hst) hd).1.settle
    rw [hs] at settled
    exact settled

theorem runOneStep (h : e.Suited Nobody) : e.runOneStep.2.Suited Nobody := by
  have ran := e.ranOnce
  generalize e.runOneStep = r at ran ⊢
  cases ran with
  | refused _ => exact h
  | ended _ _ => exact h.announce
  | unemployed _ _ _ => exact h.announce.settle
  | settled _ _ hs _ => exact (h.announce.step hs).settle
  | working _ _ hs _ _ => exact (h.announce.step hs).of_same rfl rfl rfl rfl
  | completed _ _ hs _ _ => exact h.announce.step hs

theorem serve (h : e.Suited Nobody) (c : ExecutorCall) : (c.serve e).2.Suited Nobody := by
  cases c with
  | run limit => exact h.run limit
  | runOneStep => exact h.runOneStep
  | resumeBookmark b v p =>
    exact h.of_retains (Keeps.resumeBookmark b v p).toRetains (.resumeBookmark b v p)
  | cancel =>
    unfold ExecutorCall.serve Executor.cancelWorkflow
    dsimp only
    split
    · exact h
    · split
      · exact h.of_same rfl rfl rfl rfl
      · exact h.announce.cancelInstance
  | terminate reason =>
    unfold ExecutorCall.serve Executor.terminate
    dsimp only
    split
    · exact h
    · exact h.faultInstance _
  | abort reason =>
    unfold ExecutorCall.serve Executor.abort
    dsimp only
    split
    · exact h
    · refine ⟨False.elim, fun hi => ?_, fun hi => ?_, fun hg => ?_⟩
      all_goals simp [trackLifecycle, track] at *
  | complete operation result =>
    rw [ExecutorCall.serve, completeHandle_own]
    exact h.of_same rfl rfl rfl rfl
  | _ => exact h.of_same rfl rfl rfl rfl

/-! ### Every run of a definition -/

variable {a : Activity}

/-- The root of a new executor has no dependents. -/
theorem fresh (workflow : WorkflowId) (d : Definition) (inputs : Environment) (mailbox : Nat) :
    (Executor.fresh workflow d inputs mailbox).Suited Nobody := by
  refine ⟨False.elim, fun hi => ?_, fun hi hp => ?_, fun hg => ?_⟩
  · obtain ⟨rfl, -⟩ := lookup_rootOnly.mp hi
    exact Nat.one_lt_two
  · obtain ⟨-, rfl⟩ := lookup_rootOnly.mp hi
    exact absurd hp (Option.some_ne_none _).symm
  · simp [Executor.fresh] at hg

/-- Activities of one kind have the same dependents. -/
theorem alike (h : e.Suited Nobody) (ha : e.definition.Alike d) :
    Suited { e with definition := d } Nobody := by
  have keeps : ∀ {k : InstanceId}, e.IsNative k → IsNative { e with definition := d } k :=
    fun hk => ⟨hk.given, fun hi => (ha.kind _).symm.trans (hk.native hi)⟩
  exact ⟨False.elim, h.below, fun hi hp => keeps (h.parent hi hp), fun hg => keeps (h.owner hg)⟩

/-- What comes back has the dependents that it had. -/
theorem reloaded (h : e.Suited Nobody) (hl : Reloaded e d r) (ha : e.definition.Alike d) :
    r.Suited Nobody := by
  refine (h.alike ha).of_back hl.definition hl.nextInstance (.of_eq ?_) fun {k i} hi => ?_
  · exact congrArg Registry.registrations hl.bookmarks
  · rw [hl.instances, Std.ExtTreeMap.getElem?_map, Option.map_eq_some_iff] at hi
    obtain ⟨j, hj, rfl⟩ := hi
    exact ⟨j, hj, rfl, rfl⟩

end Suited

/-- In every run of a definition, whoever has a child or a bookmark runs a native activity. -/
theorem RunOf.suited {a : Activity} (h : RunOf a e) : e.Suited Nobody := by
  induction h with
  | created h =>
    obtain ⟨-, -, rfl⟩ := create_eq_ok.mp h
    exact .fresh _ _ _ _
  | restored h hc hb hr ih =>
    have back : Definition.Alike _ _ := Eq.trans (Eq.symm h.bound.2) hb
    exact ih.reloaded (h.reachable.regular.reloaded hc back hr) back
  | served _ c ih => exact ih.serve c
  | entered _ _ _ ih => exact ih.announce.of_same rfl rfl rfl rfl
  | stepped _ _ _ hs ih => exact ih.step hs
  | hosted _ _ _ ih => exact ih.of_same rfl rfl rfl rfl
  | altered _ ha ih => exact ih.alike ha

end Workflow.Executor
