import Workflow.Proofs.Flow

/-!
# Values in the course of work

Every answer to a body is one step of the flow of values, and so every item of work is several, whatever
the bodies do.
-/

namespace Workflow.Executor

variable {e e' : Executor} {X : InstanceId → Prop} {x k p c : InstanceId} {i r : Instance}
variable {q : WorkQueue} {w : WorkItem}

/-- Nobody leaves while a body is answered. -/
theorem Keeps.of_extends (h : Retains e e') (hx : Extends e e') : Keeps e e' := by
  refine .of_present h fun hk => ?_
  obtain ⟨i, hi, -⟩ := hx.keeps hk
  exact ⟨i, hi⟩

/-! ### Answers -/

theorem Keeps.resumeBookmark (b : Bookmark) (v : Value) (p : Priority) :
    Keeps e (e.resumeBookmark b v p).2 := by
  unfold Executor.resumeBookmark
  split
  · exact .refl e
  · split
    · exact .refl e
    · exact .of_instances rfl rfl rfl

namespace Retains

theorem cancelChild (child : InstanceId) : Retains e (e.cancelChild x child).2 := by
  unfold Executor.cancelChild
  split
  · exact .refl e
  · split
    · exact .of_instances rfl rfl rfl
    · exact .refl e

theorem cancelChildren : Retains e (e.cancelChildren x) :=
  .foldl (f := fun e child => e.enqueue (.cancel child)) (fun _ _ => .of_instances rfl rfl rfl) _

theorem markCanceled : Retains e (e.markCanceled x).2 := by
  unfold Executor.markCanceled
  split
  · exact .refl e
  · split
    · exact .modify fun _ => {}
    · exact .refl e

theorem createBookmark (g : Registration) : Retains e (e.createBookmark g).2 := by
  unfold Executor.createBookmark
  split
  · split
    · exact .refl e
    · dsimp only
      split
      · exact .of_modified (x := g.owner) (g := Instance.incrementBusy) rfl rfl rfl fun _ => {}
      · exact .of_instances rfl rfl rfl
  · exact .refl e

theorem removeBookmark (b : Bookmark) : Retains e (e.removeBookmark x b).2 := by
  unfold Executor.removeBookmark
  split
  · exact .refl e
  · split
    · dsimp only
      split
      · exact .release 1 rfl rfl rfl
      · exact .of_instances rfl rfl rfl
    · exact .refl e

theorem createScope : Retains e (e.createScope x).2 := by
  unfold Executor.createScope
  split
  · exact .refl e
  · split
    · exact .of_instances rfl rfl rfl
    · exact .refl e

/-- Of all requests to the scheduler only one brings somebody. -/
theorem answerScheduling (q : SchedulingRequest) (hq : ∀ node options, q ≠ .schedule node options) :
    Retains e (e.answerScheduling x q).2 := by
  cases q with
  | schedule node options => exact absurd rfl (hq node options)
  | cancelChild child => exact .cancelChild child
  | cancelChildren => exact .cancelChildren
  | createBookmark name scope callback options => exact .createBookmark _
  | removeBookmark b => exact .removeBookmark b
  | removeAllBookmarks => exact .release _ rfl rfl rfl
  | createScope => exact .createScope
  | resume b v => exact (Keeps.resumeBookmark b v .normal).toRetains
  | setResult v => exact .modify fun _ => {}
  | addProperty name v => exact .modify fun _ => {}
  | removeProperty name => exact .modify fun _ => {}
  | requestPersist => exact .of_instances rfl rfl rfl
  | _ => exact .refl e

theorem answerCancellation (q : CancellationRequest) : Retains e (e.answerCancellation x q).2 := by
  cases q with
  | isRequested => exact .refl e
  | accept => exact .markCanceled

end Retains

namespace Flow

/-- A body writes to locations that are there only. -/
theorem writeLocation (hb : e.Bound) (l : Location) (v : Value) :
    Flow e (e.writeLocation x l v).2 := by
  unfold Executor.writeLocation
  dsimp only
  split
  · next env _ henv =>
    obtain ⟨j, hj, hassign⟩ := Option.bind_eq_some_iff.mp henv
    rw [Environment.assign?] at hassign
    split at hassign
    · next there =>
      cases hassign
      have hj : e.instances[l.owner]? = some j := hj
      have hd := (hb.furnished hj l.name).mp (Std.ExtTreeMap.contains_iff_mem.mp there)
      refine .writes (v := v) hj hd (modify_congr fun i hi => ?_)
      cases hj.symm.trans hi
      rfl
    · cases hassign
  · exact .keeps (.refl e)

/-- A body assigns arguments that its activity declares only. -/
theorem assignArgument (name : String) (v : Value) : Flow e (e.assignArgument x name v).2 := by
  unfold Executor.assignArgument
  split
  · exact .keeps (.refl e)
  · next a ha =>
    split
    · exact .keeps (.refl e)
    · split
      · next there =>
        have hj := Std.ExtTreeMap.getElem?_eq_some_getElem (Std.ExtTreeMap.contains_iff_mem.mp there)
        refine .writes hj (List.mem_append_right _ ?_) rfl
        rw [nodeOf, instance?, hj] at ha
        have named : a.name = name := by simpa using List.find?_some ha
        exact List.mem_map.mpr ⟨a, List.mem_of_find?_eq_some ha, named⟩
      · exact .keeps (.refl e)

/-- Every answer is a step. -/
theorem answer {k : BodyKind} (h : e.Consistent X) (hX : X x) (hl : e.isLive x = true) (hb : e.Bound)
    (q : Request k) : Flow e (e.answer x q).2 := by
  have extension := (Follows.answer h hX hl q).extension
  cases q with
  | context q =>
    cases q with
    | say text => exact .keeps (.of_sameCore (sameCore_log _))
    | write l v => exact .writeLocation hb l v
    | setArgument name v => exact .assignArgument name v
    | _ => exact .keeps (.refl e)
  | cancellation q hq => exact .keeps (.of_extends (.answerCancellation q) extension)
  | operation q => exact .keeps (.of_sameCore (sameCore_answerOperation q))
  | scheduling q =>
    by_cases hq : ∃ node options, q = .schedule node options
    · obtain ⟨node, options, rfl⟩ := hq
      exact .scheduleChild h hb node options
    · refine .keeps (.of_extends (.answerScheduling q fun node options he => ?_) extension)
      exact hq ⟨node, options, he⟩

end Flow

namespace Flows

/-- The answers to a program. -/
theorem perform {k : BodyKind} {α : Type} (p : Program k α) (h : e.Consistent X) (hX : X x)
    (hl : e.isLive x = true) (hb : e.Bound) : Flows e (e.perform x p).2 := by
  induction p generalizing e with
  | done a => exact .refl _
  | crash c => exact .refl _
  | ask q next ih =>
    have answered := Flow.answer h hX hl hb q
    have follows : Follows e X (e.answer x q).2 := .answer h hX hl q
    exact (Flows.single answered).trans (ih _ follows.consistent (follows.extension.isLive hl)
      (answered.bound hb))

/-- The fault of a live instance. -/
theorem faultInstance {f : Fault} (h : e.Consistent X) (hl : e.isLive x = true)
    (hX : ∀ {k : InstanceId}, X k → k = x ∨ ∃ i, e.instances[k]? = some i ∧ i.parent = some x)
    (hf : (e.definition.get? f.sourceNode).isSome = true) : Flows e (e.faultInstance x f) :=
  .keeps (.falls (.propagate _ f) h.placed.tree (h.faults hl hX hf).2)

/-- A callback, which may end in a fault. -/
theorem invoke {k : BodyKind} {α : Type} (h : e.Consistent X) (hx : X x) (hl : e.isLive x = true)
    (hX : ∀ {k : InstanceId}, X k → k = x ∨ ∃ i, e.instances[k]? = some i ∧ i.parent = some x)
    (hb : e.Bound) (callback : Callback) (p : Program k α) :
    Flows e (e.invoke x callback p).2 := by
  unfold Executor.invoke
  dsimp only
  generalize hlogged : e.log (.call x (e.nodeOf x).body.label callback) = e₁
  have core : SameCore e e₁ := hlogged ▸ sameCore_log _
  have logged : Follows e X e₁ := .of_sameCore h core
  have hl₁ := logged.extension.isLive hl
  have performs := logged.trans (.perform p logged.consistent hx hl₁)
  have flows : Flows e (e₁.perform x p).2 := (Flows.of_sameCore core).trans
    (.perform p logged.consistent hx hl₁ ((Flows.of_sameCore core).bound hb))
  generalize e₁.perform x p = result at performs flows
  obtain ⟨_ | a, e'⟩ := result
  · have near : ∀ {k : InstanceId}, X k → k = x ∨ ∃ i, e'.instances[k]? = some i ∧
        i.parent = some x := by
      intro k hk
      refine (hX hk).imp_right fun ⟨i, hi, hp⟩ => ?_
      obtain ⟨j, hj, -, hjp, -⟩ := performs.extension.keeps hi
      exact ⟨j, hj, hjp.trans hp⟩
    obtain ⟨-, f, falls⟩ :=
      performs.consistent.raise (performs.extension.isLive hl) near (Crash.toError _)
    exact flows.keep (.falls (.raise _) performs.consistent.placed.tree falls)
  · exact flows

/-- A callback after which an instance may complete. -/
theorem callBack (h : e.Consistent (· = x)) (hl : e.isLive x = true) (hb : e.Bound)
    (callback : Callback) (program : Program .native Unit) :
    Flows e (e.callBack x callback program) := by
  have invoked := Flows.invoke h rfl hl only_self hb callback program
  unfold Executor.callBack
  generalize e.invoke x callback program = result at invoked
  obtain ⟨_ | a, e'⟩ := result
  · exact invoked
  · exact invoked.keep .tryComplete

/-! ### Items of work -/

/-- The first callback. -/
theorem runBody (h : e.Consistent (· = x)) (hl : e.isLive x = true) (hb : e.Bound) {b : Behaviour}
    (hbody : e.behaviour? x = some b) : Flows e (e.runBody x b).2 := by
  unfold Executor.runBody
  cases b with
  | code program =>
    have invoked := Flows.invoke h rfl hl only_self hb .execute program
    dsimp only
    generalize e.invoke x .execute program = result at invoked
    obtain ⟨_ | a, e'⟩ := result
    · exact invoked
    · exact invoked.keep (.recordResult a)
  | native body => exact .invoke h rfl hl only_self hb .execute body.execute
  | async body =>
    have hk : (e.nodeOf x).body.kind = .async := by
      rw [Body.kind, behaviour_eq hbody]
      rfl
    have begun : Follows e (· = x) (e.beginOperation x).2 := .beginOperation h rfl hl hk
    have first : Flows e (e.beginOperation x).2 :=
      .keeps (.of_modified (x := x) (g := Instance.incrementBusy) rfl rfl rfl fun _ => {})
    exact first.trans (.invoke begun.consistent rfl (begun.extension.isLive hl) only_self
      (first.bound hb) _ _)

/-- Taking an item does nothing to locations. -/
theorem taken (q : WorkQueue) : Flows e { e with queue := q } :=
  .keeps (.of_instances rfl rfl rfl)

theorem executeActivity (h : e.Consistent Nobody) (hb : e.Bound)
    (hq : e.queue.work = .execute x :: q.work) :
    Flows e (Executor.executeActivity { e with queue := q } x) := by
  refine (taken q).trans ?_
  have hb : Bound { e with queue := q } := (taken q).bound hb
  unfold Executor.executeActivity
  split
  · next i b hi hbody =>
    split
    · exact .refl _
    · next hx =>
      rw [not_or, not_not] at hx
      have hl : i.state.isLive = true := by
        rw [hx.2]
        rfl
      have hc : Consistent { e with queue := q } (· = x) := h.pop_execute hq hi hl
      have hlx : Executor.isLive { e with queue := q } x = true := isLive_iff.mpr ⟨i, hi, hl⟩
      generalize { e with queue := q } = e₀ at *
      have core := sameCore_trackState (e := e₀) x .executing
      have tracked : Follows e₀ (· = x) (e₀.trackState x .executing) := .of_sameCore hc core
      have first : Flows e₀ (e₀.trackState x .executing) := .of_sameCore core
      have hbody : (e₀.trackState x .executing).behaviour? x = some b := by
        rw [behaviour?, instance?, core.instances, core.definition]
        exact hbody
      have ran := first.trans (.runBody tracked.consistent (tracked.extension.isLive hlx)
        (first.bound hb) hbody)
      dsimp only
      generalize (e₀.trackState x .executing).runBody x b = result at ran
      obtain ⟨_ | _, e'⟩ := result
      · exact ran
      · exact (ran.keep (.modify fun _ => {})).keep .tryComplete
  · exact .refl _

theorem informParent (h : e.Consistent (· = p)) (hl : e.isLive p = true) (hb : e.Bound)
    (i : Instance) : Flows e (e.informParent p i) := by
  unfold Executor.informParent
  split
  · exact .callBack h hl hb _ _
  · exact .keeps .tryComplete

theorem deliverCompletion (h : e.Consistent Nobody) (hb : e.Bound)
    (hq : e.queue.work = .completion p c :: q.work) :
    Flows e (Executor.deliverCompletion { e with queue := q } p c) := by
  refine (taken q).trans ?_
  have hb : Bound { e with queue := q } := (taken q).bound hb
  cases hi : instance? { e with queue := q } c with
  | none =>
    rw [Executor.deliverCompletion, hi]
    exact .refl _
  | some i =>
    obtain ⟨r, leaving⟩ := h.leaving hq hi
    obtain ⟨m, observed, follows, delivered⟩ := leaving.observes hb
    obtain ⟨r', hr', hs, -⟩ := lookup_dropChild_release leaving.parent leaving.ne
    have hl := follows.extension.isLive (isLive_iff.mpr ⟨r', hr', hs ▸ leaving.live⟩)
    rw [delivered]
    exact (Flows.single observed).trans (.informParent follows.consistent hl (observed.bound hb) i)

theorem deliverFault {tag : CallbackTag} {f : Fault} (h : e.Consistent Nobody) (hb : e.Bound)
    (hq : e.queue.work = .fault p c tag f :: q.work) :
    Flows e (Executor.deliverFault { e with queue := q } p c tag f) := by
  have hw : WorkItem.fault p c tag f ∈ e.queue.work := by
    rw [hq]
    exact List.mem_cons_self
  obtain ⟨-, -, hterm, hthere⟩ := h.placed.reported hw rfl
  have hf : (e.definition.get? f.sourceNode).isSome = true := h.placed.sourced hw
  refine (taken q).trans ?_
  have hb : Bound { e with queue := q } := (taken q).bound hb
  unfold Executor.deliverFault
  cases hl : isLive { e with queue := q } p with
  | false => exact .refl _
  | true =>
    obtain ⟨i, hi⟩ := hthere hl
    obtain ⟨r, hr, hrl⟩ := isLive_iff.mp hl
    have hc := h.pop_fault hq hr hrl
    have near : ∀ {e₁ : Executor}, Extends { e with queue := q } e₁ → ∀ {k : InstanceId},
        k = p ∨ k = c → k = p ∨ ∃ i, e₁.instances[k]? = some i ∧ i.parent = some p := by
      rintro e₁ extension k (rfl | rfl)
      · exact .inl rfl
      · obtain ⟨j, hj, -, hjp, -⟩ := extension.keeps hi
        exact .inr ⟨j, hj, hjp.trans (hterm i hi).2⟩
    rw [Bool.not_true, if_neg Bool.false_ne_true]
    split
    · exact .faultInstance hc hl (near (.refl _)) hf
    · next body _ =>
      dsimp only
      generalize (⟨f, c, ((instance? { e with queue := q } c).map (·.node)).getD
        f.sourceNode⟩ : FaultContext) = context
      have invoked := Flows.invoke hc (.inl rfl) hl (near (.refl _)) hb
        (.childFaulted tag context) (body.childFaulted tag context)
      obtain ⟨a, e', he, follows, -⟩ | ⟨e', he, -⟩ := hc.invoke (.inl rfl) hl (near (.refl _))
        (.childFaulted tag context) (body.childFaulted tag context)
      · rw [he] at invoked ⊢
        cases a with
        | handled => exact invoked.keep (.of_instances rfl rfl rfl)
        | propagate =>
          exact invoked.trans (.faultInstance follows.consistent (follows.extension.isLive hl)
            (near follows.extension) (follows.extension.definition ▸ hf))
      · rw [he] at invoked ⊢
        exact invoked

/-- The callback to cancel, if there is one. -/
theorem runCancel (h : e.Consistent (· = x)) (hl : e.isLive x = true) (hb : e.Bound) (b : Behaviour) :
    Flows e (e.runCancel x b).2 := by
  unfold Executor.runCancel
  cases b with
  | code program => exact .refl _
  | native body => exact .invoke h rfl hl only_self hb .cancel body.cancel
  | async body =>
    have invoked := Flows.invoke h rfl hl only_self hb .cancel body.cancel
    dsimp only
    split
    · exact invoked.keep (.release _ rfl rfl rfl)
    · exact invoked

theorem cancelInstance (h : e.Consistent Nobody) (hb : e.Bound) : Flows e (e.cancelInstance x) := by
  unfold Executor.cancelInstance
  split
  · next i b hi _ =>
    have hi : e.instances[x]? = some i := hi
    split
    · exact .refl _
    · next hn =>
      obtain ⟨hl, -⟩ : i.state.isLive = true ∧ i.cancelRequested = false := by
        rw [not_or] at hn
        simpa using hn
      split
      · exact (Flows.keeps (.modify fun _ => {})).keep .completeInstance
      · next hx =>
        have hx : i.executed = true := by simpa using hx
        dsimp only
        generalize he₁ : Executor.trackState _ x .canceling = e₁
        obtain ⟨hc, -, j, hj, hjl, -⟩ := h.canceling hi hl hx he₁.symm
        have first : Flows e e₁ := by
          rw [← he₁]
          exact (Flows.keeps (.modify fun _ => {})).keep (.of_sameCore (sameCore_trackState _ _))
        have canceled := first.trans (.runCancel hc (isLive_iff.mpr ⟨j, hj, hjl⟩) (first.bound hb) b)
        generalize e₁.runCancel x b = result at canceled
        obtain ⟨_ | _, e'⟩ := result
        · exact canceled
        · exact canceled.keep .tryComplete
  · exact .refl _

theorem deliverResumption (h : e.Consistent Nobody) (hb : e.Bound) {b : Bookmark}
    {callback : Option CallbackTag} {v : Value} {releases : Bool}
    (hq : e.queue.work = .bookmark x b callback v releases :: q.work) :
    Flows e (Executor.deliverResumption { e with queue := q } x b callback v releases) := by
  unfold Executor.deliverResumption
  cases hl : isLive { e with queue := q } x with
  | false => exact taken q
  | true =>
    rw [Bool.not_true, if_neg Bool.false_ne_true]
    obtain ⟨i, hi, hil⟩ := isLive_iff.mp hl
    have hc := h.pop_resumption hq hl
    obtain ⟨j, hj, hjs, -⟩ := lookup_resumed (q := q) (e := e) hi releases
    have first : Flows e (if releases then release { e with queue := q } x 1
        else { e with queue := q }) := by
      split
      · exact .keeps (.release 1 rfl rfl rfl)
      · exact taken q
    dsimp only
    generalize (if releases then release { e with queue := q } x 1
      else { e with queue := q }) = e₁ at hc hj first
    have core : SameCore e₁ (e₁.trackResumed b x) := sameCore_trackResumed b x
    have second := first.trans (.of_sameCore core)
    have hl₂ : (e₁.trackResumed b x).isLive x = true :=
      isLive_iff.mpr ⟨j, core.instances ▸ hj, hjs ▸ hil⟩
    split
    · exact second.trans (.callBack (core.consistent hc) hl₂ (second.bound hb) _ _)
    · exact second.keep .tryComplete

theorem completeOperation (h : e.Consistent Nobody) (hb : e.Bound) (o : OperationId)
    (result : Except ActivityError Value) : Flows e (e.completeOperation o result) := by
  unfold Executor.completeOperation
  cases ho : e.operations[o]? with
  | none => exact .refl _
  | some owner =>
    obtain ⟨hl, -⟩ := h.owned.operation ho
    have follows : Follows e (· = owner) _ := .eraseOperation (h.exempt hl) hl ho
    have first : Flows e (release { e with operations := e.operations.erase o } owner 1) :=
      .keeps (.release 1 rfl rfl rfl)
    dsimp only
    have hl' : isLive { e with operations := e.operations.erase o } owner = true := hl
    rw [hl', if_neg (by decide)]
    generalize release _ owner 1 = e₁ at follows first
    have hl₁ := follows.extension.isLive hl
    split
    · obtain ⟨-, f, falls⟩ := follows.consistent.raise hl₁ only_self _
      exact first.keep (.falls (.raise _) follows.consistent.placed.tree falls)
    · next v body _ =>
      have invoked := first.trans
        (.invoke follows.consistent rfl hl₁ only_self (first.bound hb) (.finish v) (body.finish v))
      generalize e₁.invoke owner (.finish v) (body.finish v) = result at invoked
      obtain ⟨_ | a, e'⟩ := result
      · exact invoked
      · exact (invoked.keep (.recordResult a)).keep .tryComplete
    · exact first

/-- Doing an item that is taken from the queue. -/
theorem dispatch (h : e.Consistent Nobody) (hb : e.Bound) (hq : e.queue.work = w :: q.work) :
    Flows e (Executor.dispatch { e with queue := q } w) := by
  have plain : w.report? = none → (∀ k, w ≠ .execute k) → (∀ o, w.releases o = false) →
      Consistent { e with queue := q } Nobody := h.pop_plain hq
  cases w with
  | execute x => exact executeActivity h hb hq
  | completion p c => exact deliverCompletion h hb hq
  | fault p c tag f => exact deliverFault h hb hq
  | cancel x =>
    have hc := plain rfl (fun _ hw => WorkItem.noConfusion hw) fun _ => rfl
    exact (taken q).trans (.cancelInstance hc ((taken q).bound hb))
  | bookmark x b callback v releases => exact deliverResumption h hb hq
  | operation o result =>
    have hc := plain rfl (fun _ hw => WorkItem.noConfusion hw) fun _ => rfl
    exact (taken q).trans (.completeOperation hc ((taken q).bound hb) o result)

end Flows

end Workflow.Executor
