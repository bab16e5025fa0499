import Workflow.Proofs.Chronicle

/-!
# What is reported of an instance by each item of work

An instance is reported to execute when it had not run, to cancel when it had run and was not asked
before, and to be resumed when it had run. So every item of work carries on what is told of an instance,
whatever the bodies do.
-/

namespace Workflow.Executor

variable {e e' : Executor} {X : InstanceId → Prop} {k x p c : InstanceId} {n : Nat}
variable {running : Prop} {i : Instance} {b : BodyKind} {q : WorkQueue} {w : WorkItem}

/-! ### Instances that are called -/

/-- A resumption of an instance that is there is reported. -/
theorem tells_trackResumed (hi : e.instances[k]? = some i) (b : Bookmark) :
    ∃ a : ActivityInfo, a.id = k ∧ e.Tells [.bookmarkResumed b a] (e.trackResumed b k) := by
  obtain ⟨a, ha⟩ := exists_info hi
  refine ⟨a, id_of_info ha, ?_⟩
  rw [trackResumed, ha]
  exact e.tells_track _

namespace Recounted

/-- A live instance that has run is awake. -/
theorem ready (h : Recounted n k False e) (hi : e.instances[x]? = some i)
    (hl : i.state.isLive = true) (hx : i.executed = true) : Ready n k False x e := by
  obtain ⟨p, told⟩ := h
  refine ⟨p, told, fun hk => ?_⟩
  subst hk
  exact told.awake hi (ActivityState.not_terminal_of_isLive hl) hx

/-- An instance that has not run is reported to execute, and then its body runs. -/
theorem starts (h : Recounted n k False e) (hi : e.instances[x]? = some i)
    (hs : i.state = .executing) (hx : i.executed = false) :
    Ready n k (x = k) x (e.trackState x .executing) := by
  obtain ⟨p, told⟩ := h
  by_cases hk : x = k
  · subst hk
    obtain ⟨a, ha, tells⟩ := tells_trackState hi .executing
    have core := sameCore_trackState (e := e) x .executing
    have unended : i.state.isTerminal = false := hs ▸ rfl
    obtain ⟨dormant, old⟩ : p = .dormant ∧ x.number < e.nextInstance := by
      cases told.stands with
      | unborn _ ha => exact absurd (ha.symm.trans hi) (Option.some_ne_none i).symm
      | dormant hn => exact ⟨rfl, hn⟩
      | awake _ hj _ hr =>
        cases hi.symm.trans hj
        rw [hx] at hr
        exact absurd (hr.resolve_right id) Bool.false_ne_true
      | dead _ hj => exact absurd (unended.symm.trans (hj i hi).1) Bool.false_ne_true
    subst dormant
    have stands : Standing x (x = x) (e.trackState x .executing) (.awake false) := by
      refine .awake (core.nextInstance ▸ old) (core.instances ▸ hi) unended (.inr rfl) ?_
      exact fun hf => absurd hf Bool.false_ne_true
    refine ⟨.awake false, told.tells tells core.root stands fun hb => ?_, fun _ => ⟨false, rfl⟩⟩
    simpa [TrackingEvent.concerns, ha] using hb.executing ha
  · exact ⟨p, (told.ignores (.trackState hk _)).settled fun hf => hf.elim, fun hx => absurd hx hk⟩

/-- An instance that has run is reported to cancel when it is asked to for the first time. -/
theorem canceling (h : Recounted n k False e) (hi : e.instances[x]? = some i)
    (hl : i.state.isLive = true) (hx : i.executed = true) (ha : i.cancelRequested = false) :
    Ready n k False x ((e.modify x fun i =>
      { i with cancelRequested := true, state := .canceling }).trackState x .canceling) := by
  have unended := ActivityState.not_terminal_of_isLive hl
  obtain ⟨p, told⟩ := h
  by_cases hk : x = k
  · subst hk
    obtain ⟨c, rfl⟩ := told.awake hi unended hx
    have there : (e.modify x fun i =>
        { i with cancelRequested := true, state := .canceling }).instances[x]? =
          some { i with cancelRequested := true, state := .canceling } :=
      lookup_modify_self hi
    obtain ⟨a, hax, tells⟩ := tells_trackState there .canceling
    have core := sameCore_trackState (e := e.modify x fun i =>
      { i with cancelRequested := true, state := .canceling }) x .canceling
    obtain ⟨unasked, old⟩ : c = false ∧ x.number < e.nextInstance := by
      cases told.stands with
      | awake hn hj _ _ hc =>
        cases hi.symm.trans hj
        cases c with
        | false => exact ⟨rfl, hn⟩
        | true => exact absurd (ha.symm.trans (hc rfl)) Bool.false_ne_true
    subst unasked
    have stands : Standing x False ((e.modify x fun i =>
        { i with cancelRequested := true, state := .canceling }).trackState x .canceling)
          (.awake true) := by
      rw [← core.instances] at there
      exact .awake (core.nextInstance ▸ old) there rfl (.inl hx) fun _ => rfl
    refine ⟨.awake true, told.tells ((Mum.modify e x _).tells tells) core.root stands fun hb => ?_,
      fun _ => ⟨true, rfl⟩⟩
    simpa [TrackingEvent.concerns, hax] using hb.canceling hax
  · exact ⟨p, told.ignores ((Ignores.modify fun hx => absurd hx hk).trans (.trackState hk _)),
      fun hx => absurd hx hk⟩

end Recounted

namespace Ready

/-- An instance whose body has run has run. -/
theorem ran (h : Ready n k (x = k) x e) :
    Recounted n k False (e.modify x fun i => { i with executed := true }) := by
  obtain ⟨p, told, awake⟩ := h
  by_cases hk : x = k
  · subst hk
    obtain ⟨c, rfl⟩ := awake rfl
    have stands : Standing x False (e.modify x fun i => { i with executed := true }) (.awake c) := by
      cases told.stands with
      | @awake j _ hn hj ht _ hc =>
        have there : (e.modify x fun i => { i with executed := true }).instances[x]? =
            some { j with executed := true } :=
          lookup_modify_self hj
        exact .awake hn there ht (.inl rfl) hc
    have silent : e.Tells [] (e.modify x fun i => { i with executed := true }) := ⟨rfl, rfl⟩
    exact ⟨.awake c, told.tells silent rfl stands fun hb => by simpa using hb⟩
  · exact ⟨p, (told.ignores (.modify fun hx => absurd hx hk)).settled fun hx => absurd hx hk⟩

/-- An instance that is resumed is reported so. -/
theorem trackResumed (h : Ready n k False x e) (hi : e.instances[x]? = some i) (b : Bookmark) :
    Ready n k False x (e.trackResumed b x) := by
  obtain ⟨p, told, awake⟩ := h
  by_cases hk : x = k
  · subst hk
    obtain ⟨c, rfl⟩ := awake rfl
    obtain ⟨a, ha, tells⟩ := tells_trackResumed hi b
    have core := sameCore_trackResumed (e := e) b x
    have stands : Standing x False (e.trackResumed b x) (.awake c) := by
      cases told.stands with
      | awake hn hj ht hr hc => exact .awake (core.nextInstance ▸ hn) (core.instances ▸ hj) ht hr hc
    refine ⟨.awake c, told.tells tells core.root stands fun hb => ?_, fun _ => ⟨c, rfl⟩⟩
    simpa [TrackingEvent.concerns, ha] using hb.resumed ha
  · exact ⟨p, told.ignores (.trackResumed hk b), fun hx => absurd hx hk⟩

end Ready

/-! ### Items of work -/

/-- An instance whose first callback has ended in a fault is live no more, or it has run. -/
theorem Course.executed {D : InstanceId → Prop} {callback : Callback}
    (h : Course D e x (some callback) e') (hc : callback.isStart = true)
    (hi : e'.instances[x]? = some i) (ht : i.state.isTerminal = false) : i.executed = true := by
  have steady := ((h.proper.regular.tree h.proper.not_aborted).sound hi).steady
  have answered := h.answered rfl hi (ActivityState.isLive_of_not_terminal steady ht)
  cases callback with
  | execute | start o => exact answered
  | _ => exact absurd hc Bool.false_ne_true

namespace Recounted

/-- The execution of an instance. -/
theorem executeActivity (hr : Recounted n k False e) (h : e.Consistent Nobody)
    (hq : e.queue.work = .execute x :: q.work) :
    Recounted n k False (Executor.executeActivity { e with queue := q } x) := by
  have taken : Recounted n k False { e with queue := q } := hr.ignores (.taken q)
  unfold Executor.executeActivity
  split
  · next i body hi hbody =>
    split
    · exact taken
    · next hx =>
      rw [not_or, not_not, Bool.not_eq_true] at hx
      have hl : i.state.isLive = true := by
        rw [hx.2]
        rfl
      have hc : Consistent { e with queue := q } (· = x) := h.pop_execute hq hi hl
      have hlx : Executor.isLive { e with queue := q } x = true := isLive_iff.mpr ⟨i, hi, hl⟩
      generalize { e with queue := q } = e₀ at *
      have core := sameCore_trackState (e := e₀) x .executing
      have tracked : Follows e₀ (· = x) (e₀.trackState x .executing) := .of_sameCore hc core
      have live := tracked.extension.isLive hlx
      have hbody : (e₀.trackState x .executing).behaviour? x = some body := by
        rw [behaviour?, instance?, core.instances, core.definition]
        exact hbody
      have ready := taken.starts hi hx.2 hx.1
      dsimp only
      obtain ⟨e', he, ready⟩ | ⟨e', he, p, told⟩ := ready.runBody tracked.consistent live hbody
      · rw [he]
        exact ready.ran.tryComplete x
      · rw [he]
        obtain ⟨callback, starts, ⟨m, hm, -⟩ | ⟨m, hm, course⟩⟩ := tracked.consistent.runBody live hbody
        · cases he.symm.trans hm
        · cases he.symm.trans hm
          exact ⟨p, told.settled fun hk _ hj ht => course.executed starts (hk ▸ hj) ht⟩
  · exact taken

/-- A child that has completed leaves its parent, which is told. -/
theorem deliverCompletion (hr : Recounted n k False e) (h : e.Consistent Nobody)
    (hq : e.queue.work = .completion p c :: q.work) :
    Recounted n k False (Executor.deliverCompletion { e with queue := q } p c) := by
  have taken : Recounted n k False { e with queue := q } := hr.ignores (.taken q)
  unfold Executor.deliverCompletion
  cases hi : instance? { e with queue := q } c with
  | none => exact taken
  | some i =>
    obtain ⟨r, leaving⟩ := h.leaving hq hi
    have hx : r.executed = true := h.parent_executed id leaving.parent leaving.live leaving.listed
    have live : isLive { e with queue := q, instances := e.instances.erase c } p = true := by
      refine isLive_iff.mpr ⟨r, ?_, leaving.live⟩
      rw [Table.lookup_erase, if_neg leaving.ne.symm]
      exact leaving.parent
    obtain ⟨s, hs, state, executed⟩ := lookup_dropChild_release leaving.parent leaving.ne
    have hd := leaving.dropped
    have left : Recounted n k False ((dropChild { e with queue := q } p c).release p 1) := by
      have gone := taken.erase (x := c) fun j hj => by
        cases hi.symm.trans hj
        exact leaving.terminal
      exact gone.ignores ((Ignores.modify fun _ _ _ => {}).trans (.release 1))
    dsimp only
    rw [live, if_neg (by decide)]
    generalize hE : Executor.release _ p 1 = e₁
    replace hs : e₁.instances[p]? = some s := hE ▸ hs
    replace hd : e₁.Consistent (· = p) := hE ▸ hd
    replace left : Recounted n k False e₁ := hE ▸ left
    obtain ⟨e₂, he₂⟩ : ∃ e₂, e₂ = if i.state = .closed then e₁.copyOutputs p i else e₁ := ⟨_, rfl⟩
    obtain ⟨follows, copied⟩ : Follows e₁ (· = p) e₂ ∧ Ignores k e₁ e₂ := by
      rw [he₂]
      split
      · exact ⟨.copyOutputs hd i, .copyOutputs i⟩
      · exact ⟨.refl hd, .refl e₁⟩
    obtain ⟨o, ho, state', -, -, executed'⟩ := follows.extension.keeps hs
    have hl : o.state.isLive = true := by
      rw [state', state]
      exact leaving.live
    have ready := (left.ignores copied).ready ho hl (executed'.trans (executed.trans hx))
    rw [← he₂]
    split
    · exact ready.callBack follows.consistent rfl (isLive_iff.mpr ⟨o, ho, hl⟩) _ _
    · exact ready.recounted.tryComplete p

/-- A live handler decides about the fault of a child. -/
theorem deliverFault {tag : CallbackTag} {f : Fault} (hr : Recounted n k False e)
    (h : e.Consistent Nobody) (hq : e.queue.work = .fault p c tag f :: q.work) :
    Recounted n k False (Executor.deliverFault { e with queue := q } p c tag f) := by
  have taken : Recounted n k False { e with queue := q } := hr.ignores (.taken q)
  have queued : WorkItem.fault p c tag f ∈ e.queue.work := by
    rw [hq]
    exact List.mem_cons_self
  obtain ⟨-, -, ended, there⟩ := h.placed.reported queued rfl
  unfold Executor.deliverFault
  cases hl : isLive { e with queue := q } p with
  | false => exact taken
  | true =>
    obtain ⟨i, hi⟩ := there hl
    obtain ⟨r, hp, live, listed⟩ := parent_live h.placed.tree hi (ended i hi).2
    have hc := h.pop_fault hq hp live
    have ready := taken.ready hp live (h.parent_executed id hp live listed)
    rw [Bool.not_true, if_neg Bool.false_ne_true]
    split
    · exact taken.faultInstance p f
    · next body _ =>
      dsimp only
      generalize (⟨f, c, ((instance? { e with queue := q } c).map (·.node)).getD
        f.sourceNode⟩ : FaultContext) = context
      obtain ⟨a, e', he, ready⟩ | ⟨e', he, told⟩ := ready.invoke hc (.inl rfl) hl
        (.childFaulted tag context) (body.childFaulted tag context)
      · rw [he]
        cases a with
        | handled => exact ready.recounted.ignores (.enqueue _)
        | propagate => exact ready.recounted.faultInstance p f
      · rw [he]
        exact told

/-- An instance that is canceled before it has run completes at once. -/
theorem cancelUnexecuted (hr : Recounted n k running e) (hi : e.instances[x]? = some i)
    (hl : i.state.isLive = true) : Recounted n k running ((e.modify x fun i =>
      { i with cancelRequested := true, executed := true, markedCanceled := true }).completeInstance
        x) := by
  refine hr.completes hi (ActivityState.not_terminal_of_isLive hl) (.modify e x _) rfl rfl
    (fun y hy => ?_) ⟨_, lookup_modify_self hi⟩
  rw [lookup_modify, if_neg hy.symm]

/-- An instance is asked to cancel. -/
theorem cancelInstance (hr : Recounted n k False e) (h : e.Consistent Nobody) :
    Recounted n k False (e.cancelInstance x) := by
  unfold Executor.cancelInstance
  split
  · next i body hi _ =>
    have hi : e.instances[x]? = some i := hi
    split
    · exact hr
    · next hn =>
      obtain ⟨hl, unasked⟩ : i.state.isLive = true ∧ i.cancelRequested = false := by
        rw [not_or] at hn
        simpa using hn
      split
      · exact hr.cancelUnexecuted hi hl
      · next hx =>
        have hx : i.executed = true := by simpa using hx
        have ready := hr.canceling hi hl hx unasked
        dsimp only
        generalize he₁ : Executor.trackState _ x .canceling = e₁ at ready ⊢
        obtain ⟨hc, -, j, hj, live, -⟩ := h.canceling hi hl hx he₁.symm
        have canceled := ready.runCancel hc (isLive_iff.mpr ⟨j, hj, live⟩) body
        generalize e₁.runCancel x body = result at canceled
        obtain ⟨_ | _, e'⟩ := result
        · exact canceled
        · exact canceled.tryComplete x
  · exact hr

/-- A value is passed to the owner of a bookmark. -/
theorem deliverResumption {b : Bookmark} {callback : Option CallbackTag} {v : Value}
    {releases : Bool} (hr : Recounted n k False e) (h : e.Consistent Nobody)
    (hq : e.queue.work = .bookmark x b callback v releases :: q.work) :
    Recounted n k False
      (Executor.deliverResumption { e with queue := q } x b callback v releases) := by
  have taken : Recounted n k False { e with queue := q } := hr.ignores (.taken q)
  unfold Executor.deliverResumption
  cases hl : isLive { e with queue := q } x with
  | false => exact taken
  | true =>
    rw [Bool.not_true, if_neg Bool.false_ne_true]
    obtain ⟨i, hi, live⟩ := isLive_iff.mp hl
    have queued : WorkItem.bookmark x b callback v releases ∈ e.queue.work := by
      rw [hq]
      exact List.mem_cons_self
    have hx : i.executed = true := h.awake.resumed queued (beq_self_eq_true x) hi live id
    have hc := h.pop_resumption hq hl
    obtain ⟨j, hj, state, executed⟩ := lookup_resumed (q := q) (e := e) hi releases
    have waited : Recounted n k False (if releases then release { e with queue := q } x 1
        else { e with queue := q }) := by
      split
      · exact taken.ignores (.release 1)
      · exact taken
    dsimp only
    generalize (if releases then release { e with queue := q } x 1
      else { e with queue := q }) = e₁ at hc hj waited
    have core : SameCore e₁ (e₁.trackResumed b x) := sameCore_trackResumed b x
    have ready := (waited.ready hj (state ▸ live) (executed.trans hx)).trackResumed hj b
    have live₂ : (e₁.trackResumed b x).isLive x = true :=
      isLive_iff.mpr ⟨j, core.instances ▸ hj, state ▸ live⟩
    split
    · exact ready.callBack (core.consistent hc) rfl live₂ _ _
    · exact ready.recounted.tryComplete x

/-- An operation has completed. -/
theorem completeOperation (hr : Recounted n k False e) (h : e.Consistent Nobody)
    (o : OperationId) (result : Except ActivityError Value) :
    Recounted n k False (e.completeOperation o result) := by
  unfold Executor.completeOperation
  cases ho : e.operations[o]? with
  | none => exact hr
  | some owner =>
    obtain ⟨hl, -⟩ := h.owned.operation ho
    obtain ⟨i, hi, live⟩ := isLive_iff.mp hl
    have hx : i.executed = true := h.operation_executed ho hi live
    have follows : Follows e (· = owner) _ := .eraseOperation (h.exempt hl) hl ho
    have aside : Ignores k e (release { e with operations := e.operations.erase o } owner 1) := by
      have forgotten : Ignores k e { e with operations := e.operations.erase o } :=
        .of_instances ⟨rfl, rfl, rfl, rfl, .inl rfl⟩ rfl rfl rfl
      exact forgotten.trans (.release 1)
    dsimp only
    have hl' : isLive { e with operations := e.operations.erase o } owner = true := hl
    rw [hl', if_neg (by decide)]
    generalize release _ owner 1 = e₁ at follows aside
    obtain ⟨j, hj, state, -, -, executed⟩ := follows.extension.keeps hi
    have ready := (hr.ignores aside).ready hj (state ▸ live) (executed.trans hx)
    split
    · exact ready.recounted.raise owner _
    · next v body _ =>
      obtain ⟨a, e', he, ready⟩ | ⟨e', he, told⟩ := ready.invoke follows.consistent rfl
        (follows.extension.isLive hl) (.finish v) (body.finish v)
      · rw [he]
        exact (ready.recounted.ignores (.recordResult a)).tryComplete owner
      · rw [he]
        exact told
    · exact ready.recounted

/-- Doing an item that is taken from the queue. -/
theorem dispatch (hr : Recounted n k False e) (h : e.Consistent Nobody)
    (hq : e.queue.work = w :: q.work) :
    Recounted n k False (Executor.dispatch { e with queue := q } w) := by
  have taken : Recounted n k False { e with queue := q } := hr.ignores (.taken q)
  have plain : w.report? = none → (∀ k, w ≠ .execute k) → (∀ o, w.releases o = false) →
      Consistent { e with queue := q } Nobody := h.pop_plain hq
  cases w with
  | execute x => exact hr.executeActivity h hq
  | completion p c => exact hr.deliverCompletion h hq
  | fault p c tag f => exact hr.deliverFault h hq
  | cancel x => exact taken.cancelInstance (plain rfl (fun _ hw => WorkItem.noConfusion hw) fun _ => rfl)
  | bookmark x b callback v releases => exact hr.deliverResumption h hq
  | operation o result =>
    exact taken.completeOperation (plain rfl (fun _ hw => WorkItem.noConfusion hw) fun _ => rfl) o result

/-- The next item of work, after what has arrived was queued. -/
theorem step (hr : Recounted n k False e) (h : e.Regular) (ho : e.outcome = none)
    (ha : e.state ≠ .aborted) (hs : e.step? = some e') : Recounted n k False e' := by
  rw [step?_eq, Option.map_eq_some_iff] at hs
  obtain ⟨⟨w, q⟩, hq, rfl⟩ := hs
  have hw := WorkQueue.work_of_pop? hq
  have hc := h.drained ho ha (by rw [hw]; exact List.cons_ne_nil w _)
  exact (hr.ignores (.of_instances (.drainInbox e) rfl rfl rfl)).dispatch hc hw

end Recounted

end Workflow.Executor
