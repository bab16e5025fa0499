import Workflow.Proofs.Observation

/-!
# Dispatching work

Every item that is done, whatever it is and whatever the bodies do, leads from a proper executor to a
proper one.
-/

namespace Workflow.Executor

variable {e e' : Executor} {X : InstanceId → Prop} {x k : InstanceId} {i : Instance}
variable {w : WorkItem} {q : WorkQueue}

/-- An item that tells of nobody, executes nobody and releases nobody changes nothing when it is
taken. -/
theorem Consistent.pop_plain (h : e.Consistent Nobody) (hq : e.queue.work = w :: q.work)
    (ht : w.report? = none) (hx : ∀ k, w ≠ .execute k) (hw : ∀ o, w.releases o = false) :
    Consistent { e with queue := q } Nobody := by
  refine h.pop hq (fun _ htk => ?_) (fun _ _ hf => hf.elim) (fun _ _ _ hwk => hx _ hwk) hw
  rw [WorkItem.tellsOf, ht] at htk
  exact absurd htk Bool.false_ne_true

/-- An instance may be exempt while it is live. -/
theorem Consistent.exempt (h : e.Consistent Nobody) (hl : e.isLive x = true) :
    e.Consistent (· = x) := by
  obtain ⟨i, hi, hil⟩ := isLive_iff.mp hl
  obtain ⟨p, o, a, b, n, s, r⟩ := h
  refine ⟨⟨p.tree, p.rootLive, p.reported, p.created, p.sourced, fun hj ht hp _ => p.told hj ht hp id,
    fun {k q j} hj ht _ hk => ?_, fun hj hjl _ hx => p.waiting hj hjl id hx,
    fun hj hjl _ hx => p.queued hj hjl id hx⟩, o, ⟨fun hg hj hjl _ => a.registered hg hj hjl id,
      fun hw ho hj hjl _ => a.resumed hw ho hj hjl id⟩, b, n, s, r⟩
  subst hk
  cases hi.symm.trans hj
  rw [ActivityState.not_terminal_of_isLive hil] at ht
  exact absurd ht Bool.false_ne_true

/-- A body that is asked to cancel goes on from before, or it ends in a fault. Code is not asked. -/
theorem Consistent.runCancel (h : e.Consistent (· = x)) (hl : e.isLive x = true) (b : Behaviour) :
    (∃ e' cs, e.runCancel x b = (true, e') ∧ Follows e (· = x) e' ∧
        Passage Nobody Nobody e cs e' ∧ (cs = [] ∨ cs = [(x, .cancel)])) ∨
      ∃ e', e.runCancel x b = (false, e') ∧ Course Nobody e x (some .cancel) e' := by
  unfold Executor.runCancel
  cases b with
  | code program => exact .inl ⟨e, [], rfl, .refl h, .refl e, .inl rfl⟩
  | native body =>
    dsimp only
    obtain ⟨a, e', he, hf, hp⟩ | ⟨e', he, hc⟩ := h.invoke rfl hl only_self .cancel body.cancel
    · rw [he]
      exact .inl ⟨e', _, rfl, hf, hp, .inr rfl⟩
    · rw [he]
      exact .inr ⟨e', rfl, hc⟩
  | async body =>
    dsimp only
    obtain ⟨a, e', he, hf, hp⟩ | ⟨e', he, hc⟩ := h.invoke rfl hl only_self .cancel body.cancel
    · rw [he]
      dsimp only
      split
      · have ha := Follows.abandonOperations hf.consistent rfl (hf.extension.isLive hl)
        exact .inl ⟨_, _, rfl, hf.trans ha, hp.trans .abandonOperations, .inr rfl⟩
      · exact .inl ⟨_, _, rfl, hf, hp, .inr rfl⟩
    · rw [he]
      exact .inr ⟨e', rfl, hc⟩

/-- An instance that is canceled before it has run completes at once and is not called. -/
theorem Consistent.cancelUnexecuted (h : e.Consistent Nobody) (hi : e.instances[x]? = some i)
    (hl : i.state.isLive = true) (hx : i.executed = false) :
    Course Nobody e x none ((e.modify x fun i =>
      { i with cancelRequested := true, executed := true, markedCanceled := true }).completeInstance
        x) := by
  have hb : i.busy = 0 := (h.placed.queued hi hl id hx).2.1
  have hm := (h.exempt (isLive_iff.mpr ⟨i, hi, hl⟩)).remodel
    (f := fun i => { i with cancelRequested := true, executed := true, markedCanceled := true })
    rfl hi hl {} hl rfl rfl
  have marked : Passage (· = x) Nobody e [] (e.modify x fun i =>
      { i with cancelRequested := true, executed := true, markedCanceled := true }) :=
    .modify fun _ _ => {
      asked := fun _ => rfl
      ran := fun hn => absurd rfl hn
      unrun := fun hx => absurd hx.symm Bool.false_ne_true }
  generalize hE : e.modify x (fun i =>
    { i with cancelRequested := true, executed := true, markedCanceled := true }) = e₁ at hm marked ⊢
  have hi₁ : e₁.instances[x]? = some
      { i with cancelRequested := true, executed := true, markedCanceled := true } := by
    rw [← hE, lookup_modify, if_pos rfl, hi]
    rfl
  refine .of_passage (hm.complete (fun hk _ => hk) hi₁ hl hb) ?_
  refine (marked.trans (Passage.completeInstance hi₁ hl).weaken).ended fun {k j} hk hj => ?_
  subst hk
  rw [(completeInstance_eq hi₁ rfl).1, Table.lookup_modify, if_pos rfl, hi₁] at hj
  cases hj
  rfl

/-- An instance that has run is canceling when it is asked to cancel, before its body is. -/
theorem Consistent.canceling (h : e.Consistent Nobody) (hi : e.instances[x]? = some i)
    (hl : i.state.isLive = true) (hx : i.executed = true) {e₁ : Executor}
    (he : e₁ = (e.modify x fun i =>
      { i with cancelRequested := true, state := .canceling }).trackState x .canceling) :
    e₁.Consistent (· = x) ∧ Passage Nobody Nobody e [] e₁ ∧
      ∃ j, e₁.instances[x]? = some j ∧ j.state.isLive = true ∧ j.executed = true ∧
        j.cancelRequested = true := by
  have hm := (h.exempt (isLive_iff.mpr ⟨i, hi, hl⟩)).remodel
    (f := fun i => { i with cancelRequested := true, state := .canceling }) rfl hi hl {} rfl rfl rfl
  have asked : Passage Nobody Nobody e []
      (e.modify x fun i => { i with cancelRequested := true, state := .canceling }) := by
    refine .modify fun j hj => ?_
    cases hi.symm.trans hj
    refine ⟨rfl, fun ht => ?_, fun _ => rfl, fun _ _ => rfl, fun hn => ?_⟩
    · rw [ActivityState.not_terminal_of_isLive hl] at ht
      exact absurd ht Bool.false_ne_true
    · exact absurd (hx.symm.trans hn).symm Bool.false_ne_true
  have tracked := sameCore_trackState (e := e.modify x fun i =>
    { i with cancelRequested := true, state := .canceling }) x .canceling
  subst he
  refine ⟨tracked.consistent hm, asked.trans (.of_sameCore tracked (journal_trackState x .canceling)),
    { i with cancelRequested := true, state := .canceling }, ?_, rfl, hx, rfl⟩
  rw [tracked.instances]
  exact (lookup_modify ..).trans (by rw [if_pos rfl, hi]; rfl)

/-- An instance that is asked to cancel. -/
theorem Consistent.cancelInstance (h : e.Consistent Nobody) :
    Works Nobody e (e.cancelInstance x) := by
  unfold Executor.cancelInstance
  split
  · next i b hi hb =>
    have hi : e.instances[x]? = some i := hi
    split
    · exact .skip (.inl h) (.refl e)
    · next hn =>
      obtain ⟨hl, hasked⟩ : i.state.isLive = true ∧ i.cancelRequested = false := by
        rw [not_or] at hn
        simpa using hn
      split
      · next hx => exact .uncalled (h.cancelUnexecuted hi hl (by simpa using hx))
      · next hx =>
        have hx : i.executed = true := by simpa using hx
        dsimp only
        generalize he₁ : Executor.trackState _ x .canceling = e₁
        obtain ⟨hc, asked, j₁, hj₁, hl₁, hx₁, hq₁⟩ := h.canceling hi hl hx he₁.symm
        have accepts : i.Accepts .cancel := ⟨hl, hx, hasked⟩
        obtain ⟨e', cs, he, hf, hp, hcs⟩ | ⟨e', he, hcourse⟩ :=
          hc.runCancel (isLive_iff.mpr ⟨j₁, hj₁, hl₁⟩) b
        · rw [he]
          obtain ⟨j, hj, hjs, -, -, hjx⟩ := hf.extension.keeps hj₁
          have tried := hf.consistent.triesCompletion (fun hk _ => hk) hj (hjs ▸ hl₁) (hjx.trans hx₁)
          have below : x.number < e₁.nextInstance := hc.placed.tree.below hj₁
          have answered : j.Answered .cancel := by
            obtain ⟨o, ho, ha⟩ := hp.old hj below
            cases hj₁.symm.trans ho
            exact ha.asked hq₁
          rcases hcs with rfl | rfl
          · exact .uncalled (tried.after (asked.trans hp))
          · exact .called hi accepts (tried.called (asked.trans hp).weaken ⟨j, hj, answered⟩
              (Nat.lt_of_lt_of_le below hp.later))
        · rw [he]
          exact .called hi accepts (hcourse.after asked)
  · exact .skip (.inl h) (.refl e)

/-- The owner of a bookmark stops waiting for it when the value arrives. -/
theorem Consistent.pop_resumption (h : e.Consistent Nobody) {b : Bookmark}
    {callback : Option CallbackTag} {v : Value} {releases : Bool}
    (hq : e.queue.work = .bookmark x b callback v releases :: q.work) (hl : e.isLive x = true) :
    Consistent (if releases then release { e with queue := q } x 1 else { e with queue := q })
      (· = x) := by
  have hc := h.exempt hl
  have placed : Placed { e with queue := q } (· = x) := by
    refine h.placed.pop hq (fun _ ht => absurd ht Bool.false_ne_true) (fun {k i} hi ht hk => ?_)
      fun _ _ _ hw => absurd hw (by simp)
    subst hk
    obtain ⟨j, hj, hjl⟩ := isLive_iff.mp hl
    cases hi.symm.trans hj
    rw [ActivityState.not_terminal_of_isLive hjl] at ht
    exact absurd ht Bool.false_ne_true
  have excess : Overcounts { e with queue := q } x (if releases then 1 else 0) := by
    refine h.balanced.pop hq fun k => ?_
    cases releases with
    | false => rw [if_neg Bool.false_ne_true, ite_self]; rfl
    | true =>
      change (if (true && x == k) = true then 1 else 0) = _
      rw [Bool.true_and]
      simp only [beq_iff_eq, @eq_comm _ x k, if_true]
  have mem : ∀ {u : WorkItem}, u ∈ q.work → u ∈ e.queue.work := fun hu => by
    rw [hq]
    exact List.mem_cons_of_mem _ hu
  cases releases with
  | false =>
    rw [if_neg Bool.false_ne_true] at excess ⊢
    exact ⟨placed, h.owned.pop, h.awake_pop hq, excess.balanced, h.opened, h.sober, h.running⟩
  | true =>
    rw [if_pos rfl] at excess ⊢
    obtain ⟨balanced, sober⟩ := excess.release hl
    refine ⟨placed.release rfl 1, h.owned.pop.extend (.release 1) rfl rfl rfl, ?_, balanced, h.opened,
      sober.trans h.sober, h.running⟩
    exact hc.awake_modified (f := fun i => { i with busy := i.busy - 1 }) rfl
      (fun _ _ => {}) (fun hg _ => hg) fun hu _ _ => .inl (mem hu)

/-- Nobody counts what an owner that is no longer live waits for. -/
theorem Consistent.pop_lost_resumption (h : e.Consistent Nobody) {b : Bookmark}
    {callback : Option CallbackTag} {v : Value} {releases : Bool}
    (hq : e.queue.work = .bookmark x b callback v releases :: q.work) (hn : e.isLive x = false) :
    Consistent { e with queue := q } Nobody := by
  have placed : Placed { e with queue := q } Nobody :=
    h.placed.pop hq (fun _ ht => absurd ht Bool.false_ne_true) (fun _ _ hf => hf.elim)
      fun _ _ _ hw => absurd hw (by simp)
  refine ⟨placed, h.owned.pop, h.awake_pop hq, fun k i hi hil => ?_, h.opened, h.sober, h.running⟩
  have hk : x ≠ k := by
    rintro rfl
    have hl : e.isLive x = true := isLive_iff.mpr ⟨i, hi, hil⟩
    rw [hl] at hn
    exact absurd hn.symm Bool.false_ne_true
  have other : (WorkItem.bookmark x b callback v releases).releases k = false := by
    change (releases && x == k) = false
    rw [beq_eq_false_iff_ne.mpr hk, Bool.and_false]
  have hc : e.queue.releasing k = q.releasing k := by
    rw [WorkQueue.releasing, hq, List.countP_cons, other]
    rfl
  have hb := h.balanced k i hi hil
  rw [dues, hc] at hb
  exact hb

/-- An instance goes on that has stopped waiting for a resumption, or has not waited for it. -/
theorem lookup_resumed (hi : e.instances[x]? = some i) (releases : Bool) :
    ∃ j, (if releases then release { e with queue := q } x 1
      else { e with queue := q }).instances[x]? = some j ∧ j.state = i.state ∧
        j.executed = i.executed := by
  cases releases with
  | false => exact ⟨i, hi, rfl, rfl⟩
  | true =>
    refine ⟨{ i with busy := i.busy - 1 }, ?_, rfl, rfl⟩
    change (Executor.modify _ x _).instances[x]? = _
    rw [lookup_modify, if_pos rfl]
    exact congrArg (Option.map _) hi

/-- The owner of a bookmark to which a value is passed. -/
theorem Consistent.deliverResumption (h : e.Consistent Nobody) {b : Bookmark}
    {callback : Option CallbackTag} {v : Value} {releases : Bool}
    (hq : e.queue.work = .bookmark x b callback v releases :: q.work) :
    Works Nobody e (deliverResumption { e with queue := q } x b callback v releases) := by
  unfold Executor.deliverResumption
  change Works Nobody e (if !e.isLive x then _ else _ : Executor)
  cases hl : e.isLive x with
  | false => exact .skip (.inl (h.pop_lost_resumption hq hl)) (.of_eq rfl rfl rfl rfl)
  | true =>
    obtain ⟨i, hi, hil⟩ := isLive_iff.mp hl
    have hx : i.executed = true := by
      have hw : WorkItem.bookmark x b callback v releases ∈ e.queue.work := by
        rw [hq]
        exact List.mem_cons_self
      exact h.awake.resumed hw (beq_self_eq_true x) hi hil id
    have hc := h.pop_resumption hq hl
    obtain ⟨j, hj, hjs, hjx⟩ := lookup_resumed (q := q) hi releases
    have released : Passage Nobody Nobody e [] (if releases then release { e with queue := q } x 1
        else { e with queue := q }) := by
      split
      · exact .release 1 rfl rfl rfl rfl
      · exact .of_eq rfl rfl rfl rfl
    dsimp only
    rw [Bool.not_true, if_neg Bool.false_ne_true]
    generalize (if releases then release { e with queue := q } x 1
      else { e with queue := q }) = e₁ at hc hj released
    have hs : SameCore e₁ (e₁.trackResumed b x) := sameCore_trackResumed b x
    have hc₂ := hs.consistent hc
    have hj₂ : (e₁.trackResumed b x).instances[x]? = some j := hs.instances ▸ hj
    have tracked := released.trans (.of_sameCore hs (journal_trackResumed b x))
    split
    · next tag body _ =>
      have course := hc₂.callBack hj₂ (hjs ▸ hil) (hjx.trans hx) (.bookmarkResumed tag b v)
        (fun _ => trivial) (body.bookmarkResumed tag b v)
      have accepts : i.Accepts (.bookmarkResumed tag b v) := ⟨hil, hx⟩
      exact .called hi accepts (course.after tracked)
    · have tried := hc₂.triesCompletion (fun hk _ => hk) hj₂ (hjs ▸ hil) (hjx.trans hx)
      exact .uncalled (tried.after tracked)

/-- The owner of an operation has run. -/
theorem Consistent.operation_executed (h : e.Consistent Nobody) {o : OperationId}
    (ho : e.operations[o]? = some x) (hi : e.instances[x]? = some i)
    (hl : i.state.isLive = true) : i.executed = true := by
  refine h.executed hi hl id fun hb => ?_
  have hd := (h.balanced.free hi hl hb).2
  have owed := OperationTable.owed_erase e.operations ho x
  rw [if_pos rfl] at owed
  rw [dues] at hd
  omega

/-- The owner of an operation stops waiting for it when it has completed. -/
theorem Follows.eraseOperation (h : e.Consistent (· = x)) (hl : e.isLive x = true)
    {o : OperationId} (ho : e.operations[o]? = some x) :
    Follows e (· = x) (release { e with operations := e.operations.erase o } x 1) := by
  refine .settle_operations h rfl hl (fun a k ha => ?_) fun k => ?_
  · rw [Table.lookup_erase] at ha
    split at ha
    · exact absurd ha.symm (Option.some_ne_none k)
    · exact ha
  · rw [OperationTable.owed_erase e.operations ho k]
    simp only [eq_comm]

/-- An instance of an asynchronous activity has its programs. -/
theorem exists_async (hl : e.isLive x = true) (hk : (e.nodeOf x).body.kind = .async) :
    ∃ body, e.behaviour? x = some (.async body) := by
  obtain ⟨i, hi, -⟩ := isLive_iff.mp hl
  have hb : e.behaviour? x = some (e.nodeOf x).body.behaviour := by
    rw [behaviour?, nodeOf, instance?, hi]
    rfl
  rw [Body.kind] at hk
  rw [hb]
  cases hn : (e.nodeOf x).body.behaviour with
  | async body => exact ⟨body, rfl⟩
  | code program =>
    rw [hn] at hk
    cases hk
  | native body =>
    rw [hn] at hk
    cases hk

/-- The owner of an operation that has completed. -/
theorem Consistent.completeOperation (h : e.Consistent Nobody) (o : OperationId)
    (result : Except ActivityError Value) : Works Nobody e (e.completeOperation o result) := by
  unfold Executor.completeOperation
  cases ho : e.operations[o]? with
  | none => exact .skip (.inl h) (.refl e)
  | some owner =>
    obtain ⟨hl, hk⟩ := h.owned.operation ho
    obtain ⟨i, hi, hil⟩ := isLive_iff.mp hl
    have hx : i.executed = true := h.operation_executed ho hi hil
    have hf : Follows e (· = owner) _ := .eraseOperation (h.exempt hl) hl ho
    have released : Passage Nobody Nobody e []
        (release { e with operations := e.operations.erase o } owner 1) :=
      .release 1 rfl rfl rfl rfl
    dsimp only
    have hl' : isLive { e with operations := e.operations.erase o } owner = true := hl
    rw [hl', if_neg (by decide)]
    generalize release _ owner 1 = e₁ at hf released
    have hl₁ := hf.extension.isLive hl
    cases result with
    | error error =>
      obtain ⟨proper, f, hfalls⟩ := hf.consistent.raise hl₁ only_self error
      obtain ⟨hooks, ha⟩ := hfalls.aftermath
      exact .uncalled (x := owner) (Course.after (.of_aftermath proper ha) released)
    | ok v =>
      obtain ⟨body, hb⟩ := exists_async hl₁ ((hf.extension.nodeOf hl).symm ▸ hk)
      rw [hb]
      dsimp only
      refine .called (c := .finish v) hi ⟨hil, hx⟩ (Course.after ?_ released)
      obtain ⟨a, e', he, hf', hp⟩ | ⟨e', he, hcourse⟩ :=
        hf.consistent.invoke rfl hl₁ only_self (.finish v) (body.finish v)
      · rw [he]
        have hr : Follows e (· = owner) (e'.recordResult owner a) :=
          hf.trans (hf'.trans (.recordResult hf'.consistent a))
        obtain ⟨j, hj, hjs, -, -, hjx⟩ := hr.extension.keeps hi
        have tried := hr.consistent.triesCompletion (fun hk _ => hk) hj (hjs ▸ hil) (hjx.trans hx)
        exact tried.called (hp.trans (.recordResult a)).weaken ⟨j, hj, trivial⟩
          (hr.consistent.placed.tree.below hj)
      · rw [he]
        exact hcourse

end Workflow.Executor

namespace Workflow

/-- Whether an item lets an instance be observed, and so leave. -/
def WorkItem.observes : WorkItem → InstanceId → Prop
  | completion _ child, k => k = child
  | _, _ => False

namespace Executor

variable {e : Executor} {w : WorkItem} {q : WorkQueue}

/-- Doing an item that is taken from the queue is a piece of work on one instance. -/
theorem Consistent.dispatch (h : e.Consistent Nobody) (hq : e.queue.work = w :: q.work) :
    Works w.observes e (Executor.dispatch { e with queue := q } w) := by
  cases w with
  | execute x => exact h.executeActivity hq
  | completion p c => exact (h.deliverCompletion hq).1
  | fault p c tag f => exact h.deliverFault hq
  | cancel x =>
    exact (h.pop_plain hq rfl (fun _ hw => WorkItem.noConfusion hw) fun _ => rfl).cancelInstance.after
      rfl rfl rfl rfl
  | bookmark x b callback v releases => exact h.deliverResumption hq
  | operation o result =>
    exact ((h.pop_plain hq rfl (fun _ hw => WorkItem.noConfusion hw) fun _ => rfl).completeOperation o
      result).after rfl rfl rfl rfl

end Executor

end Workflow
