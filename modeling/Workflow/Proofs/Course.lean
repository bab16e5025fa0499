import Workflow.Proofs.Hooks

/-!
# Work on an instance

A piece of work concerns one instance. Its body is called at most once; then the instance goes on, or
it completes, or it faults and those below it are told. Each part of the engine that does a piece of
work is described by such a course.
-/

namespace Workflow

namespace Callback

/-- Whether a callback runs the body of an instance for the first time. -/
def isStart : Callback → Bool
  | execute => true
  | start _ => true
  | _ => false

/-- Whether a callback asks a body to cancel. -/
def isCancel : Callback → Bool
  | cancel => true
  | _ => false

/-- Whether a callback tells a body that it is torn down. -/
def isAbort : Callback → Bool
  | abort _ => true
  | _ => false

end Callback

namespace Instance

/-- Whether an instance is in a condition to be called. -/
def Accepts (i : Instance) : Callback → Prop
  | .execute => i.state = .executing ∧ i.executed = false
  | .start _ => i.state = .executing ∧ i.executed = false
  | .cancel => i.state.isLive = true ∧ i.executed = true ∧ i.cancelRequested = false
  | .abort _ => False
  | .childCompleted _ _ => i.state.isLive = true ∧ i.executed = true
  | .childFaulted _ _ => i.state.isLive = true ∧ i.executed = true
  | .bookmarkResumed _ _ _ => i.state.isLive = true ∧ i.executed = true
  | .finish _ => i.state.isLive = true ∧ i.executed = true

/-- What is to be seen of an instance that has been called and goes on. -/
def Answered (i : Instance) : Callback → Prop
  | .execute => i.executed = true
  | .start _ => i.executed = true
  | .cancel => i.cancelRequested = true
  | _ => True

variable {i j : Instance} {c : Callback}

/-- An instance to which nothing has happened may be run. -/
theorem accepts_start (hc : c.isStart = true)
    (hs : i.state = .executing) (hx : i.executed = false) : i.Accepts c := by
  cases c with
  | execute | start o => exact ⟨hs, hx⟩
  | _ => exact absurd hc Bool.false_ne_true

/-- An instance that has run has answered its first call. -/
theorem answered_start (hc : c.isStart = true) (hx : i.executed = true) : i.Answered c := by
  cases c with
  | execute | start o => exact hx
  | _ => exact absurd hc Bool.false_ne_true

/-- What has been answered stays answered. -/
theorem Answered.ages (h : j.Answered c) (ha : i.Ages False j) (hi : i.state.isTerminal = false) :
    i.Answered c := by
  have hx : i.executed = j.executed := ha.ran not_false hi
  cases c with
  | execute => exact hx.trans h
  | start o => exact hx.trans h
  | cancel => exact ha.asked h
  | _ => exact h

namespace Accepts

/-- An instance that is called has not ended. -/
theorem not_terminal (h : i.Accepts c) : i.state.isTerminal = false := by
  cases c with
  | execute | start o => rw [h.1]; rfl
  | abort f => exact h.elim
  | _ => exact ActivityState.not_terminal_of_isLive h.1

/-- The abort hook is no call. -/
theorem not_abort (h : i.Accepts c) : c.isAbort = false := by
  cases c with
  | abort f => exact h.elim
  | _ => rfl

/-- An instance that is run for the first time has not run. -/
theorem unexecuted (h : i.Accepts c) (hc : c.isStart = true) : i.executed = false := by
  cases c with
  | execute | start o => exact h.2
  | _ => exact absurd hc Bool.false_ne_true

/-- An instance that is called otherwise has run. -/
theorem executed (h : i.Accepts c) (hc : c.isStart = false) : i.executed = true := by
  cases c with
  | execute | start o => exact absurd hc.symm Bool.false_ne_true
  | abort f => exact h.elim
  | cancel => exact h.2.1
  | _ => exact h.2

/-- An instance whose body is asked to cancel was not asked before. -/
theorem unrequested (h : i.Accepts c) (hc : c.isCancel = true) : i.cancelRequested = false := by
  cases c with
  | cancel => exact h.2.2
  | _ => exact absurd hc Bool.false_ne_true

/-- An instance that has been called and goes on has run. -/
theorem executed_after (h : j.Accepts c) (ha : i.Ages (c.isStart = true) j) (hc : i.Answered c)
    (ht : i.state.isTerminal = false) : i.executed = true := by
  cases hs : c.isStart with
  | true =>
    cases c with
    | execute | start o => exact hc
    | _ => exact absurd hs Bool.false_ne_true
  | false =>
    have ran : i.executed = j.executed := ha.ran (Bool.eq_false_iff.mp hs) ht
    exact ran.trans (h.executed hs)

end Accepts

/-- An instance whose body has been asked to cancel has been asked itself. -/
theorem Answered.requested (h : i.Answered c) (hc : c.isCancel = true) :
    i.cancelRequested = true := by
  cases c with
  | cancel => exact h
  | _ => exact absurd hc Bool.false_ne_true

end Instance

namespace Executor

variable {e e' e₁ : Executor} {X D : InstanceId → Prop} {x k p : InstanceId} {i : Instance}
variable {call : Option Callback} {c : Callback} {f : Fault} {cs : List Call}

/-- Nothing more happens than what always may. -/
theorem Passage.weaken {S : InstanceId → Prop} (h : Passage Nobody Nobody e cs e') :
    Passage S D e cs e' :=
  h.mono (fun _ => False.elim) fun _ => False.elim

/-- An instance comes to have run if its body is called for the first time. -/
def Runs (x : InstanceId) (call : Option Callback) (k : InstanceId) : Prop :=
  k = x ∧ ∃ c, call = some c ∧ c.isStart = true

/-- A piece of work on an instance, with a call of its body or none. -/
structure Course (D : InstanceId → Prop) (e : Executor) (x : InstanceId) (call : Option Callback)
    (e' : Executor) : Prop where
  /-- The invariant holds again. -/
  proper : e'.Proper
  /-- An instance that goes on has answered. -/
  answered : ∀ {c : Callback} {i : Instance}, call = some c → e'.instances[x]? = some i →
    i.state.isLive = true → i.Answered c
  /-- The call comes first, and then abort hooks of others. -/
  way : ∃ m hooks, Passage (Runs x call) D e (call.toList.map (x, ·)) m ∧ Aftermath m x hooks e'

namespace Course

/-- Nobody is called. -/
theorem of_aftermath (h : e'.Proper) {hooks : List Call} (ha : Aftermath e x hooks e') :
    Course D e x none e' :=
  ⟨h, fun hc => absurd hc.symm (Option.some_ne_none _), e, hooks, .refl e, ha⟩

theorem of_passage (h : e'.Proper) (hp : Passage Nobody Nobody e [] e') : Course D e x none e' :=
  .of_aftermath h (.of_passage hp)

/-- Something may happen before. -/
theorem after (h : Course Nobody e₁ x call e') (hp : Passage Nobody D e [] e₁) :
    Course D e x call e' := by
  obtain ⟨m, hooks, hm, ha⟩ := h.way
  refine ⟨h.proper, h.answered, m, hooks, ?_, ha⟩
  exact Passage.trans (hp.mono (fun _ => False.elim) fun _ => id)
    (hm.mono (fun _ => id) fun _ => False.elim)

/-- The call may come before. -/
theorem called (h : Course Nobody e₁ x none e')
    (hp : Passage (Runs x (some c)) Nobody e [(x, c)] e₁)
    (ha : ∃ j, e₁.instances[x]? = some j ∧ j.Answered c) (hx : x.number < e₁.nextInstance) :
    Course Nobody e x (some c) e' := by
  obtain ⟨m, hooks, hm, hfter⟩ := h.way
  have hm : Passage Nobody Nobody e₁ [] m :=
    hm.mono (fun _ hk => absurd hk.2 fun ⟨_, hc, _⟩ => Option.some_ne_none _ hc.symm) fun _ => id
  refine ⟨h.proper, fun hc hi hl => ?_, m, hooks, hp.trans hm.weaken, hfter⟩
  cases hc
  obtain ⟨j, hj, ha⟩ := ha
  obtain ⟨o, ho, hages⟩ := (hm.trans hfter.passage).old hi hx
  cases hj.symm.trans ho
  exact ha.ages hages (ActivityState.not_terminal_of_isLive hl)

/-- Who was not there and is not new is not there. -/
theorem absent (h : Course D e x call e') (hk : e.instances[k]? = none)
    (hn : k.number < e.nextInstance) : e'.instances[k]? = none := by
  obtain ⟨m, hooks, hm, ha⟩ := h.way
  exact ha.passage.absent (hm.absent hk hn) (Nat.lt_of_lt_of_le hn hm.later)

/-- The call may end in a fault. -/
theorem crashed {hooks : List Call} (h : e'.Proper)
    (hp : Passage Nobody Nobody e [(x, c)] e₁) (ha : Aftermath e₁ x hooks e')
    (hf : ∀ i, e'.instances[x]? = some i → i.state = .faulted) :
    Course Nobody e x (some c) e' := by
  refine ⟨h, fun _ hi hl => ?_, e₁, hooks, hp.weaken, ha⟩
  rw [hf _ hi] at hl
  exact absurd hl Bool.false_ne_true

end Course

/-- A piece of work on some instance, whose body is called only if the instance is in a condition to be
called. -/
def Works (D : InstanceId → Prop) (e e' : Executor) : Prop :=
  ∃ x call, (∀ c, call = some c → ∃ i, e.instances[x]? = some i ∧ i.Accepts c) ∧
    Course D e x call e'

namespace Works

/-- No body is called. -/
theorem uncalled (h : Course D e x none e') : Works D e e' :=
  ⟨x, none, fun _ hc => absurd hc.symm (Option.some_ne_none _), h⟩

/-- Nothing is to be done. -/
theorem skip (h : e'.Proper) (hp : Passage Nobody Nobody e [] e') : Works Nobody e e' :=
  .uncalled (x := e.root) (.of_passage h hp)

theorem called (hi : e.instances[x]? = some i) (ha : i.Accepts c) (h : Course D e x (some c) e') :
    Works D e e' := by
  refine ⟨x, some c, fun c' hc => ?_, h⟩
  cases hc
  exact ⟨i, hi, ha⟩

/-- What changes no instance may happen before. -/
theorem after (h : Works D e₁ e') (hr : e₁.root = e.root) (hn : e₁.nextInstance = e.nextInstance)
    (hi : e₁.instances = e.instances) (hj : e₁.journal = e.journal) : Works D e e' := by
  obtain ⟨x, call, ha, hp, hans, m, hooks, hm, hafter⟩ := h
  have before : Passage (Runs x call) D e [] e₁ := .of_eq hr hn hi hj
  exact ⟨x, call, hi ▸ ha, hp, hans, m, hooks, before.trans hm, hafter⟩

theorem proper (h : Works D e e') : e'.Proper := by
  obtain ⟨x, call, -, hc⟩ := h
  exact hc.proper

end Works

/-- The end of the workflow changes no instance. -/
theorem Passage.finishWorkflow {S : InstanceId → Prop} : Passage S D e [] e.finishWorkflow := by
  unfold Executor.finishWorkflow
  split
  · exact .refl e
  · exact .of_eq rfl rfl rfl rfl

/-- The completion of an instance changes its state. -/
theorem completeInstance_eq (hi : e.instances[x]? = some i) {s : ActivityState}
    (hs : s = if i.markedCanceled then .canceled else .closed) :
    (e.completeInstance x).instances = e.instances.modify x (fun j => { j with state := s }) ∧
      (e.completeInstance x).root = e.root ∧
      (e.completeInstance x).nextInstance = e.nextInstance ∧
      (e.completeInstance x).journal = e.journal := by
  have core := sameCore_trackState (e := { e.modify x fun j => { j with state := s } with
    bookmarks := (e.bookmarks.removeOwned x).removeScopes x }) x s
  have journal : (e.ended x s).journal = e.journal := journal_trackState x s
  cases hp : i.parent with
  | some p =>
    rw [completeInstance_below hi hp, ← hs]
    exact ⟨core.instances, core.root, core.nextInstance, journal⟩
  | none =>
    rw [completeInstance_root hi hp, ← hs]
    obtain ⟨hinst, hroot, -, hnext, hjournal⟩ := finishWorkflow_keeps (e := e.ended x s)
    exact ⟨hinst.trans core.instances, hroot.trans core.root, hnext.trans core.nextInstance,
      hjournal.trans journal⟩

/-- A live instance that completes grows older. -/
theorem Passage.completeInstance (hi : e.instances[x]? = some i) (hl : i.state.isLive = true) :
    Passage Nobody Nobody e [] (e.completeInstance x) := by
  obtain ⟨s, hs⟩ : ∃ s, s = if i.markedCanceled then ActivityState.canceled else .closed := ⟨_, rfl⟩
  have terminal : s.isTerminal = true := by
    rw [hs]
    split <;> rfl
  have ages : ∀ j, e.instances[x]? = some j → Instance.Ages (Nobody x) { j with state := s } j := by
    intro j hj
    cases hi.symm.trans hj
    refine ⟨rfl, fun ht => ?_, id, fun _ ht => ?_, fun hx hc => ⟨hx, hc⟩⟩
    · rw [ActivityState.not_terminal_of_isLive hl] at ht
      exact absurd ht Bool.false_ne_true
    · exact absurd (ht.symm.trans terminal) Bool.false_ne_true
  obtain ⟨hinst, hroot, hnext, hjournal⟩ := completeInstance_eq hi hs
  exact .of_modified ages hinst hroot hnext hjournal

/-- An instance that has run completes if it waits for nothing. -/
theorem Consistent.triesCompletion (h : e.Consistent X)
    (hX : ∀ {k : InstanceId} {i : Instance}, X k → e.instances[k]? = some i → k = x)
    (hi : e.instances[x]? = some i) (hl : i.state.isLive = true) (hx : i.executed = true) :
    Course Nobody e x none (e.tryComplete x) := by
  refine .of_passage (h.tryComplete hX hi hl hx) ?_
  unfold Executor.tryComplete
  split
  · exact .completeInstance hi hl
  · exact .refl e

/-- A fault of the root ends the workflow. -/
theorem Placed.propagate_root (n : Nat) (h : e.Placed X) (how : e.Owned)
    (hs : e.isOverdrawn = false) (hf : (e.definition.get? f.sourceNode).isSome = true) :
    (propagate (n + 1) e.root f e).Concluded ∧ Falls f e e.root (propagate (n + 1) e.root f e) := by
  obtain ⟨i, hi, hl⟩ := isLive_iff.mp h.rootLive
  have hp : i.parent = none := by
    obtain ⟨r, hr, hp, -⟩ := h.tree.rooted
    cases hi.symm.trans hr
    exact hp
  have hit : Struck e e.root f i := struck h.tree how hi hl hf
  have hr := hit.retires.of_sameCore (sameCore_trackFault f none)
  unfold Executor.propagate
  rw [instance?, hi]
  dsimp only
  rw [ActivityState.not_terminal_of_isLive hl, if_neg Bool.false_ne_true, hp]
  constructor
  · exact finishWorkflow_concluded (hr.tree h.tree) hr.lookup_root rfl (hr.only_root h how).2
      (hr.isOverdrawn.trans hs)
  · have tracked : Passage Nobody Nobody (e.markFaulted e.root f) []
        ((e.markFaulted e.root f).trackFault f none) := .of_eq rfl rfl rfl rfl
    exact .stops hit (tracked.trans .finishWorkflow)

/-- A fault ends at a handler, who is told, or at the end of the workflow. -/
theorem Consistent.propagate (n : Nat) (h : e.Consistent X) (hi : e.instances[x]? = some i)
    (hl : i.state.isLive = true)
    (hX : ∀ {k : InstanceId}, X k → k = x ∨ ∃ i, e.instances[k]? = some i ∧ i.parent = some x)
    (hn : InstanceTable.countUpTo e.instances x ≤ n)
    (hf : (e.definition.get? f.sourceNode).isSome = true) :
    (propagate n x f e).Proper ∧ Falls f e x (propagate n x f e) := by
  induction n generalizing e X x i with
  | zero => exact absurd (InstanceTable.countUpTo_pos hi) (Nat.not_lt.mpr hn)
  | succ n ih =>
    have hs := struck h.placed.tree h.owned hi hl hf
    have hr := hs.retires
    have ht := h.placed.tree
    cases hp : i.parent with
    | none =>
      have hx : x = e.root := ht.orphan hi hp
      subst hx
      exact (h.placed.propagate_root n h.owned h.sober hf).imp_left .inr
    | some p =>
      unfold Executor.propagate
      rw [instance?, hi]
      dsimp only
      rw [ActivityState.not_terminal_of_isLive hl, if_neg Bool.false_ne_true, hp]
      have hx : x ≠ e.root := ht.ne_root hi hp
      have hc : (e.markFaulted x f).Consistent (· = x) := by
        refine hr.consistent (fun hk _ => (hX hk).imp_right fun hc => ?_) h hx
        obtain ⟨j, hj, hjx⟩ := hc
        exact (mem_descendants_iff ht hi).mpr (.child hj hjx)
      have hf' : ((e.markFaulted x f).definition.get? f.sourceNode).isSome = true :=
        hr.definition ▸ hf
      cases hcb : i.faultCallback with
      | some callback =>
        have told : ∀ m : Executor, Passage Nobody Nobody m []
            ((m.trackFault f (some p)).enqueue (.fault p x callback f)) :=
          fun _ => .of_eq rfl rfl rfl rfl
        exact ⟨.inl (hc.tellFault hr.lookup_self rfl hp hf' callback), .stops hs (told _)⟩
      | none =>
        obtain ⟨q, hq, hql, hm⟩ := parent_live h.placed.tree hi hp
        obtain ⟨hpx, hpg⟩ := parent_stays h.placed.tree hi hp
        have up := ih hc ((hr.lookup_of_ne hpg hpx).trans hq) hql (fun {k} hk => ?_) ?_ hf'
        · exact ⟨up.1, .passes hs hp up.2⟩
        · rw [hk]
          exact .inr ⟨_, hr.lookup_self, hp⟩
        · refine Nat.le_of_lt_succ (Nat.lt_of_le_of_lt (InstanceTable.countUpTo_mono ?_ p)
            (Nat.lt_of_lt_of_le (InstanceTable.countUpTo_lt hi (ht.older hi hp)) hn))
          intro k j hj
          obtain ⟨-, ⟨rfl, -⟩ | ⟨-, hj⟩⟩ := hr.lookup_cases hj
          · exact ⟨i, hi⟩
          · exact ⟨j, hj⟩

/-- A live instance faults. -/
theorem Consistent.faults (h : e.Consistent X) (hl : e.isLive x = true)
    (hX : ∀ {k : InstanceId}, X k → k = x ∨ ∃ i, e.instances[k]? = some i ∧ i.parent = some x)
    (hf : (e.definition.get? f.sourceNode).isSome = true) :
    (e.faultInstance x f).Proper ∧ Falls f e x (e.faultInstance x f) := by
  obtain ⟨i, hi, hil⟩ := isLive_iff.mp hl
  exact h.propagate _ hi hil hX (InstanceTable.countUpTo_le _ x) hf

/-- A live instance that faults is not called. -/
theorem Consistent.faultInstance (h : e.Consistent X) (hl : e.isLive x = true)
    (hX : ∀ {k : InstanceId}, X k → k = x ∨ ∃ i, e.instances[k]? = some i ∧ i.parent = some x)
    (hf : (e.definition.get? f.sourceNode).isSome = true) :
    Course Nobody e x none (e.faultInstance x f) := by
  obtain ⟨hp, hfalls⟩ := h.faults hl hX hf
  obtain ⟨hooks, ha⟩ := hfalls.aftermath
  exact .of_aftermath hp ha

/-- A live instance faults with an error of its own. -/
theorem Consistent.raise (h : e.Consistent X) (hl : e.isLive x = true)
    (hX : ∀ {k : InstanceId}, X k → k = x ∨ ∃ i, e.instances[k]? = some i ∧ i.parent = some x)
    (error : ActivityError) :
    (e.raise x error).Proper ∧ ∃ f, Falls f e x (e.raise x error) := by
  obtain ⟨i, hi, -⟩ := isLive_iff.mp hl
  unfold Executor.raise
  rw [instance?, hi]
  obtain ⟨hp, hfalls⟩ := h.faults (f := ⟨error, x, i.node, (e.definition.node i.node).name, false⟩)
    hl hX (h.placed.tree.sound hi).known
  exact ⟨hp, _, hfalls⟩

/-- A callback of a live instance goes on from before, or it ends in a fault. -/
theorem Consistent.invoke {k : BodyKind} {α : Type} (h : e.Consistent X) (hx : X x)
    (hl : e.isLive x = true)
    (hX : ∀ {k : InstanceId}, X k → k = x ∨ ∃ i, e.instances[k]? = some i ∧ i.parent = some x)
    (callback : Callback) (p : Program k α) :
    (∃ a e', e.invoke x callback p = (some a, e') ∧ Follows e X e' ∧
        Passage Nobody Nobody e [(x, callback)] e') ∨
      ∃ e', e.invoke x callback p = (none, e') ∧ Course Nobody e x (some callback) e' := by
  unfold Executor.invoke
  dsimp only
  have hlog : Follows e X (e.log (.call x (e.nodeOf x).body.label callback)) :=
    .of_sameCore h (sameCore_log _)
  have hp := hlog.trans (.perform p hlog.consistent hx (hlog.extension.isLive hl))
  have passed : Passage Nobody Nobody e [(x, callback)]
      ((e.log (.call x (e.nodeOf x).body.label callback)).perform x p).2 :=
    (Passage.log _).trans (.perform p hlog.consistent hx (hlog.extension.isLive hl))
  generalize (e.log (.call x (e.nodeOf x).body.label callback)).perform x p = result at hp passed
  obtain ⟨_ | a, e'⟩ := result
  · have near : ∀ {k : InstanceId}, X k →
        k = x ∨ ∃ i, e'.instances[k]? = some i ∧ i.parent = some x := by
      intro k hk
      refine (hX hk).imp_right fun ⟨i, hi, hix⟩ => ?_
      obtain ⟨j, hj, -, hjp, -⟩ := hp.extension.keeps hi
      exact ⟨j, hj, hjp.trans hix⟩
    obtain ⟨proper, f, hf⟩ := hp.consistent.raise (hp.extension.isLive hl) near _
    obtain ⟨hooks, ha⟩ := hf.aftermath
    exact .inr ⟨_, rfl, .crashed proper passed ha fun _ => hf.faulted⟩
  · exact .inl ⟨a, e', rfl, hp, passed⟩

end Executor

end Workflow
