import Workflow.Proofs.Execution

/-!
# Completed children

A parent is told of a child that has completed or faulted. It stops waiting for a completed child,
which leaves the table; the fault of a child it handles or takes over.
-/

namespace Workflow.Executor

variable {e e' : Executor} {X : InstanceId → Prop} {x k c p : InstanceId} {i r : Instance}
variable {q : WorkQueue}

/-- A parent that waits for a child has run. -/
theorem Consistent.parent_executed (h : e.Consistent X) (hX : ¬ X p) (hr : e.instances[p]? = some r)
    (hl : r.state.isLive = true) (hc : c ∈ r.children) : r.executed = true := by
  refine h.executed hr hl hX fun hb => ?_
  rw [(h.balanced.free hr hl hb).1] at hc
  exact absurd hc List.not_mem_nil

/-- What is left of a parent that has seen a child. -/
def dropChild (e : Executor) (p c : InstanceId) : Executor :=
  modify { e with instances := e.instances.erase c } p fun r =>
    { r with children := r.children.filter (· != c) }

theorem lookup_dropChild (hr : e.instances[p]? = some r) (hpc : p ≠ c) (k : InstanceId) :
    (e.dropChild p c).instances[k]? =
      if k = c then none else
      if k = p then some { r with children := r.children.filter (· != c) } else e.instances[k]? := by
  rw [dropChild, lookup_modify]
  dsimp only
  rw [Table.lookup_erase]
  by_cases hk : p = k
  · subst hk
    rw [if_pos rfl, if_neg hpc.symm, if_neg hpc, if_pos rfl, hr]
    rfl
  · by_cases hc : c = k
    · rw [if_neg hk, if_pos hc, if_pos hc.symm]
    · rw [if_neg hk, if_neg hc, if_neg (Ne.symm hc), if_neg (Ne.symm hk)]

/-- A parent that has seen a child goes on. -/
theorem lookup_dropChild_release (hr : e.instances[p]? = some r) (hpc : p ≠ c) :
    ∃ r', ((e.dropChild p c).release p 1).instances[p]? = some r' ∧ r'.state = r.state ∧
      r'.executed = r.executed := by
  change ∃ r', ((e.dropChild p c).modify p _).instances[p]? = some r' ∧ _
  rw [lookup_modify, if_pos rfl, lookup_dropChild hr hpc, if_neg hpc, if_pos rfl]
  exact ⟨_, rfl, rfl, rfl⟩

/-- A completed child that nobody is told of, and its live parent. -/
structure Leaving (e : Executor) (p c : InstanceId) (i r : Instance) : Prop where
  /-- Nobody is told of the child. -/
  consistent : e.Consistent (· = c)
  /-- The child is there. -/
  child : e.instances[c]? = some i
  /-- It has completed. -/
  terminal : i.state.isTerminal = true
  /-- It has the parent. -/
  linked : i.parent = some p
  /-- The parent is there. -/
  parent : e.instances[p]? = some r
  /-- It is live. -/
  live : r.state.isLive = true
  /-- It has the child. -/
  listed : c ∈ r.children

namespace Leaving

variable {j : Instance} (h : Leaving e p c i r)
include h

/-- The parent is another instance. -/
theorem ne : p ≠ c := by
  rintro rfl
  exact Nat.lt_irrefl _ (h.consistent.placed.tree.older h.child h.linked)

/-- No live instance is the child. -/
theorem ne_of_live (hj : e.instances[k]? = some j) (hl : j.state.isLive = true) : k ≠ c := by
  rintro rfl
  cases h.child.symm.trans hj
  have ht := h.terminal
  rw [ActivityState.not_terminal_of_isLive hl] at ht
  exact absurd ht Bool.false_ne_true

theorem look (k : InstanceId) : (e.dropChild p c).instances[k]? =
    if k = c then none else
    if k = p then some { r with children := r.children.filter (· != c) } else e.instances[k]? :=
  lookup_dropChild h.parent h.ne k

/-- What is left is the parent, or as it was. -/
theorem cases (hj : (e.dropChild p c).instances[k]? = some j) :
    k ≠ c ∧ ((k = p ∧ j = { r with children := r.children.filter (· != c) }) ∨
      (k ≠ p ∧ e.instances[k]? = some j)) := by
  rw [h.look] at hj
  split at hj
  · exact absurd hj.symm (Option.some_ne_none j)
  · next hk =>
    split at hj
    · next hkp => exact ⟨hk, .inl ⟨hkp, (Option.some.inj hj).symm⟩⟩
    · next hkp => exact ⟨hk, .inr ⟨hkp, hj⟩⟩

/-- What is live was live. -/
theorem was_live (hk : (e.dropChild p c).isLive k = true) : e.isLive k = true := by
  obtain ⟨j, hj, hl⟩ := isLive_iff.mp hk
  obtain ⟨-, ⟨rfl, rfl⟩ | ⟨-, hj⟩⟩ := h.cases hj
  · exact isLive_iff.mpr ⟨r, h.parent, h.live⟩
  · exact isLive_iff.mpr ⟨j, hj, hl⟩

/-- What was live stays live. -/
theorem stays_live (hk : e.isLive k = true) : (e.dropChild p c).isLive k = true := by
  obtain ⟨j, hj, hl⟩ := isLive_iff.mp hk
  refine isLive_iff.mpr ?_
  rw [h.look, if_neg (h.ne_of_live hj hl)]
  split
  · exact ⟨_, rfl, h.live⟩
  · exact ⟨j, hj, hl⟩

/-- What was live runs what it ran. -/
theorem nodeOf_eq (hk : e.isLive k = true) : (e.dropChild p c).nodeOf k = e.nodeOf k := by
  obtain ⟨j, hj, hl⟩ := isLive_iff.mp hk
  rw [nodeOf, nodeOf, instance?, instance?, h.look, if_neg (h.ne_of_live hj hl)]
  split
  · next hkp =>
    rw [hkp, h.parent]
    rfl
  · rfl

/-- No item of work tells of the child. -/
theorem untold {v : WorkItem} {a b : InstanceId} (hv : v ∈ e.queue.work)
    (hr : v.report? = some (a, b)) : b ≠ c := by
  rintro rfl
  have hu := h.consistent.placed.untold h.child h.terminal h.linked rfl
  rw [List.countP_eq_zero] at hu
  refine hu v hv ?_
  rw [WorkItem.tellsOf, hr, Option.any_some, beq_iff_eq]

/-- Everything is in its place without the child. -/
theorem placed : (e.dropChild p c).Placed (· = p) := by
  have was := h.consistent.placed
  refine ⟨was.tree.drop h.child h.terminal h.linked h.parent rfl h.look, h.stays_live was.rootLive,
    fun {v a b} hv hvr => ?_, was.created, was.sourced, fun {k a j} hj hjt hja hk => ?_,
    fun {k a j} hj hjt _ hk => ?_, fun {k j} hj hjl hk hx => ?_, fun {k j} hj hjl hk hx => ?_⟩
  · obtain ⟨ha, hb, hbt, hbl⟩ := was.reported hv hvr
    refine ⟨ha, hb, fun j hj => ?_, fun hal => ?_⟩
    · obtain ⟨-, ⟨rfl, rfl⟩ | ⟨-, hj⟩⟩ := h.cases hj
      · exact hbt r h.parent
      · exact hbt j hj
    · obtain ⟨j, hj⟩ := hbl (h.was_live hal)
      rw [h.look, if_neg (h.untold hv hvr)]
      split
      · exact ⟨_, rfl⟩
      · exact ⟨j, hj⟩
  · obtain ⟨hkc, ⟨rfl, -⟩ | ⟨-, hj⟩⟩ := h.cases hj
    · exact absurd rfl hk
    · exact was.told hj hjt hja hkc
  · obtain ⟨-, ⟨-, rfl⟩ | ⟨hkp, -⟩⟩ := h.cases hj
    · have hn := ActivityState.not_terminal_of_isLive h.live
      exact absurd (hn.symm.trans hjt) Bool.false_ne_true
    · exact absurd hk hkp
  · obtain ⟨hkc, ⟨rfl, -⟩ | ⟨-, hj⟩⟩ := h.cases hj
    · exact absurd rfl hk
    · exact was.waiting hj hjl hkc hx
  · obtain ⟨hkc, ⟨rfl, -⟩ | ⟨-, hj⟩⟩ := h.cases hj
    · exact absurd rfl hk
    · exact was.queued hj hjl hkc hx

/-- The parent still counts the child. -/
theorem overcounts : (e.dropChild p c).Overcounts p 1 := by
  intro k j hj hjl
  obtain ⟨hkc, ⟨rfl, rfl⟩ | ⟨hkp, hj⟩⟩ := h.cases hj
  · have hb := h.consistent.balanced k r h.parent h.live
    have hlen : (r.children.filter (· != c)).length + 1 = r.children.length := by
      have hn := (h.consistent.placed.tree.sound h.parent).nodup
      have hpos := List.length_pos_of_mem h.listed
      rw [← hn.erase_eq_filter, List.length_erase_of_mem h.listed]
      omega
    rw [if_pos rfl]
    change r.busy = (r.children.filter (· != c)).length + e.dues k + 1
    omega
  · rw [if_neg hkp]
    exact h.consistent.balanced k j hj hjl

/-- The child leaves, and its parent stops waiting for it. -/
theorem dropped : ((e.dropChild p c).release p 1).Consistent (· = p) := by
  obtain ⟨balanced, sober⟩ :=
    h.overcounts.release (h.stays_live (isLive_iff.mpr ⟨r, h.parent, h.live⟩))
  have owned : (e.dropChild p c).Owned :=
    h.consistent.owned.of_live (fun _ => h.stays_live) (fun _ => h.nodeOf_eq) rfl rfl rfl
  refine ⟨h.placed.release rfl 1, owned.extend (.release 1) rfl rfl rfl, ?_, balanced,
    h.consistent.opened, sober.trans h.consistent.sober, h.consistent.running⟩
  refine h.consistent.awake_of (fun {k j} hj _ hjl hk => ?_) (fun hg _ => hg) fun hw _ _ => .inl hw
  obtain ⟨o, ho, ⟨rfl, -⟩ | ⟨-, rfl⟩⟩ := lookup_modify_cases (e := e.dropChild p c) hj
  · exact absurd rfl hk
  · obtain ⟨hkc, ⟨rfl, -⟩ | ⟨-, ho⟩⟩ := h.cases ho
    · exact absurd rfl hk
    · exact ⟨j, ho, hkc, rfl, hjl⟩

end Leaving

/-- The child leaves. -/
theorem Leaving.passage (h : Leaving e p c i r) :
    Passage Nobody (· = c) e [] ((e.dropChild p c).release p 1) := by
  have dropped : Passage Nobody (· = c) e [] (e.dropChild p c) := by
    refine ⟨rfl, Nat.le_refl _, ⟨[], (List.append_nil _).symm, rfl⟩, fun {k j} hj => ?_,
      fun {k a j} hj _ _ _ => ?_⟩
    · obtain ⟨-, ⟨rfl, rfl⟩ | ⟨-, hj⟩⟩ := h.cases hj
      · exact .inl ⟨r, h.parent, {}⟩
      · exact .inl ⟨j, hj, {}⟩
    · by_cases hk : k = c
      · exact .inl hk
      · refine .inr (.inl ?_)
        rw [h.look, if_neg hk]
        split
        · exact ⟨_, rfl⟩
        · exact ⟨j, hj⟩
  exact dropped.trans (.release 1 rfl rfl rfl rfl)

/-- The child has left. -/
theorem Leaving.left (h : Leaving e p c i r) :
    ((e.dropChild p c).release p 1).instances[c]? = none := by
  change ((e.dropChild p c).modify p _).instances[c]? = none
  rw [lookup_modify, if_neg h.ne, h.look, if_pos rfl]

/-- Outgoing arguments are copied without other changes. -/
theorem Passage.copyOutputs {S D : InstanceId → Prop} (c : Instance) :
    Passage S D e [] (e.copyOutputs p c) := by
  unfold Executor.copyOutputs
  refine .foldl (fun e a => ?_) _
  split
  · split
    · exact .modify fun _ _ => .of_same rfl rfl rfl rfl
    · exact .refl e
  · exact .refl e

/-- Outgoing arguments are copied without other changes. -/
theorem Follows.copyOutputs (h : e.Consistent X) (c : Instance) :
    Follows e X (e.copyOutputs p c) := by
  unfold Executor.copyOutputs
  refine .foldl (fun {e} a h => ?_) h _
  split
  · split
    · exact .modify h (fun _ => .of_same rfl rfl rfl rfl rfl rfl rfl) fun _ => rfl
    · exact .refl h
  · exact .refl h

/-- After a callback the instance goes on, or it completes, or it has faulted. -/
theorem Consistent.callBack (h : e.Consistent (· = x)) (hi : e.instances[x]? = some i)
    (hl : i.state.isLive = true) (hx : i.executed = true) (callback : Callback)
    (ha : ∀ j : Instance, j.Answered callback) (program : Program .native Unit) :
    Course Nobody e x (some callback) (e.callBack x callback program) := by
  unfold Executor.callBack
  obtain ⟨a, e', he, hf, hp⟩ | ⟨e', he, hc⟩ :=
    h.invoke rfl (isLive_iff.mpr ⟨i, hi, hl⟩) only_self callback program
  · rw [he]
    obtain ⟨j, hj, hjs, -, -, hjx⟩ := hf.extension.keeps hi
    have tried := hf.consistent.triesCompletion (fun hk _ => hk) hj (hjs ▸ hl) (hjx.trans hx)
    exact tried.called hp.weaken ⟨j, hj, ha j⟩ (hf.consistent.placed.tree.below hj)
  · rw [he]
    exact hc

section Completion

/-- A completion tells of the child only. -/
theorem tellsOf_completion (h : (WorkItem.completion p c).tellsOf k = true) : k = c :=
  (beq_iff_eq.mp h).symm

/-- Nobody need be told of a child that has left. -/
theorem Consistent.pop_lost_completion (h : e.Consistent Nobody)
    (hq : e.queue.work = .completion p c :: q.work) (hn : e.instances[c]? = none) :
    Consistent { e with queue := q } Nobody := by
  refine h.pop hq (fun {k i} hk ht => ?_) (fun _ _ hf => hf.elim)
    (fun _ _ _ hw => absurd hw (by simp)) fun _ => rfl
  rw [tellsOf_completion ht, hn] at hk
  exact absurd hk.symm (Option.some_ne_none i)

/-- A child of whose completion a parent is told leaves that parent. -/
theorem Consistent.leaving (h : e.Consistent Nobody)
    (hq : e.queue.work = .completion p c :: q.work) (hi : e.instances[c]? = some i) :
    ∃ r, Leaving { e with queue := q } p c i r := by
  have hw : WorkItem.completion p c ∈ e.queue.work := by
    rw [hq]
    exact List.mem_cons_self
  obtain ⟨-, -, hterm, -⟩ := h.placed.reported hw rfl
  obtain ⟨ht, hp⟩ := hterm i hi
  obtain ⟨r, hr, hl, hm⟩ := parent_live h.placed.tree hi hp
  have hc : Consistent { e with queue := q } (· = c) :=
    h.pop hq (fun _ => tellsOf_completion) (fun _ _ hk => beq_iff_eq.mpr hk.symm)
      (fun _ _ _ hw => absurd hw (by simp)) fun _ => rfl
  exact ⟨r, hc, hi, ht, hp, hr, hl, hm⟩

/-- A parent that is told of a completed child, which leaves. -/
theorem Consistent.deliverCompletion (h : e.Consistent Nobody)
    (hq : e.queue.work = .completion p c :: q.work) :
    Works (· = c) e (deliverCompletion { e with queue := q } p c) ∧
      (deliverCompletion { e with queue := q } p c).instances[c]? = none := by
  have taken : Passage Nobody (· = c) e [] { e with queue := q } := .of_eq rfl rfl rfl rfl
  unfold Executor.deliverCompletion
  cases hi : instance? { e with queue := q } c with
  | none =>
    have proper : Proper { e with queue := q } := .inl (h.pop_lost_completion hq hi)
    exact ⟨.uncalled (x := p) (Course.after (.of_passage proper (.refl _)) taken), hi⟩
  | some i =>
    obtain ⟨r, leaving⟩ := h.leaving hq hi
    have hr : e.instances[p]? = some r := leaving.parent
    have hrl : r.state.isLive = true := leaving.live
    have hpc : p ≠ c := leaving.ne
    have hd := leaving.dropped
    have passed := taken.trans leaving.passage
    have left := leaving.left
    have hx : r.executed = true := h.parent_executed id hr hrl leaving.listed
    obtain ⟨r₁, hr₁, hs₁, hx₁⟩ := lookup_dropChild_release (e := { e with queue := q }) hr hpc
    have hlive : isLive { e with queue := q, instances := e.instances.erase c } p = true := by
      refine isLive_iff.mpr ⟨r, ?_, hrl⟩
      rw [Table.lookup_erase, if_neg hpc.symm]
      exact hr
    dsimp only
    rw [hlive, if_neg (by decide)]
    generalize hE : Executor.release _ p 1 = e₁
    have hd : e₁.Consistent (· = p) := hE ▸ hd
    have hr₁ : e₁.instances[p]? = some r₁ := hE ▸ hr₁
    have passed : Passage Nobody (· = c) e [] e₁ := hE ▸ passed
    have left : e₁.instances[c]? = none := hE ▸ left
    obtain ⟨e₂, he₂⟩ : ∃ e₂, e₂ = if i.state = .closed then e₁.copyOutputs p i else e₁ := ⟨_, rfl⟩
    have hf : Follows e₁ (· = p) e₂ ∧ Passage Nobody (· = c) e₁ [] e₂ := by
      rw [he₂]
      split
      · exact ⟨.copyOutputs hd i, .copyOutputs i⟩
      · exact ⟨.refl hd, .refl e₁⟩
    obtain ⟨hf, copied⟩ := hf
    obtain ⟨r₂, hr₂, hs₂, -, -, hx₂⟩ := hf.extension.keeps hr₁
    have hl₂ : r₂.state.isLive = true := by
      rw [hs₂, hs₁]
      exact hrl
    have hx₂ : r₂.executed = true := by
      rw [hx₂, hx₁]
      exact hx
    have old : c.number < e₁.nextInstance :=
      Nat.lt_of_lt_of_le (h.placed.tree.below hi) passed.later
    have left₂ := copied.absent left old
    have old₂ := Nat.lt_of_lt_of_le old copied.later
    rw [← he₂]
    split
    · next tag body _ _ =>
      have course := hf.consistent.callBack hr₂ hl₂ hx₂ (.childCompleted tag i.completed)
        (fun _ => trivial) (body.childCompleted tag i.completed)
      have accepts : r.Accepts (.childCompleted tag i.completed) := ⟨hrl, hx⟩
      exact ⟨.called hr accepts (course.after (passed.trans copied)), course.absent left₂ old₂⟩
    · have course := hf.consistent.triesCompletion (fun hk _ => hk) hr₂ hl₂ hx₂
      exact ⟨.uncalled (course.after (passed.trans copied)), course.absent left₂ old₂⟩

end Completion

/-- A child whose fault its parent has handled is observed like any other. -/
theorem Consistent.handled (h : e.Consistent fun k => k = p ∨ k = c)
    (hi : e.instances[c]? = some i) (ht : i.state.isTerminal = true) (hp : i.parent = some p)
    (hr : e.instances[p]? = some r) (hl : r.state.isLive = true) (hx : r.executed = true) :
    (e.enqueue (.completion p c)).Consistent Nobody := by
  have told := h.report (w := .completion p c) rfl hi ht hp (.inr rfl) fun hw => by cases hw
  refine told.excuse fun {k o} hk ho => ?_
  obtain rfl := hk.1.resolve_right hk.2
  cases hr.symm.trans ho
  refine ⟨hl, hx, fun hb => ?_⟩
  -- The parent still has the child, so it counts something.
  obtain ⟨o', ho', hm⟩ := h.placed.tree.listed hi hp
  cases hr.symm.trans ho'
  rw [(h.balanced.free hr hl hb).1] at hm
  exact absurd hm List.not_mem_nil

section Fault

variable {tag : CallbackTag} {f : Fault}

/-- A fault tells of the child only. -/
theorem tellsOf_fault (h : (WorkItem.fault p c tag f).tellsOf k = true) : k = c :=
  (beq_iff_eq.mp h).symm

/-- The child of a handler that is no longer live has left, so nobody need be told of its fault. -/
theorem Consistent.pop_lost_fault (h : e.Consistent Nobody)
    (hq : e.queue.work = .fault p c tag f :: q.work) (hn : e.isLive p = false) :
    Consistent { e with queue := q } Nobody := by
  have hw : WorkItem.fault p c tag f ∈ e.queue.work := by
    rw [hq]
    exact List.mem_cons_self
  obtain ⟨-, -, hterm, -⟩ := h.placed.reported hw rfl
  refine h.pop hq (fun {k i} hk ht => ?_) (fun _ _ hf => hf.elim)
    (fun _ _ _ hw => absurd hw (by simp)) fun _ => rfl
  obtain rfl := tellsOf_fault ht
  obtain ⟨r, hr, hl, -⟩ := parent_live h.placed.tree hk (hterm i hk).2
  have live : e.isLive p = true := isLive_iff.mpr ⟨r, hr, hl⟩
  rw [live] at hn
  exact absurd hn.symm Bool.false_ne_true

/-- While a live handler decides about a fault, nobody is told of the child. -/
theorem Consistent.pop_fault (h : e.Consistent Nobody)
    (hq : e.queue.work = .fault p c tag f :: q.work) (hr : e.instances[p]? = some r)
    (hl : r.state.isLive = true) : Consistent { e with queue := q } fun k => k = p ∨ k = c := by
  refine h.pop hq (fun _ ht => .inr (tellsOf_fault ht)) (fun {k j} hj ht hk => ?_)
    (fun _ _ _ hw => absurd hw (by simp)) fun _ => rfl
  rcases hk with rfl | rfl
  · cases hr.symm.trans hj
    rw [ActivityState.not_terminal_of_isLive hl] at ht
    exact absurd ht Bool.false_ne_true
  · exact beq_iff_eq.mpr rfl

/-- A handler that is told of the fault of a child. -/
theorem Consistent.deliverFault (h : e.Consistent Nobody)
    (hq : e.queue.work = .fault p c tag f :: q.work) :
    Works Nobody e (deliverFault { e with queue := q } p c tag f) := by
  have hw : WorkItem.fault p c tag f ∈ e.queue.work := by
    rw [hq]
    exact List.mem_cons_self
  obtain ⟨-, -, hterm, hthere⟩ := h.placed.reported hw rfl
  have hf : (e.definition.get? f.sourceNode).isSome = true := h.placed.sourced hw
  have taken : Passage Nobody Nobody e [] { e with queue := q } := .of_eq rfl rfl rfl rfl
  unfold Executor.deliverFault
  change Works Nobody e (if !e.isLive p then _ else _ : Executor)
  cases hl : e.isLive p with
  | false => exact .skip (.inl (h.pop_lost_fault hq hl)) taken
  | true =>
    obtain ⟨i, hi⟩ := hthere hl
    obtain ⟨ht, hp⟩ := hterm i hi
    obtain ⟨r, hr, hrl, hm⟩ := parent_live h.placed.tree hi hp
    have hx : r.executed = true := h.parent_executed id hr hrl hm
    have hc := h.pop_fault hq hr hrl
    have near : ∀ {k : InstanceId}, k = p ∨ k = c →
        k = p ∨ ∃ i, e.instances[k]? = some i ∧ i.parent = some p := by
      rintro k (rfl | rfl)
      · exact .inl rfl
      · exact .inr ⟨i, hi, hp⟩
    rw [Bool.not_true, if_neg Bool.false_ne_true]
    split
    · exact .uncalled ((hc.faultInstance hl near hf).after taken)
    · next body hb =>
      dsimp only
      generalize (⟨f, c, ((instance? { e with queue := q } c).map (·.node)).getD
        f.sourceNode⟩ : FaultContext) = context
      refine .called (c := .childFaulted tag context) hr ⟨hrl, hx⟩ (Course.after ?_ taken)
      obtain ⟨a, e', he, hfo, hpass⟩ | ⟨e', he, hcourse⟩ := hc.invoke (.inl rfl) hl near
        (.childFaulted tag context) (body.childFaulted tag context)
      · rw [he]
        obtain ⟨j, hj, hjs, hjp, -, -⟩ := hfo.extension.keeps hi
        obtain ⟨s, hs, hss, -, -, hsx⟩ := hfo.extension.keeps hr
        have called : ∀ {e'' : Executor}, Course Nobody e' p none e'' →
            Course Nobody { e with queue := q } p (some (.childFaulted tag context)) e'' :=
          fun h => h.called hpass.weaken ⟨s, hs, trivial⟩ (hfo.consistent.placed.tree.below hs)
        cases a with
        | handled =>
          have hsl : s.state.isLive = true := hss ▸ hrl
          refine called (.of_passage (.inl ?_) (.enqueue _))
          exact hfo.consistent.handled hj (hjs ▸ ht) (hjp.trans hp) hs hsl (hsx.trans hx)
        | propagate =>
          refine called (hfo.consistent.faultInstance (hfo.extension.isLive hl) (fun {k} hk => ?_)
            (hfo.extension.definition ▸ hf))
          rcases hk with rfl | rfl
          · exact .inl rfl
          · exact .inr ⟨j, hj, hjp.trans hp⟩
      · rw [he]
        exact hcourse

end Fault

end Workflow.Executor
