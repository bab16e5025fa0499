import Workflow.Proofs.Course

/-!
# Execution

An item is taken from the queue before it is done. Taking it leaves the instances that it is about
exempt: a completed child that was told of, and an instance that has not run. An instance is executed
once. Its body runs, and then it waits for something, or it completes, or it has faulted.
-/

namespace Workflow.Executor

variable {e e' : Executor} {X Y : InstanceId → Prop} {x k c p : InstanceId} {i : Instance}
variable {w : WorkItem} {q : WorkQueue}

/-! ### Taking work -/

/-- A live instance that waits for something has run. -/
theorem Consistent.executed (h : e.Consistent X) (hi : e.instances[x]? = some i)
    (hl : i.state.isLive = true) (hX : ¬ X x) (hb : i.busy ≠ 0) : i.executed = true := by
  cases hx : i.executed with
  | true => rfl
  | false => exact absurd (h.placed.queued hi hl hX hx).2.1 hb

/-- What an item concerns becomes exempt when it is taken: the completed child that it tells of and
the instance that it executes. -/
theorem Placed.pop (h : e.Placed Nobody) (hq : e.queue.work = w :: q.work)
    (told : ∀ {k : InstanceId} {i : Instance}, e.instances[k]? = some i → w.tellsOf k = true → X k)
    (untold : ∀ {k : InstanceId} {i : Instance}, e.instances[k]? = some i →
      i.state.isTerminal = true → X k → w.tellsOf k = true)
    (run : ∀ {k : InstanceId} {i : Instance}, e.instances[k]? = some i → i.state.isLive = true →
      i.executed = false → w = .execute k → X k) :
    Placed { e with queue := q } X := by
  have mem : ∀ {v : WorkItem}, v ∈ q.work → v ∈ e.queue.work := fun hv => by
    rw [hq]
    exact List.mem_cons_of_mem w hv
  have count : ∀ k, e.queue.work.countP (·.tellsOf k) =
      q.work.countP (·.tellsOf k) + if w.tellsOf k then 1 else 0 := fun k => by
    rw [hq, List.countP_cons]
  refine ⟨h.tree, h.rootLive, fun hv => h.reported (mem hv), fun hv => h.created (mem hv),
    fun hv => h.sourced (mem hv), fun {k p i} hi ht hp hX => ?_, fun {k p i} hi ht hp hX => ?_,
    fun hi hl _ hx => h.waiting hi hl id hx, fun {k i} hi hl hX hx => ?_⟩
  · have hk : w.tellsOf k ≠ true := fun hw => hX (told hi hw)
    have hc := count k
    rw [h.told hi ht hp id, if_neg hk] at hc
    exact hc.symm
  · have hc := count k
    rw [h.told hi ht hp id, if_pos (untold hi ht hX)] at hc
    exact Nat.succ_inj.mp hc.symm
  · obtain ⟨h1, h2, h3⟩ := h.queued hi hl id hx
    rw [hq] at h3
    refine ⟨h1, h2, (List.mem_cons.mp h3).resolve_left fun hw => ?_⟩
    exact hX (run hi hl hx hw.symm)

/-- Taking an item changes no owner. -/
theorem Owned.pop (h : e.Owned) : Owned { e with queue := q } :=
  h.extend (.of_instances rfl rfl rfl) rfl rfl rfl

/-- Taking an item resumes nobody. -/
theorem Consistent.awake_pop (h : e.Consistent Nobody) (hq : e.queue.work = w :: q.work) :
    Awake { e with queue := q } X := by
  refine h.awake_of (fun {_ i} hi _ hl _ => ⟨i, hi, id, rfl, hl⟩) (fun hg _ => hg)
    fun hv _ _ => .inl ?_
  rw [hq]
  exact List.mem_cons_of_mem w hv

/-- When a resumption is taken that releases its owner, the owner counts one too many. -/
theorem Balanced.pop (h : e.Balanced) (hq : e.queue.work = w :: q.work) {n : Nat}
    (hw : ∀ k, (if w.releases k then 1 else 0) = if k = x then n else 0) :
    Overcounts { e with queue := q } x n := by
  intro k i hi hl
  have hb := h k i hi hl
  have hc : e.queue.releasing k = q.releasing k + if w.releases k then 1 else 0 := by
    rw [WorkQueue.releasing, hq, List.countP_cons]
    rfl
  rw [hw] at hc
  rw [dues] at hb ⊢
  dsimp only
  omega

/-- Nobody counts too many. -/
theorem Overcounts.balanced (h : e.Overcounts x 0) : e.Balanced := by
  intro k i hi hl
  have := h k i hi hl
  rwa [ite_self, Nat.add_zero] at this

/-- An item that releases nobody is taken. -/
theorem Consistent.pop (h : e.Consistent Nobody) (hq : e.queue.work = w :: q.work)
    (told : ∀ {k : InstanceId} {i : Instance}, e.instances[k]? = some i → w.tellsOf k = true → X k)
    (untold : ∀ {k : InstanceId} {i : Instance}, e.instances[k]? = some i →
      i.state.isTerminal = true → X k → w.tellsOf k = true)
    (run : ∀ {k : InstanceId} {i : Instance}, e.instances[k]? = some i → i.state.isLive = true →
      i.executed = false → w = .execute k → X k)
    (hw : ∀ o, w.releases o = false) : Consistent { e with queue := q } X where
  placed := h.placed.pop hq told untold run
  owned := h.owned.pop
  awake := h.awake_pop hq
  balanced := (h.balanced.pop (x := e.root) (n := 0) hq fun k => by
    rw [hw, ite_self, if_neg Bool.false_ne_true]).balanced
  opened := h.opened
  sober := h.sober
  running := h.running

/-- An exempt instance may change its state while it stays live, and come to have run. -/
theorem Consistent.remodel (h : e.Consistent X) (hX : X x) (hi : e.instances[x]? = some i)
    (hl : i.state.isLive = true) {f : Instance → Instance} (hp : (f i).SamePlace i)
    (hfl : (f i).state.isLive = true) (hff : (f i).fault = i.fault) (hb : (f i).busy = i.busy) :
    (e.modify x f).Consistent X := by
  have sound := h.placed.tree.sound hi
  have calm : ∀ {s : ActivityState}, s.isLive = true → s ≠ .faulting ∧ s ≠ .faulted := by
    intro s hs
    cases s <;> simp_all [ActivityState.isLive]
  have nofault : i.fault.isSome ≠ true := fun hf => (calm hl).2 (sound.faulted.mp hf)
  have hfs : (f i).Sound e.definition := by
    refine ⟨hp.node ▸ sound.known, hp.children ▸ sound.ascending, fun ht => ?_, (calm hfl).1,
      ⟨fun hf => absurd (hff ▸ hf) nofault, fun hf => absurd hf (calm hfl).2⟩,
      fun g hg => sound.sourced g (hff ▸ hg)⟩
    rw [ActivityState.not_terminal_of_isLive hfl] at ht
    exact absurd ht Bool.false_ne_true
  have same : ∀ j, e.instances[x]? = some j → (f j).state.isLive = j.state.isLive := by
    intro j hj
    cases hi.symm.trans hj
    rw [hl, hfl]
  have live := isLive_modify (f := f) same
  have placed : (e.modify x f).Placed X := by
    refine h.placed.remodel (fun j hj => ?_) (.inl hX)
    cases hi.symm.trans hj
    rw [ActivityState.not_terminal_of_isLive hl, ActivityState.not_terminal_of_isLive hfl]
    exact ⟨hp, hfs, same i hi, rfl⟩
  have node : ∀ a, (e.modify x f).nodeOf a = e.nodeOf a := by
    intro a
    rw [nodeOf, nodeOf, instance?, instance?, lookup_modify]
    split
    · next ha =>
      rw [← ha, hi, Option.map_some, Option.map_some, Option.map_some, hp.node]
      rfl
    · rfl
  refine ⟨placed, h.owned.of_live (fun a ha => (live a).trans ha) (fun a _ => node a) rfl rfl rfl, ?_,
    ?_, h.opened, h.sober, h.running⟩
  · refine h.awake_of (fun {a j} hj _ hjl ha => ?_) (fun hg _ => hg) fun hw _ _ => .inl hw
    obtain ⟨o, ho, ⟨rfl, -⟩ | ⟨-, rfl⟩⟩ := lookup_modify_cases hj
    · exact absurd hX ha
    · exact ⟨j, ho, ha, rfl, hjl⟩
  · refine h.balanced.change (x := x) rfl (fun _ _ => rfl) fun j hj _ => ?_
    cases hi.symm.trans hj
    rw [hb, hp.children]
    exact h.balanced x i hi hl

/-! ### Running a body -/

theorem Follows.recordResult (h : e.Consistent X) (result : Option Value) :
    Follows e X (e.recordResult x result) := by
  cases result with
  | none => exact .refl h
  | some v => exact .modify h (fun _ => .of_same rfl rfl rfl rfl rfl rfl rfl) fun _ => rfl

/-- Only the instance itself is exempt. -/
theorem only_self {k : InstanceId} (h : k = x) :
    k = x ∨ ∃ i, e.instances[k]? = some i ∧ i.parent = some x :=
  .inl h

/-- The programs of an instance are those of its node. -/
theorem behaviour_eq {b : Behaviour} (h : e.behaviour? x = some b) :
    (e.nodeOf x).body.behaviour = b := by
  rw [behaviour?, Option.map_eq_some_iff] at h
  obtain ⟨i, hi, rfl⟩ := h
  rw [nodeOf, hi]
  rfl

theorem Passage.recordResult {S D : InstanceId → Prop} (result : Option Value) :
    Passage S D e [] (e.recordResult x result) := by
  cases result with
  | none => exact .refl e
  | some v => exact .modify fun _ _ => .of_same rfl rfl rfl rfl

/-- A body that runs goes on from before, or it ends in a fault. -/
theorem Consistent.runBody (h : e.Consistent (· = x)) (hl : e.isLive x = true) {b : Behaviour}
    (hb : e.behaviour? x = some b) : ∃ c : Callback, c.isStart = true ∧
      ((∃ e', e.runBody x b = (true, e') ∧ Follows e (· = x) e' ∧
          Passage Nobody Nobody e [(x, c)] e') ∨
        ∃ e', e.runBody x b = (false, e') ∧ Course Nobody e x (some c) e') := by
  unfold Executor.runBody
  cases b with
  | code program =>
    dsimp only
    refine ⟨.execute, rfl, ?_⟩
    obtain ⟨a, e', he, hf, hp⟩ | ⟨e', he, hc⟩ := h.invoke rfl hl only_self .execute program
    · rw [he]
      exact .inl ⟨_, rfl, hf.trans (.recordResult hf.consistent a), hp.trans (.recordResult a)⟩
    · rw [he]
      exact .inr ⟨_, rfl, hc⟩
  | native body =>
    dsimp only
    refine ⟨.execute, rfl, ?_⟩
    obtain ⟨a, e', he, hf, hp⟩ | ⟨e', he, hc⟩ := h.invoke rfl hl only_self .execute body.execute
    · rw [he]
      exact .inl ⟨_, rfl, hf, hp⟩
    · rw [he]
      exact .inr ⟨_, rfl, hc⟩
  | async body =>
    dsimp only
    have hk : (e.nodeOf x).body.kind = .async := by
      rw [Body.kind, behaviour_eq hb]
      rfl
    have hop : Follows e (· = x) (e.beginOperation x).2 := .beginOperation h rfl hl hk
    have begun : Passage Nobody Nobody e [] (e.beginOperation x).2 := .beginOperation
    refine ⟨.start (e.beginOperation x).1, rfl, ?_⟩
    obtain ⟨a, e', he, hf, hp⟩ | ⟨e', he, hc⟩ := hop.consistent.invoke rfl (hop.extension.isLive hl)
      only_self (.start (e.beginOperation x).1) (body.start (e.beginOperation x).1)
    · rw [he]
      exact .inl ⟨_, rfl, hop.trans hf, begun.trans hp⟩
    · rw [he]
      exact .inr ⟨_, rfl, hc.after begun⟩

/-- An instance whose body has run completes if it waits for nothing then. -/
theorem Consistent.ran (h : e'.Consistent (· = x)) (hi : e'.instances[x]? = some i)
    (hl : i.state.isLive = true) {c : Callback} (hc : c.isStart = true)
    (hp : Passage Nobody Nobody e [(x, c)] e') :
    Course Nobody e x (some c)
      ((e'.modify x fun i => { i with executed := true }).tryComplete x) := by
  have hm := h.remodel (f := fun i => { i with executed := true }) rfl hi hl
    {} hl rfl rfl
  have hi' : (e'.modify x fun i => { i with executed := true }).instances[x]? =
      some { i with executed := true } := by
    rw [lookup_modify, if_pos rfl, hi]
    rfl
  have tried := hm.triesCompletion (fun hk _ => hk) hi' hl rfl
  have runs : Passage (Runs x (some c)) Nobody e' []
      (e'.modify x fun i => { i with executed := true }) :=
    .modify fun _ _ => {
      ran := fun hn => absurd ⟨rfl, c, rfl, hc⟩ hn
      unrun := fun hx => absurd hx.symm Bool.false_ne_true }
  exact tried.called (hp.weaken.trans runs) ⟨_, hi', Instance.answered_start hc rfl⟩
    (hm.placed.tree.below hi')

/-- If the body is not run, nothing was owed to the instance. -/
theorem Consistent.pop_skipped (h : e.Consistent Nobody)
    (hq : e.queue.work = .execute x :: q.work)
    (hx : ∀ i, e.instances[x]? = some i → i.executed = true ∨ i.state ≠ .executing) :
    Consistent { e with queue := q } Nobody := by
  refine h.pop hq (fun _ ht => absurd ht Bool.false_ne_true) (fun _ _ hf => hf.elim)
    (fun {k i} hi hl hex hk => ?_) fun _ => rfl
  cases hk
  rcases hx i hi with he | hs
  · rw [he] at hex
    exact absurd hex.symm Bool.false_ne_true
  · exact hs (h.placed.queued hi hl id hex).1

/-- While its body runs, a live instance need not wait for anything. -/
theorem Consistent.pop_execute (h : e.Consistent Nobody)
    (hq : e.queue.work = .execute x :: q.work) (hi : e.instances[x]? = some i)
    (hl : i.state.isLive = true) : Consistent { e with queue := q } (· = x) := by
  refine h.pop hq (fun _ ht => absurd ht Bool.false_ne_true) (fun {k j} hj ht hk => ?_)
    (fun {k j} _ _ _ hk => by cases hk; rfl) fun _ => rfl
  subst hk
  cases hi.symm.trans hj
  rw [ActivityState.not_terminal_of_isLive hl] at ht
  exact absurd ht Bool.false_ne_true

/-- An instance that is executed runs its body and completes if it waits for nothing then. -/
theorem Consistent.executeActivity (h : e.Consistent Nobody)
    (hq : e.queue.work = .execute x :: q.work) :
    Works Nobody e (executeActivity { e with queue := q } x) := by
  have taken : Passage Nobody Nobody e [] { e with queue := q } := .of_eq rfl rfl rfl rfl
  unfold Executor.executeActivity
  split
  · next i b hi hb =>
    have hi : e.instances[x]? = some i := hi
    split
    · next hx =>
      refine .skip (.inl (h.pop_skipped hq fun j hj => ?_)) taken
      cases hi.symm.trans hj
      exact hx
    · next hx =>
      rw [not_or, not_not] at hx
      have hl : i.state.isLive = true := by
        rw [hx.2]
        rfl
      have hc : Consistent { e with queue := q } (· = x) := h.pop_execute hq hi hl
      have hlx : Executor.isLive { e with queue := q } x = true := isLive_iff.mpr ⟨i, hi, hl⟩
      have hs := sameCore_trackState (e := { e with queue := q }) x .executing
      have hf : Follows { e with queue := q } (· = x) (trackState { e with queue := q } x .executing) :=
        .of_sameCore hc hs
      have tracked : Passage Nobody Nobody e [] (trackState { e with queue := q } x .executing) :=
        taken.trans (.of_sameCore hs (journal_trackState x .executing))
      have hb' : (trackState { e with queue := q } x .executing).behaviour? x = some b := by
        rw [behaviour?, instance?, hs.instances, hs.definition]
        exact hb
      dsimp only
      obtain ⟨c, hstart, ⟨e', he, hf', hp⟩ | ⟨e', he, hcourse⟩⟩ :=
        hf.consistent.runBody (hf.extension.isLive hlx) hb'
      · rw [he]
        obtain ⟨j, hj, hjs, -, -, -⟩ := (hf.trans hf').extension.keeps hi
        refine .called hi (Instance.accepts_start hstart hx.2 (by simpa using hx.1)) ?_
        exact hf'.consistent.ran hj (hjs ▸ hl) hstart (tracked.trans hp)
      · rw [he]
        refine .called hi (Instance.accepts_start hstart hx.2 (by simpa using hx.1)) ?_
        exact hcourse.after tracked
  · next hn =>
    refine .skip (.inl (h.pop_skipped hq fun j hj => ?_)) taken
    exact (hn j _ hj (by rw [behaviour?, instance?]; dsimp only; rw [hj]; rfl)).elim

end Workflow.Executor
