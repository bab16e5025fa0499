import Workflow.Proofs.Dispatch
import Workflow.Proofs.Locating

/-!
# Locations that are left alone

Most of what the engine does touches no location. Instances may leave then, but not from below a
parent that goes on: such a child leaves only when its parent observes it.
-/

namespace Workflow

/-- An instance stands below the same parent, runs the same node and owns the same values. -/
structure Instance.SameLocations (i j : Instance) : Prop where
  parent : i.parent = j.parent := by rfl
  node : i.node = j.node := by rfl
  environment : i.environment = j.environment := by rfl

namespace Executor

variable {e e' e'' : Executor} {X : InstanceId → Prop} {x k : InstanceId} {i : Instance}
variable {g : Instance → Instance}

/-- Who is there was there, with the same locations. -/
structure Retains (e e' : Executor) : Prop where
  definition : e'.definition = e.definition
  nextInstance : e'.nextInstance = e.nextInstance
  back : ∀ {k : InstanceId} {i : Instance}, e'.instances[k]? = some i →
    ∃ j, e.instances[k]? = some j ∧ i.SameLocations j

namespace Retains

theorem of_instances (hd : e'.definition = e.definition) (hn : e'.nextInstance = e.nextInstance)
    (hi : e'.instances = e.instances) : Retains e e' :=
  ⟨hd, hn, fun hk => ⟨_, hi ▸ hk, ⟨rfl, rfl, rfl⟩⟩⟩

theorem of_sameCore (h : SameCore e e') : Retains e e' :=
  .of_instances h.definition h.nextInstance h.instances

theorem refl (e : Executor) : Retains e e :=
  .of_sameCore (.refl e)

theorem trans (h : Retains e e') (h' : Retains e' e'') : Retains e e'' := by
  refine ⟨h'.definition.trans h.definition, h'.nextInstance.trans h.nextInstance, fun hk => ?_⟩
  obtain ⟨j, hj, hij⟩ := h'.back hk
  obtain ⟨l, hl, hjl⟩ := h.back hj
  exact ⟨l, hl, hij.parent.trans hjl.parent, hij.node.trans hjl.node,
    hij.environment.trans hjl.environment⟩

theorem of_modified (hd : e'.definition = e.definition) (hn : e'.nextInstance = e.nextInstance)
    (hi : e'.instances = e.instances.modify x g) (hg : ∀ i, (g i).SameLocations i) :
    Retains e e' := by
  refine ⟨hd, hn, fun {k i} hk => ?_⟩
  rw [hi] at hk
  obtain ⟨j, hj, ⟨-, rfl⟩ | ⟨-, rfl⟩⟩ := lookup_modify_cases (e := e) hk
  · exact ⟨j, hj, hg j⟩
  · exact ⟨i, hj, ⟨rfl, rfl, rfl⟩⟩

theorem modify (hg : ∀ i, (g i).SameLocations i) : Retains e (e.modify x g) :=
  .of_modified rfl rfl rfl hg

theorem release (n : Nat) (hd : e'.definition = e.definition)
    (hn : e'.nextInstance = e.nextInstance) (hi : e'.instances = e.instances) :
    Retains e (e'.release x n) := by
  refine .of_modified (x := x) (g := fun i => { i with busy := i.busy - n }) hd hn ?_
    fun _ => ⟨rfl, rfl, rfl⟩
  rw [← hi]
  rfl

theorem erase (x : InstanceId) : Retains e { e with instances := e.instances.erase x } := by
  refine ⟨rfl, rfl, fun {k i} hk => ?_⟩
  rw [Table.lookup_erase] at hk
  split at hk
  · exact absurd hk.symm (Option.some_ne_none i)
  · exact ⟨i, hk, ⟨rfl, rfl, rfl⟩⟩

theorem foldl {α : Type} {f : Executor → α → Executor} (hf : ∀ e a, Retains e (f e a)) (l : List α) :
    Retains e (l.foldl f e) := by
  induction l generalizing e with
  | nil => exact .refl e
  | cons a rest ih => exact (hf e a).trans ih

/-! ### Faults -/

theorem abortInstance (reason : Fault) : Retains e (e.abortInstance reason x) := by
  unfold Executor.abortInstance
  split
  · exact .refl e
  · dsimp only
    split
    · exact .erase x
    · have hooked := sameCore_callAbortHook (e := e.releaseResources x) x reason
      have tracked := sameCore_trackState (e := (e.releaseResources x).callAbortHook x reason) x
        .faulted
      have released : Retains e (e.releaseResources x) := .of_instances rfl rfl rfl
      exact (released.trans (.of_sameCore (hooked.trans tracked))).trans (.erase x)

theorem markFaulted (f : Fault) : Retains e (e.markFaulted x f) := by
  unfold Executor.markFaulted
  have marked : Retains e (e.modify x fun i => { i with state := .faulting, children := [] }) :=
    .modify fun _ => ⟨rfl, rfl, rfl⟩
  have torn := marked.trans (foldl (fun e k => abortInstance (e := e) (x := k) f) (e.descendants x))
  have released := torn.trans (show Retains _ (releaseResources _ x) from .of_instances rfl rfl rfl)
  have struck := released.trans (modify (x := x)
    (g := fun i => { i with state := .faulted, busy := 0, fault := some f }) fun _ => ⟨rfl, rfl, rfl⟩)
  exact struck.trans (.of_sameCore (sameCore_trackState x .faulted))

theorem finishWorkflow : Retains e e.finishWorkflow := by
  obtain ⟨instances, -, definition, next, -⟩ := finishWorkflow_keeps (e := e)
  exact .of_instances definition next instances

theorem propagate (n : Nat) (f : Fault) : Retains e (propagate n x f e) := by
  induction n generalizing e x with
  | zero => exact .refl e
  | succ n ih =>
    unfold Executor.propagate
    split
    · exact .refl e
    · split
      · exact .refl e
      · have struck : Retains e (e.markFaulted x f) := .markFaulted f
        generalize e.markFaulted x f = m at struck
        dsimp only
        split
        · exact (struck.trans (.of_sameCore (sameCore_trackFault f none))).trans .finishWorkflow
        · exact struck.trans (.of_instances rfl rfl rfl)
        · exact struck.trans ih

theorem raise (error : ActivityError) : Retains e (e.raise x error) := by
  unfold Executor.raise
  split
  · exact .refl e
  · exact .propagate _ _

/-! ### Completion -/

theorem completeInstance : Retains e (e.completeInstance x) := by
  unfold Executor.completeInstance
  split
  · exact .refl e
  · next i _ =>
    dsimp only
    generalize (if i.markedCanceled then ActivityState.canceled else .closed) = s
    have ended : Retains e (e.ended x s) := by
      have completed : Retains e { e.modify x fun i => { i with state := s } with
          bookmarks := (e.bookmarks.removeOwned x).removeScopes x } :=
        .of_modified rfl rfl rfl fun _ => ⟨rfl, rfl, rfl⟩
      exact completed.trans (.of_sameCore (sameCore_trackState x s))
    split
    · exact ended.trans (.of_instances rfl rfl rfl)
    · exact ended.trans .finishWorkflow

end Retains

/-- No location is touched, and no child leaves a parent that goes on. -/
structure Keeps (e e' : Executor) : Prop extends Retains e e' where
  /-- A child stays, unless its parent has left or faulted. -/
  stays : ∀ {k p : InstanceId} {j : Instance}, e.instances[k]? = some j → j.parent = some p →
    (∃ i, e'.instances[k]? = some i) ∨ ∀ r, e'.instances[p]? = some r → r.state = .faulted

namespace Keeps

/-- Nobody leaves. -/
theorem of_present (h : Retains e e')
    (present : ∀ {k : InstanceId} {j : Instance}, e.instances[k]? = some j →
      ∃ i, e'.instances[k]? = some i) : Keeps e e' :=
  ⟨h, fun hk _ => .inl (present hk)⟩

theorem of_instances (hd : e'.definition = e.definition) (hn : e'.nextInstance = e.nextInstance)
    (hi : e'.instances = e.instances) : Keeps e e' :=
  .of_present (.of_instances hd hn hi) fun hk => ⟨_, hi ▸ hk⟩

theorem of_sameCore (h : SameCore e e') : Keeps e e' :=
  .of_instances h.definition h.nextInstance h.instances

theorem refl (e : Executor) : Keeps e e :=
  .of_sameCore (.refl e)

theorem of_modified (hd : e'.definition = e.definition) (hn : e'.nextInstance = e.nextInstance)
    (hi : e'.instances = e.instances.modify x g) (hg : ∀ i, (g i).SameLocations i) : Keeps e e' := by
  refine .of_present (.of_modified hd hn hi hg) fun {k j} hk => ?_
  rw [hi, Table.lookup_modify, hk]
  split
  · exact ⟨g j, rfl⟩
  · exact ⟨j, rfl⟩

theorem modify (hg : ∀ i, (g i).SameLocations i) : Keeps e (e.modify x g) :=
  .of_modified rfl rfl rfl hg

/-- Who leaves a tree without having been observed is below someone who has left or faulted. -/
theorem of_passage {S : InstanceId → Prop} {cs : List Call} (h : Retains e e')
    (ht : IsTree e.definition e.root e.nextInstance e.instances)
    (hp : Passage S Nobody e cs e') : Keeps e e' := by
  refine ⟨h, fun hk hkp => ?_⟩
  obtain ⟨q, hq, -⟩ := ht.listed hk hkp
  exact (hp.fate hk hkp (ht.below hk) (ht.below hq)).resolve_left id

theorem completeInstance : Keeps e (e.completeInstance x) := by
  refine .of_present .completeInstance fun {k j} hk => ?_
  cases hx : e.instances[x]? with
  | none =>
    unfold Executor.completeInstance
    rw [instance?, hx]
    exact ⟨j, hk⟩
  | some i =>
    rw [(completeInstance_eq hx rfl).1, Table.lookup_modify, hk]
    split
    · exact ⟨_, rfl⟩
    · exact ⟨j, rfl⟩

theorem tryComplete : Keeps e (e.tryComplete x) := by
  unfold Executor.tryComplete
  split
  · exact .completeInstance
  · exact .refl e

theorem recordResult (result : Option Value) : Keeps e (e.recordResult x result) := by
  cases result with
  | none => exact .refl e
  | some v => exact .modify fun _ => ⟨rfl, rfl, rfl⟩

theorem release (n : Nat) (hd : e'.definition = e.definition)
    (hn : e'.nextInstance = e.nextInstance) (hi : e'.instances = e.instances) :
    Keeps e (e'.release x n) := by
  refine .of_modified (x := x) (g := fun i => { i with busy := i.busy - n }) hd hn ?_
    fun _ => ⟨rfl, rfl, rfl⟩
  rw [← hi]
  rfl

/-- The fault of a live instance. -/
theorem falls {fault : Fault} (h : Retains e e')
    (ht : IsTree e.definition e.root e.nextInstance e.instances) (hf : Falls fault e x e') :
    Keeps e e' := by
  obtain ⟨hooks, ha⟩ := hf.aftermath
  exact .of_passage h ht ha.passage

end Keeps

end Executor

end Workflow
