import Workflow.Proofs.Demolition
import Workflow.Proofs.Standing

/-!
# The end of an instance, as it is reported

An instance ends when it completes, when it faults, and when the fault of another one takes it away.
Each time its end is reported, and it is reported before the instance is gone. Nothing else is reported
of it then, and nothing of others that could be mistaken for it.
-/

namespace Workflow.Executor

variable {e e' m : Executor} {k x : InstanceId} {n : Nat} {p : Phase}
variable {running running' : Prop} {i : Instance} {s : ActivityState}

/-- The state of an instance that is there is reported. -/
theorem tells_trackState (hi : e.instances[k]? = some i) (s : ActivityState) :
    ∃ a : ActivityInfo, a.id = k ∧ e.Tells [.stateChanged a s] (e.trackState k s) := by
  obtain ⟨a, ha⟩ := exists_info hi
  refine ⟨a, id_of_info ha, ?_⟩
  rw [trackState, ha]
  exact e.tells_track _

/-- Nothing is reported of an instance that is not there. -/
theorem trackState_absent (hk : e.instances[k]? = none) (s : ActivityState) :
    e.trackState k s = e := by
  unfold trackState info?
  rw [instance?, hk]
  rfl

/-- Silence before a report. -/
theorem Mum.tells {xs : List TrackingEvent} (h : Mum e m) (ht : m.Tells xs e') : e.Tells xs e' := by
  have silent : e.Tells [] m := ⟨h.workflow, h.tracking⟩
  exact silent.trans ht

namespace Recounts

/-- The end of an instance that has not ended is reported, and it has ended or is gone. -/
theorem ends (h : Recounts n k running e p) (hi : e.instances[k]? = some i)
    (ht : i.state.isTerminal = false) {a : ActivityInfo} (ha : a.id = k)
    (hs : s.isTerminal = true) (tells : e.Tells [.stateChanged a s] e') (hr : e'.root = e.root)
    (hn : e'.nextInstance = e.nextInstance)
    (gone : ∀ j, e'.instances[k]? = some j → j.state = s) :
    Recounts n k running' e' (.dead s) := by
  obtain ⟨goesOn, old⟩ := h.goesOn hi ht
  have left : Standing k running' e' (.dead s) := by
    refine .dead (hn ▸ old) fun j hj => ?_
    have state := gone j hj
    exact ⟨state ▸ hs, state⟩
  refine h.tells tells hr left fun hb => ?_
  simpa [TrackingEvent.concerns, ha] using hb.ended goesOn ha hs

/-- An instance whose end was reported leaves. -/
theorem leaves (h : Recounts n k running e p) (hi : e.instances[k]? = some i)
    (ht : i.state.isTerminal = true) :
    Recounts n k running { e with instances := e.instances.erase k } p := by
  have gone : (e.instances.erase k)[k]? = none := by rw [Table.lookup_erase, if_pos rfl]
  have left : Standing k running { e with instances := e.instances.erase k } p := by
    cases h.stands with
    | unborn _ ha => exact absurd (ha.symm.trans hi) (Option.some_ne_none i).symm
    | dormant _ hj hn | awake _ hj hn =>
      cases hi.symm.trans hj
      rw [ht] at hn
      cases hn
    | dead hn _ => exact .dead hn fun j hj => absurd (gone.symm.trans hj) (Option.some_ne_none j).symm
  have silent : e.Tells [] { e with instances := e.instances.erase k } := ⟨rfl, rfl⟩
  refine h.tells silent rfl left fun hb => ?_
  rwa [List.filter_nil, List.append_nil]

end Recounts

/-- A participant has been told of an instance what fits where it stands, whatever that is. -/
def Recounted (n : Nat) (k : InstanceId) (running : Prop) (e : Executor) : Prop :=
  ∃ p, Recounts n k running e p

namespace Recounted

theorem ignores (h : Recounted n k running e) (hi : Ignores k e e') :
    Recounted n k running e' := by
  obtain ⟨p, h⟩ := h
  exact ⟨p, h.ignores hi⟩

theorem foldl {α : Type} {g : Executor → α → Executor}
    (hg : ∀ e a, Recounted n k running e → Recounted n k running (g e a)) (l : List α)
    (h : Recounted n k running e) : Recounted n k running (l.foldl g e) := by
  induction l generalizing e with
  | nil => exact h
  | cons a l ih => exact ih (hg e a h)

/-- If another instance leaves it does not matter, and if the instance itself leaves it had ended. -/
theorem erase (h : Recounted n k running e)
    (hx : ∀ i, e.instances[x]? = some i → i.state.isTerminal = true) :
    Recounted n k running { e with instances := e.instances.erase x } := by
  by_cases hk : x = k
  · subst hk
    obtain ⟨p, h⟩ := h
    cases hi : e.instances[x]? with
    | some i => exact ⟨p, h.leaves hi (hx i hi)⟩
    | none =>
      have same : e.instances.erase x = e.instances := by
        refine Std.ExtTreeMap.ext_getElem? fun a => ?_
        rw [Table.lookup_erase]
        split
        · next ha => rw [← ha, hi]
        · rfl
      rw [same]
      exact ⟨p, h⟩
  · exact h.ignores (.erase hk)

/-- The end of an instance is reported after it was noted, and nobody was told of it before. -/
theorem reported {j : Instance} (h : Recounted n k running e) (hi : e.instances[x]? = some i)
    (ht : i.state.isTerminal = false) (silent : Mum e m) (hr : m.root = e.root)
    (hn : m.nextInstance = e.nextInstance) (hj : m.instances[x]? = some j)
    (hs : j.state.isTerminal = true) (others : x ≠ k → Ignores k e m) :
    Recounted n k running (m.trackState x j.state) := by
  by_cases hk : x = k
  · subst hk
    obtain ⟨p, h⟩ := h
    obtain ⟨a, ha, tells⟩ := tells_trackState hj j.state
    have core := sameCore_trackState (e := m) x j.state
    refine ⟨_, h.ends hi ht ha hs (silent.tells tells) (core.root.trans hr)
      (core.nextInstance.trans hn) fun l hl => ?_⟩
    rw [core.instances, hj] at hl
    cases hl
    rfl
  · exact h.ignores ((others hk).trans (.trackState hk _))

/-! ### Tearing down -/

/-- The removal of one instance. -/
theorem abortInstance (h : Recounted n k running e) (reason : Fault) (x : InstanceId) :
    Recounted n k running (e.abortInstance reason x) := by
  unfold Executor.abortInstance
  split
  · exact h
  · next i hi =>
    have hi : e.instances[x]? = some i := hi
    dsimp only
    cases ht : i.state.isTerminal with
    | true =>
      rw [if_pos rfl]
      refine h.erase fun j hj => ?_
      cases hi.symm.trans hj
      exact ht
    | false =>
      rw [if_neg Bool.false_ne_true]
      have core := sameCore_callAbortHook (e := e.releaseResources x) x reason
      have silent : Mum e ((e.releaseResources x).callAbortHook x reason) := by
        have released : Mum e (e.releaseResources x) := ⟨rfl, rfl, rfl, rfl, .inl rfl⟩
        exact released.trans (.callAbortHook _ x reason)
      by_cases hk : x = k
      · subst hk
        obtain ⟨p, h⟩ := h
        have there : ((e.releaseResources x).callAbortHook x reason).instances[x]? = some i := by
          rw [core.instances]
          exact hi
        obtain ⟨a, ha, tells⟩ := tells_trackState there .faulted
        have same := core.trans (sameCore_trackState x .faulted)
        refine ⟨_, h.ends hi ht ha rfl (s := .faulted) ?_ same.root same.nextInstance fun j hj => ?_⟩
        · obtain ⟨workflow, tracking⟩ := silent.tells tells
          exact ⟨workflow, tracking⟩
        · dsimp only at hj
          rw [Table.lookup_erase, if_pos rfl] at hj
          exact absurd hj (Option.some_ne_none j).symm
      · have aside : Ignores k e ((e.releaseResources x).callAbortHook x reason) :=
          Ignores.releaseResources.trans (.callAbortHook reason)
        exact h.ignores ((aside.trans (.trackState hk _)).trans (.erase hk))

/-- The fault of an instance, and the end of all that is below it. -/
theorem markFaulted (h : Recounted n k running e) (f : Fault) (hi : e.instances[x]? = some i)
    (ht : i.state.isTerminal = false) : Recounted n k running (e.markFaulted x f) := by
  unfold Executor.markFaulted
  dsimp only
  have struck : Ignores k e (e.modify x fun i => { i with state := .faulting, children := [] }) := by
    refine .modify fun _ j hj => ?_
    cases hi.symm.trans hj
    exact ⟨rfl, id, ht.symm, fun hn => absurd (ht.symm.trans hn) Bool.false_ne_true⟩
  have torn := (h.ignores struck).foldl
    (fun _ y h => h.abortInstance f y) (e.descendants x)
  have faulting : ∀ j, ((e.descendants x).foldl (fun e y => e.abortInstance f y)
      (e.modify x fun i => { i with state := .faulting, children := [] })).instances[x]? = some j →
      j.state = .faulting := by
    intro j hj
    rw [lookup_abortAll] at hj
    split at hj
    · exact absurd hj.symm (Option.some_ne_none j)
    · obtain ⟨o, -, ⟨-, rfl⟩ | ⟨hx, -⟩⟩ := lookup_modify_cases hj
      · rfl
      · exact absurd rfl hx
  generalize List.foldl _ _ (e.descendants x) = m at torn faulting ⊢
  have released := torn.ignores (Ignores.releaseResources (x := x))
  have faulting : ∀ j, (m.releaseResources x).instances[x]? = some j → j.state = .faulting := faulting
  generalize Executor.releaseResources m x = m at released faulting ⊢
  cases hj : m.instances[x]? with
  | none =>
    have absent : (m.modify x fun i =>
        { i with state := .faulted, busy := 0, fault := some f }).instances[x]? = none := by
      rw [lookup_modify, if_pos rfl, hj]
      rfl
    rw [trackState_absent absent]
    refine released.ignores (.modify fun _ j hj' => ?_)
    exact absurd (hj.symm.trans hj') (Option.some_ne_none j).symm
  | some j =>
    -- It is still there and has not ended, so that its end is reported now.
    have unended : j.state.isTerminal = false := by
      rw [faulting j hj]
      rfl
    have there : (m.modify x fun i =>
        { i with state := .faulted, busy := 0, fault := some f }).instances[x]? =
          some { j with state := .faulted, busy := 0, fault := some f } :=
      lookup_modify_self hj
    exact released.reported hj unended (.modify m x _) rfl rfl there rfl fun hk =>
      .modify fun hx => absurd hx hk

/-- A fault that goes up. -/
theorem propagate (fuel : Nat) (x : InstanceId) (f : Fault) (h : Recounted n k running e) :
    Recounted n k running (propagate fuel x f e) := by
  induction fuel generalizing x e with
  | zero => exact h
  | succ fuel ih =>
    unfold Executor.propagate
    split
    · exact h
    · next i hi =>
      split
      · exact h
      · next ht =>
        have faulted := h.markFaulted f hi (Bool.eq_false_iff.mpr ht)
        dsimp only
        split
        · exact faulted.ignores ((Ignores.trackFault f none).trans .finishWorkflow)
        · exact faulted.ignores ((Ignores.trackFault f _).trans (.enqueue _))
        · exact ih _ faulted

theorem faultInstance (h : Recounted n k running e) (x : InstanceId) (f : Fault) :
    Recounted n k running (e.faultInstance x f) :=
  h.propagate _ x f

theorem raise (h : Recounted n k running e) (x : InstanceId) (error : ActivityError) :
    Recounted n k running (e.raise x error) := by
  unfold Executor.raise
  split
  · exact h
  · exact h.faultInstance x _

/-! ### Completing -/

/-- An instance completes; before that nothing has happened to others, and nothing was reported. -/
theorem completes (h : Recounted n k running e) (hi : e.instances[x]? = some i)
    (ht : i.state.isTerminal = false) (hm : Mum e m) (hr : m.root = e.root)
    (hn : m.nextInstance = e.nextInstance) (others : ∀ y, y ≠ x → m.instances[y]? = e.instances[y]?)
    (there : ∃ j, m.instances[x]? = some j) : Recounted n k running (m.completeInstance x) := by
  obtain ⟨j, hj⟩ := there
  have done : ∃ s : ActivityState, s.isTerminal = true ∧ Ignores k (m.ended x s)
      (m.completeInstance x) := by
    refine ⟨if j.markedCanceled then .canceled else .closed, by split <;> rfl, ?_⟩
    cases hp : j.parent with
    | some p =>
      rw [completeInstance_below hj hp]
      exact .enqueue _
    | none =>
      rw [completeInstance_root hj hp]
      exact .finishWorkflow
  obtain ⟨s, hs, aside⟩ := done
  refine Recounted.ignores ?_ aside
  have marked : Mum m { m.modify x fun i => { i with state := s } with
      bookmarks := (m.bookmarks.removeOwned x).removeScopes x } := ⟨rfl, rfl, rfl, rfl, .inl rfl⟩
  have state : ({ m.modify x fun i => { i with state := s } with
      bookmarks := (m.bookmarks.removeOwned x).removeScopes x } : Executor).instances[x]? =
        some { j with state := s } :=
    lookup_modify_self hj
  refine h.reported hi ht (hm.trans marked) hr hn state hs fun hk => ?_
  have before : Ignores k e m := by
    refine .of_mum hm hr hn ?_
    rw [others k (Ne.symm hk)]
    exact Ignores.rel_refl _
  have changed : Ignores k m { m.modify x fun i => { i with state := s } with
      bookmarks := (m.bookmarks.removeOwned x).removeScopes x } :=
    .of_modified marked rfl rfl rfl fun hx => absurd hx hk
  exact before.trans changed

theorem tryComplete (h : Recounted n k running e) (x : InstanceId) :
    Recounted n k running (e.tryComplete x) := by
  unfold Executor.tryComplete
  split
  · next hc =>
    rw [Option.any_eq_true] at hc
    obtain ⟨i, hi, hc⟩ := hc
    have ht : i.state.isTerminal = false := by
      unfold Instance.canComplete at hc
      simpa using (Bool.and_eq_true_iff.mp hc).2
    exact h.completes hi ht (.refl e) rfl rfl (fun _ _ => rfl) ⟨i, hi⟩
  · exact h

end Recounted

end Workflow.Executor
