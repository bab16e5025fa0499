import Workflow.Proofs.History
import Workflow.Proofs.Waiting

/-!
# The integrity of the tree

While a workflow has not been aborted, its instances are exactly those that are found from the root by
going from children to children. So a workflow that may be captured is captured. Identifiers are not
given out again, however often the workflow is saved and restored.
-/

namespace Workflow.Executor

variable {e : Executor} {k : InstanceId} {i : Instance} {now : Timestamp} {err : PersistenceError}

/-- The instances that are found from the root by going from children to children. -/
inductive Found (e : Executor) : InstanceId → Prop
  | root : Found e e.root
  | child {p c : InstanceId} {q : Instance} (h : Found e p) (hp : e.instances[p]? = some q)
      (hc : c ∈ q.children) : Found e c

/-- The instances make up one tree below the root. -/
structure Intact (e : Executor) : Prop where
  /-- Those are there that are found from the root. -/
  found : ∀ k : InstanceId, (∃ i, e.instances[k]? = some i) ↔ e.Found k
  /-- An instance has those as children that have it as their parent. -/
  inverse : ∀ {p c : InstanceId} {q : Instance}, e.instances[p]? = some q →
    (c ∈ q.children ↔ ∃ i, e.instances[c]? = some i ∧ i.parent = some p)
  /-- A parent is there. -/
  attached : ∀ {k p : InstanceId} {i : Instance}, e.instances[k]? = some i → i.parent = some p →
    ∃ q, e.instances[p]? = some q
  /-- An instance has a child once. -/
  nodup : ∀ {k : InstanceId} {i : Instance}, e.instances[k]? = some i → i.children.Nodup
  /-- The root has no parent, and no other instance has none. -/
  top : ∀ {k : InstanceId} {i : Instance}, e.instances[k]? = some i → (i.parent = none ↔ k = e.root)
  /-- An instance runs a declared child of its parent's activity. -/
  declared : ∀ {k p : InstanceId} {i q : Instance}, e.instances[k]? = some i → i.parent = some p →
    e.instances[p]? = some q → e.definition.isDeclaredChild q.node i.node = true
  /-- A parent has a smaller identifier. -/
  older : ∀ {k p : InstanceId} {i : Instance}, e.instances[k]? = some i → i.parent = some p →
    p.number < k.number
  /-- Identifiers are smaller than the next one. -/
  below : ∀ {k : InstanceId} {i : Instance}, e.instances[k]? = some i → k.number < e.nextInstance

section Tree

variable (ht : IsTree e.definition e.root e.nextInstance e.instances)
include ht

/-- Everything that is there is found from the root. -/
theorem found_of_lookup (hi : e.instances[k]? = some i) : e.Found k := by
  induction hn : k.number using Nat.strongRecOn generalizing k i with
  | _ n ih =>
    cases hp : i.parent with
    | none => exact ht.orphan hi hp ▸ .root
    | some p =>
      obtain ⟨q, hq, hc⟩ := ht.listed hi hp
      exact .child (ih p.number (hn ▸ ht.older hi hp) hq rfl) hq hc

/-- A tree is intact. -/
theorem intact_of_tree : e.Intact where
  found k := by
    refine ⟨fun ⟨i, hi⟩ => found_of_lookup ht hi, fun hk => ?_⟩
    cases hk with
    | root =>
      obtain ⟨r, hr, -⟩ := ht.rooted
      exact ⟨r, hr⟩
    | child _ hp hc =>
      obtain ⟨i, hi, -⟩ := ht.linked hp hc
      exact ⟨i, hi⟩
  inverse {p c q} hq := by
    refine ⟨ht.linked hq, fun ⟨i, hi, hp⟩ => ?_⟩
    obtain ⟨q', hq', hc⟩ := ht.listed hi hp
    cases hq.symm.trans hq'
    exact hc
  attached hi hp := by
    obtain ⟨q, hq, -⟩ := ht.listed hi hp
    exact ⟨q, hq⟩
  nodup hi := (ht.sound hi).nodup
  top {k i} hi := by
    refine ⟨ht.orphan hi, ?_⟩
    rintro rfl
    obtain ⟨r, hr, hp, -⟩ := ht.rooted
    cases hi.symm.trans hr
    exact hp
  declared := ht.declared
  older := ht.older
  below := ht.below

/-- A workflow that may be captured is captured. -/
theorem capture_ok (hok : e.ensureCapturable = .ok ()) : ∃ s, e.capture now = .ok s := by
  obtain ⟨r, hr, -⟩ := ht.rooted
  obtain ⟨l, hl⟩ := exists_listDown ht.forest (n := e.instances.size + 1) hr
    (Nat.le_succ_of_le (InstanceTable.countFrom_le _ _ _))
  have hn : l.length = e.instances.size := by
    rw [← Table.length_keys, ← (perm_listDown ht hl).length_eq, List.length_map]
  unfold capture
  rw [hok, hl]
  simp only [bind, Except.bind, ne_eq, hn, not_true_eq_false, if_false]
  exact ⟨_, rfl⟩

end Tree

/-- A workflow that has settled may be captured while nothing is queued and no operation is
outstanding. -/
theorem ensureCapturable_ok (ha : e.state ≠ .aborted) (hr : e.state ≠ .runnable)
    (hw : e.queue.work = []) (ho : e.operations.size = 0) : e.ensureCapturable = .ok () := by
  have empty : e.queue.isEmpty = true := WorkQueue.isEmpty_iff.mpr hw
  rw [ensureCapturable, if_neg ha, empty, if_neg hr, ho]
  rfl

/-- A workflow may not be captured while something is to be done or an operation is outstanding. -/
theorem of_ensureCapturable_error (h : e.ensureCapturable = .error err) :
    (∃ text, err = .notIdle text) ∨ ∃ n, err = .operationsOutstanding n := by
  unfold ensureCapturable at h
  split at h
  · cases h
    exact .inl ⟨_, rfl⟩
  · split at h
    · cases h
      exact .inl ⟨_, rfl⟩
    · split at h
      · cases h
        exact .inl ⟨_, rfl⟩
      · split at h
        · cases h
          exact .inr ⟨_, rfl⟩
        · cases h

/-- A capture fails only where it is refused. -/
theorem Regular.refused_of_capture_error (h : e.Regular) (hc : e.capture now = .error err) :
    e.ensureCapturable = .error err := by
  cases hok : e.ensureCapturable with
  | error err' =>
    rw [capture, hok] at hc
    exact congrArg Except.error (Except.error.inj hc)
  | ok =>
    have ha : e.state ≠ .aborted := by
      intro ha
      rw [ensureCapturable, if_pos ha] at hok
      cases hok
    obtain ⟨s, hs⟩ : ∃ s, e.capture now = .ok s := capture_ok (h.tree ha) hok
    rw [hs] at hc
    cases hc

/-- Between two items of work the instances of a workflow that was not aborted make up one tree below
the root. In whatever turns follow, identifiers are given out in order and none is given out again. A
capture fails only where it is refused, because something is to be done or an operation is outstanding;
it never misses an instance. -/
theorem Reachable.intact (h : e.Reachable) :
    (e.state ≠ .aborted → e.Intact) ∧
    (∀ (ds : List Deed) (e' : Executor), Leads e ds e' → Lasts e e' ∧
      ∀ k : InstanceId, k.number < e.nextInstance → e.instances[k]? = none →
        e'.instances[k]? = none) ∧
    ∀ (now : Timestamp) (err : PersistenceError), e.capture now = .error err →
      e.ensureCapturable = .error err ∧
        ((∃ text, err = .notIdle text) ∨ ∃ n, err = .operationsOutstanding n) := by
  refine ⟨fun ha => intact_of_tree (h.regular.tree ha), fun ds e' hl => ?_, fun now err hc => ?_⟩
  · have lasts := hl.lasts h.regular
    exact ⟨lasts, fun k hn hk => lasts.gone hn hk⟩
  · have refused := h.regular.refused_of_capture_error hc
    exact ⟨refused, of_ensureCapturable_error refused⟩

/-- The two after the host has asked them to cancel and has run them again. -/
def canceledPart : Executor :=
  ((ExecutorCall.run 5).serve (ExecutorCall.cancel.serve partedPair).2).2

/-- What is left of the two is a tree that can be captured, and the first never comes back. -/
theorem intact_parted : partedPair.Intact ∧ (∃ s, partedPair.capture ⟨0, 0⟩ = .ok s) ∧
    Lasts partedPair canceledPart ∧ partedPair.instances[(⟨2⟩ : InstanceId)]? = none ∧
    canceledPart.instances[(⟨2⟩ : InstanceId)]? = none := by
  have h : partedPair.Reachable :=
    ((reachable_waitingPair.served (.resumeBookmark ⟨.default, "go"⟩ .null .low)).served
      .runOneStep).served .runOneStep
  have hs : partedPair.state = .idle := by decide +kernel
  have gone : partedPair.instances[(⟨2⟩ : InstanceId)]? = none :=
    Option.isNone_iff_eq_none.mp (by decide +kernel)
  have old : (⟨2⟩ : InstanceId).number < partedPair.nextInstance := by decide +kernel
  obtain ⟨ds, hds⟩ : ∃ ds, Leads partedPair ds canceledPart := by
    obtain ⟨ds, hds⟩ := h.regular.leads_serve .cancel
    obtain ⟨ds', hds'⟩ := (hds.regular h.regular).leads_serve (.run 5)
    exact ⟨_, hds.trans hds'⟩
  have idle : partedPair.state ≠ .aborted := by
    rw [hs]
    exact WorkflowState.noConfusion
  refine ⟨h.intact.1 idle, ?_, (h.intact.2.1 ds _ hds).1, gone, (h.intact.2.1 ds _ hds).2 _ old gone⟩
  cases hc : partedPair.capture ⟨0, 0⟩ with
  | ok s => exact ⟨s, rfl⟩
  | error err =>
    have refused := (h.intact.2.2 _ err hc).1
    have accepted : partedPair.ensureCapturable.toOption.isSome = true := by decide +kernel
    rw [refused] at accepted
    exact absurd accepted Bool.false_ne_true

end Workflow.Executor
