import Workflow.Proofs.Completion
import Workflow.Proofs.Descent

/-!
# Faults

A fault ends an instance and takes away what is below it. It travels up, ending one instance after
another, until it reaches a handler, who is told, or the root, whose end is the end of the workflow.
-/

namespace Workflow.Executor

variable {e e' e'' : Executor} {X : InstanceId → Prop} {x k : InstanceId} {i : Instance}
variable {gone left : List InstanceId}

/-- Bookmarks, scopes and operations belong to instances that are there and have not completed. -/
structure Attended (e : Executor) : Prop where
  bookmark : ∀ {b : Bookmark} {g : Registration}, e.bookmarks.registrations[b]? = some g →
    ∃ i, e.instances[g.owner]? = some i ∧ i.state.isTerminal = false
  scope : ∀ {s : Uuid} {o : InstanceId}, e.bookmarks.scopes[s]? = some o →
    ∃ i, e.instances[o]? = some i ∧ i.state.isTerminal = false
  operation : ∀ {o : OperationId} {k : InstanceId}, e.operations[o]? = some k →
    ∃ i, e.instances[k]? = some i ∧ i.state.isTerminal = false

/-- An executor goes on from another by the removal of instances with all that they own. -/
structure Torn (e e' : Executor) (gone : List InstanceId) : Prop where
  definition : e'.definition = e.definition
  root : e'.root = e.root
  nextInstance : e'.nextInstance = e.nextInstance
  nextOperation : e'.nextOperation = e.nextOperation
  queue : e'.queue = e.queue
  state : e'.state = e.state
  outcome : e'.outcome = e.outcome
  isOverdrawn : e'.isOverdrawn = e.isOverdrawn
  lookup : ∀ k : InstanceId, e'.instances[k]? = if k ∈ gone then none else e.instances[k]?
  registrations : ∀ b : Bookmark, e'.bookmarks.registrations[b]? =
    (e.bookmarks.registrations[b]?).filter fun g => !decide (g.owner ∈ gone)
  scopes : ∀ s : Uuid, e'.bookmarks.scopes[s]? =
    (e.bookmarks.scopes[s]?).filter fun o => !decide (o ∈ gone)
  operations : ∀ o : OperationId, e'.operations[o]? =
    (e.operations[o]?).filter fun k => !decide (k ∈ gone)

/-- A filter that every value passes does nothing. -/
theorem filter_eq_self {α : Type} {o : Option α} {p : α → Bool} (h : ∀ a, o = some a → p a = true) :
    o.filter p = o := by
  cases o with
  | none => rfl
  | some a => rw [Option.filter_some, h a rfl]; rfl

/-- One filter after another. -/
theorem filter_filter_mem {α : Type} (o : Option α) (f : α → InstanceId) :
    (o.filter fun a => !decide (f a ∈ gone)).filter (fun a => !decide (f a ∈ left)) =
      o.filter fun a => !decide (f a ∈ gone ++ left) := by
  cases o with
  | none => rfl
  | some a => by_cases h : f a ∈ gone <;> by_cases h' : f a ∈ left <;> simp [Option.filter, h, h']

namespace Torn

theorem refl (e : Executor) : Torn e e [] := by
  refine ⟨rfl, rfl, rfl, rfl, rfl, rfl, rfl, rfl, fun _ => rfl, fun _ => ?_, fun _ => ?_, fun _ => ?_⟩
  all_goals exact (filter_eq_self fun _ _ => rfl).symm

theorem trans (h : Torn e e' gone) (h' : Torn e' e'' left) : Torn e e'' (gone ++ left) := by
  refine ⟨h'.definition.trans h.definition, h'.root.trans h.root,
    h'.nextInstance.trans h.nextInstance, h'.nextOperation.trans h.nextOperation,
    h'.queue.trans h.queue, h'.state.trans h.state, h'.outcome.trans h.outcome,
    h'.isOverdrawn.trans h.isOverdrawn, fun k => ?_, fun b => ?_, fun s => ?_, fun o => ?_⟩
  · rw [h'.lookup, h.lookup]
    by_cases hg : k ∈ gone <;> by_cases hl : k ∈ left <;> simp [hg, hl]
  · rw [h'.registrations, h.registrations, filter_filter_mem]
  · rw [h'.scopes, h.scopes]
    exact filter_filter_mem _ id
  · rw [h'.operations, h.operations]
    exact filter_filter_mem _ id

/-- What is removed takes along what it owns. -/
theorem attended (h : Torn e e' gone) (ha : e.Attended) : e'.Attended := by
  have stays : ∀ {k : InstanceId}, (∃ i, e.instances[k]? = some i ∧ i.state.isTerminal = false) →
      (!decide (k ∈ gone)) = true →
      ∃ i, e'.instances[k]? = some i ∧ i.state.isTerminal = false := by
    rintro k ⟨i, hi, ht⟩ hk
    rw [Bool.not_eq_true', decide_eq_false_iff_not] at hk
    exact ⟨i, by rw [h.lookup, if_neg hk, hi], ht⟩
  constructor
  · intro b g hg
    rw [h.registrations, Option.filter_eq_some_iff] at hg
    exact stays (ha.bookmark hg.1) hg.2
  · intro s o hs
    rw [h.scopes, Option.filter_eq_some_iff] at hs
    exact stays (ha.scope hs.1) hs.2
  · intro o k hk
    rw [h.operations, Option.filter_eq_some_iff] at hk
    exact stays (ha.operation hk.1) hk.2

/-- What owns nothing may be removed by itself. -/
theorem of_erase (ha : e.Attended) (hx : ∀ i, e.instances[x]? = some i → i.state.isTerminal = true)
    (hi : e'.instances = e.instances.erase x) (hs : SameCore { e with instances := e'.instances } e') :
    Torn e e' [x] := by
  have stays : ∀ {k : InstanceId}, (∃ i, e.instances[k]? = some i ∧ i.state.isTerminal = false) →
      (!decide (k ∈ [x])) = true := by
    rintro k ⟨j, hj, ht⟩
    rw [Bool.not_eq_true', decide_eq_false_iff_not, List.mem_singleton]
    rintro rfl
    rw [hx j hj] at ht
    exact absurd ht.symm Bool.false_ne_true
  refine ⟨hs.definition, hs.root, hs.nextInstance, hs.nextOperation, hs.queue, hs.state, hs.outcome,
    hs.isOverdrawn, fun k => ?_, fun b => ?_, fun s => ?_, fun o => ?_⟩
  · rw [hi, Table.lookup_erase]
    simp only [List.mem_singleton, eq_comm]
  · rw [hs.bookmarks, filter_eq_self fun g hg => stays (ha.bookmark hg)]
  · rw [hs.bookmarks, filter_eq_self fun o ho => stays (ha.scope ho)]
  · rw [hs.operations, filter_eq_self fun k hk => stays (ha.operation hk)]

end Torn

theorem sameCore_callAbortHook (k : InstanceId) (reason : Fault) :
    SameCore e (e.callAbortHook k reason) := by
  unfold callAbortHook
  split
  · exact .refl e
  · dsimp only
    split
    · exact .refl e
    · exact sameCore_log _

/-- The resources that are left after those of one instance are released. -/
theorem lookup_releaseResources (x : InstanceId) :
    (∀ b : Bookmark, (e.releaseResources x).bookmarks.registrations[b]? =
      (e.bookmarks.registrations[b]?).filter fun g => !decide (g.owner ∈ [x])) ∧
    (∀ s : Uuid, (e.releaseResources x).bookmarks.scopes[s]? =
      (e.bookmarks.scopes[s]?).filter fun o => !decide (o ∈ [x])) ∧
    (∀ o : OperationId, (e.releaseResources x).operations[o]? =
      (e.operations[o]?).filter fun k => !decide (k ∈ [x])) := by
  refine ⟨fun b => ?_, fun s => ?_, fun o => ?_⟩
  · change (e.bookmarks.registrations.filter fun _ g => g.owner != x)[b]? = _
    rw [Table.lookup_filter]
    simp only [List.mem_singleton, bne, beq_eq_decide]
  · change (e.bookmarks.scopes.filter fun _ o => o != x)[s]? = _
    rw [Table.lookup_filter]
    simp only [List.mem_singleton, bne, beq_eq_decide]
  · change (e.operations.filter fun _ o => o != x)[o]? = _
    rw [Table.lookup_filter]
    simp only [List.mem_singleton, bne, beq_eq_decide]

namespace Torn

/-- The removal of one instance. One that is gone or has completed owns nothing. -/
theorem abortInstance (ha : e.Attended) (reason : Fault) (x : InstanceId) :
    Torn e (e.abortInstance reason x) [x] := by
  unfold Executor.abortInstance
  cases hx : e.instance? x with
  | none =>
    have absent : e.instances[x]? = none := hx
    dsimp only
    refine of_erase ha (fun i hi => ?_) (Std.ExtTreeMap.ext_getElem? fun k => ?_) (.refl e)
    · exact absurd (absent.symm.trans hi) (Option.some_ne_none i).symm
    · rw [Table.lookup_erase]
      by_cases hk : x = k
      · rw [if_pos hk, ← hk, absent]
      · rw [if_neg hk]
  | some i =>
    dsimp only
    cases ht : i.state.isTerminal with
    | true =>
      refine of_erase ha (fun j hj => ?_) rfl (.refl _)
      cases hx.symm.trans hj
      exact ht
    | false =>
      rw [if_neg Bool.false_ne_true]
      have hs : SameCore (e.releaseResources x)
          (((e.releaseResources x).callAbortHook x reason).trackState x .faulted) :=
        (sameCore_callAbortHook x reason).trans (sameCore_trackState x .faulted)
      obtain ⟨hb, hsc, ho⟩ := lookup_releaseResources (e := e) x
      refine ⟨hs.definition, hs.root, hs.nextInstance, hs.nextOperation, hs.queue, hs.state, hs.outcome,
        hs.isOverdrawn, fun k => ?_, fun b => ?_, fun s => ?_, fun o => ?_⟩
      · change (Std.ExtTreeMap.erase _ x)[k]? = _
        rw [hs.instances, Table.lookup_erase]
        simp only [List.mem_singleton, eq_comm]
        rfl
      · exact (congrArg (·.registrations[b]?) hs.bookmarks).trans (hb b)
      · exact (congrArg (·.scopes[s]?) hs.bookmarks).trans (hsc s)
      · exact (congrArg (·[o]?) hs.operations).trans (ho o)

/-- The removal of one instance after another. -/
theorem abortAll (ha : e.Attended) (reason : Fault) (gone : List InstanceId) :
    Torn e (gone.foldl (fun e k => e.abortInstance reason k) e) gone := by
  induction gone generalizing e with
  | nil => exact .refl e
  | cons k rest ih =>
    have h : Torn e (e.abortInstance reason k) [k] := .abortInstance ha reason k
    exact h.trans (ih (h.attended ha))

end Torn

/-- What has owners still has them while a fault is applied to an instance. -/
theorem Owned.attended (h : e.Owned) {f : Instance → Instance}
    (hf : ∀ i, (f i).state.isTerminal = false) : (e.modify x f).Attended := by
  have there : ∀ {k : InstanceId}, e.isLive k = true →
      ∃ i, (e.modify x f).instances[k]? = some i ∧ i.state.isTerminal = false := by
    intro k hk
    obtain ⟨j, hj, hl⟩ := isLive_iff.mp hk
    rw [lookup_modify, hj]
    split
    · exact ⟨_, rfl, hf j⟩
    · exact ⟨j, rfl, ActivityState.not_terminal_of_isLive hl⟩
  exact ⟨fun hb => there (h.bookmark hb), fun hs => there (h.scope hs),
    fun ho => there (h.operation ho).1⟩

/-- When what is below an instance of a tree has been removed, its fault is its end. -/
theorem retires_of_torn (ht : IsTree e.definition e.root e.nextInstance e.instances)
    (hi : e.instances[x]? = some i) (hl : i.state.isLive = true) {f : Fault} (hf : (e.definition.get? f.sourceNode).isSome = true)
    (torn : Torn (e.modify x fun i => { i with state := .faulting, children := [] }) e' gone)
    (below : ∀ k, k ∈ gone ↔ Under e.instances x k) :
    Retires e ((e'.releaseResources x).modify x fun i =>
      { i with state := .faulted, busy := 0, fault := some f }) x gone
      { i with state := .faulted, children := [], busy := 0, fault := some f } := by
  have sound := ht.sound hi
  have prunable : IsTree.Prunable e.instances e.root x (· ∈ gone) := by
    rw [funext fun k => propext (below k)]
    exact ht.prunable_under x
  obtain ⟨hb, hs, ho⟩ := lookup_releaseResources (e := e') x
  have both : ∀ p : InstanceId, p ∈ gone ++ [x] ↔ p = x ∨ p ∈ gone := fun p => by
    rw [List.mem_append, List.mem_singleton, or_comm]
  refine ⟨torn.definition, torn.root, torn.nextInstance, torn.nextOperation, torn.queue, torn.state,
    torn.outcome, torn.isOverdrawn, isLive_iff.mpr ⟨i, hi, hl⟩, prunable, ?_, ?_, rfl, ?_,
    fun k => ?_, fun b => ?_, fun s => ?_, fun o => ?_⟩
  · intro j hj c hc
    obtain ⟨q, hq, hqx⟩ := ht.linked hj hc
    exact (below c).mpr (.child hq hqx)
  · intro j hj
    cases hi.symm.trans hj
    exact {}
  · refine ⟨sound.known, .nil, fun _ => rfl, ActivityState.noConfusion,
      ⟨fun _ => rfl, fun _ => rfl⟩, fun g hg => ?_⟩
    rw [← Option.some.inj hg]
    exact hf
  · rw [lookup_modify]
    change (if x = k then e'.instances[k]?.map _ else e'.instances[k]?) = _
    rw [torn.lookup, lookup_modify]
    by_cases hk : k = x
    · subst hk
      rw [if_pos rfl, if_neg prunable.keeps, if_pos rfl, if_neg prunable.keeps, if_pos rfl, hi]
      rfl
    · rw [if_neg (Ne.symm hk), if_neg (Ne.symm hk), if_neg hk]
  · refine (hb b).trans ?_
    rw [torn.registrations, filter_filter_mem]
    simp only [both]
    rfl
  · refine (hs s).trans ?_
    rw [torn.scopes]
    refine (filter_filter_mem _ id).trans ?_
    simp only [id, both]
    rfl
  · refine (ho o).trans ?_
    rw [torn.operations]
    refine (filter_filter_mem _ id).trans ?_
    simp only [id, both]
    rfl

/-- A fault is the end of an instance and of what is below it. -/
theorem retires_markFaulted (ht : IsTree e.definition e.root e.nextInstance e.instances)
    (how : e.Owned) (hi : e.instances[x]? = some i) (hl : i.state.isLive = true) {f : Fault}
    (hf : (e.definition.get? f.sourceNode).isSome = true) :
    Retires e (e.markFaulted x f) x (e.descendants x)
      { i with state := .faulted, children := [], busy := 0, fault := some f } := by
  have attended : (e.modify x fun i => { i with state := .faulting, children := [] }).Attended :=
    how.attended fun _ => rfl
  have below : ∀ k, k ∈ e.descendants x ↔ Under e.instances x k := fun k =>
    mem_descendants_iff ht hi
  have torn := Torn.abortAll attended f (e.descendants x)
  exact (retires_of_torn ht hi hl hf torn below).of_sameCore (sameCore_trackState x .faulted)

/-- The parent of an instance of a tree is live. -/
theorem parent_live (ht : IsTree e.definition e.root e.nextInstance e.instances) {c p : InstanceId}
    (hi : e.instances[c]? = some i) (hp : i.parent = some p) :
    ∃ r, e.instances[p]? = some r ∧ r.state.isLive = true ∧ c ∈ r.children := by
  obtain ⟨r, hr, hc⟩ := ht.listed hi hp
  exact ⟨r, hr, ActivityState.isLive_of_not_terminal (ht.sound hr).steady
    (ht.parent_not_terminal hi hp hr), hc⟩

/-- The parent of an instance of a tree does not leave with what is below the instance. -/
theorem parent_stays (ht : IsTree e.definition e.root e.nextInstance e.instances) {p : InstanceId}
    (hi : e.instances[x]? = some i) (hp : i.parent = some p) : p ≠ x ∧ p ∉ e.descendants x := by
  have older := ht.older hi hp
  constructor
  · rintro rfl
    exact Nat.lt_irrefl _ older
  · intro hg
    have younger := ht.lt_of_under ((mem_descendants_iff ht hi).mp hg)
    exact Nat.lt_asymm younger older

/-- A handler is told of the fault of a child that has ended. -/
theorem Consistent.tellFault (h : e.Consistent (· = x)) {p : InstanceId} {f : Fault}
    (hi : e.instances[x]? = some i) (ht : i.state.isTerminal = true) (hp : i.parent = some p)
    (hf : (e.definition.get? f.sourceNode).isSome = true) (callback : CallbackTag) :
    ((e.trackFault f (some p)).enqueue (.fault p x callback f)).Consistent Nobody := by
  have hs := sameCore_trackFault (e := e) f (some p)
  have hi' : (e.trackFault f (some p)).instances[x]? = some i := hs.instances ▸ hi
  refine ((hs.consistent h).report (w := .fault p x callback f) rfl hi' ht hp rfl fun hw => ?_).excuse
    fun hk _ => absurd hk.1 hk.2
  cases hw
  exact hs.definition ▸ hf

end Workflow.Executor
