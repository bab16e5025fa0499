import Workflow.Proofs.Frame

/-!
# The end of an instance

An instance ends when it completes and when it faults. Either way it becomes terminal, what is below
it leaves the table, and nothing stays registered for it or for what has left. Below the root the
invariant still holds, but the parent has to be told; at the root the workflow is finished.
-/

namespace Workflow.Executor

variable {e e' : Executor} {X : InstanceId → Prop} {x : InstanceId} {gone : List InstanceId}
variable {j : Instance}

/-- An executor goes on from another by the end of an instance, which becomes `j`, and of all that is
below it. -/
structure Retires (e e' : Executor) (x : InstanceId) (gone : List InstanceId) (j : Instance) :
    Prop where
  definition : e'.definition = e.definition
  root : e'.root = e.root
  nextInstance : e'.nextInstance = e.nextInstance
  nextOperation : e'.nextOperation = e.nextOperation
  queue : e'.queue = e.queue
  state : e'.state = e.state
  outcome : e'.outcome = e.outcome
  isOverdrawn : e'.isOverdrawn = e.isOverdrawn
  /-- The instance was live. -/
  live : e.isLive x = true
  /-- What leaves is below the instance. -/
  prunable : IsTree.Prunable e.instances e.root x (· ∈ gone)
  /-- The children leave. -/
  children : ∀ {i : Instance}, e.instances[x]? = some i → ∀ c ∈ i.children, c ∈ gone
  /-- The instance keeps its place and loses its children. -/
  place : ∀ {i : Instance}, e.instances[x]? = some i → j.SamePlace { i with children := [] }
  terminal : j.state.isTerminal = true
  sound : j.Sound e.definition
  lookup : ∀ k : InstanceId, e'.instances[k]? =
    if k ∈ gone then none else if k = x then some j else e.instances[k]?
  /-- Bookmarks of others stay. -/
  registrations : ∀ b : Bookmark, e'.bookmarks.registrations[b]? =
    (e.bookmarks.registrations[b]?).filter fun g => !decide (g.owner = x ∨ g.owner ∈ gone)
  /-- Scopes of others stay. -/
  scopes : ∀ s : Uuid, e'.bookmarks.scopes[s]? =
    (e.bookmarks.scopes[s]?).filter fun o => !decide (o = x ∨ o ∈ gone)
  /-- Operations of others stay. -/
  operations : ∀ o : OperationId, e'.operations[o]? =
    (e.operations[o]?).filter fun k => !decide (k = x ∨ k ∈ gone)

namespace Retires

/-- What is there afterwards is the instance itself or was there before. -/
theorem lookup_cases (h : Retires e e' x gone j) {k : InstanceId} {i : Instance}
    (hi : e'.instances[k]? = some i) :
    k ∉ gone ∧ ((k = x ∧ i = j) ∨ (k ≠ x ∧ e.instances[k]? = some i)) := by
  rw [h.lookup] at hi
  split at hi
  · exact absurd hi.symm (Option.some_ne_none i)
  · next hg =>
    split at hi
    · next hx => exact ⟨hg, .inl ⟨hx, (Option.some.inj hi).symm⟩⟩
    · next hx => exact ⟨hg, .inr ⟨hx, hi⟩⟩

/-- Others that have not left are as before. -/
theorem lookup_of_ne (h : Retires e e' x gone j) {k : InstanceId} (hk : k ∉ gone) (hx : k ≠ x) :
    e'.instances[k]? = e.instances[k]? := by
  rw [h.lookup, if_neg hk, if_neg hx]

/-- The instance stands where it stood. -/
theorem lookup_self (h : Retires e e' x gone j) : e'.instances[x]? = some j := by
  rw [h.lookup, if_neg h.prunable.keeps, if_pos rfl]

/-- Who is live afterwards was live before and has neither ended nor left. -/
theorem isLive_iff_and (h : Retires e e' x gone j) {k : InstanceId} :
    e'.isLive k = true ↔ e.isLive k = true ∧ k ≠ x ∧ k ∉ gone := by
  rw [Executor.isLive_iff, Executor.isLive_iff]
  constructor
  · rintro ⟨i, hi, hl⟩
    obtain ⟨hg, ⟨rfl, rfl⟩ | ⟨hx, hi⟩⟩ := h.lookup_cases hi
    · exact absurd h.terminal (by rw [ActivityState.not_terminal_of_isLive hl]; decide)
    · exact ⟨⟨i, hi, hl⟩, hx, hg⟩
  · rintro ⟨⟨i, hi, hl⟩, hx, hg⟩
    exact ⟨i, (h.lookup_of_ne hg hx).trans hi, hl⟩

/-- What is left is a tree. -/
theorem tree (h : Retires e e' x gone j)
    (ht : IsTree e.definition e.root e.nextInstance e.instances) :
    IsTree e'.definition e'.root e'.nextInstance e'.instances := by
  obtain ⟨i, hi, -⟩ := isLive_iff.mp h.live
  rw [h.definition, h.root, h.nextInstance]
  refine ht.prune h.prunable hi ?_ h.lookup h.sound
  have hc : (i.children.filter fun c => !decide (c ∈ gone)) = [] := by
    refine List.filter_eq_nil_iff.mpr fun c hc => ?_
    rw [decide_eq_true (h.children hi c hc)]
    decide
  rw [hc]
  exact h.place hi

/-- A bookmark that is still there was there before, and its owner has neither ended nor left. -/
theorem registration (h : Retires e e' x gone j) {b : Bookmark} {g : Registration}
    (hg : e'.bookmarks.registrations[b]? = some g) :
    e.bookmarks.registrations[b]? = some g ∧ g.owner ≠ x ∧ g.owner ∉ gone := by
  rw [h.registrations, Option.filter_eq_some_iff] at hg
  simpa only [Bool.not_eq_true', decide_eq_false_iff_not, not_or] using hg

/-- A scope that is still there was there before, and its owner has neither ended nor left. -/
theorem scope (h : Retires e e' x gone j) {s : Uuid} {o : InstanceId}
    (hs : e'.bookmarks.scopes[s]? = some o) :
    e.bookmarks.scopes[s]? = some o ∧ o ≠ x ∧ o ∉ gone := by
  rw [h.scopes, Option.filter_eq_some_iff] at hs
  simpa only [Bool.not_eq_true', decide_eq_false_iff_not, not_or] using hs

/-- An operation that is still there was there before, and its owner has neither ended nor left. -/
theorem operation (h : Retires e e' x gone j) {o : OperationId} {k : InstanceId}
    (ho : e'.operations[o]? = some k) : e.operations[o]? = some k ∧ k ≠ x ∧ k ∉ gone := by
  rw [h.operations, Option.filter_eq_some_iff] at ho
  simpa only [Bool.not_eq_true', decide_eq_false_iff_not, not_or] using ho

/-- Owners that have neither ended nor left keep what they own. -/
theorem owned (h : Retires e e' x gone j) (ho : e.Owned) : e'.Owned := by
  constructor
  · intro b g hg
    exact ho.filed (h.registration hg).1
  · intro b g hg
    obtain ⟨hg, hx⟩ := h.registration hg
    exact h.isLive_iff_and.mpr ⟨ho.bookmark hg, hx⟩
  · intro s o hs
    obtain ⟨hs, hx⟩ := h.scope hs
    exact h.isLive_iff_and.mpr ⟨ho.scope hs, hx⟩
  · intro o k hk
    obtain ⟨hk, hx, hg⟩ := h.operation hk
    obtain ⟨hl, ha⟩ := ho.operation hk
    refine ⟨h.isLive_iff_and.mpr ⟨hl, hx, hg⟩, ?_⟩
    rw [nodeOf, instance?, h.lookup_of_ne hg hx, h.definition]
    exact ha
  · intro o k hk
    rw [h.nextOperation]
    exact ho.begun (h.operation hk).1

/-- Others wait for as much as before. -/
theorem dues (h : Retires e e' x gone j) {k : InstanceId} (hx : k ≠ x) (hg : k ∉ gone) :
    e'.dues k = e.dues k := by
  have stays : ∀ {o : InstanceId}, (o == k) = true → (!decide (o = x ∨ o ∈ gone)) = true := by
    intro o ho
    rw [beq_iff_eq] at ho
    rw [ho, Bool.not_eq_true', decide_eq_false_iff_not, not_or]
    exact ⟨hx, hg⟩
  have hb : e'.bookmarks.registrations = e.bookmarks.registrations.filter
      fun _ g => !decide (g.owner = x ∨ g.owner ∈ gone) :=
    Std.ExtTreeMap.ext_getElem? fun b => by rw [h.registrations, Table.lookup_filter]
  have ho : e'.operations = e.operations.filter fun _ k => !decide (k = x ∨ k ∈ gone) :=
    Std.ExtTreeMap.ext_getElem? fun o => by rw [h.operations, Table.lookup_filter]
  have blocking : e'.bookmarks.blocking k = e.bookmarks.blocking k := by
    rw [Registry.blocking_eq_count, Registry.blocking_eq_count, hb]
    exact Table.count_filter _ fun b g _ hg => stays (Bool.and_eq_true_iff.mp hg).2
  have owed : OperationTable.owed e'.operations k = OperationTable.owed e.operations k := by
    rw [OperationTable.owed_eq_count, OperationTable.owed_eq_count, ho]
    exact Table.count_filter _ fun o k' _ hk => stays hk
  rw [Executor.dues, Executor.dues, blocking, owed, h.queue]

/-- Nothing tells of an instance that was live. -/
theorem countP_tellsOf (h : Retires e e' x gone j) (hp : e.Placed X) :
    e.queue.work.countP (·.tellsOf x) = 0 := by
  obtain ⟨i, hi, hl⟩ := isLive_iff.mp h.live
  rw [List.countP_eq_zero]
  intro w hw ht
  rw [WorkItem.tellsOf, Option.any_eq_true] at ht
  obtain ⟨⟨p, c⟩, hr, hc⟩ := ht
  obtain rfl : c = x := beq_iff_eq.mp hc
  have := ((hp.reported hw hr).2.2.1 i hi).1
  rw [ActivityState.not_terminal_of_isLive hl] at this
  exact absurd this Bool.false_ne_true

/-- Reports stay true of a parent and a child that are still there. -/
theorem reported (h : Retires e e' x gone j) (hp : e.Placed X) {w : WorkItem} {p c : InstanceId}
    (hw : w ∈ e.queue.work) (hr : w.report? = some (p, c)) :
    (∀ i, e'.instances[c]? = some i → i.state.isTerminal = true ∧ i.parent = some p) ∧
      (e'.isLive p = true → ∃ i, e'.instances[c]? = some i) := by
  obtain ⟨-, -, ht, hl⟩ := hp.reported hw hr
  refine ⟨fun i hi => ?_, fun hlp => ?_⟩
  · obtain ⟨hg, ⟨rfl, rfl⟩ | ⟨hcx, hi⟩⟩ := h.lookup_cases hi
    · obtain ⟨o, ho, -⟩ := isLive_iff.mp h.live
      exact ⟨h.terminal, (h.place ho).parent.trans (ht o ho).2⟩
    · exact ht i hi
  · obtain ⟨hlp, hpx, hpg⟩ := h.isLive_iff_and.mp hlp
    obtain ⟨i, hi⟩ := hl hlp
    by_cases hcx : c = x
    · exact ⟨j, hcx ▸ h.lookup_self⟩
    · refine ⟨i, (h.lookup_of_ne (fun hg => ?_) hcx).trans hi⟩
      exact (h.prunable.up hi (ht i hi).2 hg).elim hpg hpx

section BelowRoot

variable (h : Retires e e' x gone j)
variable (hX : ∀ {k : InstanceId} {i : Instance}, X k → e.instances[k]? = some i → k = x ∨ k ∈ gone)
include h hX

/-- Everything that is left is in its place. Exempt instances have ended or left. -/
theorem placed (hp : e.Placed X) (hx : x ≠ e.root) : e'.Placed (· = x) := by
  have stays : ∀ {k : InstanceId} {i : Instance}, k ∉ gone → k ≠ x → e.instances[k]? = some i →
      ¬ X k := fun hg hk hi hX' => (hX hX' hi).elim hk hg
  refine ⟨h.tree hp.tree, ?_, ?_, ?_, ?_, ?_, ?_, ?_, ?_⟩
  · rw [h.root]
    exact h.isLive_iff_and.mpr ⟨hp.rootLive, hx.symm, h.prunable.keeps_root⟩
  · intro w p c hw hr
    rw [h.queue] at hw
    obtain ⟨hpn, hcn, -⟩ := hp.reported hw hr
    rw [h.nextInstance]
    exact ⟨hpn, hcn, h.reported hp hw hr⟩
  · intro w o hw ho
    rw [h.queue] at hw
    rw [h.nextInstance]
    exact hp.created hw ho
  · intro a c tag f hw
    rw [h.queue] at hw
    rw [h.definition]
    exact hp.sourced hw
  · intro k p i hi ht hip hk
    obtain ⟨hg, ⟨rfl, -⟩ | ⟨-, hi⟩⟩ := h.lookup_cases hi
    · exact absurd rfl hk
    · rw [h.queue]
      exact hp.told hi ht hip (stays hg hk hi)
  · intro k p i hi ht hip hk
    rw [h.queue, hk]
    exact h.countP_tellsOf hp
  · intro k i hi hl hk hex
    obtain ⟨hg, ⟨rfl, -⟩ | ⟨-, hi⟩⟩ := h.lookup_cases hi
    · exact absurd rfl hk
    · exact hp.waiting hi hl (stays hg hk hi) hex
  · intro k i hi hl hk hex
    obtain ⟨hg, ⟨rfl, -⟩ | ⟨-, hi⟩⟩ := h.lookup_cases hi
    · exact absurd rfl hk
    · rw [h.queue]
      exact hp.queued hi hl (stays hg hk hi) hex

/-- Below the root the invariant still holds when an instance has ended, but nobody has been told. -/
theorem consistent (hc : e.Consistent X) (hx : x ≠ e.root) : e'.Consistent (· = x) := by
  have awake : e'.Awake (· = x) := by
    refine hc.awake_of (fun {k i} hi _ hl hk => ?_) (fun hb _ => (h.registration hb).1)
      fun hw _ _ => .inl (h.queue ▸ hw)
    obtain ⟨hg, ⟨rfl, -⟩ | ⟨-, hi⟩⟩ := h.lookup_cases hi
    · exact absurd rfl hk
    · exact ⟨i, hi, fun hX' => (hX hX' hi).elim hk hg, rfl, hl⟩
  have balanced : e'.Balanced := by
    intro k i hi hl
    obtain ⟨hg, ⟨-, rfl⟩ | ⟨hk, hi⟩⟩ := h.lookup_cases hi
    · exact absurd h.terminal (by rw [ActivityState.not_terminal_of_isLive hl]; decide)
    · rw [h.dues hk hg]
      exact hc.balanced k i hi hl
  exact ⟨h.placed hX hc.placed hx, h.owned hc.owned, awake, balanced, h.outcome.trans hc.opened,
    h.isOverdrawn.trans hc.sober, h.state.trans hc.running⟩

end BelowRoot

/-- What work does not depend on does not matter. -/
theorem of_sameCore {e'' : Executor} (h : Retires e e' x gone j) (hs : SameCore e' e'') :
    Retires e e'' x gone j := by
  obtain ⟨h1, h2, h3, h4, h5, hst, h6, h7, h8, h9, h10, h11, h12, h13, h14, h15, h16, h17⟩ := h
  refine ⟨hs.definition.trans h1, hs.root.trans h2, hs.nextInstance.trans h3,
    hs.nextOperation.trans h4, hs.queue.trans h5, hs.state.trans hst, hs.outcome.trans h6,
    hs.isOverdrawn.trans h7, h8, h9, h10, h11, h12, h13, ?_, ?_, ?_, ?_⟩
  · rw [hs.instances]
    exact h14
  · rw [hs.bookmarks]
    exact h15
  · rw [hs.bookmarks]
    exact h16
  · rw [hs.operations]
    exact h17

/-- The root ends where it stands. -/
theorem lookup_root (h : Retires e e' e.root gone j) : e'.instances[e'.root]? = some j := by
  rw [h.root]
  exact h.lookup_self

/-- At the root everything else is gone. -/
theorem only_root (h : Retires e e' e.root gone j) (hp : e.Placed X) (how : e.Owned) :
    (∀ {k : InstanceId} {i : Instance}, e'.instances[k]? = some i → k = e'.root) ∧
      e'.bookmarks = {} := by
  have ht := h.tree hp.tree
  have only : ∀ {k : InstanceId} {i : Instance}, e'.instances[k]? = some i → k = e'.root := by
    intro k i hi
    exact ht.eq_root h.lookup_root (h.sound.childless h.terminal) hi
  have nobody : ∀ k, e'.isLive k ≠ true := by
    intro k hl
    obtain ⟨i, hi, -⟩ := isLive_iff.mp hl
    exact (h.isLive_iff_and.mp hl).2.1 ((only hi).trans h.root)
  refine ⟨only, ?_⟩
  obtain ⟨r, hr⟩ : ∃ r, r = e'.bookmarks := ⟨_, rfl⟩
  have ho := h.owned how
  rw [← hr]
  have hreg : r.registrations = ∅ := by
    refine Std.ExtTreeMap.ext_getElem? fun b => ?_
    cases hb : r.registrations[b]? with
    | none => simp
    | some g => exact absurd (ho.bookmark (hr ▸ hb)) (nobody _)
  have hsc : r.scopes = ∅ := by
    refine Std.ExtTreeMap.ext_getElem? fun s => ?_
    cases hs : r.scopes[s]? with
    | none => simp
    | some o => exact absurd (ho.scope (hr ▸ hs)) (nobody _)
  cases r
  cases hreg
  cases hsc
  rfl

end Retires

/-- The end of a workflow leaves it completed. -/
theorem isCompleted_of_ending {state : WorkflowState} {o : Outcome} {event : LifecycleEvent}
    (he : e.ending? = some (state, o, event)) : state.isCompleted = true := by
  rw [ending?, Option.bind_eq_some_iff] at he
  obtain ⟨r, -, hs⟩ := he
  split at hs
  · rw [← (Prod.mk.inj (Option.some.inj hs)).1]
    rfl
  · rw [← (Prod.mk.inj (Option.some.inj hs)).1]
    rfl
  · obtain ⟨f, -, hf⟩ := Option.map_eq_some_iff.mp hs
    rw [← (Prod.mk.inj hf).1]
    rfl
  · exact absurd hs.symm (Option.some_ne_none _)

/-- The end of a workflow follows from its root exactly if the root has completed, with a fault if it
has faulted. -/
theorem exists_ending_iff {r : Instance} (hr : e.instances[e.root]? = some r) :
    (∃ x, e.ending? = some x) ↔
      r.state.isTerminal = true ∧ (r.state = .faulted → r.fault.isSome = true) := by
  rw [ending?, instance?, hr, Option.bind_some]
  cases hs : r.state with
  | faulted =>
    cases r.fault <;> simp [ActivityState.isTerminal]
  | closed | canceled | executing | canceling | faulting => simp [ActivityState.isTerminal]

/-- An executor whose workflow has completed. Only the root is left, and nothing waits for anything. -/
structure Finished (e : Executor) : Prop where
  tree : IsTree e.definition e.root e.nextInstance e.instances
  /-- The root has completed. -/
  ended : ∀ {r : Instance}, e.instances[e.root]? = some r → r.state.isTerminal = true
  bookmarks : e.bookmarks = {}
  operations : e.operations = ∅
  /-- The outcome follows from the root. -/
  ending : ∃ o event, e.ending? = some (e.state, o, event) ∧ e.outcome = some o
  sober : e.isOverdrawn = false
  /-- Nothing is queued but completions that came too late. -/
  late : ∀ w ∈ e.queue.work, ∃ operation result, w = .operation operation result

/-- An executor whose workflow has just completed. Nothing is queued. -/
structure Concluded (e : Executor) : Prop extends Finished e where
  work : e.queue.work = []

namespace Finished

/-- Only the root is there. -/
theorem eq_root (h : e.Finished) {k : InstanceId} {i : Instance} (hi : e.instances[k]? = some i) :
    k = e.root := by
  obtain ⟨r, hr, -⟩ := h.tree.rooted
  exact h.tree.eq_root hr ((h.tree.sound hr).childless (h.ended hr)) hi

/-- Nobody is live. -/
theorem not_isLive (h : e.Finished) (k : InstanceId) : e.isLive k = false := by
  rw [Bool.eq_false_iff]
  intro hl
  obtain ⟨i, hi, hil⟩ := isLive_iff.mp hl
  have hk := h.eq_root hi
  have := h.ended (hk ▸ hi)
  rw [ActivityState.not_terminal_of_isLive hil] at this
  exact absurd this Bool.false_ne_true

/-- The state is that of a completed workflow. -/
theorem isCompleted (h : e.Finished) : e.state.isCompleted = true := by
  obtain ⟨o, event, he, -⟩ := h.ending
  exact isCompleted_of_ending he

/-- The state is none of those of an open or aborted workflow. -/
theorem state_ne (h : e.Finished) {s : WorkflowState} (hs : s.isCompleted = false) : e.state ≠ s := by
  rintro rfl
  exact absurd (hs.symm.trans h.isCompleted) Bool.false_ne_true

end Finished

/-- The end of the root concludes the workflow. -/
theorem finishWorkflow_concluded {r : Instance}
    (ht : IsTree e.definition e.root e.nextInstance e.instances)
    (hr : e.instances[e.root]? = some r) (hrt : r.state.isTerminal = true)
    (hb : e.bookmarks = {}) (hs : e.isOverdrawn = false) : e.finishWorkflow.Concluded := by
  obtain ⟨⟨s, o, event⟩, he⟩ :=
    (exists_ending_iff hr).mpr ⟨hrt, fun hf => (ht.sound hr).faulted.mpr hf⟩
  unfold finishWorkflow
  rw [he]
  have finished : ∀ {r' : Instance}, e.instances[e.root]? = some r' → r'.state.isTerminal = true := by
    intro r' hr'
    cases hr.symm.trans hr'
    exact hrt
  exact ⟨⟨ht, finished, hb, rfl, ⟨o, event, he, rfl⟩, hs, fun _ hw => absurd hw List.not_mem_nil⟩, rfl⟩

end Workflow.Executor
