import Workflow.Proofs.Moment

/-!
# Containment of faults

A fault of an instance stops at the nearest instance at or above it whose faults are handled, or at
the root. What is below that instance leaves, and the bodies of those that had not ended, and that the
fault has not passed on its way, are told. Nothing else changes, except that the handler will be asked
or that the workflow is over.
-/

namespace Workflow.Executor

variable {e e' m : Executor} {i x p k f : InstanceId} {j : Instance} {fault : Fault}
variable {gone : List InstanceId}

/-- Faults of `i` stop at `f`: it is the nearest instance at or above `i` that has a callback for its
faults, or the root if there is none. -/
structure Catches (e : Executor) (i f : InstanceId) : Prop where
  within : Within e.instances f i
  stops : f = e.root ∨ ∃ j, e.instances[f]? = some j ∧ j.faultCallback.isSome = true
  nearest : ∀ {k : InstanceId} {j : Instance}, Under e.instances f k → Within e.instances k i →
    e.instances[k]? = some j → j.faultCallback = none

/-- Faults of an instance stop at one place only. -/
theorem Catches.unique (ht : IsTree e.definition e.root e.nextInstance e.instances)
    {g : InstanceId} (h : Catches e i f) (h' : Catches e i g) : f = g := by
  have below : ∀ {a b : InstanceId}, Catches e i a → Catches e i b → ¬ Under e.instances a b := by
    intro a b ha hb hu
    rcases hb.stops with rfl | ⟨j, hj, hs⟩
    · exact (ht.prunable_under a).keeps_root hu
    · rw [ha.nearest hu hb.within hj] at hs
      exact absurd hs Bool.false_ne_true
  rcases h.within with rfl | hu
  · exact h'.within.resolve_right (below h' h)
  · rcases h'.within with rfl | hu'
    · exact absurd hu (below h h')
    · exact (hu.comparable hu').resolve_right fun hc => hc.elim (below h h') (below h' h)

/-! ### The abort hooks -/

/-- Whether the body of an instance is told when the instance is torn down: it has not ended, and its
activity is not code. -/
def hears (e : Executor) (k : InstanceId) : Bool :=
  (e.instance? k).any fun i =>
    !i.state.isTerminal && decide ((e.definition.node i.node).body.kind ≠ .code)

/-- The call of an abort hook. -/
def hook (e : Executor) (fault : Fault) (k : InstanceId) : JournalEntry :=
  .call k (e.nodeOf k).body.label (.abort fault)

/-- What an instance hears depends on the instance only. -/
theorem hears_congr (hd : e'.definition = e.definition)
    (hi : e'.instances[k]? = e.instances[k]?) : e'.hears k = e.hears k := by
  rw [hears, hears, instance?, instance?, hi, hd]

theorem hook_congr (hd : e'.definition = e.definition) (hi : e'.instances[k]? = e.instances[k]?)
    (fault : Fault) : e'.hook fault k = e.hook fault k := by
  rw [hook, hook, nodeOf, nodeOf, instance?, instance?, hi, hd]

/-- An instance that is torn down is told if it hears. -/
theorem journal_abortInstance_eq (fault : Fault) (k : InstanceId) :
    (e.abortInstance fault k).journal =
      e.journal ++ if e.hears k then [e.hook fault k] else [] := by
  unfold abortInstance
  cases hi : e.instance? k with
  | none => simp [hears, hi]
  | some j =>
    have still : (e.releaseResources k).instance? k = some j := hi
    dsimp only
    cases ht : j.state.isTerminal with
    | true => simp [hears, hi, ht]
    | false =>
      simp only [Bool.false_eq_true, if_false, journal_trackState]
      unfold callAbortHook
      rw [still]
      dsimp only
      by_cases hk : (e.definition.node j.node).body.kind = .code
      · simp [hears, hi, ht, hk, releaseResources]
      · simp [hears, hi, ht, hk, releaseResources, log, hook, nodeOf]

/-- Of instances that are torn down one after another, those that hear are told. -/
theorem journal_abortAll_eq (ha : e.Attended) (fault : Fault) (hn : gone.Nodup) :
    (gone.foldl (fun e k => e.abortInstance fault k) e).journal =
      e.journal ++ (gone.filter e.hears).map (e.hook fault) := by
  induction gone generalizing e with
  | nil => exact (List.append_nil _).symm
  | cons a rest ih =>
    obtain ⟨hna, hn⟩ := List.nodup_cons.mp hn
    have torn : Torn e (e.abortInstance fault a) [a] := .abortInstance ha fault a
    have same : ∀ k ∈ rest, (e.abortInstance fault a).instances[k]? = e.instances[k]? := by
      intro k hk
      rw [torn.lookup, if_neg]
      rintro hm
      rw [List.mem_singleton.mp hm] at hk
      exact hna hk
    have hears : rest.filter (e.abortInstance fault a).hears = rest.filter e.hears :=
      List.filter_congr fun k hk => hears_congr torn.definition (same k hk)
    have hooks : (rest.filter e.hears).map ((e.abortInstance fault a).hook fault) =
        (rest.filter e.hears).map (e.hook fault) :=
      List.map_congr_left fun k hk => hook_congr torn.definition
        (same k (List.mem_of_mem_filter hk)) fault
    rw [List.foldl_cons, ih (torn.attended ha) hn, hears, hooks, journal_abortInstance_eq,
      List.append_assoc, List.filter_cons]
    cases e.hears a <;> rfl

/-- When a fault strikes an instance, those below it are told that hear. -/
theorem Struck.journal_eq (h : Struck e x fault j) :
    (e.markFaulted x fault).journal =
      e.journal ++ ((e.descendants x).filter e.hears).map (e.hook fault) := by
  have nodup : (e.descendants x).Nodup := (pairwise_descendants h.tree x).imp And.left
  obtain ⟨m, hm⟩ : ∃ m, m = e.modify x fun i => { i with state := .faulting, children := [] } := ⟨_, rfl⟩
  have attended : m.Attended := hm ▸ h.owned.attended fun _ => rfl
  have definition : m.definition = e.definition := by rw [hm]; rfl
  have same : ∀ k ∈ e.descendants x, m.instances[k]? = e.instances[k]? := by
    intro k hk
    rw [hm, lookup_modify, if_neg]
    rintro rfl
    exact h.retires.prunable.keeps hk
  have hears : (e.descendants x).filter m.hears = (e.descendants x).filter e.hears :=
    List.filter_congr fun k hk => hears_congr definition (same k hk)
  have hooks : ((e.descendants x).filter e.hears).map (m.hook fault) =
      ((e.descendants x).filter e.hears).map (e.hook fault) :=
    List.map_congr_left fun k hk => hook_congr definition (same k (List.mem_of_mem_filter hk)) fault
  have told := journal_abortAll_eq attended fault nodup
  rw [hears, hooks, hm] at told
  unfold markFaulted
  exact (journal_trackState x .faulted).trans told

/-! ### The way up -/

/-- What is below an instance after some have left, with all that was below them, is what was below it
and is still there. -/
theorem under_iff_of_pruned {t u : InstanceTable} {S : InstanceId → Prop} {a : InstanceId}
    (gone : ∀ k, S k → u[k]? = none)
    (same : ∀ k, ¬ S k → (u[k]?).map (·.parent) = (t[k]?).map (·.parent))
    (down : ∀ {k p : InstanceId} {i : Instance}, t[k]? = some i → i.parent = some p → S p → S k) :
    Under u a k ↔ Under t a k ∧ ¬ S k := by
  have back : ∀ {k : InstanceId} {i : Instance}, u[k]? = some i →
      ¬ S k ∧ ∃ l, t[k]? = some l ∧ l.parent = i.parent := by
    intro k i hi
    have hk : ¬ S k := fun hk => absurd ((gone k hk).symm.trans hi) (Option.some_ne_none i).symm
    have hp := same k hk
    rw [hi, Option.map_some] at hp
    exact ⟨hk, Option.map_eq_some_iff.mp hp.symm⟩
  have forth : ∀ {k : InstanceId} {i : Instance}, t[k]? = some i → ¬ S k →
      ∃ l, u[k]? = some l ∧ l.parent = i.parent := by
    intro k i hi hk
    have hp := same k hk
    rw [hi, Option.map_some] at hp
    exact Option.map_eq_some_iff.mp hp
  constructor
  · intro hu
    induction hu with
    | child hk hp =>
      obtain ⟨hg, l, hl, hlp⟩ := back hk
      exact ⟨.child hl (hlp.trans hp), hg⟩
    | deeper hk hp _ ih =>
      obtain ⟨hg, l, hl, hlp⟩ := back hk
      exact ⟨.deeper hl (hlp.trans hp) ih.1, hg⟩
  · rintro ⟨hu, hg⟩
    induction hu with
    | child hk hp =>
      obtain ⟨l, hl, hlp⟩ := forth hk hg
      exact .child hl (hlp.trans hp)
    | deeper hk hp _ ih =>
      obtain ⟨l, hl, hlp⟩ := forth hk hg
      exact .deeper hl (hlp.trans hp) (ih fun hn => hg (down hk hp hn))

/-- A fault of `i` has gone up to `x`. What was below `x` has left, with all that it and `x` owned, and
`x` has faulted. Those were told that hear and are not on the way, each after all that are below it. -/
structure Razed (e : Executor) (i x : InstanceId) (fault : Fault) (e' : Executor) : Prop where
  definition : e'.definition = e.definition
  root : e'.root = e.root
  nextInstance : e'.nextInstance = e.nextInstance
  nextOperation : e'.nextOperation = e.nextOperation
  gone : ∀ {k : InstanceId}, Under e.instances x k → e'.instances[k]? = none
  faulted : ∃ j, e.instances[x]? = some j ∧ e'.instances[x]? =
    some { j with state := .faulted, children := [], busy := 0, fault := some fault }
  others : ∀ {k : InstanceId}, ¬ Within e.instances x k → e'.instances[k]? = e.instances[k]?
  registrations : ∀ {b : Bookmark} {g : Registration}, e'.bookmarks.registrations[b]? = some g ↔
    e.bookmarks.registrations[b]? = some g ∧ ¬ Within e.instances x g.owner
  scopes : ∀ {s : Uuid} {o : InstanceId}, e'.bookmarks.scopes[s]? = some o ↔
    e.bookmarks.scopes[s]? = some o ∧ ¬ Within e.instances x o
  operations : ∀ {o : OperationId} {k : InstanceId}, e'.operations[o]? = some k ↔
    e.operations[o]? = some k ∧ ¬ Within e.instances x k
  hooks : ∃ told : List InstanceId, e'.journal = e.journal ++ told.map (e.hook fault) ∧
    (told.Pairwise fun a b => a ≠ b ∧ ¬ Under e.instances a b) ∧
    ∀ k, k ∈ told ↔ Under e.instances x k ∧ ¬ Within e.instances k i ∧ e.hears k = true

/-- Who owns what is left after the end of an instance is neither the instance nor below it. -/
theorem Retires.owners (h : Retires e e' x (e.descendants x) j)
    (ht : IsTree e.definition e.root e.nextInstance e.instances) :
    (∀ {b : Bookmark} {g : Registration}, e'.bookmarks.registrations[b]? = some g ↔
      e.bookmarks.registrations[b]? = some g ∧ ¬ Within e.instances x g.owner) ∧
    (∀ {s : Uuid} {o : InstanceId}, e'.bookmarks.scopes[s]? = some o ↔
      e.bookmarks.scopes[s]? = some o ∧ ¬ Within e.instances x o) ∧
    ∀ {o : OperationId} {k : InstanceId}, e'.operations[o]? = some k ↔
      e.operations[o]? = some k ∧ ¬ Within e.instances x k := by
  obtain ⟨i, hi, -⟩ := isLive_iff.mp h.live
  have away : ∀ k : InstanceId, (!decide (k = x ∨ k ∈ e.descendants x)) = true ↔
      ¬ Within e.instances x k := by
    intro k
    rw [Bool.not_eq_true', decide_eq_false_iff_not, mem_descendants_iff ht hi]
    rfl
  refine ⟨?_, ?_, ?_⟩
  · intro b g
    rw [h.registrations, Option.filter_eq_some_iff, away]
  · intro s o
    rw [h.scopes, Option.filter_eq_some_iff, away]
  · intro o k
    rw [h.operations, Option.filter_eq_some_iff, away]

/-- The fault strikes the first instance. -/
theorem Struck.razed (h : Struck e i fault j) : Razed e i i fault (e.markFaulted i fault) := by
  have hr := h.retires
  obtain ⟨registrations, scopes, operations⟩ := hr.owners h.tree
  have below : ∀ k, k ∈ e.descendants i ↔ Under e.instances i k := fun k =>
    mem_descendants_iff h.tree h.found
  refine ⟨hr.definition, hr.root, hr.nextInstance, hr.nextOperation, fun {k} hu => ?_,
    ⟨j, h.found, hr.lookup_self⟩, fun {k} hk => ?_, registrations, scopes, operations,
    _, h.journal_eq, (pairwise_descendants h.tree i).filter _, fun k => ?_⟩
  · rw [hr.lookup, if_pos ((below k).mpr hu)]
  · exact hr.lookup_of_ne (fun hg => hk (.inr ((below k).mp hg))) fun hx => hk (.inl hx)
  · rw [List.mem_filter, below]
    constructor
    · rintro ⟨hu, hears⟩
      exact ⟨hu, fun hw => hw.not_under_of_above h.tree hu, hears⟩
    · rintro ⟨hu, -, hears⟩
      exact ⟨hu, hears⟩

namespace Razed

/-- What is below an instance that is left was below it and has not left. -/
theorem under_iff (h : Razed e i x fault m) {a : InstanceId} :
    Under m.instances a k ↔ Under e.instances a k ∧ ¬ Under e.instances x k := by
  refine under_iff_of_pruned (fun k => h.gone) (fun k hk => ?_) fun hi hp hu => .deeper hi hp hu
  by_cases hx : k = x
  · obtain ⟨j, hj, hj'⟩ := h.faulted
    rw [hx, hj, hj']
    rfl
  · rw [h.others fun hw => hw.elim hx hk]

section Step

variable {c : InstanceId} {q : Instance} (h : Razed e i c fault m) (hc : e.instances[c]? = some j)
variable (hp : j.parent = some x)
include h

/-- Of those below the parent that are left, all that hear are apart from the child. -/
theorem apart_of_hears (hu : Under m.instances x k) (hk : m.hears k = true) :
    ¬ Within e.instances c k := by
  rintro (rfl | hcu)
  · obtain ⟨o, -, ho⟩ := h.faulted
    rw [hears, instance?, ho] at hk
    exact absurd hk Bool.false_ne_true
  · exact (h.under_iff.mp hu).2 hcu

include hc hp

/-- Who is apart from the parent is apart from the child, and is not taken down with the parent. -/
theorem apart_iff : ¬ Within e.instances c k ∧ ¬ Within m.instances x k ↔ ¬ Within e.instances x k := by
  constructor
  · rintro ⟨hk, hm⟩ (rfl | hu)
    · exact hm (.refl _ _)
    · exact hm (.inr (h.under_iff.mpr ⟨hu, fun hcu => hk (.inr hcu)⟩))
  · intro hk
    refine ⟨fun hw => hk (.inr (hw.under_parent hc hp)), ?_⟩
    rintro (rfl | hu)
    · exact hk (.refl _ _)
    · exact hk (.inr (h.under_iff.mp hu).1)

variable (ht : IsTree e.definition e.root e.nextInstance e.instances)
variable (hw : Within e.instances c i)
include ht hw

/-- Who is told when the parent is struck is off the way of the fault. -/
theorem hears_iff : (Under m.instances x k ∧ m.hears k = true) ↔
    (Under e.instances x k ∧ ¬ Within e.instances k i ∧ e.hears k = true) ∧
      ¬ Under e.instances c k := by
  have same : ¬ Within e.instances c k → m.hears k = e.hears k := fun hk =>
    hears_congr h.definition (h.others hk)
  constructor
  · rintro ⟨hu, hk⟩
    have apart := h.apart_of_hears hu hk
    obtain ⟨hux, huc⟩ := h.under_iff.mp hu
    exact ⟨⟨hux, fun hki => apart (.of_way ht hc hp hw hux hki), same apart ▸ hk⟩, huc⟩
  · rintro ⟨⟨hux, hki, hk⟩, huc⟩
    refine ⟨h.under_iff.mpr ⟨hux, huc⟩, ?_⟩
    rw [same, hk]
    rintro (rfl | hcu)
    · exact hki hw
    · exact huc hcu

variable (hs : Struck m x fault q)
include hs

/-- Those that are told on the way: first those below the child, then the others below the parent. -/
theorem hooks_step : ∃ told : List InstanceId,
    (m.markFaulted x fault).journal = e.journal ++ told.map (e.hook fault) ∧
      (told.Pairwise fun a b => a ≠ b ∧ ¬ Under e.instances a b) ∧
      ∀ k, k ∈ told ↔ Under e.instances x k ∧ ¬ Within e.instances k i ∧ e.hears k = true := by
  obtain ⟨told, journal, order, members⟩ := h.hooks
  obtain ⟨next, hn⟩ : ∃ next, next = (m.descendants x).filter m.hears := ⟨_, rfl⟩
  have mem : ∀ k, k ∈ next ↔ (Under e.instances x k ∧ ¬ Within e.instances k i ∧ e.hears k = true) ∧
      ¬ Under e.instances c k := by
    intro k
    rw [hn, List.mem_filter, mem_descendants_iff hs.tree hs.found, h.hears_iff hc hp ht hw]
  have hooks : next.map (m.hook fault) = next.map (e.hook fault) := by
    refine List.map_congr_left fun k hk => hook_congr h.definition (h.others ?_) fault
    rw [hn, List.mem_filter, mem_descendants_iff hs.tree hs.found] at hk
    exact h.apart_of_hears hk.1 hk.2
  refine ⟨told ++ next, ?_, List.pairwise_append.mpr ⟨order, ?_, ?_⟩, fun k => ?_⟩
  · rw [hs.journal_eq, ← hn, hooks, journal, List.map_append, List.append_assoc]
  · have later : next.Pairwise fun a b => a ≠ b ∧ ¬ Under m.instances a b :=
      hn ▸ (pairwise_descendants hs.tree x).filter _
    refine later.imp_of_mem fun {a b} _ hb hab => ⟨hab.1, fun hu => hab.2 ?_⟩
    exact h.under_iff.mpr ⟨hu, ((mem b).mp hb).2⟩
  · intro a ha b hb
    have hca : Under e.instances c a := ((members a).mp ha).1
    have hcb := ((mem b).mp hb).2
    exact ⟨fun hab => hcb (hab ▸ hca), fun hu => hcb (hca.trans hu)⟩
  · rw [List.mem_append, members, mem]
    constructor
    · rintro (⟨hu, hk⟩ | ⟨hk, -⟩)
      · have way : Within e.instances c k := .inr hu
        exact ⟨way.under_parent hc hp, hk⟩
      · exact hk
    · rintro ⟨hu, hk⟩
      by_cases huc : Under e.instances c k
      · exact .inl ⟨huc, hk⟩
      · exact .inr ⟨⟨hu, hk⟩, huc⟩

/-- The fault strikes the parent of an instance to which it has gone up. -/
theorem step : Razed e i x fault (m.markFaulted x fault) := by
  have hr := hs.retires
  obtain ⟨registrations, scopes, operations⟩ := hr.owners hs.tree
  have below : ∀ k, k ∈ m.descendants x ↔ Under m.instances x k := fun k =>
    mem_descendants_iff hs.tree hs.found
  have away : ∀ {k}, ¬ Within e.instances x k →
      ¬ Within e.instances c k ∧ ¬ Within m.instances x k := fun hk => (h.apart_iff hc hp).mpr hk
  have hx : ¬ Within e.instances c x := fun hw' => hw'.not_under_of_above ht (.child hc hp)
  refine ⟨hr.definition.trans h.definition, hr.root.trans h.root, hr.nextInstance.trans h.nextInstance,
    hr.nextOperation.trans h.nextOperation, fun {k} hu => ?_, ⟨q, ?_, hr.lookup_self⟩, fun {k} hk => ?_,
    fun {b g} => ?_, fun {s o} => ?_, fun {o k} => ?_, h.hooks_step hc hp ht hw hs⟩
  · rw [hr.lookup]
    by_cases huc : Under e.instances c k
    · have hkx : k ≠ x := by
        rintro rfl
        exact hx (.inr huc)
      rw [if_neg hkx, h.gone huc, ite_self]
    · rw [if_pos ((below k).mpr (h.under_iff.mpr ⟨hu, huc⟩))]
  · rw [← h.others hx]
    exact hs.found
  · obtain ⟨hkc, hkx⟩ := away hk
    rw [hr.lookup_of_ne (fun hg => hkx (.inr ((below k).mp hg))) fun he => hkx (.inl he), h.others hkc]
  · rw [registrations, h.registrations, and_assoc, h.apart_iff hc hp]
  · rw [scopes, h.scopes, and_assoc, h.apart_iff hc hp]
  · rw [operations, h.operations, and_assoc, h.apart_iff hc hp]

end Step

/-- What does not matter for it may change. -/
theorem of_same (h : Razed e i x fault m) (hd : e'.definition = m.definition) (hr : e'.root = m.root)
    (hn : e'.nextInstance = m.nextInstance) (ho : e'.nextOperation = m.nextOperation)
    (hi : e'.instances = m.instances) (hb : e'.bookmarks = m.bookmarks)
    (hop : e'.operations = m.operations) (hj : e'.journal = m.journal) : Razed e i x fault e' := by
  obtain ⟨h1, h2, h3, h4, h5, h6, h7, h8, h9, h10, h11⟩ := h
  refine ⟨hd.trans h1, hr.trans h2, hn.trans h3, ho.trans h4, ?_, ?_, ?_, ?_, ?_, ?_, ?_⟩
  · rw [hi]
    exact h5
  · rw [hi]
    exact h6
  · rw [hi]
    exact h7
  · rw [hb]
    exact h8
  · rw [hb]
    exact h9
  · rw [hop]
    exact h10
  · rw [hj]
    exact h11

end Razed

/-- What a fault of `i` does that stops at `f`. The parent of `f` will be asked to handle it, or the
workflow has ended with it if `f` is the root. -/
structure Contained (e : Executor) (i f : InstanceId) (fault : Fault) (e' : Executor) : Prop
    extends Razed e i f fault e' where
  told : ∀ {j : Instance} {p : InstanceId}, e.instances[f]? = some j → j.parent = some p →
    ∃ tag, j.faultCallback = some tag ∧ e'.queue = e.queue.push (.fault p f tag fault) ∧
      e'.state = e.state ∧ e'.outcome = e.outcome
  finished : f = e.root →
    e'.queue = e.queue.clear ∧ e'.state = .faulted ∧ e'.outcome = some (.faulted fault)

/-- The end of a workflow whose root has faulted. -/
theorem finishWorkflow_of_faulted (hr : e.instances[e.root]? = some j) (hs : j.state = .faulted)
    (hf : j.fault = some fault) :
    e.finishWorkflow.queue = e.queue.clear ∧ e.finishWorkflow.bookmarks = e.bookmarks ∧
      e.finishWorkflow.operations = ∅ ∧ e.finishWorkflow.nextOperation = e.nextOperation ∧
      e.finishWorkflow.state = .faulted ∧ e.finishWorkflow.outcome = some (.faulted fault) := by
  have ends : e.ending? = some (.faulted, .faulted fault,
      if fault.isTermination then .terminated else .faulted) := by
    rw [ending?, instance?, hr, Option.bind_some, hs]
    dsimp only
    rw [hf]
    rfl
  rw [finishWorkflow, ends]
  exact ⟨rfl, rfl, rfl, rfl, rfl, rfl⟩

/-- A fault that has gone up to an instance goes on to where it stops. -/
theorem propagate_contained (n : Nat)
    (ht : IsTree e.definition e.root e.nextInstance e.instances) (how : e.Owned)
    (htm : IsTree m.definition m.root m.nextInstance m.instances) (hom : m.Owned)
    (hx : e.instances[x]? = some j) (hxm : m.instances[x]? = some j) (hl : j.state.isLive = true)
    (hf : (m.definition.get? fault.sourceNode).isSome = true)
    (hn : InstanceTable.countUpTo m.instances x ≤ n)
    (hq : m.queue = e.queue) (hst : m.state = e.state) (ho : m.outcome = e.outcome)
    (hw : Within e.instances x i)
    (unhandled : ∀ {k : InstanceId} {j : Instance}, Under e.instances x k → Within e.instances k i →
      e.instances[k]? = some j → j.faultCallback = none)
    (strikes : Struck m x fault j → Razed e i x fault (m.markFaulted x fault)) :
    ∃ f, Catches e i f ∧ Contained e i f fault (propagate n x fault m) := by
  induction n generalizing m x j with
  | zero => exact absurd (InstanceTable.countUpTo_pos hxm) (Nat.not_lt.mpr hn)
  | succ n ih =>
    have hs : Struck m x fault j := struck htm hom hxm hl hf
    have hr := hs.retires
    have razed := strikes hs
    unfold Executor.propagate
    rw [instance?, hxm]
    dsimp only
    rw [ActivityState.not_terminal_of_isLive hl, if_neg Bool.false_ne_true]
    generalize m.markFaulted x fault = r at hr razed
    cases hp : j.parent with
    | none =>
      have root : x = e.root := ht.orphan hx hp
      dsimp only
      obtain ⟨m', hm'⟩ : ∃ m', m' = r.trackFault fault none := ⟨_, rfl⟩
      have core : SameCore r m' := hm' ▸ sameCore_trackFault fault none
      have journal : m'.journal = r.journal := by rw [hm']; rfl
      have razed' : Razed e i x fault m' := razed.of_same core.definition core.root core.nextInstance
        core.nextOperation core.instances core.bookmarks core.operations journal
      have ended : m'.instances[m'.root]? = some
          { j with state := .faulted, children := [], busy := 0, fault := some fault } := by
        rw [core.instances, razed'.root, ← root]
        exact hr.lookup_self
      obtain ⟨queue, bookmarks, operations, next, state, outcome⟩ :=
        finishWorkflow_of_faulted ended rfl rfl
      obtain ⟨instances, keepsRoot, definition, nextInstance, keepsJournal⟩ :=
        finishWorkflow_keeps (e := m')
      -- Whoever owned an operation stood at or below the root.
      have nothing : m'.operations = ∅ := by
        refine Std.ExtTreeMap.ext_getElem? fun o => ?_
        cases hk : m'.operations[o]? with
        | none => simp
        | some k =>
          obtain ⟨hk, away⟩ := razed'.operations.mp hk
          obtain ⟨l, hl, -⟩ := isLive_iff.mp (how.operation hk).1
          exact absurd (root ▸ Within.of_root ht hl) away
      rw [← hm']
      refine ⟨x, ⟨hw, .inl root, unhandled⟩, ⟨razed'.of_same definition keepsRoot nextInstance next
        instances bookmarks (operations.trans nothing.symm) keepsJournal, fun hj hjp => ?_, fun _ => ?_⟩⟩
      · cases hx.symm.trans hj
        exact absurd (hp.symm.trans hjp) (Option.some_ne_none _).symm
      · refine ⟨?_, state, outcome⟩
        rw [queue, core.queue, hr.queue, hq]
    | some p =>
      have notRoot : x ≠ e.root := ht.ne_root hx hp
      cases hc : j.faultCallback with
      | some tag =>
        dsimp only
        refine ⟨x, ⟨hw, .inr ⟨j, hx, by rw [hc]; rfl⟩, unhandled⟩,
          ⟨razed.of_same rfl rfl rfl rfl rfl rfl rfl rfl, fun hj hjp => ?_, fun h => absurd h notRoot⟩⟩
        cases hx.symm.trans hj
        cases hp.symm.trans hjp
        refine ⟨tag, hc, ?_, hr.state.trans hst, hr.outcome.trans ho⟩
        rw [← hq, ← hr.queue]
        rfl
      | none =>
        obtain ⟨parent, hrp, hrl, -⟩ := parent_live ht hx hp
        have hpx : ¬ Within e.instances x p := fun hw' => hw'.not_under_of_above ht (.child hx hp)
        have hpr : r.instances[p]? = some parent := by
          rw [razed.others hpx]
          exact hrp
        refine ih (hr.tree htm) (hr.owned hom) hrp hpr hrl (hr.definition ▸ hf) ?_
          (hr.queue.trans hq) (hr.state.trans hst) (hr.outcome.trans ho)
          (.inr ?_) (fun {k l} hu hki hk => ?_) fun hsp => razed.step hx hp ht hw hsp
        · refine Nat.le_of_lt_succ (Nat.lt_of_le_of_lt (InstanceTable.countUpTo_mono ?_ p)
            (Nat.lt_of_lt_of_le (InstanceTable.countUpTo_lt hxm (ht.older hx hp)) hn))
          intro k l hk
          obtain ⟨-, ⟨rfl, -⟩ | ⟨-, hk⟩⟩ := hr.lookup_cases hk
          · exact ⟨j, hxm⟩
          · exact ⟨l, hk⟩
        · exact hw.under_parent hx hp
        · rcases Within.of_way ht hx hp hw hu hki with rfl | hkx
          · cases hx.symm.trans hk
            exact hc
          · exact unhandled hkx hki hk

/-- A fault of a live instance stops where it is caught. -/
theorem faultInstance_contained (ht : IsTree e.definition e.root e.nextInstance e.instances)
    (how : e.Owned) (hl : e.isLive i = true) (hf : (e.definition.get? fault.sourceNode).isSome = true) :
    ∃ f, Catches e i f ∧ Contained e i f fault (e.faultInstance i fault) := by
  obtain ⟨j, hj, hjl⟩ := isLive_iff.mp hl
  refine propagate_contained e.instances.size ht how ht how hj hj hjl hf
    (InstanceTable.countUpTo_le _ i) rfl rfl rfl (.refl _ i) (fun hu hw _ => ?_) Struck.razed
  exact absurd hu (hw.not_under_of_above ht)

/-- At any moment a fault of a live instance stops at one place. What is below that place leaves, with
all that it owned, and those of it are told, children first, that had not ended and are not on the way
of the fault. Nothing else changes but that the handler will be asked, or that the workflow has ended
with the fault. -/
theorem fault_contained {m : Moment} (h : m.Occurs) (hl : m.executor.isLive i = true)
    (hf : (m.executor.definition.get? fault.sourceNode).isSome = true) :
    ∃ f, (∀ g, Catches m.executor i g ↔ g = f) ∧
      Contained m.executor i f fault (m.executor.faultInstance i fault) := by
  obtain ⟨j, hj, -⟩ := isLive_iff.mp hl
  have tree := h.sound.tree hj
  obtain ⟨f, catches, contained⟩ := faultInstance_contained tree h.sound.owned hl hf
  refine ⟨f, fun g => ⟨fun hg => hg.unique tree catches, fun hg => ?_⟩, contained⟩
  rw [hg]
  exact catches

/-- The fault of one of two activities that wait side by side ends both. -/
theorem fault_contained_pair : waitingPair.isLive ⟨2⟩ = true ∧
    ∃ f, (∀ g, Catches waitingPair ⟨2⟩ g ↔ g = f) ∧
      Contained waitingPair ⟨2⟩ f (.terminated "stop" ⟨2⟩ .root "stop")
        (waitingPair.faultInstance ⟨2⟩ (.terminated "stop" ⟨2⟩ .root "stop")) := by
  have live : waitingPair.isLive ⟨2⟩ = true := by decide +kernel
  exact ⟨live, fault_contained (m := .between waitingPair) reachable_waitingPair.occurs live rfl⟩

end Workflow.Executor
