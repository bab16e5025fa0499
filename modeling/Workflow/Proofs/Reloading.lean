import Workflow.Proofs.Waiting

/-!
# Reloaded workflows

A workflow is reloaded with a definition that is alike. Its instances come back as they were, except
that the error of a fault is one message then. A workflow comes back if and only if every bookmark is
in a scope that is still there.
-/

namespace Workflow

/-- A fault whose error is one message with all causes. -/
def Fault.flattened (f : Fault) : Fault :=
  { f with error := .custom f.error.describe [] }

/-- An instance whose fault is flattened. -/
def Instance.flattened (i : Instance) : Instance :=
  { i with fault := i.fault.map Fault.flattened }

/-- An outcome whose fault is flattened. -/
def Outcome.flattened : Outcome → Outcome
  | faulted f => faulted f.flattened
  | o => o

/-- Only a faulted instance changes when its fault is flattened. -/
theorem Instance.Sound.flattened_eq {d : Definition} {i : Instance} (h : i.Sound d)
    (hs : i.state ≠ .faulted) : i.flattened = i := by
  have hf : i.fault = none := by
    cases hf : i.fault with
    | none => rfl
    | some f => exact absurd (h.faulted.mp (by rw [hf]; rfl)) hs
  rw [Instance.flattened, hf]
  cases i
  cases hf
  rfl

/-- A flattened instance has the record of the instance. -/
theorem Instance.record_flattened {d d' : Definition} (ha : d.Alike d') (i : Instance) :
    i.flattened.record d' = i.record d := by
  have hf : ∀ f : Fault, f.flattened.record d' = f.record d := by
    intro f
    rw [Fault.record, Fault.record, Fault.flattened, ha.path]
    rfl
  rw [Instance.record, Instance.record, Instance.flattened, Option.map_map, ha.path]
  simp only [Function.comp_def, hf]

/-- A path of the definition leads to its node in a definition that is alike. -/
theorem Definition.Alike.resolvePath {d d' : Definition} (ha : d.Alike d') (hw : d.WellFormed)
    {k : NodeId} (hk : (d.get? k).isSome = true) : d'.resolvePath (d.node k).path = .ok k := by
  obtain ⟨n, hn⟩ := Option.isSome_iff_exists.mp hk
  have hf : d'.findByPath? (d.node k).path = some k := by
    rw [← ha.findByPath?, Definition.node, hn, Option.getD_some]
    exact hw.findByPath?_path hn
  rw [Definition.resolvePath, hf]

/-- An instance comes back in a definition that is alike, with its fault flattened. -/
theorem Instance.Sound.recast_eq {d d' : Definition} {i : Instance} (h : i.Sound d)
    (hw : d.WellFormed) (ha : d.Alike d') : i.recast d d' = .ok i.flattened := by
  have hf : (i.fault.mapM fun f => (f.record d).restore d') =
      (.ok (i.fault.map Fault.flattened) : Except PersistenceError (Option Fault)) := by
    cases hif : i.fault with
    | none => rfl
    | some f =>
      have hr : (f.record d).restore d' = .ok f.flattened := by
        unfold FaultRecord.restore Fault.record
        dsimp only
        rw [ha.resolvePath hw (h.sourced f hif)]
        rfl
      rw [Option.mapM_some, hr]
      rfl
  unfold Instance.recast
  rw [ha.resolvePath hw h.known, hf]
  rfl

namespace Activity

/-- An activity that has a scope and waits outside it. -/
def scopeKeeper (name : String) : Activity :=
  ofNative name { execute := do
    discard <| Program.scheduling .createScope
    discard <| Program.scheduling (.createBookmark name none none .once) } []

/-- An activity that waits in the scope that was created last. -/
def scopeGuest (name : String) : Activity :=
  ofNative name { execute := do
    let scope ← Program.scheduling .latestScope
    discard <| Program.scheduling (.createBookmark name scope none .once) } []

end Activity

namespace Executor

variable {e r : Executor} {d : Definition} {s : Snapshot} {u : InstanceTable} {now : Timestamp}
variable {mailbox : Nat}

/-- What comes back in a definition that is alike. -/
theorem lookup_returned (ht : IsTree e.definition e.root e.nextInstance e.instances)
    (ha : e.definition.Alike d) (h : Returned e d u) (k : InstanceId) :
    u[k]? = (e.instances[k]?).map Instance.flattened := by
  cases hi : e.instances[k]? with
  | none =>
    cases hj : u[k]? with
    | none => rfl
    | some j =>
      obtain ⟨i, hi', -⟩ := h.back hj
      exact absurd (hi.symm.trans hi') (Option.some_ne_none i).symm
  | some i =>
    obtain ⟨j, hj, hij⟩ := h.forth hi
    rw [(ht.sound hi).recast_eq ht.runnable.wellFormed ha] at hij
    cases hij
    exact hj

/-- The captured bookmarks are the registered ones. -/
theorem bookmarks_of_capture (hc : e.capture now = .ok s) : s.bookmarks = e.bookmarks.toList := by
  obtain ⟨-, l, -, -, rfl⟩ := of_capture hc
  rfl

/-- The instances of a captured executor come back in a definition that is alike. -/
theorem Regular.restoreInstances_ok (h : e.Regular) (hc : e.capture now = .ok s)
    (ha : e.definition.Alike d) : ∃ u, s.restoreInstances d = .ok u ∧ Returned e d u := by
  have ht := h.tree_of_capture hc
  have back : ∀ {k : InstanceId} {i : Instance}, e.instances[k]? = some i →
      i.recast e.definition d = .ok i.flattened :=
    fun hi => (ht.sound hi).recast_eq ht.runnable.wellFormed ha
  obtain ⟨u, hu⟩ := exists_restoreInstances (d := d) ht hc (fun hi => ⟨_, back hi⟩) (by
    intro k p i q j o hi hp hq hj ho
    rw [back hi] at hj
    rw [back hq] at ho
    cases hj
    cases ho
    have hd := ht.declared hi hp hq
    exact (ha.isDeclaredChild q.node i.node).symm.trans hd)
  exact ⟨u, hu, .of_restoreInstances ht hc hu⟩

/-- The scopes that bookmarks are in exist if and only if they are captured with the bookmarks. -/
theorem scopeExists_iff_captured (hc : e.capture now = .ok s) :
    (∀ g ∈ e.bookmarks.toList, e.bookmarks.scopeExists g.bookmark.scope = true) ↔
      ∀ b ∈ s.bookmarks, ∀ id, b.bookmark.scope = .named id → ∃ sc ∈ s.scopes, sc.id = id := by
  obtain ⟨-, l, -, -, rfl⟩ := of_capture hc
  refine forall₂_congr fun b _ => ?_
  cases b.bookmark.scope with
  | default => exact ⟨fun _ _ h => (nomatch h), fun _ => rfl⟩
  | named id =>
    rw [Registry.scopeExists, Std.ExtTreeMap.contains_eq_isSome_getElem?, Option.isSome_iff_exists]
    constructor
    · rintro ⟨o, ho⟩ _ ⟨⟩
      exact ⟨⟨id, o⟩, List.mem_map.mpr
        ⟨(id, o), e.bookmarks.scopes.mem_toList_iff_getElem?_eq_some.mpr ho, rfl⟩, rfl⟩
    · intro h
      obtain ⟨sc, hsc, rfl⟩ := h id rfl
      obtain ⟨⟨id, o⟩, hm, rfl⟩ := List.mem_map.mp hsc
      exact ⟨o, e.bookmarks.scopes.mem_toList_iff_getElem?_eq_some.mp hm⟩

/-- What is captured may be restored in a definition that is alike. -/
theorem Regular.ensureRestorable_ok (h : e.Regular) (hc : e.capture now = .ok s)
    (ha : e.definition.Alike d) : s.ensureRestorable d = .ok () := by
  have running : ¬ (e.state = .runnable ∨ e.state = .aborted) := by
    rcases (h.of_capture hc).1 with hw | hf
    · rw [hw.state]
      decide
    · exact not_or.mpr ⟨hf.state_ne rfl, hf.state_ne rfl⟩
  obtain ⟨-, l, -, -, rfl⟩ := Executor.of_capture hc
  have hf : e.definition.fingerprint = d.fingerprint := ha.fingerprint
  rw [Snapshot.ensureRestorable, if_neg (not_not.mpr hf), if_neg running]

/-- A captured workflow comes back if and only if the scopes of its bookmarks exist. -/
theorem Regular.restores_iff (h : e.Regular) (hc : e.capture now = .ok s)
    (ha : e.definition.Alike d) (mailbox : Nat) : (∃ r, s.restore d mailbox = .ok r) ↔
      ∀ g ∈ e.bookmarks.toList, e.bookmarks.scopeExists g.bookmark.scope = true := by
  have ht := h.tree_of_capture hc
  have hown := h.owned
  have hrest := h.ensureRestorable_ok hc ha
  obtain ⟨u, hu, hret⟩ := h.restoreInstances_ok hc ha
  have keyed : ∀ {k : InstanceId} {j : Instance}, u[k]? = some j → j.id = k := by
    intro k j hj
    obtain ⟨i, node, fault, hi, -, rfl⟩ := hret.cases hj
    exact (ht.keyed hi : i.id = k)
  have registry := fun g => Snapshot.restoreRegistry_eq_ok (g := g) hc hown hret keyed
  rw [bookmarks_of_capture hc] at registry
  constructor
  · rintro ⟨r, hr⟩
    obtain ⟨-, r₀, hr₀, -⟩ := Snapshot.restore_eq_ok.mp hr
    obtain ⟨-, u', root, g, hu', -, -, -, hg, -⟩ := Snapshot.restoreExecutor_eq_ok.mp hr₀
    cases hu.symm.trans hu'
    exact ((registry g).mp hg).1
  · intro hs
    obtain ⟨root, hroot, hp, hn⟩ := ht.rooted
    have hroot' : u[s.root]? = some root.flattened := by
      obtain ⟨-, l, -, -, rfl⟩ := Executor.of_capture hc
      change u[e.root]? = _
      rw [lookup_returned ht ha hret, hroot]
      rfl
    exact ⟨_, Snapshot.restore_eq_ok.mpr ⟨(ha.runnable ht.runnable).valid, _,
      Snapshot.restoreExecutor_eq_ok.mpr
        ⟨hrest, u, _, _, hu, hroot', hp, hn, (registry _).mpr ⟨hs, rfl⟩, rfl⟩, rfl⟩⟩

/-- A captured workflow can be restored with a definition that is alike if and only if the scope of
every captured bookmark is among the captured scopes. -/
theorem Reachable.restorable_iff (h : e.Reachable) (hc : e.capture now = .ok s)
    (ha : e.definition.Alike d) (mailbox : Nat) :
    (∃ r, s.restore d mailbox = .ok r) ↔
      ∀ b ∈ s.bookmarks, ∀ id, b.bookmark.scope = .named id → ∃ sc ∈ s.scopes, sc.id = id :=
  (h.regular.restores_iff hc ha mailbox).trans (scopeExists_iff_captured hc)

/-- An image that is there. -/
theorem exists_captured (h : (e.capture now).toOption.isSome = true) : ∃ s, e.capture now = .ok s := by
  cases hc : e.capture now with
  | ok s => exact ⟨s, rfl⟩
  | error _ =>
    rw [hc] at h
    exact absurd h Bool.false_ne_true

/-- Two activities that wait side by side come back. -/
theorem restorable_pair : ∃ s r, waitingPair.capture ⟨0, 0⟩ = .ok s ∧
    s.restore waitingPair.definition 1 = .ok r := by
  obtain ⟨s, hc⟩ : ∃ s, waitingPair.capture ⟨0, 0⟩ = .ok s := exists_captured (by decide +kernel)
  have hb := (scopeExists_iff_captured hc).mp (by decide +kernel)
  obtain ⟨r, hr⟩ := (reachable_waitingPair.restorable_iff hc (.refl _) 1).mpr hb
  exact ⟨s, r, hc, hr⟩

/-- Two activities that waited side by side, the second in a scope of the first, after the first has
completed. -/
def orphaned : Executor :=
  (ExecutorCall.converse (begun (.parallel [.scopeKeeper "keeper", .scopeGuest "guest"]))
    [.run 5, .resumeBookmark ⟨.default, "keeper"⟩ .null .normal, .run 5]).2

/-- The second waits in a scope that is gone, so the workflow is captured and does not come back. -/
theorem not_restorable_orphaned : orphaned.Reachable ∧ ∃ s, orphaned.capture ⟨0, 0⟩ = .ok s ∧
    ∀ r, s.restore orphaned.definition 1 ≠ .ok r := by
  have h : orphaned.Reachable := (Reachable.begun rfl rfl).converse _
  obtain ⟨s, hc⟩ : ∃ s, orphaned.capture ⟨0, 0⟩ = .ok s := exists_captured (by decide +kernel)
  have gone : ¬ ∀ g ∈ orphaned.bookmarks.toList,
    orphaned.bookmarks.scopeExists g.bookmark.scope = true := by decide +kernel
  exact ⟨h, s, hc, fun r hr => gone ((h.regular.restores_iff hc (.refl _) 1).mp ⟨r, hr⟩)⟩

/-! ### What comes back -/

/-- A traversal by a function whose results are changed. -/
theorem mapM_except_map {ε α β : Type} (f : α → Except ε β) (g : β → β) (as : List α) :
    as.mapM (fun a => (f a).map g) = (as.mapM f).map (List.map g) := by
  induction as with
  | nil => rfl
  | cons a rest ih =>
    rw [List.mapM_cons, List.mapM_cons, ih]
    cases f a with
    | error _ => rfl
    | ok b => cases rest.mapM f <;> rfl

/-- What comes back is listed in the same order. -/
theorem listDown_flattened (hu : ∀ k : InstanceId,
      r.instances[k]? = (e.instances[k]?).map Instance.flattened) (n : Nat) (k : InstanceId) :
    r.listDown n k = (e.listDown n k).map (List.map Instance.flattened) := by
  induction n generalizing k with
  | zero => rfl
  | succ n ih =>
    unfold listDown
    rw [instance?, instance?, hu]
    cases e.instances[k]? with
    | none => rfl
    | some i =>
      have hf : r.listDown n = fun k => (e.listDown n k).map (List.map Instance.flattened) :=
        funext ih
      rw [Option.map_some]
      dsimp only
      rw [hf, Instance.flattened, mapM_except_map]
      cases i.children.mapM (e.listDown n) with
      | error _ => rfl
      | ok below =>
        refine congrArg (fun l => Except.ok (i.flattened :: l)) ?_
        exact List.map_flatten.symm

/-- The end of a workflow that comes back is the same, with its fault flattened. -/
theorem ending?_returned (mailbox : Nat) (ha : e.definition.Alike d)
    (hu : ∀ k : InstanceId, u[k]? = (e.instances[k]?).map Instance.flattened) :
    (e.returned d u mailbox).ending? = e.ending?.map fun p => (p.1, p.2.1.flattened, p.2.2) := by
  have hr : (e.returned d u mailbox).instance? e.root = (e.instance? e.root).map Instance.flattened :=
    hu e.root
  have ho : (e.returned d u mailbox).outputs = e.outputs := by
    have harg : d.root.arguments = e.definition.root.arguments :=
      (ha.apply_root (f := (·.arguments)) fun _ => rfl).symm
    have hroot : (e.returned d u mailbox).root = e.root := rfl
    unfold outputs
    rw [hroot, hr]
    cases e.instance? e.root with
    | none => rfl
    | some i =>
      change (d.root.arguments.filter _).foldl _ _ = _
      rw [harg]
      rfl
  unfold ending?
  change ((e.returned d u mailbox).instance? e.root).bind _ = _
  rw [hr, ho]
  cases e.instance? e.root with
  | none => rfl
  | some i =>
    have hs : i.flattened.state = i.state := rfl
    rw [Option.map_some, Option.bind_some, Option.bind_some, hs]
    cases i.state with
    | faulted =>
      rw [Instance.flattened]
      dsimp only
      rw [Option.map_map, Option.map_map]
      rfl
    | _ => rfl

/-- An executor is what another one comes back as. -/
structure Reloaded (e : Executor) (d : Definition) (r : Executor) : Prop where
  workflow : r.workflow = e.workflow
  definition : r.definition = d
  /-- Instances are as they were, with the faults flattened. -/
  instances : r.instances = e.instances.map fun _ i => i.flattened
  nextInstance : r.nextInstance = e.nextInstance
  root : r.root = e.root
  /-- Nothing is queued, as nothing was. -/
  queue : r.queue.work = []
  /-- Bookmarks and scopes are as they were. -/
  bookmarks : r.bookmarks = e.bookmarks
  operations : r.operations = e.operations
  nextOperation : r.nextOperation = e.nextOperation
  state : r.state = e.state
  /-- The outcome is as it was, with its fault flattened. -/
  outcome : r.outcome = e.outcome.map Outcome.flattened

/-- What a workflow comes back as in a definition that is alike. -/
theorem Regular.reloaded (h : e.Regular) (hc : e.capture now = .ok s) (ha : e.definition.Alike d)
    (hr : s.restore d mailbox = .ok r) : Reloaded e d r := by
  have ht := h.tree_of_capture hc
  obtain ⟨u, hret, -, rfl⟩ := h.of_restore hc hr
  have hu := lookup_returned ht ha hret
  have hi : u = e.instances.map fun _ i => i.flattened := by
    refine Std.ExtTreeMap.ext_getElem? fun k => ?_
    rw [hu, Std.ExtTreeMap.getElem?_map]
  obtain ⟨hrf, -, ho⟩ := h.of_capture hc
  rcases hrf with hr | hf
  · have hn : e.state.isCompleted = false := by
      rw [hr.state]
      rfl
    rw [hn, if_neg Bool.false_ne_true]
    refine ⟨rfl, rfl, hi, rfl, rfl, rfl, rfl, ho.symm, rfl, rfl, ?_⟩
    rw [show e.outcome = none from hr.consistent.opened]
    rfl
  · rw [hf.isCompleted, if_pos rfl]
    obtain ⟨o, event, he, hout⟩ := hf.ending
    have hend := ending?_returned mailbox ha hu
    rw [he, Option.map_some] at hend
    unfold finishWorkflow
    rw [hend]
    refine ⟨rfl, rfl, hi, rfl, rfl, rfl, rfl, ho.symm, rfl, rfl, ?_⟩
    rw [hout]
    rfl

namespace Reloaded

variable (hl : Reloaded e d r)
include hl

/-- Only the fault of a faulted workflow comes back changed. -/
theorem instances_eq (h : e.Regular) (hc : e.capture now = .ok s) (hs : e.state ≠ .faulted) :
    r.instances = e.instances := by
  have ht := h.tree_of_capture hc
  rw [hl.instances]
  refine Std.ExtTreeMap.ext_getElem? fun k => ?_
  rw [Std.ExtTreeMap.getElem?_map]
  cases hi : e.instances[k]? with
  | none => rfl
  | some i =>
    refine congrArg some ((ht.sound hi).flattened_eq fun hf => ?_)
    rcases (h.of_capture hc).1 with hr | hfin
    · have hlive := (hr.live_executed hi).1
      rw [hf] at hlive
      exact absurd hlive Bool.false_ne_true
    · obtain ⟨o, event, he, -⟩ := hfin.ending
      cases hfin.eq_root hi
      rw [ending?, Executor.instance?, hi, Option.bind_some, hf] at he
      obtain ⟨f, -, hst⟩ := Option.map_eq_some_iff.mp he
      exact hs (Prod.mk.inj hst).1.symm

/-- What comes back can be captured again, and the image is the same but for its time. -/
theorem capture (h : e.Regular) (hc : e.capture now = .ok s) (ha : e.definition.Alike d)
    (later : Timestamp) : r.capture later = .ok { s with createdAt := later } := by
  have hwork := (h.of_capture hc).2.1
  obtain ⟨hok, l, hlist, hlen, rfl⟩ := of_capture hc
  have hu : ∀ k : InstanceId, r.instances[k]? = (e.instances[k]?).map Instance.flattened := by
    intro k
    rw [hl.instances, Std.ExtTreeMap.getElem?_map]
  have hsize : r.instances.size = e.instances.size := by
    rw [hl.instances, Std.ExtTreeMap.size_map]
  have hok' : r.ensureCapturable = .ok () := by
    unfold ensureCapturable at hok ⊢
    rw [WorkQueue.isEmpty_iff.mpr hwork] at hok
    rw [WorkQueue.isEmpty_iff.mpr hl.queue, hl.state, hl.operations]
    simp only [Bool.not_true, Bool.false_eq_true, if_false] at hok ⊢
    exact hok
  have hlist' : r.listDown (r.instances.size + 1) r.root = .ok (l.map Instance.flattened) := by
    rw [hsize, hl.root, listDown_flattened hu, hlist]
    rfl
  have hrec : (l.map Instance.flattened).map (·.record d) = l.map (·.record e.definition) := by
    rw [List.map_map]
    exact List.map_congr_left fun i _ => Instance.record_flattened ha i
  unfold Executor.capture
  rw [hok', hlist']
  simp only [bind, Except.bind, pure, Except.pure, List.length_map, hlen, hsize, ne_eq,
    not_true_eq_false, if_false, hl.workflow, hl.definition, hl.state, hl.nextInstance,
    hl.nextOperation, hl.root, hl.bookmarks, hrec, ha.fingerprint]

end Reloaded

end Executor

end Workflow
