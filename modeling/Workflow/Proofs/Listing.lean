import Workflow.Proofs.Descent
import Workflow.Snapshot.Capture

/-!
# What a capture lists

A capture lists the instances depth first. It lists every instance once, and the children of an
instance stand in the list in the order in which they were scheduled.
-/

namespace Workflow.Executor

variable {e : Executor} {x k : InstanceId} {i j : Instance} {l : List Instance} {n : Nat}

/-- A traversal gives one result for each item, in order. -/
theorem forall₂_of_mapM {ε α β : Type} {f : α → Except ε β} {as : List α} {bs : List β}
    (h : as.mapM f = .ok bs) : List.Forall₂ (fun a b => f a = .ok b) as bs := by
  induction as generalizing bs with
  | nil =>
    cases h
    exact .nil
  | cons a rest ih =>
    rw [List.mapM_cons] at h
    cases ha : f a with
    | error _ =>
      rw [ha] at h
      cases h
    | ok b =>
      cases hr : rest.mapM f with
      | error _ =>
        rw [ha, hr] at h
        cases h
      | ok bs₁ =>
        rw [ha, hr] at h
        cases h
        exact .cons ha (ih hr)

/-- The list of a subtree is its instance and then the lists of the children. -/
theorem of_listDown (h : e.listDown n x = .ok l) :
    ∃ m i below, n = m + 1 ∧ e.instances[x]? = some i ∧ l = i :: below.flatten ∧
      List.Forall₂ (fun c b => e.listDown m c = .ok b) i.children below := by
  cases n with
  | zero => cases h
  | succ m =>
    unfold listDown at h
    cases hx : e.instance? x with
    | none =>
      rw [hx] at h
      cases h
    | some i =>
      rw [hx] at h
      dsimp only at h
      cases hb : i.children.mapM (e.listDown m) with
      | error _ =>
        rw [hb] at h
        cases h
      | ok below =>
        rw [hb] at h
        cases h
        exact ⟨m, i, below, rfl, hx, rfl, forall₂_of_mapM hb⟩

/-- What is related item by item to a list has items for each of its members. -/
theorem exists_of_forall₂ {α β : Type} {R : α → β → Prop} {as : List α} {bs : List β}
    (h : List.Forall₂ R as bs) :
    (∀ a ∈ as, ∃ b ∈ bs, R a b) ∧ ∀ b ∈ bs, ∃ a ∈ as, R a b := by
  induction h with
  | nil => exact ⟨fun _ ha => absurd ha List.not_mem_nil, fun _ hb => absurd hb List.not_mem_nil⟩
  | @cons a b as bs hab _ ih =>
    refine ⟨fun c hc => ?_, fun c hc => ?_⟩
    · rcases List.mem_cons.mp hc with rfl | hc
      · exact ⟨b, List.mem_cons_self, hab⟩
      · obtain ⟨d, hd, hcd⟩ := ih.1 c hc
        exact ⟨d, List.mem_cons_of_mem b hd, hcd⟩
    · rcases List.mem_cons.mp hc with rfl | hc
      · exact ⟨a, List.mem_cons_self, hab⟩
      · obtain ⟨d, hd, hcd⟩ := ih.2 c hc
        exact ⟨d, List.mem_cons_of_mem a hd, hcd⟩

/-- A traversal in which nothing fails gives a result. -/
theorem exists_mapM {ε α β : Type} {f : α → Except ε β} {as : List α}
    (h : ∀ a ∈ as, ∃ b, f a = .ok b) : ∃ bs, as.mapM f = .ok bs := by
  induction as with
  | nil => exact ⟨[], rfl⟩
  | cons a rest ih =>
    obtain ⟨b, hb⟩ := h a List.mem_cons_self
    obtain ⟨bs, hbs⟩ := ih fun c hc => h c (List.mem_cons_of_mem a hc)
    refine ⟨b :: bs, ?_⟩
    rw [List.mapM_cons, hb, hbs]
    rfl

section Forest

variable {rank : InstanceId → Nat} (hf : IsForest rank e.instances)
include hf

/-- What is listed is in the table. -/
theorem lookup_of_mem_listDown (h : e.listDown n x = .ok l) (hj : j ∈ l) :
    e.instances[j.id]? = some j := by
  induction n generalizing x l with
  | zero => cases h
  | succ n ih =>
    obtain ⟨m, i, below, hm, hi, rfl, hb⟩ := of_listDown h
    cases hm
    rcases List.mem_cons.mp hj with rfl | hj
    · rw [hf.keyed hi]
      exact hi
    · obtain ⟨b, hbm, hjb⟩ := List.mem_flatten.mp hj
      obtain ⟨c, -, hc⟩ := (exists_of_forall₂ hb).2 b hbm
      exact ih hc hjb

/-- An instance is listed with all that is below it. -/
theorem mem_listDown (h : e.listDown n x = .ok l) (hk : k = x ∨ Under e.instances x k) :
    k ∈ l.map (·.id) := by
  induction n generalizing x l with
  | zero => cases h
  | succ n ih =>
    obtain ⟨m, i, below, hm, hi, rfl, hb⟩ := of_listDown h
    cases hm
    rw [List.map_cons]
    rcases hk with rfl | hk
    · rw [hf.keyed hi]
      exact List.mem_cons_self
    · obtain ⟨c, j, hj, hjx, hk⟩ := hk.split
      obtain ⟨q, hq, hcq⟩ := hf.listed hj hjx
      cases hi.symm.trans hq
      obtain ⟨b, hbm, hcb⟩ := (exists_of_forall₂ hb).1 c hcq
      obtain ⟨a, ha, hak⟩ := List.mem_map.mp (ih hcb hk)
      exact List.mem_cons_of_mem _
        (List.mem_map.mpr ⟨a, List.mem_flatten.mpr ⟨b, hbm, ha⟩, hak⟩)

/-- Each of some instances heads its own list. -/
theorem heads_sublist {ids : List InstanceId} {lists : List (List Instance)}
    (h : List.Forall₂ (fun c b => e.listDown n c = .ok b) ids lists) :
    ids.Sublist (lists.flatten.map (·.id)) := by
  induction h with
  | nil => exact List.nil_sublist _
  | cons hc _ ih =>
    obtain ⟨m, i, below, -, hi, rfl, -⟩ := of_listDown hc
    rw [List.flatten_cons, List.cons_append, List.map_cons, hf.keyed hi, List.map_append]
    exact (ih.trans (List.sublist_append_right _ _)).cons_cons _

/-- The children stand in the list in the order of scheduling. -/
theorem sublist_listDown (h : e.listDown n x = .ok l) (hj : j ∈ l) :
    j.children.Sublist (l.map (·.id)) := by
  induction n generalizing x l with
  | zero => cases h
  | succ n ih =>
    obtain ⟨m, i, below, hm, hi, rfl, hb⟩ := of_listDown h
    cases hm
    rw [List.map_cons]
    refine List.Sublist.cons _ ?_
    rcases List.mem_cons.mp hj with rfl | hj
    · exact heads_sublist hf hb
    · obtain ⟨b, hbm, hjb⟩ := List.mem_flatten.mp hj
      obtain ⟨c, -, hc⟩ := (exists_of_forall₂ hb).2 b hbm
      have hs : b.Sublist below.flatten := List.sublist_flatten_of_mem hbm
      exact (ih hc hjb).trans (hs.map _)

/-- An instance can be listed with all that is below it. -/
theorem exists_listDown (hi : e.instances[x]? = some i)
    (hn : InstanceTable.countFrom e.instances rank x ≤ n) : ∃ l, e.listDown n x = .ok l := by
  induction n generalizing x i with
  | zero => exact absurd (InstanceTable.countFrom_pos hi) (Nat.not_lt.mpr hn)
  | succ n ih =>
    obtain ⟨below, hb⟩ : ∃ below, i.children.mapM (e.listDown n) = .ok below := by
      refine exists_mapM fun c hc => ?_
      obtain ⟨j, hj, hjx⟩ := hf.linked hi hc
      exact ih hj (Nat.le_of_lt_succ (Nat.lt_of_lt_of_le
        (InstanceTable.countFrom_lt hi (hf.rising hj hjx)) hn))
    refine ⟨i :: below.flatten, ?_⟩
    unfold listDown
    rw [instance?, hi]
    dsimp only
    rw [hb]
    rfl

/-- The list of a subtree has those that the walk below its instance finds. -/
theorem perm_descend (h : e.listDown n x = .ok l) : (l.map (·.id)).Perm (e.descend n x) := by
  induction n generalizing x l with
  | zero => cases h
  | succ n ih =>
    obtain ⟨m, i, below, hm, hi, rfl, hb⟩ := of_listDown h
    cases hm
    have found : ∀ {ids : List InstanceId} {lists : List (List Instance)},
        List.Forall₂ (fun c b => e.listDown n c = .ok b) ids lists →
          (lists.flatten.map (·.id)).Perm (ids.flatMap (e.descend n)) := by
      intro ids lists hb
      induction hb with
      | nil => exact .nil
      | cons hc _ ihb =>
        rw [List.flatten_cons, List.map_append, List.flatMap_cons]
        exact (ih hc).append ihb
    unfold descend
    rw [instance?, hi, List.map_cons, hf.keyed hi]
    exact ((found hb).cons x).trans (List.perm_append_singleton x _).symm

/-- The list of a subtree has nothing twice. -/
theorem nodup_listDown (h : e.listDown n x = .ok l) : (l.map (·.id)).Nodup :=
  (perm_descend hf h).nodup_iff.mpr ((pairwise_descend hf n x).imp And.left)

/-- The list of a subtree has the instance and what is below it. -/
theorem mem_listDown_iff (h : e.listDown n x = .ok l) :
    k ∈ l.map (·.id) ↔ k = x ∨ Under e.instances x k :=
  ⟨fun hk => under_of_mem_descend hf n ((perm_descend hf h).mem_iff.mp hk), mem_listDown hf h⟩

end Forest

section Tree

variable (ht : IsTree e.definition e.root e.nextInstance e.instances)
include ht

/-- Everything is at the root or below it. -/
theorem under_root (hk : e.instances[k]? = some i) : k = e.root ∨ Under e.instances e.root k := by
  induction hn : k.number using Nat.strongRecOn generalizing k i with
  | _ n ih =>
    cases hp : i.parent with
    | none => exact .inl (ht.orphan hk hp)
    | some p =>
      obtain ⟨q, hq, -⟩ := ht.listed hk hp
      refine .inr ?_
      rcases ih p.number (hn ▸ ht.older hk hp) hq rfl with rfl | hu
      · exact .child hk hp
      · exact hu.trans (.child hk hp)

/-- The list from the root has every instance once. -/
theorem perm_listDown (h : e.listDown n e.root = .ok l) :
    (l.map (·.id)).Perm e.instances.keys := by
  have hd : (l.map (·.id)).Nodup := nodup_listDown ht.forest h
  refine (List.perm_ext_iff_of_nodup hd (Table.nodup_keys _)).mpr fun k => ?_
  rw [Table.mem_keys_iff]
  constructor
  · intro hk
    obtain ⟨j, hj, rfl⟩ := List.mem_map.mp hk
    exact ⟨j, lookup_of_mem_listDown ht.forest h hj⟩
  · rintro ⟨i, hi⟩
    exact mem_listDown ht.forest h (under_root ht hi)

/-- The instances that are listed as children of an instance are its children, in order. -/
theorem filter_listDown (h : e.listDown n e.root = .ok l) (hj : j ∈ l) :
    (l.filter (·.parent == some j.id)).map (·.id) = j.children := by
  have hd : (l.map (·.id)).Nodup := (perm_listDown ht h).nodup_iff.mpr (Table.nodup_keys _)
  have hs := sublist_listDown ht.forest h hj
  have hf : ((l.filter (·.parent == some j.id)).map (·.id)).Sublist (l.map (·.id)) :=
    List.filter_sublist.map _
  refine (hd.perm_iff_eq_of_sublist hf hs).mp ?_
  refine (List.perm_ext_iff_of_nodup (hf.nodup hd) (hs.nodup hd)).mpr fun c => ?_
  have hjj := lookup_of_mem_listDown ht.forest h hj
  rw [List.mem_map]
  constructor
  · rintro ⟨i, hi, rfl⟩
    obtain ⟨hi, hp⟩ := List.mem_filter.mp hi
    obtain ⟨q, hq, hc⟩ := ht.listed (lookup_of_mem_listDown ht.forest h hi) (beq_iff_eq.mp hp)
    cases hjj.symm.trans hq
    exact hc
  · intro hc
    obtain ⟨i, hi, hp⟩ := ht.linked hjj hc
    obtain ⟨a, ha, hac⟩ := List.mem_map.mp (mem_listDown ht.forest h (under_root ht hi))
    have hai := lookup_of_mem_listDown ht.forest h ha
    rw [hac, hi] at hai
    cases hai
    exact ⟨i, List.mem_filter.mpr ⟨ha, beq_iff_eq.mpr hp⟩, hac⟩

end Tree

/-- What a capture that succeeds has seen and what it gives. -/
theorem of_capture {now : Timestamp} {s : Snapshot} (h : e.capture now = .ok s) :
    e.ensureCapturable = .ok () ∧
      ∃ l, e.listDown (e.instances.size + 1) e.root = .ok l ∧ l.length = e.instances.size ∧
        s = {
          workflow := e.workflow
          fingerprint := e.definition.fingerprint
          state := e.state
          nextInstance := e.nextInstance
          nextOperation := e.nextOperation
          root := e.root
          instances := l.map (·.record e.definition)
          bookmarks := e.bookmarks.toList
          scopes := e.bookmarks.scopes.toList.map fun (id, owner) => ⟨id, owner⟩
          createdAt := now
          instanceCount := l.length
          bookmarkCount := e.bookmarks.size } := by
  unfold capture at h
  cases hc : e.ensureCapturable with
  | error _ =>
    rw [hc] at h
    cases h
  | ok =>
    refine ⟨rfl, ?_⟩
    cases hl : e.listDown (e.instances.size + 1) e.root with
    | error _ =>
      rw [hc, hl] at h
      cases h
    | ok l =>
      rw [hc, hl] at h
      by_cases hn : l.length = e.instances.size
      · refine ⟨l, rfl, hn, ?_⟩
        simp only [bind, Except.bind, ne_eq, hn, not_true_eq_false, if_false] at h
        cases h
        rw [hn]
      · simp only [bind, Except.bind, ne_eq, hn, not_false_eq_true, if_true] at h
        cases h

end Workflow.Executor
