import Workflow.Proofs.Tree
import Workflow.Executor.Basic

/-!
# What is below an instance

Descendants by the parent links, and the walk that lists them. The walk goes down to a given depth;
as the links lead to greater ranks, the number of instances is deep enough. In a tree the rank of an
instance is its number: children are younger than their parents.
-/

namespace Workflow

/-- The descendants of an instance. -/
inductive Under (t : InstanceTable) (x : InstanceId) : InstanceId → Prop
  /-- Its children. -/
  | child {k : InstanceId} {i : Instance} : t[k]? = some i → i.parent = some x → Under t x k
  /-- The children of its descendants. -/
  | deeper {k p : InstanceId} {i : Instance} :
    t[k]? = some i → i.parent = some p → Under t x p → Under t x k

namespace Under

variable {t : InstanceTable} {x p k : InstanceId}

theorem trans (h : Under t x p) (h' : Under t p k) : Under t x k := by
  induction h' with
  | child hk hp => exact .deeper hk hp h
  | deeper hk hp _ ih => exact .deeper hk hp ih

/-- A descendant is there. -/
theorem found (h : Under t x k) : ∃ i, t[k]? = some i := by
  cases h with
  | child hk _ => exact ⟨_, hk⟩
  | deeper hk _ _ => exact ⟨_, hk⟩

/-- The way down to a descendant begins at a child. -/
theorem split (h : Under t x k) :
    ∃ c i, t[c]? = some i ∧ i.parent = some x ∧ (k = c ∨ Under t c k) := by
  induction h with
  | child hk hp => exact ⟨_, _, hk, hp, .inl rfl⟩
  | deeper hk hp _ ih =>
    obtain ⟨c, i, hc, hi, rfl | hu⟩ := ih
    · exact ⟨_, _, hc, hi, .inr (.child hk hp)⟩
    · exact ⟨_, _, hc, hi, .inr (.deeper hk hp hu)⟩

/-- Of two instances above a third, one is above the other unless they are one. -/
theorem comparable {y : InstanceId} (h : Under t x k) (h' : Under t y k) :
    x = y ∨ Under t x y ∨ Under t y x := by
  induction h with
  | child hk hp =>
    cases h' with
    | child hk' hp' =>
      cases hk.symm.trans hk'
      exact .inl (Option.some.inj (hp.symm.trans hp'))
    | deeper hk' hp' hu =>
      cases hk.symm.trans hk'
      cases hp.symm.trans hp'
      exact .inr (.inr hu)
  | deeper hk hp hu ih =>
    cases h' with
    | child hk' hp' =>
      cases hk.symm.trans hk'
      cases hp.symm.trans hp'
      exact .inr (.inl hu)
    | deeper hk' hp' hu' =>
      cases hk.symm.trans hk'
      cases hp.symm.trans hp'
      exact ih hu'

end Under

/-- A table whose links from parents to children and back agree and lead to greater ranks. -/
structure IsForest (rank : InstanceId → Nat) (t : InstanceTable) : Prop where
  /-- Instances stand under their identifiers. -/
  keyed : ∀ {k : InstanceId} {i : Instance}, t[k]? = some i → i.id = k
  /-- An instance has a child once. -/
  nodup : ∀ {k : InstanceId} {i : Instance}, t[k]? = some i → i.children.Nodup
  /-- A parent is there and has the child. -/
  listed : ∀ {k p : InstanceId} {i : Instance}, t[k]? = some i → i.parent = some p →
    ∃ q, t[p]? = some q ∧ k ∈ q.children
  /-- A child is there and has the parent. -/
  linked : ∀ {p c : InstanceId} {q : Instance}, t[p]? = some q → c ∈ q.children →
    ∃ i, t[c]? = some i ∧ i.parent = some p
  /-- A child has a greater rank than its parent. -/
  rising : ∀ {k p : InstanceId} {i : Instance}, t[k]? = some i → i.parent = some p →
    rank p < rank k

/-- A tree is a forest. -/
theorem IsTree.forest {d : Definition} {root : InstanceId} {next : Nat} {t : InstanceTable}
    (h : IsTree d root next t) : IsForest InstanceId.number t where
  keyed := h.keyed
  nodup hi := (h.sound hi).nodup
  listed := h.listed
  linked := h.linked
  rising := h.older

namespace IsForest

variable {rank : InstanceId → Nat} {t : InstanceTable} {x p k : InstanceId} {i : Instance}

/-- A descendant has a greater rank. -/
theorem lt_of_under (h : IsForest rank t) (hu : Under t x k) : rank x < rank k := by
  induction hu with
  | child hk hp => exact h.rising hk hp
  | deeper hk hp _ ih => exact Nat.lt_trans ih (h.rising hk hp)

/-- A child is not below another child of its parent. -/
theorem not_under_sibling (h : IsForest rank t) {a b : InstanceId} {j : Instance}
    (ha : t[a]? = some i) (hp : i.parent = some p) (hb : t[b]? = some j)
    (hq : j.parent = some p) : ¬ Under t a b := by
  intro hu
  have hpa := h.rising ha hp
  cases hu with
  | child hb' hp' =>
    cases hb.symm.trans hb'
    cases hq.symm.trans hp'
    exact Nat.lt_irrefl _ hpa
  | deeper hb' hp' hu =>
    cases hb.symm.trans hb'
    cases hq.symm.trans hp'
    exact Nat.lt_asymm hpa (h.lt_of_under hu)

/-- What is at or below a child is neither at nor above what is at or below another child. -/
theorem apart (h : IsForest rank t) {a b l : InstanceId} {j : Instance}
    (ha : t[a]? = some i) (hp : i.parent = some p) (hb : t[b]? = some j)
    (hq : j.parent = some p) (hab : a ≠ b) (hk : k = a ∨ Under t a k) (hl : l = b ∨ Under t b l) :
    k ≠ l ∧ ¬ Under t k l := by
  have hn := h.not_under_sibling ha hp hb hq
  have hn' := h.not_under_sibling hb hq ha hp
  have below : ¬ Under t a l := by
    intro hu
    rcases hl with rfl | hl
    · exact hn hu
    · rcases hu.comparable hl with he | hu | hu
      · exact hab he
      · exact hn hu
      · exact hn' hu
  constructor
  · rintro rfl
    rcases hk with rfl | hu
    · exact hl.elim hab fun hu => hn' hu
    · exact below hu
  · intro hu
    rcases hk with rfl | hk
    · exact below hu
    · exact below (hk.trans hu)

end IsForest

namespace IsTree

variable {d : Definition} {root : InstanceId} {next : Nat} {t : InstanceTable}
variable {x p k : InstanceId} {i : Instance}

/-- A descendant is younger. -/
theorem lt_of_under (h : IsTree d root next t) (hu : Under t x k) : x.number < k.number :=
  h.forest.lt_of_under hu

/-- The descendants of an instance may leave. -/
theorem prunable_under (h : IsTree d root next t) (x : InstanceId) :
    Prunable t root x (Under t x) where
  keeps hu := Nat.lt_irrefl _ (h.lt_of_under hu)
  keeps_root hu := by
    cases hu with
    | child hk hp => exact h.ne_root hk hp rfl
    | deeper hk hp _ => exact h.ne_root hk hp rfl
  down hk hp hu := .deeper hk hp hu
  up {k p i} hk hp hu := by
    cases hu with
    | child hk' hp' =>
      cases hk.symm.trans hk'
      exact .inr (Option.some.inj (hp.symm.trans hp'))
    | deeper hk' hp' hu' =>
      cases hk.symm.trans hk'
      exact .inl (Option.some.inj (hp.symm.trans hp') ▸ hu')

end IsTree

/-- An instance stands at or below another. -/
def Within (t : InstanceTable) (x k : InstanceId) : Prop :=
  k = x ∨ Under t x k

namespace Within

variable {d : Definition} {root : InstanceId} {next : Nat} {t : InstanceTable} {x p k : InstanceId}
variable {i : Instance}

theorem refl (t : InstanceTable) (x : InstanceId) : Within t x x :=
  .inl rfl

/-- Who stands at or below a child stands below its parent. -/
theorem under_parent (h : Within t x k) (hi : t[x]? = some i) (hp : i.parent = some p) :
    Under t p k := by
  have hx : Under t p x := .child hi hp
  rcases h with rfl | hu
  · exact hx
  · exact hx.trans hu

/-- Who is above an instance is not below it. -/
theorem not_under_of_above (ht : IsTree d root next t) (h : Within t x k) : ¬ Under t k x := by
  intro hu
  rcases h with rfl | hk
  · exact Nat.lt_irrefl _ (ht.lt_of_under hu)
  · exact Nat.lt_asymm (ht.lt_of_under hk) (ht.lt_of_under hu)

/-- In a tree everything stands at or below the root. -/
theorem of_root (ht : IsTree d root next t) (hi : t[k]? = some i) : Within t root k := by
  obtain ⟨n, hn⟩ : ∃ n, n = k.number := ⟨_, rfl⟩
  induction n using Nat.strongRecOn generalizing k i with
  | ind n ih =>
    cases hp : i.parent with
    | none => exact .inl (ht.orphan hi hp)
    | some p =>
      obtain ⟨q, hq, -⟩ := ht.listed hi hp
      have older := ht.older hi hp
      rcases ih p.number (by omega) hq rfl with rfl | hu
      · exact .inr (.child hi hp)
      · exact .inr (.deeper hi hp hu)

/-- On the way up from an instance nothing stands between a child and its parent. -/
theorem of_way (ht : IsTree d root next t) {c y : InstanceId} (hc : t[c]? = some i)
    (hp : i.parent = some p) (h : Within t c y) (hk : Under t p k) (hky : Within t k y) :
    Within t c k := by
  have not_between : ¬ Under t k c := by
    intro hu
    have hkp : Within t k p := by
      cases hu with
      | child hc' hp' =>
        cases hc.symm.trans hc'
        exact .inl (Option.some.inj (hp.symm.trans hp'))
      | deeper hc' hp' hu' =>
        cases hc.symm.trans hc'
        cases hp.symm.trans hp'
        exact .inr hu'
    exact hkp.not_under_of_above ht hk
  rcases h with rfl | hcy
  · exact .inl (hky.resolve_right not_between).symm
  · rcases hky with rfl | hky
    · exact .inr hcy
    · rcases hcy.comparable hky with rfl | hck | hkc
      · exact .refl _ _
      · exact .inr hck
      · exact absurd hkc not_between

end Within

namespace InstanceTable

variable (t : InstanceTable) (rank : InstanceId → Nat)

/-- The number of instances whose rank is not smaller than that of one. -/
def countFrom (x : InstanceId) : Nat :=
  t.keys.countP fun k => decide (rank x ≤ rank k)

/-- The number of instances that are not younger than one. -/
def countUpTo (x : InstanceId) : Nat :=
  t.keys.countP fun k => decide (k.number ≤ x.number)

/-- A stricter condition that one item fails counts less. -/
theorem countP_lt {α : Type} {l : List α} {p q : α → Bool} {a : α} (h : ∀ b, p b = true → q b = true)
    (ha : a ∈ l) (hq : q a = true) (hp : p a = false) : l.countP p < l.countP q := by
  have hf : (l.filter q).filter p = l.filter p := by
    rw [List.filter_filter]
    refine List.filter_congr fun b _ => ?_
    cases hb : p b with
    | false => rfl
    | true => rw [h b hb]; rfl
  rw [List.countP_eq_length_filter, List.countP_eq_length_filter, ← hf]
  refine List.length_filter_lt_length_iff_exists.mpr ⟨a, List.mem_filter.mpr ⟨ha, hq⟩, ?_⟩
  rw [hp]
  decide

theorem countFrom_le (x : InstanceId) : t.countFrom rank x ≤ t.size := by
  rw [← Table.length_keys]
  exact List.countP_le_length

theorem countUpTo_le (x : InstanceId) : t.countUpTo x ≤ t.size := by
  rw [← Table.length_keys]
  exact List.countP_le_length

variable {t rank} {x y : InstanceId} {i : Instance}

theorem countFrom_pos (h : t[x]? = some i) : 0 < t.countFrom rank x :=
  List.countP_pos_iff.mpr ⟨x, (Table.mem_keys_iff t).mpr ⟨i, h⟩, by simp⟩

theorem countUpTo_pos (h : t[x]? = some i) : 0 < t.countUpTo x :=
  List.countP_pos_iff.mpr ⟨x, (Table.mem_keys_iff t).mpr ⟨i, h⟩, by simp⟩

theorem countFrom_lt (h : t[x]? = some i) (hxy : rank x < rank y) :
    t.countFrom rank y < t.countFrom rank x := by
  refine countP_lt (fun k hk => ?_) ((Table.mem_keys_iff t).mpr ⟨i, h⟩) (by simp) (by simpa using hxy)
  simp only [decide_eq_true_eq] at hk ⊢
  omega

theorem countUpTo_lt (h : t[y]? = some i) (hxy : x.number < y.number) :
    t.countUpTo x < t.countUpTo y := by
  refine countP_lt (fun k hk => ?_) ((Table.mem_keys_iff t).mpr ⟨i, h⟩) (by simp) (by simpa using hxy)
  simp only [decide_eq_true_eq] at hk ⊢
  omega

/-- A table with fewer instances counts less. -/
theorem countUpTo_mono {u : InstanceTable} (h : ∀ (k : InstanceId) (i : Instance), u[k]? = some i →
    ∃ j, t[k]? = some j) (x : InstanceId) : u.countUpTo x ≤ t.countUpTo x := by
  rw [countUpTo, countUpTo, List.countP_eq_length_filter, List.countP_eq_length_filter]
  refine (List.subperm_of_subset ((Table.nodup_keys u).filter _) fun k hk => ?_).length_le
  obtain ⟨hk, hx⟩ := List.mem_filter.mp hk
  obtain ⟨i, hi⟩ := (Table.mem_keys_iff u).mp hk
  exact List.mem_filter.mpr ⟨(Table.mem_keys_iff t).mpr (h k i hi), hx⟩

end InstanceTable

namespace Executor

variable {e : Executor} {rank : InstanceId → Nat} {x k c : InstanceId}

/-- The walk finds only the instance and its descendants. -/
theorem under_of_mem_descend (hf : IsForest rank e.instances) (n : Nat)
    (hk : k ∈ e.descend n c) : k = c ∨ Under e.instances c k := by
  induction n generalizing c with
  | zero => exact absurd hk List.not_mem_nil
  | succ n ih =>
    unfold descend at hk
    cases hi : e.instance? c with
    | none => rw [hi] at hk; exact absurd hk List.not_mem_nil
    | some i =>
      rw [hi] at hk
      rcases List.mem_append.mp hk with hk | hk
      · obtain ⟨a, ha, hk⟩ := List.mem_flatMap.mp hk
        obtain ⟨j, hj, hja⟩ := hf.linked hi ha
        refine .inr ?_
        rcases ih hk with rfl | hu
        · exact .child hj hja
        · exact (Under.child hj hja).trans hu
      · exact .inl (List.mem_singleton.mp hk)

/-- The walks below the children of an instance give nothing twice, and nothing before what is below
it, if the single walks do not. -/
theorem pairwise_flatMap_descend (hf : IsForest rank e.instances)
    {i : Instance} (hi : e.instances[x]? = some i) {n : Nat}
    (hd : ∀ c, (e.descend n c).Pairwise fun a b => a ≠ b ∧ ¬ Under e.instances a b) :
    (i.children.flatMap (e.descend n)).Pairwise fun a b => a ≠ b ∧ ¬ Under e.instances a b := by
  rw [List.pairwise_flatMap]
  refine ⟨fun c _ => hd c, (hf.nodup hi).imp_of_mem fun {a b} ha hb hab k hk l hl => ?_⟩
  obtain ⟨j, hj, hjx⟩ := hf.linked hi ha
  obtain ⟨o, ho, hox⟩ := hf.linked hi hb
  exact hf.apart hj hjx ho hox hab (under_of_mem_descend hf n hk) (under_of_mem_descend hf n hl)

/-- The walk gives nothing twice, and nothing before what is below it. -/
theorem pairwise_descend (hf : IsForest rank e.instances) (n : Nat)
    (c : InstanceId) :
    (e.descend n c).Pairwise fun a b => a ≠ b ∧ ¬ Under e.instances a b := by
  induction n generalizing c with
  | zero => exact .nil
  | succ n ih =>
    unfold descend
    cases hi : e.instance? c with
    | none => exact .nil
    | some i =>
      refine List.pairwise_append.mpr ⟨pairwise_flatMap_descend hf hi ih, List.pairwise_singleton _ _, ?_⟩
      intro a ha b hb
      rw [List.mem_singleton.mp hb]
      obtain ⟨s, hs, ha⟩ := List.mem_flatMap.mp ha
      obtain ⟨j, hj, hjc⟩ := hf.linked hi hs
      have younger : rank c < rank a := by
        have hsc := hf.rising hj hjc
        rcases under_of_mem_descend hf n ha with rfl | hu
        · exact hsc
        · exact Nat.lt_trans hsc (hf.lt_of_under hu)
      refine ⟨?_, fun hu => Nat.lt_asymm younger (hf.lt_of_under hu)⟩
      rintro rfl
      exact Nat.lt_irrefl _ younger

/-- The descendants are listed once each, every one after its own descendants. -/
theorem pairwise_descendants (ht : IsTree e.definition e.root e.nextInstance e.instances)
    (x : InstanceId) :
    (e.descendants x).Pairwise fun a b => a ≠ b ∧ ¬ Under e.instances a b := by
  unfold descendants
  cases hi : e.instance? x with
  | none => exact .nil
  | some i => exact pairwise_flatMap_descend ht.forest hi (pairwise_descend ht.forest _)

/-- The walk finds the instance and all its descendants if it goes deep enough. -/
theorem mem_descend (hf : IsForest rank e.instances) {n : Nat} {i : Instance}
    (hi : e.instances[c]? = some i) (hn : InstanceTable.countFrom e.instances rank c ≤ n)
    (hk : k = c ∨ Under e.instances c k) : k ∈ e.descend n c := by
  induction n generalizing c i with
  | zero => exact absurd (InstanceTable.countFrom_pos hi) (Nat.not_lt.mpr hn)
  | succ n ih =>
    unfold descend
    rw [instance?, hi]
    rcases hk with rfl | hu
    · exact List.mem_append_right _ (List.mem_singleton_self _)
    · obtain ⟨a, j, ha, hja, hk⟩ := hu.split
      obtain ⟨q, hq, hac⟩ := hf.listed ha hja
      cases hi.symm.trans hq
      refine List.mem_append_left _ (List.mem_flatMap.mpr ⟨a, hac, ih ha ?_ hk⟩)
      exact Nat.le_of_lt_succ (Nat.lt_of_lt_of_le
        (InstanceTable.countFrom_lt hi (hf.rising ha hja)) hn)

/-- In a forest the listed descendants are the descendants. -/
theorem mem_descendants_of_forest (hf : IsForest rank e.instances) {i : Instance}
    (hi : e.instances[x]? = some i) : k ∈ e.descendants x ↔ Under e.instances x k := by
  rw [descendants, instance?, hi, Option.map_some, Option.getD_some, List.mem_flatMap]
  constructor
  · rintro ⟨c, hc, hk⟩
    obtain ⟨j, hj, hjx⟩ := hf.linked hi hc
    rcases under_of_mem_descend hf _ hk with rfl | hu
    · exact .child hj hjx
    · exact (Under.child hj hjx).trans hu
  · intro hu
    obtain ⟨c, j, hj, hjx, hk⟩ := hu.split
    obtain ⟨q, hq, hc⟩ := hf.listed hj hjx
    cases hi.symm.trans hq
    exact ⟨c, hc, mem_descend hf hj (InstanceTable.countFrom_le _ _ c) hk⟩

/-- The listed descendants are the descendants. -/
theorem mem_descendants_iff (ht : IsTree e.definition e.root e.nextInstance e.instances)
    {i : Instance} (hi : e.instances[x]? = some i) :
    k ∈ e.descendants x ↔ Under e.instances x k :=
  mem_descendants_of_forest ht.forest hi

end Executor

end Workflow
