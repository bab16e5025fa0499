import Workflow.Snapshot.Restore
import Workflow.Proofs.Preparation
import Workflow.Proofs.Table

/-!
# Trees of instances

The instances of a workflow form a tree: the links from parents to children and back agree, every
link follows the definition, and a child is younger than its parent. Scheduling adds a leaf,
completion takes a leaf away, and a fault takes away what is below an instance.
-/

namespace Workflow

/-- What holds of every instance by itself. -/
structure Instance.Sound (d : Definition) (i : Instance) : Prop where
  /-- It runs a node of the definition. -/
  known : (d.get? i.node).isSome = true
  /-- Its children stand in order of scheduling. -/
  ascending : i.children.Pairwise fun a b => a.number < b.number
  /-- It has no children once it has completed. -/
  childless : i.state.isTerminal = true → i.children = []
  /-- No fault is being applied to it. -/
  steady : i.state ≠ .faulting
  /-- It has a fault if it has faulted. -/
  faulted : i.fault.isSome = true ↔ i.state = .faulted
  /-- Its fault comes from a node of the definition. -/
  sourced : ∀ f, i.fault = some f → (d.get? f.sourceNode).isSome = true

/-- An instance has a child once. -/
theorem Instance.Sound.nodup {d : Definition} {i : Instance} (h : i.Sound d) : i.children.Nodup := by
  refine h.ascending.imp fun {a b} hab he => ?_
  rw [he] at hab
  exact Nat.lt_irrefl _ hab

/-- Two instances stand in one place of the tree. -/
structure Instance.SamePlace (i j : Instance) : Prop where
  /-- They have one identifier. -/
  id : i.id = j.id := by rfl
  /-- They run one node. -/
  node : i.node = j.node := by rfl
  /-- They have one parent. -/
  parent : i.parent = j.parent := by rfl
  /-- They have the same children. -/
  children : i.children = j.children := by rfl

/-- A table whose instances form a tree. -/
structure IsTree (d : Definition) (root : InstanceId) (next : Nat) (t : InstanceTable) : Prop where
  /-- The definition may be run. -/
  runnable : d.Runnable
  /-- Instances stand under their identifiers. -/
  keyed : ∀ {k : InstanceId} {i : Instance}, t[k]? = some i → i.id = k
  /-- Identifiers have been given out. -/
  below : ∀ {k : InstanceId} {i : Instance}, t[k]? = some i → k.number < next
  /-- Instances are sound. -/
  sound : ∀ {k : InstanceId} {i : Instance}, t[k]? = some i → i.Sound d
  /-- The root runs the root of the definition. -/
  rooted : ∃ r, t[root]? = some r ∧ r.parent = none ∧ r.node = .root
  /-- Only the root has no parent. -/
  orphan : ∀ {k : InstanceId} {i : Instance}, t[k]? = some i → i.parent = none → k = root
  /-- A parent is there and has the child. -/
  listed : ∀ {k p : InstanceId} {i : Instance}, t[k]? = some i → i.parent = some p →
    ∃ q, t[p]? = some q ∧ k ∈ q.children
  /-- A child is there and has the parent. -/
  linked : ∀ {p c : InstanceId} {q : Instance}, t[p]? = some q → c ∈ q.children →
    ∃ i, t[c]? = some i ∧ i.parent = some p
  /-- A parent is older than its child. -/
  older : ∀ {k p : InstanceId} {i : Instance}, t[k]? = some i → i.parent = some p →
    p.number < k.number
  /-- A child runs a declared child of its parent's activity. -/
  declared : ∀ {k p : InstanceId} {i q : Instance}, t[k]? = some i → i.parent = some p →
    t[p]? = some q → d.isDeclaredChild q.node i.node = true

namespace IsTree

variable {d : Definition} {root : InstanceId} {next : Nat} {t u : InstanceTable}

/-- A table with the same places is a tree. -/
theorem of_samePlaces (h : IsTree d root next t)
    (back : ∀ (k : InstanceId) (i : Instance), u[k]? = some i →
      ∃ j, t[k]? = some j ∧ i.SamePlace j ∧ i.Sound d)
    (forth : ∀ (k : InstanceId) (j : Instance), t[k]? = some j →
      ∃ i, u[k]? = some i ∧ i.SamePlace j) : IsTree d root next u where
  runnable := h.runnable
  keyed hk := by
    obtain ⟨j, hj, hp, -⟩ := back _ _ hk
    exact hp.id.trans (h.keyed hj)
  below hk := by
    obtain ⟨j, hj, -⟩ := back _ _ hk
    exact h.below hj
  sound hk := by
    obtain ⟨j, -, -, hs⟩ := back _ _ hk
    exact hs
  rooted := by
    obtain ⟨r, hr, hrp, hrn⟩ := h.rooted
    obtain ⟨i, hi, hp⟩ := forth _ _ hr
    exact ⟨i, hi, hp.parent.trans hrp, hp.node.trans hrn⟩
  orphan hk hn := by
    obtain ⟨j, hj, hp, -⟩ := back _ _ hk
    exact h.orphan hj (hp.parent.symm.trans hn)
  listed hk hn := by
    obtain ⟨j, hj, hp, -⟩ := back _ _ hk
    obtain ⟨q, hq, hc⟩ := h.listed hj (hp.parent.symm.trans hn)
    obtain ⟨i, hi, hip⟩ := forth _ _ hq
    exact ⟨i, hi, hip.children.symm ▸ hc⟩
  linked hk hc := by
    obtain ⟨j, hj, hp, -⟩ := back _ _ hk
    obtain ⟨q, hq, hqp⟩ := h.linked hj (hp.children ▸ hc)
    obtain ⟨i, hi, hip⟩ := forth _ _ hq
    exact ⟨i, hi, hip.parent.trans hqp⟩
  older hk hn := by
    obtain ⟨j, hj, hp, -⟩ := back _ _ hk
    exact h.older hj (hp.parent.symm.trans hn)
  declared hk hn hq := by
    obtain ⟨j, hj, hp, -⟩ := back _ _ hk
    obtain ⟨q, hq, hqp, -⟩ := back _ _ hq
    rw [hp.node, hqp.node]
    exact h.declared hj (hp.parent.symm.trans hn) hq

/-- A modification that keeps the place of an instance keeps the tree. -/
theorem modify (h : IsTree d root next t) {k : InstanceId} {f : Instance → Instance}
    (hf : ∀ i, t[k]? = some i → (f i).SamePlace i ∧ (f i).Sound d) :
    IsTree d root next (t.modify k f) := by
  refine h.of_samePlaces (fun a i hi => ?_) (fun a j hj => ?_)
  · rw [Table.lookup_modify] at hi
    split at hi
    · next hk =>
      obtain ⟨j, hj, rfl⟩ := Option.map_eq_some_iff.mp hi
      exact ⟨j, hj, hf j (hk ▸ hj)⟩
    · exact ⟨i, hi, {}, h.sound hi⟩
  · rw [Table.lookup_modify, hj]
    split
    · next hk => exact ⟨f j, rfl, (hf j (hk ▸ hj)).1⟩
    · exact ⟨j, rfl, {}⟩

/-- An instance with a parent is not the root. -/
theorem ne_root (h : IsTree d root next t) {k p : InstanceId} {i : Instance}
    (hk : t[k]? = some i) (hp : i.parent = some p) : k ≠ root := by
  rintro rfl
  obtain ⟨r, hr, hn, -⟩ := h.rooted
  rw [hr, Option.some.injEq] at hk
  rw [hk, hp] at hn
  exact absurd hn (Option.some_ne_none p)

/-- The parent of an instance has not completed. -/
theorem parent_not_terminal (h : IsTree d root next t) {k p : InstanceId} {i q : Instance}
    (hk : t[k]? = some i) (hp : i.parent = some p) (hq : t[p]? = some q) :
    q.state.isTerminal = false := by
  obtain ⟨q', hq', hc⟩ := h.listed hk hp
  rw [hq, Option.some.injEq] at hq'
  subst hq'
  cases ht : q.state.isTerminal with
  | false => rfl
  | true => rw [(h.sound hq).childless ht] at hc; exact absurd hc List.not_mem_nil

/-- A tree whose root has no children has no other instance. -/
theorem eq_root (h : IsTree d root next t) {r : Instance} (hr : t[root]? = some r)
    (hc : r.children = []) {k : InstanceId} {i : Instance} (hk : t[k]? = some i) : k = root := by
  obtain ⟨n, hn⟩ : ∃ n, n = k.number := ⟨_, rfl⟩
  induction n using Nat.strongRecOn generalizing k i with
  | ind n ih =>
    cases hp : i.parent with
    | none => exact h.orphan hk hp
    | some p =>
      obtain ⟨q, hq, hm⟩ := h.listed hk hp
      have hpr : p = root := ih p.number (hn ▸ h.older hk hp) hq rfl
      rw [hpr, hr, Option.some.injEq] at hq
      rw [← hq, hc] at hm
      exact absurd hm List.not_mem_nil

end IsTree

/-- A table `u` is a table `t` with a new instance `c` in it, whose parent has changed from `q` to
`q'`. -/
structure Planted (t u : InstanceTable) (p n : InstanceId) (q q' c : Instance) : Prop where
  /-- The parent is there. -/
  parent : t[p]? = some q
  /-- The child is new. -/
  fresh : t[n]? = none
  /-- The parent has changed, the child is there, and all others are as they were. -/
  look : ∀ a : InstanceId, u[a]? = if p = a then some q' else if n = a then some c else t[a]?

namespace Planted

variable {t u : InstanceTable} {p n a : InstanceId} {q q' c i : Instance}

/-- A child is entered before its parent is changed. -/
theorem of_insert (hq : t[p]? = some q) (hn : t[n]? = none) (f : Instance → Instance) :
    Planted t ((t.insert n c).modify p f) p n q (f q) c := by
  have hnp : n ≠ p := by
    rintro rfl
    exact absurd (hn.symm.trans hq) (Option.some_ne_none q).symm
  refine ⟨hq, hn, fun a => ?_⟩
  rw [Table.lookup_modify, Table.lookup_insert]
  split
  · next ha =>
    subst ha
    rw [if_neg hnp, hq, Option.map_some]
  · rfl

variable (hu : Planted t u p n q q' c)
include hu

/-- The parent is another instance. -/
theorem ne : p ≠ n := by
  rintro rfl
  exact absurd (hu.fresh.symm.trans hu.parent) (Option.some_ne_none q).symm

/-- The parent has changed. -/
theorem at_parent : u[p]? = some q' := by
  rw [hu.look, if_pos rfl]

/-- The child is there. -/
theorem at_child : u[n]? = some c := by
  rw [hu.look, if_neg hu.ne, if_pos rfl]

/-- Any other instance is as it was. -/
theorem still (ha : a ≠ p) (hi : t[a]? = some i) : u[a]? = some i := by
  have hb : n ≠ a := by
    rintro rfl
    exact absurd (hu.fresh.symm.trans hi) (Option.some_ne_none i).symm
  rw [hu.look, if_neg (Ne.symm ha), if_neg hb, hi]

/-- What is there is the parent, the child, or as it was. -/
theorem cases (hi : u[a]? = some i) :
    (a = p ∧ i = q') ∨ (a = n ∧ i = c) ∨ (a ≠ p ∧ a ≠ n ∧ t[a]? = some i) := by
  rw [hu.look] at hi
  split at hi
  · next ha => exact .inl ⟨ha.symm, (Option.some.inj hi).symm⟩
  · next ha =>
    split at hi
    · next hb => exact .inr (.inl ⟨hb.symm, (Option.some.inj hi).symm⟩)
    · next hb => exact .inr (.inr ⟨Ne.symm ha, Ne.symm hb, hi⟩)

/-- What is there is the child, or an instance was there in its place. -/
theorem was {l : List InstanceId} (hq' : q'.SamePlace { q with children := l })
    (hi : u[a]? = some i) : (a = n ∧ i = c) ∨
      ∃ j, t[a]? = some j ∧ i.id = j.id ∧ i.node = j.node ∧ i.parent = j.parent := by
  rcases hu.cases hi with ⟨rfl, rfl⟩ | ⟨rfl, rfl⟩ | ⟨-, -, ht⟩
  · exact .inr ⟨q, hu.parent, hq'.id, hq'.node, hq'.parent⟩
  · exact .inl ⟨rfl, rfl⟩
  · exact .inr ⟨i, ht, rfl, rfl, rfl⟩

end Planted

namespace IsTree

variable {d : Definition} {root : InstanceId} {next : Nat} {t u : InstanceTable}

section Planting

variable {p : InstanceId} {q q' c : Instance} (h : IsTree d root next t)
variable (hu : Planted t u p ⟨next⟩ q q' c) (hcp : c.parent = some p)
variable (hq' : q'.SamePlace { q with children := q.children ++ [⟨next⟩] })
include h hu hq'

/-- A parent of an instance that was there has it as a child. -/
theorem listed_planted {a b : InstanceId} {j : Instance} (hj : t[a]? = some j)
    (hp : j.parent = some b) : ∃ x, u[b]? = some x ∧ a ∈ x.children := by
  obtain ⟨x, hx, hax⟩ := h.listed hj hp
  by_cases hbp : b = p
  · subst hbp
    cases hu.parent.symm.trans hx
    exact ⟨q', hu.at_parent, hq'.children ▸ List.mem_append_left _ hax⟩
  · exact ⟨x, hu.still hbp hx, hax⟩

/-- A child of an instance that was there has it as its parent. -/
theorem linked_planted {a b : InstanceId} {y : Instance} (hy : t[a]? = some y)
    (hb : b ∈ y.children) : ∃ i, u[b]? = some i ∧ i.parent = some a := by
  obtain ⟨i, hi, hia⟩ := h.linked hy hb
  by_cases hbp : b = p
  · subst hbp
    cases hu.parent.symm.trans hi
    exact ⟨q', hu.at_parent, hq'.parent.trans hia⟩
  · exact ⟨i, hu.still hbp hi, hia⟩

include hcp

/-- A child runs a declared child of its parent's activity. -/
theorem declared_planted (hd : d.isDeclaredChild q.node c.node = true) {a b : InstanceId}
    {i x : Instance} (hi : u[a]? = some i) (hb : i.parent = some b) (hx : u[b]? = some x) :
    d.isDeclaredChild x.node i.node = true := by
  rcases hu.was hq' hi with ⟨rfl, rfl⟩ | ⟨j, hj, -, hij, hjp⟩
  · cases hcp.symm.trans hb
    cases hu.at_parent.symm.trans hx
    rw [hq'.node]
    exact hd
  · rw [hjp] at hb
    rcases hu.was hq' hx with ⟨rfl, rfl⟩ | ⟨y, hy, -, hxy, -⟩
    · obtain ⟨z, hz, -⟩ := h.listed hj hb
      exact absurd (h.below hz) (Nat.lt_irrefl _)
    · rw [hxy, hij]
      exact h.declared hj hb hy

end Planting

/-- No instance has the next identifier. -/
theorem fresh (h : IsTree d root next t) : t[(⟨next⟩ : InstanceId)]? = none := by
  cases hx : t[(⟨next⟩ : InstanceId)]? with
  | none => rfl
  | some x => exact absurd (h.below hx) (Nat.lt_irrefl _)

/-- An instance that gets a child stays sound. -/
theorem sound_parent (h : IsTree d root next t) {p : InstanceId} {q q' : Instance}
    (hq : t[p]? = some q) (hl : q.state.isTerminal = false)
    (hp : q'.SamePlace { q with children := q.children ++ [⟨next⟩] }) (hs : q'.state = q.state)
    (hf : q'.fault = q.fault) : q'.Sound d := by
  have sound := h.sound hq
  have older : ∀ a ∈ q.children, a.number < next := fun a ha => by
    obtain ⟨i, hi, -⟩ := h.linked hq ha
    exact h.below hi
  refine ⟨hp.node ▸ sound.known, ?_, ?_, hs ▸ sound.steady, ?_, ?_⟩
  · rw [hp.children]
    refine List.pairwise_append.mpr ⟨sound.ascending, List.pairwise_singleton _ _, ?_⟩
    intro a ha b hb
    rw [List.mem_singleton.mp hb]
    exact older a ha
  · intro ht
    rw [hs, hl] at ht
    exact absurd ht Bool.false_ne_true
  · rw [hf, hs]
    exact sound.faulted
  · rw [hf]
    exact sound.sourced

/-- A scheduled child becomes the last child of its parent. -/
theorem addChild (h : IsTree d root next t) {p : InstanceId} {q c : Instance}
    (hq : t[p]? = some q) (hl : q.state.isTerminal = false) (hid : c.id = ⟨next⟩)
    (hcp : c.parent = some p) (hcs : c.Sound d) (hcc : c.children = [])
    (hdc : d.isDeclaredChild q.node c.node = true) {f : Instance → Instance}
    (hf : (f q).SamePlace { q with children := q.children ++ [⟨next⟩] } ∧ (f q).state = q.state ∧
      (f q).fault = q.fault) :
    IsTree d root (next + 1) ((t.insert ⟨next⟩ c).modify p f) := by
  obtain ⟨hq', hfs, hff⟩ := hf
  have hu : Planted t _ p ⟨next⟩ q (f q) c := .of_insert hq h.fresh f
  have hfq : (f q).Sound d := h.sound_parent hq hl hq' hfs hff
  generalize (t.insert ⟨next⟩ c).modify p f = u at hu
  have was := fun {a : InstanceId} {i : Instance} (hi : u[a]? = some i) => hu.was hq' hi
  constructor
  · exact h.runnable
  · intro a i hi
    rcases was hi with ⟨rfl, rfl⟩ | ⟨j, hj, hij, -⟩
    · exact hid
    · exact hij.trans (h.keyed hj)
  · intro a i hi
    rcases was hi with ⟨rfl, rfl⟩ | ⟨j, hj, -⟩
    · exact Nat.lt_succ_self _
    · exact Nat.lt_succ_of_lt (h.below hj)
  · intro a i hi
    rcases hu.cases hi with ⟨rfl, rfl⟩ | ⟨rfl, rfl⟩ | ⟨-, -, ht⟩
    · exact hfq
    · exact hcs
    · exact h.sound ht
  · obtain ⟨r, hr, hrp, hrn⟩ := h.rooted
    by_cases hp : root = p
    · subst hp
      cases hq.symm.trans hr
      exact ⟨f q, hu.at_parent, hq'.parent.trans hrp, hq'.node.trans hrn⟩
    · exact ⟨r, hu.still hp hr, hrp, hrn⟩
  · intro a i hi hn
    rcases was hi with ⟨rfl, rfl⟩ | ⟨j, hj, -, -, hjp⟩
    · exact absurd (hcp.symm.trans hn) (Option.some_ne_none p)
    · exact h.orphan hj (hjp.symm.trans hn)
  · intro a b i hi hb
    rcases was hi with ⟨rfl, rfl⟩ | ⟨j, hj, -, -, hjp⟩
    · cases hcp.symm.trans hb
      exact ⟨f q, hu.at_parent, hq'.children ▸ List.mem_append_right _ (List.mem_singleton_self _)⟩
    · exact h.listed_planted hu hq' hj (hjp.symm.trans hb)
  · intro a b x hx hb
    rcases hu.cases hx with ⟨rfl, rfl⟩ | ⟨rfl, rfl⟩ | ⟨-, -, ht⟩
    · rw [hq'.children] at hb
      rcases List.mem_append.mp hb with hb | hb
      · exact h.linked_planted hu hq' hq hb
      · rw [List.mem_singleton.mp hb]
        exact ⟨c, hu.at_child, hcp⟩
    · rw [hcc] at hb
      exact absurd hb List.not_mem_nil
    · exact h.linked_planted hu hq' ht hb
  · intro a b i hi hb
    rcases was hi with ⟨rfl, rfl⟩ | ⟨j, hj, -, -, hjp⟩
    · cases hcp.symm.trans hb
      exact h.below hq
    · exact h.older hj (hjp.symm.trans hb)
  · intro a b i x hi hb hx
    exact h.declared_planted hu hcp hq' hdc hi hb hx

/-- A set of instances that may leave the tree below one that stays: it holds whatever is below its
members, and a member is a child of a member or of the one that stays. -/
structure Prunable (t : InstanceTable) (root x : InstanceId) (S : InstanceId → Prop) : Prop where
  /-- The instance stays. -/
  keeps : ¬ S x
  /-- The root stays. -/
  keeps_root : ¬ S root
  /-- What is below a member leaves. -/
  down : ∀ {k p : InstanceId} {i : Instance}, t[k]? = some i → i.parent = some p → S p → S k
  /-- What leaves hangs on something that leaves or on the instance. -/
  up : ∀ {k p : InstanceId} {i : Instance}, t[k]? = some i → i.parent = some p → S k →
    S p ∨ p = x

section Pruning

variable {x : InstanceId} {S : InstanceId → Prop} [DecidablePred S] {i j : Instance}
variable (h : IsTree d root next t) (hS : Prunable t root x S) (hx : t[x]? = some i)
variable (hp : j.SamePlace { i with children := i.children.filter fun c => !decide (S c) })
variable (look : ∀ k : InstanceId, u[k]? = if S k then none else if k = x then some j else t[k]?)

include look in
/-- What is there after a set has left is the instance itself or as it was. -/
theorem cases_pruned {a : InstanceId} {b : Instance} (hb : u[a]? = some b) :
    ¬ S a ∧ ((a = x ∧ b = j) ∨ (a ≠ x ∧ t[a]? = some b)) := by
  rw [look] at hb
  split at hb
  · exact absurd hb.symm (Option.some_ne_none b)
  · next ha =>
    split at hb
    · next hax => exact ⟨ha, .inl ⟨hax, (Option.some.inj hb).symm⟩⟩
    · next hax => exact ⟨ha, .inr ⟨hax, hb⟩⟩

include hx hp look in
/-- What is there after a set has left was there in its place. -/
theorem was_pruned {a : InstanceId} {b : Instance} (hb : u[a]? = some b) :
    ∃ o, t[a]? = some o ∧ b.id = o.id ∧ b.node = o.node ∧ b.parent = o.parent := by
  rcases (cases_pruned look hb).2 with ⟨rfl, rfl⟩ | ⟨-, ht⟩
  · exact ⟨i, hx, hp.id, hp.node, hp.parent⟩
  · exact ⟨b, ht, rfl, rfl, rfl⟩

include h hS hx hp look

/-- Whatever stays keeps its parent, which still has it as a child. -/
theorem listed_pruned {a b : InstanceId} {o : Instance} (ha : ¬ S a) (ho : t[a]? = some o)
    (hb : o.parent = some b) : ∃ q, u[b]? = some q ∧ a ∈ q.children := by
  obtain ⟨q, hq, hm⟩ := h.listed ho hb
  have hSb : ¬ S b := fun hs => ha (hS.down ho hb hs)
  by_cases hbx : b = x
  · subst hbx
    cases hx.symm.trans hq
    refine ⟨j, by rw [look, if_neg hSb, if_pos rfl], hp.children ▸ List.mem_filter.mpr ⟨hm, ?_⟩⟩
    rw [decide_eq_false ha]
    rfl
  · exact ⟨q, by rw [look, if_neg hSb, if_neg hbx, hq], hm⟩

/-- A child that stays still has its parent. -/
theorem linked_pruned {a b : InstanceId} {o : Instance} (hb : ¬ S b) (ho : t[a]? = some o)
    (hm : b ∈ o.children) : ∃ y, u[b]? = some y ∧ y.parent = some a := by
  obtain ⟨y, hy, hya⟩ := h.linked ho hm
  by_cases hbx : b = x
  · subst hbx
    cases hx.symm.trans hy
    exact ⟨j, by rw [look, if_neg hb, if_pos rfl], hp.parent.trans hya⟩
  · exact ⟨y, by rw [look, if_neg hb, if_neg hbx, hy], hya⟩

/-- What is left after a set of instances has left is a tree. -/
theorem prune (hj : j.Sound d) : IsTree d root next u := by
  have cases := fun {a : InstanceId} {b : Instance} (hb : u[a]? = some b) => cases_pruned look hb
  have was := fun {a : InstanceId} {b : Instance} (hb : u[a]? = some b) => was_pruned hx hp look hb
  constructor
  · exact h.runnable
  · intro a b hb
    obtain ⟨o, ho, hid, -⟩ := was hb
    exact hid.trans (h.keyed ho)
  · intro a b hb
    obtain ⟨o, ho, -⟩ := was hb
    exact h.below ho
  · intro a b hb
    rcases (cases hb).2 with ⟨rfl, rfl⟩ | ⟨-, ht⟩
    · exact hj
    · exact h.sound ht
  · obtain ⟨r, hr, hrp, hrn⟩ := h.rooted
    by_cases hrx : root = x
    · subst hrx
      cases hx.symm.trans hr
      exact ⟨j, by rw [look, if_neg hS.keeps, if_pos rfl], hp.parent.trans hrp, hp.node.trans hrn⟩
    · exact ⟨r, by rw [look, if_neg hS.keeps_root, if_neg hrx, hr], hrp, hrn⟩
  · intro a b hb hn
    obtain ⟨o, ho, -, -, hop⟩ := was hb
    exact h.orphan ho (hop.symm.trans hn)
  · intro a b c hb hbp
    obtain ⟨o, ho, -, -, hop⟩ := was hb
    exact h.listed_pruned hS hx hp look (cases hb).1 ho (hop.symm.trans hbp)
  · intro a b q hq hm
    rcases cases hq with ⟨hSa, ⟨rfl, rfl⟩ | ⟨hax, ht⟩⟩
    · rw [hp.children] at hm
      obtain ⟨hm, hs⟩ := List.mem_filter.mp hm
      refine h.linked_pruned hS hx hp look (fun hSb => ?_) hx hm
      rw [decide_eq_true hSb] at hs
      exact absurd hs Bool.false_ne_true
    · refine h.linked_pruned hS hx hp look (fun hSb => ?_) ht hm
      obtain ⟨y, hy, hya⟩ := h.linked ht hm
      exact (hS.up hy hya hSb).elim hSa hax
  · intro a b c hb hbp
    obtain ⟨o, ho, -, -, hop⟩ := was hb
    exact h.older ho (hop.symm.trans hbp)
  · intro a b c q hb hbp hq
    obtain ⟨o, ho, -, hon, hop⟩ := was hb
    obtain ⟨o', ho', -, hon', -⟩ := was hq
    rw [hon, hon']
    exact h.declared ho (hop.symm.trans hbp) ho'

end Pruning

/-- A completed child may leave. -/
theorem drop (h : IsTree d root next t) {c p : InstanceId} {i r j : Instance}
    (hi : t[c]? = some i) (ht : i.state.isTerminal = true) (hp : i.parent = some p)
    (hr : t[p]? = some r) (hj : j = { r with children := r.children.filter (· != c) })
    (look : ∀ k : InstanceId, u[k]? = if k = c then none else if k = p then some j else t[k]?) :
    IsTree d root next u := by
  have sound := h.sound hr
  refine h.prune (x := p) (S := (· = c)) ⟨?_, ?_, ?_, ?_⟩ hr (hj ▸ {}) look
    (hj ▸ ?_)
  · rintro rfl
    exact Nat.lt_irrefl _ (h.older hi hp)
  · exact (h.ne_root hi hp).symm
  · rintro k a b hk hb rfl
    obtain ⟨q, hq, hm⟩ := h.listed hk hb
    cases hi.symm.trans hq
    rw [(h.sound hi).childless ht] at hm
    exact absurd hm List.not_mem_nil
  · rintro k a b hk hb rfl
    cases hi.symm.trans hk
    exact .inr (Option.some.inj (hb.symm.trans hp))
  · refine ⟨sound.known, sound.ascending.filter _, fun hrt => ?_, sound.steady, sound.faulted,
      sound.sourced⟩
    change r.children.filter _ = []
    rw [sound.childless hrt]
    rfl

end IsTree

end Workflow
