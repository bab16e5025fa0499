import Workflow.Proofs.Preparation
import Mathlib.Data.List.Forall2

/-!
# Places in a tree

A place in a tree of activities says which child to take on each level. The places of a tree come in an
order, with what is below an activity directly after it, and a prepared definition has one node for each
place, in that order. The path of a node spells its place, so that different places have different
paths, and the links between nodes are the edges of the tree.
-/

namespace Workflow

/-- A node has from an activity what does not depend on where it stands, and as many children. -/
def Node.StandsFor (n : Node) (a : Activity) : Prop :=
  ∃ children, a = .mk n.name n.body children n.locals n.arguments ∧
    n.children.length = children.length

namespace Activity

/-! ### Places -/

/-- The activity at a place. -/
def at? : List Nat → Activity → Option Activity
  | [], a => some a
  | i :: rest, mk _ _ children _ _ => children[i]?.bind (at? rest)

mutual

/-- The places of a tree in pre-order. -/
def places : Activity → List (List Nat)
  | mk _ _ children _ _ => [] :: placesBelow 0 children

/-- The places of the trees below an activity, the first of which is a child of some position. -/
def placesBelow (position : Nat) : List Activity → List (List Nat)
  | [] => []
  | a :: rest => a.places.map (position :: ·) ++ placesBelow (position + 1) rest

end

/-- The path that spells a place. -/
def spell (path : String) (place : List Nat) : String :=
  place.foldl (fun path i => childPath path (i + 1)) path

theorem mem_placesBelow {position : Nat} {l : List Activity} {p : List Nat} :
    p ∈ placesBelow position l ↔
      ∃ i c rest, p = (position + i) :: rest ∧ l[i]? = some c ∧ rest ∈ c.places := by
  induction l generalizing position with
  | nil => simp [placesBelow]
  | cons a l ih =>
    rw [placesBelow, List.mem_append, ih, List.mem_map]
    constructor
    · rintro (⟨rest, h, rfl⟩ | ⟨i, c, rest, rfl, hc, h⟩)
      · exact ⟨0, a, rest, rfl, rfl, h⟩
      · exact ⟨i + 1, c, rest, by rw [Nat.add_assoc, Nat.add_comm 1], hc, h⟩
    · rintro ⟨i, c, rest, rfl, hc, h⟩
      cases i with
      | zero =>
        obtain rfl : a = c := Option.some.inj hc
        exact .inl ⟨rest, h, rfl⟩
      | succ i => exact .inr ⟨i, c, rest, by rw [Nat.add_assoc, Nat.add_comm 1], hc, h⟩

/-- A place is listed if an activity is there. -/
theorem mem_places {p : List Nat} {a : Activity} : p ∈ a.places ↔ (at? p a).isSome = true := by
  induction p generalizing a with
  | nil =>
    cases a
    rw [places, at?]
    exact iff_of_true List.mem_cons_self rfl
  | cons i rest ih =>
    obtain ⟨name, body, children, locals, arguments⟩ := a
    rw [places, at?, List.mem_cons, mem_placesBelow]
    cases hc : children[i]? with
    | none =>
      refine iff_of_false ?_ Bool.false_ne_true
      rintro (h | ⟨j, c, tail, h, hj, -⟩)
      · cases h
      · obtain ⟨rfl, rfl⟩ := List.cons.inj h
        rw [Nat.zero_add, hj] at hc
        cases hc
    | some c =>
      rw [Option.bind_some, ← ih]
      constructor
      · rintro (h | ⟨j, c', tail, h, hj, ht⟩)
        · cases h
        · obtain ⟨rfl, rfl⟩ := List.cons.inj h
          rw [Nat.zero_add, hj] at hc
          exact Option.some.inj hc ▸ ht
      · intro h
        exact .inr ⟨i, c, rest, by rw [Nat.zero_add], hc, h⟩

mutual

/-- The places of a tree ascend. -/
theorem places_ascend : (a : Activity) → a.places.Pairwise (· < ·)
  | mk name body children locals arguments => by
    rw [places]
    refine List.pairwise_cons.mpr ⟨fun p hp => ?_, placesBelow_ascend 0 children⟩
    obtain ⟨i, c, rest, rfl, -⟩ := mem_placesBelow.mp hp
    exact List.nil_lt_cons _ _

/-- The places of several trees ascend. -/
theorem placesBelow_ascend (position : Nat) :
    (l : List Activity) → (placesBelow position l).Pairwise (· < ·)
  | [] => .nil
  | a :: rest => by
    rw [placesBelow]
    refine List.pairwise_append.mpr ⟨?_, placesBelow_ascend (position + 1) rest, ?_⟩
    · rw [List.pairwise_map]
      exact a.places_ascend.imp fun h => List.cons_lt_cons_iff.mpr (.inr ⟨rfl, h⟩)
    · intro p hp q hq
      obtain ⟨p, -, rfl⟩ := List.mem_map.mp hp
      obtain ⟨i, c, q, rfl, -⟩ := mem_placesBelow.mp hq
      exact List.cons_lt_cons_iff.mpr (.inl (by omega))

end

/-! ### Paths -/

theorem spell_append (path : String) (place : List Nat) (i : Nat) :
    spell path (place ++ [i]) = childPath (spell path place) (i + 1) := by
  rw [spell, List.foldl_append]
  rfl

theorem beneath_spell (path : String) (place : List Nat) :
    Beneath path.toList (spell path place) := by
  induction place generalizing path with
  | nil => exact ⟨[], (List.append_nil _).symm, .inl rfl⟩
  | cons i rest ih => exact (ih (childPath path (i + 1))).of_child

/-- Different places have different paths. -/
theorem spell_injective (path : String) : Function.Injective (spell path) := by
  have never (path : String) (i : Nat) (p : List Nat) : path ≠ spell (childPath path (i + 1)) p := by
    intro h
    have beneath := beneath_spell (childPath path (i + 1)) p
    rw [← h] at beneath
    exact not_beneath_child path (i + 1) beneath
  intro p q h
  induction p generalizing path q with
  | nil =>
    cases q with
    | nil => rfl
    | cons j q => exact absurd h (never path j q)
  | cons i p ih =>
    cases q with
    | nil => exact absurd h.symm (never path i p)
    | cons j q =>
      have h : spell (childPath path (i + 1)) p = spell (childPath path (j + 1)) q := h
      have left := beneath_spell (childPath path (i + 1)) p
      have right := beneath_spell (childPath path (j + 1)) q
      rw [h] at left
      obtain rfl : i = j := Nat.succ.inj (left.childPath_inj right)
      rw [ih _ h]

/-! ### One node for each place -/

mutual

/-- The nodes of a tree stand for the activities at its places, in order, and their paths spell the
places. -/
theorem nodes_at_places (parent : Option NodeId) (id : Nat) (path : String) (visible : List String) :
    (a : Activity) → List.Forall₂ (fun p n => n.path = spell path p ∧ ∃ s, at? p a = some s ∧ n.StandsFor s)
      a.places (a.nodes parent id path visible)
  | mk name body children locals arguments => by
    rw [places, nodes]
    refine .cons ⟨rfl, _, rfl, children, rfl, length_childIds _ _⟩ ?_
    refine (forest_at_places ⟨id⟩ (id + 1) path 0 _ children).imp ?_
    rintro p n ⟨i, c, rest, s, rfl, hc, hs, stands, hp⟩
    refine ⟨hp, s, ?_, stands⟩
    rw [at?, Nat.zero_add, hc, Option.bind_some, hs]

/-- The nodes of several trees stand for the activities at the places in these. -/
theorem forest_at_places (parent : NodeId) (next : Nat) (path : String) (position : Nat)
    (visible : List String) :
    (l : List Activity) → List.Forall₂ (fun p n => ∃ i c rest s, p = (position + i) :: rest ∧
        l[i]? = some c ∧ at? rest c = some s ∧ n.StandsFor s ∧ n.path = spell path p)
      (placesBelow position l) (forest parent next path (position + 1) visible l)
  | [] => .nil
  | a :: l => by
    rw [placesBelow, forest]
    refine List.rel_append ?_ ?_
    · refine List.forall₂_map_left_iff.mpr ((nodes_at_places _ _ _ _ a).imp ?_)
      rintro p n ⟨hp, s, hs, stands⟩
      exact ⟨0, a, p, s, rfl, rfl, hs, stands, hp⟩
    · refine (forest_at_places parent _ path (position + 1) visible l).imp ?_
      rintro p n ⟨i, c, rest, s, rfl, hc, hs, stands, hp⟩
      exact ⟨i + 1, c, rest, s, by rw [Nat.add_assoc, Nat.add_comm 1], hc, hs, stands, hp⟩

end

/-! ### Links -/

/-- The first node of a tree. -/
theorem exists_first (parent : Option NodeId) (id : Nat) (path : String) (visible : List String)
    (a : Activity) :
    ∃ n ∈ a.nodes parent id path visible, n.id = ⟨id⟩ ∧ n.parent = parent ∧ n.path = path := by
  cases a
  rw [nodes]
  exact ⟨_, List.mem_cons_self, rfl, rfl, rfl⟩

mutual

/-- In a tree the children of a node have it as their parent, and their paths count them. -/
theorem nodes_children (parent : Option NodeId) (id : Nat) (path : String) (visible : List String) :
    (a : Activity) → ∀ m ∈ a.nodes parent id path visible, ∀ i c, m.children[i]? = some c →
      ∃ n ∈ a.nodes parent id path visible,
        n.id = c ∧ n.parent = some m.id ∧ n.path = childPath m.path (i + 1)
  | mk name body children locals arguments => by
    intro m hm i c hc
    rw [nodes] at hm ⊢
    obtain ⟨inner, own⟩ := forest_children ⟨id⟩ (id + 1) path 1
      (visible ++ declaredNames locals arguments) children
    rcases List.mem_cons.mp hm with rfl | hm
    · obtain ⟨n, hn, hid, hp, hpath⟩ := own i c hc
      exact ⟨n, List.mem_cons_of_mem _ hn, hid, hp, by rw [hpath, Nat.add_comm]⟩
    · obtain ⟨n, hn, link⟩ := inner m hm i c hc
      exact ⟨n, List.mem_cons_of_mem _ hn, link⟩

/-- It is so in several trees below one node, and for the roots of these trees and that node. -/
theorem forest_children (parent : NodeId) (next : Nat) (path : String) (position : Nat)
    (visible : List String) :
    (l : List Activity) →
      (∀ m ∈ forest parent next path position visible l, ∀ i c, m.children[i]? = some c →
        ∃ n ∈ forest parent next path position visible l,
          n.id = c ∧ n.parent = some m.id ∧ n.path = childPath m.path (i + 1)) ∧
      ∀ i c, (childIds next l)[i]? = some c → ∃ n ∈ forest parent next path position visible l,
        n.id = c ∧ n.parent = some parent ∧ n.path = childPath path (position + i)
  | [] => ⟨fun _ hm => absurd hm List.not_mem_nil, fun _ _ hc => absurd hc (Option.some_ne_none _).symm⟩
  | a :: rest => by
    obtain ⟨inner, own⟩ := forest_children parent (next + a.size) path (position + 1) visible rest
    rw [forest, childIds]
    refine ⟨fun m hm i c hc => ?_, fun i c hc => ?_⟩
    · rcases List.mem_append.mp hm with hm | hm
      · obtain ⟨n, hn, link⟩ := nodes_children _ _ _ _ a m hm i c hc
        exact ⟨n, List.mem_append_left _ hn, link⟩
      · obtain ⟨n, hn, link⟩ := inner m hm i c hc
        exact ⟨n, List.mem_append_right _ hn, link⟩
    · cases i with
      | zero =>
        obtain ⟨n, hn, hid, link⟩ := exists_first (some parent) next
          (path ++ "." ++ toString position) visible a
        exact ⟨n, List.mem_append_left _ hn, hid.trans (Option.some.inj hc), link⟩
      | succ i =>
        obtain ⟨n, hn, hid, hp, hpath⟩ := own i c hc
        exact ⟨n, List.mem_append_right _ hn, hid, hp, by rw [hpath, Nat.add_right_comm, Nat.add_assoc]⟩

end

/-! ### Prepared definitions -/

theorem size_prepare (a : Activity) : a.prepare.size = a.places.length := by
  have same := congrArg List.length (prepare_nodes_map Node.bare (fun _ _ => rfl) a)
  rw [List.length_map, List.length_map, ← (a.nodes_at_places none 0 "1" []).length_eq] at same
  exact same

/-- A node of a prepared tree stands for the activity at its place, and its path spells the place. -/
theorem exists_place (a : Activity) {k : NodeId} {n : Node} (hn : a.prepare.get? k = some n) :
    ∃ p s, a.places[k.number]? = some p ∧ at? p a = some s ∧ n.StandsFor s ∧ n.path = spell "1" p := by
  obtain ⟨f, hm⟩ := a.preorder_of_get? hn
  obtain ⟨hlt, hm⟩ := List.getElem?_eq_some_iff.mp hm
  obtain ⟨sizes, agree⟩ := List.forall₂_iff_get.mp (a.nodes_at_places none 0 "1" [])
  have hlt' : k.number < a.places.length := sizes ▸ hlt
  have here := agree k.number hlt' hlt
  simp only [List.get_eq_getElem, hm] at here
  -- Neither the path of a node nor what it stands for depends on its findings.
  obtain ⟨path, s, hs, stands⟩ := here
  exact ⟨a.places[k.number], s, List.getElem?_eq_getElem hlt', hs, stands, path⟩

/-- The children of a node have it as their parent, and their paths count them. -/
theorem exists_child (a : Activity) {k c : NodeId} {n : Node} {i : Nat}
    (hn : a.prepare.get? k = some n) (hc : n.children[i]? = some c) :
    ∃ m, a.prepare.get? c = some m ∧ m.parent = some k ∧ m.path = childPath n.path (i + 1) := by
  obtain ⟨f, hf⟩ := a.preorder_of_get? hn
  obtain ⟨m, hm, rfl, hparent, hpath⟩ := nodes_children none 0 "1" [] a _ (List.mem_of_getElem? hf) i c hc
  obtain ⟨g, hg⟩ := a.get?_of_preorder hm
  have hid : n.id = k := a.prepare_wellFormed.numbered hn
  exact ⟨_, hg, hparent.trans (congrArg some hid), hpath⟩

theorem at?_append (p : List Nat) (i : Nat) (a : Activity) :
    at? (p ++ [i]) a = (at? p a).bind fun s => at? [i] s := by
  induction p generalizing a with
  | nil => rfl
  | cons j p ih =>
    obtain ⟨name, body, children, locals, arguments⟩ := a
    rw [List.cons_append, at?, at?, Option.bind_assoc]
    exact congrArg _ (funext ih)

/-- No place is listed twice. -/
theorem places_nodup (a : Activity) : a.places.Nodup :=
  a.places_ascend.imp fun {p q} h he => by
    rw [he] at h
    exact List.lt_irrefl q h

/-- The children of the node at a place are at the places directly below it, in order. -/
theorem children_places (a : Activity) {k c : NodeId} {n : Node} {p : List Nat} {i : Nat}
    (hn : a.prepare.get? k = some n) (hp : a.places[k.number]? = some p) :
    n.children[i]? = some c ↔ a.places[c.number]? = some (p ++ [i]) := by
  obtain ⟨p', s, hp', hs, ⟨children, hshape, hlength⟩, hpath⟩ := a.exists_place hn
  obtain rfl : p' = p := Option.some.inj (hp'.symm.trans hp)
  have listed {c : NodeId} (hc : n.children[i]? = some c) :
      a.places[c.number]? = some (p' ++ [i]) := by
    obtain ⟨m, hm, -, hmpath⟩ := a.exists_child hn hc
    obtain ⟨q, t, hq, -, -, hqpath⟩ := a.exists_place hm
    rw [hpath, ← spell_append, hqpath] at hmpath
    rw [hq, spell_injective "1" hmpath]
  refine ⟨listed, fun hc => ?_⟩
  -- An activity is there, so it is one of as many children as the node has.
  have there : (at? (p' ++ [i]) a).isSome = true := mem_places.mp (List.mem_of_getElem? hc)
  rw [at?_append, hs, Option.bind_some, hshape, at?] at there
  have inside : i < n.children.length := by
    rw [hlength]
    by_contra outside
    rw [List.getElem?_eq_none (Nat.le_of_not_lt outside)] at there
    exact absurd there Bool.false_ne_true
  have other := listed (List.getElem?_eq_getElem inside)
  obtain ⟨hlt, hc⟩ := List.getElem?_eq_some_iff.mp hc
  obtain ⟨hlt', other⟩ := List.getElem?_eq_some_iff.mp other
  have same : n.children[i].number = c.number :=
    a.places_nodup.getElem_inj_iff.mp (other.trans hc.symm)
  rw [List.getElem?_eq_getElem inside]
  exact congrArg (some ∘ NodeId.mk) same

/-- A node that has a parent is among the children of this one. -/
theorem exists_parent (a : Activity) {k c : NodeId} {m : Node} (hm : a.prepare.get? c = some m)
    (hk : m.parent = some k) : ∃ n, a.prepare.get? k = some n ∧ c ∈ n.children := by
  obtain ⟨m', hm', rfl, hparent, -⟩ := a.exists_of_get? hm
  rcases (nodes_linked none 0 "1" [] a).up m' hm' with ⟨orphan, -⟩ | ⟨n', hn', hp, hc⟩
  · exact absurd (orphan.symm.trans (hparent.trans hk)).symm (Option.some_ne_none k)
  · obtain ⟨n, hn, -, hchildren⟩ := a.exists_get? hn'
    obtain rfl : n'.id = k := Option.some.inj (hp.symm.trans (hparent.trans hk))
    exact ⟨n, hn, hchildren ▸ hc⟩

end Activity

/-- The nodes of a definition index the activities of a tree. -/
structure Definition.Indexes (d : Definition) (a : Activity) : Prop where
  /-- There is a node for each place. -/
  size : d.size = a.places.length
  /-- A node knows its position, stands for the activity at its place, and its path spells the place. -/
  stands : ∀ k n, d.get? k = some n → n.id = k ∧ ∃ p s, a.places[k.number]? = some p ∧
    Activity.at? p a = some s ∧ n.StandsFor s ∧ n.path = Activity.spell "1" p
  /-- The first node is the root, which has no parent. -/
  root : d.get? .root = some d.root ∧ d.root.path = "1" ∧ d.root.parent = none
  /-- The children of a node are at the places directly below it, in order. -/
  children : ∀ k n p, d.get? k = some n → a.places[k.number]? = some p → ∀ i c,
    n.children[i]? = some c ↔ a.places[c.number]? = some (p ++ [i])
  /-- A child has the node as its parent, and its path counts the child. -/
  child : ∀ k n i c, d.get? k = some n → n.children[i]? = some c →
    ∃ m, d.get? c = some m ∧ m.parent = some k ∧ m.path = n.path ++ "." ++ toString (i + 1)
  /-- A parent has the node as a child. -/
  parent : ∀ c m k, d.get? c = some m → m.parent = some k → ∃ n, d.get? k = some n ∧ c ∈ n.children
  /-- Different nodes have different paths. -/
  distinct : (d.nodes.map (·.path)).Nodup
  /-- A path leads to the node that has it, and to no other. -/
  found : ∀ path k, d.findByPath? path = some k ↔ ∃ n, d.get? k = some n ∧ n.path = path
  /-- The declared children are the edges of the tree. -/
  declared : ∀ p c, d.isDeclaredChild p c = true ↔
    ∃ q i, a.places[p.number]? = some q ∧ a.places[c.number]? = some (q ++ [i])

namespace Activity

/-- The declared children of a prepared tree are its edges. -/
theorem isDeclaredChild_iff_places (a : Activity) (p c : NodeId) :
    a.prepare.isDeclaredChild p c = true ↔
      ∃ q i, a.places[p.number]? = some q ∧ a.places[c.number]? = some (q ++ [i]) := by
  constructor
  · intro h
    have link := h
    rw [Definition.isDeclaredChild, beq_iff_eq, Option.bind_eq_some_iff] at link
    obtain ⟨m, hm, hp⟩ := link
    obtain ⟨n, hn, hc⟩ := a.exists_parent hm hp
    obtain ⟨q, -, hq, -⟩ := a.exists_place hn
    obtain ⟨i, hi⟩ := List.getElem?_of_mem hc
    exact ⟨q, i, hq, (a.children_places hn hq).mp hi⟩
  · rintro ⟨q, i, hq, hc⟩
    have inside : p.number < a.prepare.size := by
      rw [a.size_prepare]
      exact (List.getElem?_eq_some_iff.mp hq).1
    have hn : a.prepare.get? p = some a.prepare.nodes[p.number] := List.getElem?_eq_getElem inside
    exact (a.isDeclaredChild_prepare hn).mpr (List.mem_of_getElem? ((a.children_places hn hq).mpr hc))

/-- The root of a prepared tree is at the empty place and has no parent. -/
theorem root_prepare (a : Activity) :
    a.prepare.get? .root = some a.prepare.root ∧ a.prepare.root.path = "1" ∧
      a.prepare.root.parent = none := by
  have hr : a.prepare.get? .root = some a.prepare.root := rfl
  obtain ⟨f, hf⟩ := a.preorder_of_get? hr
  obtain ⟨name, body, children, locals, arguments⟩ := a
  rw [nodes] at hf
  have same := Option.some.inj hf
  exact ⟨hr, congrArg Node.path same.symm, congrArg Node.parent same.symm⟩

theorem indexes_prepare (a : Activity) : a.prepare.Indexes a where
  size := a.size_prepare
  stands _ _ hn := ⟨a.prepare_wellFormed.numbered hn, a.exists_place hn⟩
  root := a.root_prepare
  children _ _ _ hn hp _ _ := a.children_places hn hp
  child _ _ _ _ hn hc := a.exists_child hn hc
  parent _ _ _ hm hk := a.exists_parent hm hk
  distinct := a.prepare_wellFormed.distinct
  found path k := by
    refine ⟨a.prepare_wellFormed.get?_of_findByPath?, ?_⟩
    rintro ⟨n, hn, rfl⟩
    exact a.prepare_wellFormed.findByPath?_path hn
  declared := a.isDeclaredChild_iff_places

/-- A tree has its places in pre-order, each of them once, and its prepared nodes index the activities
there. -/
theorem prepare_indexes (a : Activity) :
    (∀ p, p ∈ a.places ↔ (at? p a).isSome = true) ∧ a.places.Pairwise (· < ·) ∧
      a.prepare.Indexes a :=
  ⟨fun _ => mem_places, a.places_ascend, a.indexes_prepare⟩

end Activity

/-! ### Levels -/

namespace Activity

mutual

/-- The number of levels of a tree. -/
def height : Activity → Nat
  | mk _ _ children _ _ => heights children + 1

/-- The number of levels of the highest of several trees. -/
def heights : List Activity → Nat
  | [] => 0
  | a :: rest => max a.height (heights rest)

end

theorem height_pos (a : Activity) : 0 < a.height := by
  cases a
  exact Nat.succ_pos _

/-- How many positions below the root a path names. -/
def levelOf (path : String) : Nat :=
  path.toList.count '.'

/-- The path of a child names one position more. -/
theorem levelOf_childPath (path : String) (position : Nat) :
    levelOf (childPath path position) = levelOf path + 1 := by
  have digits : (toString position).toList.count '.' = 0 :=
    List.count_eq_zero.mpr (dot_not_mem_digits position)
  have dot : ".".toList.count '.' = 1 := rfl
  rw [levelOf, levelOf, childPath, String.toList_append, String.toList_append, List.count_append,
    List.count_append, digits, dot]

mutual

/-- The nodes of a tree of some height stand on so many levels, each one level below its parent. -/
theorem nodes_levels (parent : Option NodeId) (id : Nat) (path : String) (visible : List String) :
    (a : Activity) → ∀ n ∈ a.nodes parent id path visible,
      levelOf n.path < levelOf path + a.height ∧ (n.parent = parent ∧ n.path = path ∨
        ∃ m ∈ a.nodes parent id path visible, n.parent = some m.id ∧ levelOf n.path = levelOf m.path + 1)
  | mk name body children locals arguments => by
    intro n hn
    rw [nodes] at hn ⊢
    rw [height]
    rcases List.mem_cons.mp hn with rfl | hn
    · exact ⟨Nat.lt_add_of_pos_right (Nat.succ_pos _), .inl ⟨rfl, rfl⟩⟩
    · obtain ⟨bound, place⟩ := forest_levels ⟨id⟩ (id + 1) path 1
        (visible ++ declaredNames locals arguments) children n hn
      refine ⟨by omega, .inr ?_⟩
      rcases place with ⟨hp, level⟩ | ⟨m, hm, hp, level⟩
      · exact ⟨_, List.mem_cons_self, hp, level⟩
      · exact ⟨m, List.mem_cons_of_mem _ hm, hp, level⟩

/-- The nodes of the trees below one node stand on the levels below it. -/
theorem forest_levels (parent : NodeId) (next : Nat) (path : String) (position : Nat)
    (visible : List String) :
    (l : List Activity) → ∀ n ∈ forest parent next path position visible l,
      levelOf n.path ≤ levelOf path + heights l ∧
        (n.parent = some parent ∧ levelOf n.path = levelOf path + 1 ∨
          ∃ m ∈ forest parent next path position visible l,
            n.parent = some m.id ∧ levelOf n.path = levelOf m.path + 1)
  | [] => fun _ hn => absurd hn List.not_mem_nil
  | a :: rest => by
    intro n hn
    have one : levelOf (path ++ "." ++ toString position) = levelOf path + 1 :=
      levelOf_childPath path position
    rw [forest] at hn ⊢
    rw [heights]
    rcases List.mem_append.mp hn with hn | hn
    · obtain ⟨bound, place⟩ := nodes_levels (some parent) next _ visible a n hn
      rw [one] at bound
      refine ⟨by omega, ?_⟩
      rcases place with ⟨hp, hpath⟩ | ⟨m, hm, hp, level⟩
      · exact .inl ⟨hp, by rw [hpath, one]⟩
      · exact .inr ⟨m, List.mem_append_left _ hm, hp, level⟩
    · obtain ⟨bound, place⟩ := forest_levels parent (next + a.size) path (position + 1) visible rest n hn
      refine ⟨by omega, place.imp id ?_⟩
      rintro ⟨m, hm, hp, level⟩
      exact ⟨m, List.mem_append_right _ hm, hp, level⟩

end

end Activity

namespace Definition

/-- How many levels are above an activity. -/
def level (d : Definition) (k : NodeId) : Nat :=
  Activity.levelOf (d.node k).path

/-- The level of a node in pre-order is that of its path. -/
theorem level_of_mem {a : Activity} {m : Node} (hm : m ∈ a.nodes none 0 "1" []) :
    a.prepare.level m.id = Activity.levelOf m.path := by
  have hn : (m.id, m.path) ∈ (a.nodes none 0 "1" []).map fun n => (n.id, n.path) :=
    List.mem_map_of_mem hm
  rw [← Activity.prepare_nodes_map (fun n => (n.id, n.path)) fun _ _ => rfl] at hn
  obtain ⟨n, hn, same⟩ := List.mem_map.mp hn
  obtain ⟨id, path⟩ := Prod.mk.inj same
  obtain ⟨j, hj⟩ := List.getElem?_of_mem hn
  have numbered : n.id = ⟨j⟩ := a.prepare_wellFormed.numbered (k := ⟨j⟩) hj
  have found : a.prepare.get? m.id = some n := by
    rw [← id, numbered]
    exact hj
  rw [level, node, found, Option.getD_some, path]

/-- No activity stands below the last level. -/
theorem level_lt_height (a : Activity) (k : NodeId) : a.prepare.level k < a.height := by
  have known : ∀ {k : NodeId} {n : Node}, a.prepare.get? k = some n → a.prepare.level k < a.height := by
    intro k n hn
    obtain ⟨m, hm, rfl, -⟩ := a.exists_of_get? hn
    have bound := (Activity.nodes_levels none 0 "1" [] a m hm).1
    have top : Activity.levelOf "1" = 0 := rfl
    rwa [top, Nat.zero_add, ← level_of_mem hm] at bound
  cases hn : a.prepare.get? k with
  | some n => exact known hn
  | none =>
    -- An identifier that was not given out leads to the root.
    have root : a.prepare.level k = a.prepare.level .root := by
      rw [level, node, hn]
      rfl
    rw [root]
    exact known rfl

/-- A declared child stands one level below its parent. -/
theorem level_of_isDeclaredChild {a : Activity} {p c : NodeId}
    (h : a.prepare.isDeclaredChild p c = true) : a.prepare.level c = a.prepare.level p + 1 := by
  rw [isDeclaredChild, beq_iff_eq, Option.bind_eq_some_iff] at h
  obtain ⟨n, hn, hp⟩ := h
  obtain ⟨m, hm, rfl, parent, -⟩ := a.exists_of_get? hn
  rcases (Activity.nodes_levels none 0 "1" [] a m hm).2 with ⟨none, -⟩ | ⟨q, hq, parent', level⟩
  · rw [← parent, none] at hp
    cases hp
  · obtain rfl : q.id = p := Option.some.inj (parent'.symm.trans (parent.trans hp))
    rw [level_of_mem hm, level_of_mem hq, level]

end Definition

end Workflow
