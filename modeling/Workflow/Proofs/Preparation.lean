import Workflow.Definition.Prepare
import Std.Data.String.ToNat
import Mathlib.Data.List.Nodup

/-!
# Prepared definitions

A prepared tree stands in pre-order: every node is at its own position, and no two nodes have one
path. So a path leads back to the node that it came from. A node lists its declared children, each of
them once. Programs leave no trace in any of this: a definition whose bodies have come to behave
otherwise is alike.
-/

namespace Workflow

/-- A definition in which positions and paths identify nodes. -/
structure Definition.WellFormed (d : Definition) : Prop where
  /-- A node stands at its position. -/
  numbered : ∀ {k : NodeId} {n : Node}, d.get? k = some n → n.id = k
  /-- Paths are distinct. -/
  distinct : (d.nodes.map (·.path)).Nodup

/-- A definition that executors accept. -/
structure Definition.Runnable (d : Definition) : Prop where
  /-- Positions and paths identify nodes. -/
  wellFormed : d.WellFormed
  /-- It has no errors. -/
  valid : d.ensureValid = .ok ()

/-- A node without its findings. -/
def Node.bare (n : Node) : Node :=
  { n with findings := {} }

/-- Nodes that are alike without their findings differ in these only. -/
theorem Node.bare_eq {n m : Node} (h : m.bare = n.bare) : m = { n with findings := m.findings } := by
  obtain ⟨⟩ := n
  obtain ⟨⟩ := m
  simpa [Node.bare] using h

namespace Definition.WellFormed

variable {d : Definition} {k : NodeId} {n : Node}

/-- A node is found by its path. -/
theorem findByPath?_path (h : d.WellFormed) (hk : d.get? k = some n) :
    d.findByPath? n.path = some k := by
  have hm : n ∈ d.nodes := List.mem_of_getElem? hk
  cases hf : d.nodes.find? (·.path == n.path) with
  | none =>
    rw [List.find?_eq_none] at hf
    exact absurd (beq_self_eq_true _) (hf n hm)
  | some m =>
    have hp : m.path = n.path := by simpa using List.find?_some hf
    have hmn : m = n := List.inj_on_of_nodup_map h.distinct (List.mem_of_find?_eq_some hf) hm hp
    rw [Definition.findByPath?, hf, Option.map_some, hmn, h.numbered hk]

/-- What is found by a path is a node of the path. -/
theorem get?_of_findByPath? (h : d.WellFormed) {path : String} (hf : d.findByPath? path = some k) :
    ∃ n, d.get? k = some n ∧ n.path = path := by
  rw [Definition.findByPath?, Option.map_eq_some_iff] at hf
  obtain ⟨n, hn, rfl⟩ := hf
  have hp : n.path = path := by simpa using List.find?_some hn
  obtain ⟨a, ha⟩ := List.getElem?_of_mem (List.mem_of_find?_eq_some hn)
  have hk : n.id = ⟨a⟩ := h.numbered (k := ⟨a⟩) ha
  exact ⟨n, by rw [hk]; exact ha, hp⟩

end Definition.WellFormed

namespace Activity

/-! ### Paths -/

/-- The places below a path: the path itself and what continues it after a dot. -/
def Beneath (path : List Char) (place : String) : Prop :=
  ∃ rest : List Char, place.toList = path ++ rest ∧ (rest = [] ∨ rest.head? = some '.')

/-- The path of the child at a position. -/
def childPath (path : String) (position : Nat) : String :=
  path ++ "." ++ toString position

theorem dot_not_mem_digits (n : Nat) : '.' ∉ (toString n).toList := by
  intro h
  have hd : ('.' : Char).isDigit = true := by
    refine Nat.isDigit_of_mem_toDigits (b := 10) (n := n) (by decide) (by decide) ?_
    simpa [toString, Nat.repr] using h
  exact absurd hd (by decide)

/-- What comes before the first dot. -/
theorem takeWhile_digits (n : Nat) {rest : List Char} (h : rest = [] ∨ rest.head? = some '.') :
    ((toString n).toList ++ rest).takeWhile (· != '.') = (toString n).toList := by
  rw [List.takeWhile_append_of_pos]
  · rcases h with rfl | h
    · simp
    · cases rest with
      | nil => simp
      | cons c rest =>
        obtain rfl : c = '.' := Option.some.inj h
        simp
  · intro c hc
    rw [bne_iff_ne]
    rintro rfl
    exact dot_not_mem_digits n hc

/-- A place is below the path of one child only. -/
theorem Beneath.childPath_inj {path place : String} {m n : Nat}
    (hm : Beneath (childPath path m).toList place) (hn : Beneath (childPath path n).toList place) :
    m = n := by
  obtain ⟨r, hr, hrd⟩ := hm
  obtain ⟨s, hs, hsd⟩ := hn
  have he := hr.symm.trans hs
  simp only [childPath, String.toList_append, List.append_assoc] at he
  have he := List.append_cancel_left (List.append_cancel_left he)
  have ht := congrArg (List.takeWhile (· != '.')) he
  rw [takeWhile_digits m hrd, takeWhile_digits n hsd] at ht
  exact Nat.repr_injective (String.toList_inj.mp ht)

/-- What is below the path of a child is below the path. -/
theorem Beneath.of_child {path place : String} {n : Nat}
    (h : Beneath (childPath path n).toList place) : Beneath path.toList place := by
  obtain ⟨r, hr, -⟩ := h
  refine ⟨'.' :: ((toString n).toList ++ r), ?_, .inr rfl⟩
  have hd : ".".toList = ['.'] := rfl
  rw [hr, childPath, String.toList_append, String.toList_append, hd]
  simp only [List.append_assoc, List.cons_append, List.nil_append]

/-- A path is not below that of a child. -/
theorem not_beneath_child (path : String) (n : Nat) :
    ¬ Beneath (childPath path n).toList path := by
  rintro ⟨r, hr, -⟩
  have := congrArg List.length hr
  simp only [childPath, String.toList_append, List.length_append] at this
  have hd : (".".toList).length = 1 := rfl
  omega

/-! ### Trees in pre-order -/

mutual

/-- The nodes of a tree are numbered from its first position. -/
theorem nodes_ids (parent : Option NodeId) (id : Nat) (path : String) (visible : List String) :
    (a : Activity) →
      (a.nodes parent id path visible).map (·.id) = (List.range' id a.size).map NodeId.mk
  | mk name body children locals arguments => by
    rw [nodes, size, List.range'_succ, List.map_cons, List.map_cons, forest_ids]

/-- The nodes of several trees are numbered from their first position. -/
theorem forest_ids (parent : NodeId) (next : Nat) (path : String) (position : Nat)
    (visible : List String) :
    (l : List Activity) →
      (forest parent next path position visible l).map (·.id) =
        (List.range' next (sizes l)).map NodeId.mk
  | [] => rfl
  | a :: rest => by
    rw [forest, sizes, List.map_append, nodes_ids, forest_ids, ← List.map_append,
      List.range'_append_1]

end

mutual

/-- The nodes of a tree have places below its path. -/
theorem nodes_beneath (parent : Option NodeId) (id : Nat) (path : String) (visible : List String) :
    (a : Activity) → ∀ n ∈ a.nodes parent id path visible, Beneath path.toList n.path
  | mk name body children locals arguments => by
    intro n hn
    rw [nodes] at hn
    rcases List.mem_cons.mp hn with rfl | hn
    · exact ⟨[], (List.append_nil _).symm, .inl rfl⟩
    · obtain ⟨j, -, hj⟩ := forest_beneath _ _ _ _ _ children n hn
      exact hj.of_child

/-- The nodes of several trees have places below the paths of children. -/
theorem forest_beneath (parent : NodeId) (next : Nat) (path : String) (position : Nat)
    (visible : List String) :
    (l : List Activity) → ∀ n ∈ forest parent next path position visible l,
      ∃ j, position ≤ j ∧ Beneath (childPath path j).toList n.path
  | [] => fun _ hn => absurd hn List.not_mem_nil
  | a :: rest => by
    intro n hn
    rw [forest] at hn
    rcases List.mem_append.mp hn with hn | hn
    · exact ⟨position, Nat.le_refl _, nodes_beneath _ _ _ _ a n hn⟩
    · obtain ⟨j, hj, hb⟩ := forest_beneath _ _ _ _ _ rest n hn
      exact ⟨j, Nat.le_of_succ_le hj, hb⟩

end

mutual

/-- The paths of a tree are distinct. -/
theorem nodes_paths_nodup (parent : Option NodeId) (id : Nat) (path : String)
    (visible : List String) :
    (a : Activity) → ((a.nodes parent id path visible).map (·.path)).Nodup
  | mk name body children locals arguments => by
    rw [nodes, List.map_cons, List.nodup_cons]
    refine ⟨fun hm => ?_, forest_paths_nodup _ _ _ _ _ children⟩
    obtain ⟨n, hn, hp⟩ := List.mem_map.mp hm
    obtain ⟨j, -, hb⟩ := forest_beneath _ _ _ _ _ children n hn
    rw [hp] at hb
    exact not_beneath_child path j hb

/-- The paths of several trees are distinct. -/
theorem forest_paths_nodup (parent : NodeId) (next : Nat) (path : String) (position : Nat)
    (visible : List String) :
    (l : List Activity) → ((forest parent next path position visible l).map (·.path)).Nodup
  | [] => .nil
  | a :: rest => by
    rw [forest, List.map_append]
    refine List.nodup_append.mpr ⟨nodes_paths_nodup _ _ _ _ a, forest_paths_nodup _ _ _ _ _ rest, ?_⟩
    rintro p hp q hq rfl
    obtain ⟨n, hn, hnp⟩ := List.mem_map.mp hp
    obtain ⟨m, hm, hmp⟩ := List.mem_map.mp hq
    obtain ⟨j, hj, hb⟩ := forest_beneath _ _ _ _ _ rest m hm
    have hn := nodes_beneath _ _ _ _ a n hn
    rw [hnp] at hn
    rw [hmp] at hb
    exact absurd (Beneath.childPath_inj hn hb) (Nat.ne_of_lt hj)

end

mutual

/-- The parents in a tree stand before their children. -/
theorem nodes_rising {parent : Option NodeId} {id : Nat}
    (hp : ∀ p, parent = some p → p.number < id) (path : String) (visible : List String) :
    (a : Activity) → ∀ n ∈ a.nodes parent id path visible, ∀ p, n.parent = some p →
      p.number < n.id.number
  | mk name body children locals arguments => by
    intro n hn p hnp
    rw [nodes] at hn
    rcases List.mem_cons.mp hn with rfl | hn
    · exact hp p hnp
    · exact forest_rising (Nat.lt_succ_self id) _ _ _ children n hn p hnp

/-- The parents in several trees below a node stand before their children, and so does the node. -/
theorem forest_rising {parent : NodeId} {next : Nat} (hp : parent.number < next) (path : String)
    (position : Nat) (visible : List String) :
    (l : List Activity) → ∀ n ∈ forest parent next path position visible l, ∀ p,
      n.parent = some p → p.number < n.id.number
  | [] => fun _ hn => absurd hn List.not_mem_nil
  | a :: rest => by
    intro n hn p hnp
    rw [forest] at hn
    rcases List.mem_append.mp hn with hn | hn
    · refine nodes_rising (fun q hq => ?_) _ _ a n hn p hnp
      exact Option.some.inj hq ▸ hp
    · exact forest_rising (Nat.lt_of_lt_of_le hp (Nat.le_add_right next a.size)) _ _ _ rest n hn p hnp

end

/-- Findings about bookmarks change nothing else. -/
theorem checkAllBookmarks_map {β : Type} (f : Node → β) (hf : ∀ n g, f { n with findings := g } = f n)
    (seen : List (String × String)) (l : List Node) :
    (checkAllBookmarks seen l).map f = l.map f := by
  induction l generalizing seen with
  | nil => rfl
  | cons n rest ih =>
    rw [checkAllBookmarks, List.map_cons, List.map_cons, ← ih]
    exact congrArg (· :: _) (hf _ _)

/-- The nodes of a prepared tree are those in pre-order, but for findings. -/
theorem prepare_nodes_map {β : Type} (f : Node → β) (hf : ∀ n g, f { n with findings := g } = f n)
    (a : Activity) : a.prepare.nodes.map f = (a.nodes none 0 "1" []).map f := by
  obtain ⟨name, body, children, locals, arguments⟩ := a
  have h := checkAllBookmarks_map f hf [] ((mk name body children locals arguments).nodes none 0 "1" [])
  rw [prepare, ← h]
  split
  · next hc => rw [hc]; rfl
  · next hc =>
    rw [hc, nodes] at h
    exact absurd h (by simp)

/-- In a prepared definition positions and paths identify nodes. -/
theorem prepare_wellFormed (a : Activity) : a.prepare.WellFormed where
  numbered {k n} hk := by
    have hm := congrArg (·[k.number]?) (prepare_nodes_map (·.id) (fun _ _ => rfl) a)
    have hk : a.prepare.nodes[k.number]? = some n := hk
    rw [nodes_ids] at hm
    simp only [List.getElem?_map, hk, Option.map_some] at hm
    obtain ⟨v, hv, hvn⟩ := Option.map_eq_some_iff.mp hm.symm
    obtain ⟨hlt, hv⟩ := List.getElem?_eq_some_iff.mp hv
    rw [List.getElem_range', Nat.zero_add, Nat.one_mul] at hv
    rw [← hvn, ← hv]
  distinct := by
    rw [prepare_nodes_map (·.path) (fun _ _ => rfl)]
    exact nodes_paths_nodup none 0 "1" [] a

/-- A node of a prepared tree is one in pre-order, but for findings. -/
theorem preorder_of_get? (a : Activity) {k : NodeId} {n : Node} (hn : a.prepare.get? k = some n) :
    ∃ f, (a.nodes none 0 "1" [])[k.number]? = some { n with findings := f } := by
  have same := congrArg (·[k.number]?) (prepare_nodes_map Node.bare (fun _ _ => rfl) a)
  have hn : a.prepare.nodes[k.number]? = some n := hn
  simp only [List.getElem?_map, hn, Option.map_some] at same
  obtain ⟨m, hm, hmn⟩ := Option.map_eq_some_iff.mp same.symm
  exact ⟨m.findings, by rw [hm, ← Node.bare_eq hmn]⟩

/-- A node in pre-order is one of the prepared tree, but for findings. -/
theorem get?_of_preorder (a : Activity) {m : Node} (hm : m ∈ a.nodes none 0 "1" []) :
    ∃ f, a.prepare.get? m.id = some { m with findings := f } := by
  have hb : m.bare ∈ a.prepare.nodes.map Node.bare := by
    rw [prepare_nodes_map Node.bare (fun _ _ => rfl)]
    exact List.mem_map_of_mem hm
  obtain ⟨n, hn, same⟩ := List.mem_map.mp hb
  obtain ⟨j, hj⟩ := List.getElem?_of_mem hn
  have hj : a.prepare.get? ⟨j⟩ = some n := hj
  have hid : n.id = ⟨j⟩ := a.prepare_wellFormed.numbered hj
  have hn := Node.bare_eq same
  rw [hn] at hid
  exact ⟨n.findings, by rw [← hn, ← hj]; exact congrArg _ hid⟩

/-- In a prepared definition a node stands before its declared children. -/
theorem prepare_rising (a : Activity) {p c : NodeId} (h : a.prepare.isDeclaredChild p c = true) :
    p.number < c.number := by
  unfold Definition.isDeclaredChild at h
  rw [beq_iff_eq, Option.bind_eq_some_iff] at h
  obtain ⟨n, hn, hp⟩ := h
  obtain ⟨f, hm⟩ := a.preorder_of_get? hn
  have rising := nodes_rising (fun q hq => absurd hq.symm (Option.some_ne_none q)) _ _ a _
    (List.mem_of_getElem? hm) p hp
  have hid : n.id = c := a.prepare_wellFormed.numbered hn
  exact hid ▸ rising

/-! ### Declared children -/

theorem length_childIds (next : Nat) (l : List Activity) : (childIds next l).length = l.length := by
  induction l generalizing next with
  | nil => rfl
  | cons a rest ih => rw [childIds, List.length_cons, List.length_cons, ih]

/-- The children of a node stand in order, from the first position on. -/
theorem pairwise_childIds (next : Nat) (l : List Activity) :
    (childIds next l).Pairwise (fun a b => a.number < b.number) ∧
      ∀ k ∈ childIds next l, next ≤ k.number := by
  induction l generalizing next with
  | nil => exact ⟨.nil, fun _ hk => absurd hk List.not_mem_nil⟩
  | cons a rest ih =>
    obtain ⟨ordered, later⟩ := ih (next + a.size)
    have positive : 0 < a.size := by
      cases a
      exact Nat.succ_pos _
    rw [childIds]
    refine ⟨List.pairwise_cons.mpr ⟨fun k hk => ?_, ordered⟩, fun k hk => ?_⟩
    · exact Nat.lt_of_lt_of_le (Nat.lt_add_of_pos_right positive) (later k hk)
    · rcases List.mem_cons.mp hk with rfl | hk
      · exact Nat.le_refl _
      · exact Nat.le_of_add_right_le (later k hk)

/-- Nodes whose links agree below a parent: those of the parent's own children have that parent, and
every other node has a parent among them that declares it. -/
structure Linked (parent : Option NodeId) (children : List NodeId) (l : List Node) : Prop where
  up : ∀ n ∈ l, (n.parent = parent ∧ n.id ∈ children) ∨
    ∃ m ∈ l, n.parent = some m.id ∧ n.id ∈ m.children
  down : ∀ m ∈ l, ∀ c ∈ m.children, ∃ n ∈ l, n.id = c ∧ n.parent = some m.id
  own : ∀ c ∈ children, ∃ n ∈ l, n.id = c ∧ n.parent = parent

/-- The links below one and below another parent's children agree together. -/
theorem Linked.append {parent : Option NodeId} {children children' : List NodeId} {l l' : List Node}
    (h : Linked parent children l) (h' : Linked parent children' l') :
    Linked parent (children ++ children') (l ++ l') where
  up n hn := by
    rcases List.mem_append.mp hn with hn | hn
    · rcases h.up n hn with ⟨hp, hc⟩ | ⟨m, hm, hp⟩
      · exact .inl ⟨hp, List.mem_append_left _ hc⟩
      · exact .inr ⟨m, List.mem_append_left _ hm, hp⟩
    · rcases h'.up n hn with ⟨hp, hc⟩ | ⟨m, hm, hp⟩
      · exact .inl ⟨hp, List.mem_append_right _ hc⟩
      · exact .inr ⟨m, List.mem_append_right _ hm, hp⟩
  down m hm c hc := by
    rcases List.mem_append.mp hm with hm | hm
    · obtain ⟨n, hn, hnc⟩ := h.down m hm c hc
      exact ⟨n, List.mem_append_left _ hn, hnc⟩
    · obtain ⟨n, hn, hnc⟩ := h'.down m hm c hc
      exact ⟨n, List.mem_append_right _ hn, hnc⟩
  own c hc := by
    rcases List.mem_append.mp hc with hc | hc
    · obtain ⟨n, hn, hnc⟩ := h.own c hc
      exact ⟨n, List.mem_append_left _ hn, hnc⟩
    · obtain ⟨n, hn, hnc⟩ := h'.own c hc
      exact ⟨n, List.mem_append_right _ hn, hnc⟩

mutual

/-- The links of a tree agree. -/
theorem nodes_linked (parent : Option NodeId) (id : Nat) (path : String) (visible : List String) :
    (a : Activity) → Linked parent [⟨id⟩] (a.nodes parent id path visible)
  | mk name body children locals arguments => by
    have below := forest_linked ⟨id⟩ (id + 1) path 1 (visible ++ declaredNames locals arguments) children
    rw [nodes]
    refine ⟨fun n hn => ?_, fun m hm c hc => ?_, fun c hc => ?_⟩
    · rcases List.mem_cons.mp hn with rfl | hn
      · exact .inl ⟨rfl, List.mem_singleton_self _⟩
      · rcases below.up n hn with ⟨hp, hc⟩ | ⟨m, hm, hp⟩
        · exact .inr ⟨_, List.mem_cons_self, hp, hc⟩
        · exact .inr ⟨m, List.mem_cons_of_mem _ hm, hp⟩
    · rcases List.mem_cons.mp hm with rfl | hm
      · obtain ⟨n, hn, hnc⟩ := below.own c hc
        exact ⟨n, List.mem_cons_of_mem _ hn, hnc⟩
      · obtain ⟨n, hn, hnc⟩ := below.down m hm c hc
        exact ⟨n, List.mem_cons_of_mem _ hn, hnc⟩
    · rw [List.mem_singleton.mp hc]
      exact ⟨_, List.mem_cons_self, rfl, rfl⟩

/-- The links of the trees below one node agree. -/
theorem forest_linked (parent : NodeId) (next : Nat) (path : String) (position : Nat)
    (visible : List String) :
    (l : List Activity) → Linked (some parent) (childIds next l)
      (forest parent next path position visible l)
  | [] => ⟨fun _ hn => absurd hn List.not_mem_nil, fun _ hm => absurd hm List.not_mem_nil,
      fun _ hc => absurd hc List.not_mem_nil⟩
  | a :: rest => by
    rw [forest, childIds]
    exact (nodes_linked (some parent) next _ visible a).append
      (forest_linked parent (next + a.size) path (position + 1) visible rest)

end

mutual

/-- No node of a tree lists a child twice. -/
theorem nodes_nodup_children (parent : Option NodeId) (id : Nat) (path : String)
    (visible : List String) :
    (a : Activity) → ∀ n ∈ a.nodes parent id path visible, n.children.Nodup
  | mk name body children locals arguments => by
    intro n hn
    rw [nodes] at hn
    rcases List.mem_cons.mp hn with rfl | hn
    · refine (pairwise_childIds (id + 1) children).1.imp fun {a b} hab he => ?_
      rw [he] at hab
      exact Nat.lt_irrefl _ hab
    · exact forest_nodup_children _ _ _ _ _ children n hn

/-- No node of several trees lists a child twice. -/
theorem forest_nodup_children (parent : NodeId) (next : Nat) (path : String) (position : Nat)
    (visible : List String) :
    (l : List Activity) → ∀ n ∈ forest parent next path position visible l, n.children.Nodup
  | [] => fun _ hn => absurd hn List.not_mem_nil
  | a :: rest => by
    intro n hn
    rw [forest] at hn
    rcases List.mem_append.mp hn with hn | hn
    · exact nodes_nodup_children _ _ _ _ a n hn
    · exact forest_nodup_children _ _ _ _ _ rest n hn

end

/-- A node of a prepared definition comes from one in pre-order with the same links. -/
theorem exists_of_get? (a : Activity) {k : NodeId} {n : Node} (hn : a.prepare.get? k = some n) :
    ∃ m ∈ a.nodes none 0 "1" [], m.id = k ∧ m.parent = n.parent ∧ m.children = n.children := by
  obtain ⟨f, hm⟩ := a.preorder_of_get? hn
  have hid : n.id = k := a.prepare_wellFormed.numbered hn
  exact ⟨_, List.mem_of_getElem? hm, hid, rfl, rfl⟩

/-- A node in pre-order is found in the prepared definition with the same links. -/
theorem exists_get? (a : Activity) {m : Node} (hm : m ∈ a.nodes none 0 "1" []) :
    ∃ n, a.prepare.get? m.id = some n ∧ m.parent = n.parent ∧ m.children = n.children := by
  obtain ⟨f, hn⟩ := a.get?_of_preorder hm
  exact ⟨_, hn, rfl, rfl⟩

/-- The declared children of a node of a prepared definition are those that it lists. -/
theorem isDeclaredChild_prepare (a : Activity) {p c : NodeId} {n : Node}
    (hn : a.prepare.get? p = some n) :
    a.prepare.isDeclaredChild p c = true ↔ c ∈ n.children := by
  have linked := nodes_linked none 0 "1" [] a
  unfold Definition.isDeclaredChild
  rw [beq_iff_eq, Option.bind_eq_some_iff]
  constructor
  · rintro ⟨x, hx, hp⟩
    obtain ⟨y, hy, hyid, hyp, -⟩ := a.exists_of_get? hx
    rcases linked.up y hy with ⟨hnone, -⟩ | ⟨z, hz, hzp, hzc⟩
    · exact absurd (hnone.symm.trans (hyp.trans hp)).symm (Option.some_ne_none p)
    · obtain ⟨n', hn', -, hchildren⟩ := a.exists_get? hz
      have hzid : z.id = p := Option.some.inj (hzp.symm.trans (hyp.trans hp))
      cases hn.symm.trans (hzid ▸ hn')
      rw [← hchildren, ← hyid]
      exact hzc
  · intro hc
    obtain ⟨m, hm, hmid, -, hchildren⟩ := a.exists_of_get? hn
    obtain ⟨y, hy, hyid, hyp⟩ := linked.down m hm c (hchildren ▸ hc)
    obtain ⟨x, hx, hxp, -⟩ := a.exists_get? hy
    exact ⟨x, hyid ▸ hx, by rw [← hxp, hyp, hmid]⟩

/-- A node lists no child twice. -/
theorem nodup_children (a : Activity) {k : NodeId} {n : Node} (hn : a.prepare.get? k = some n) :
    n.children.Nodup := by
  obtain ⟨m, hm, -, -, hchildren⟩ := a.exists_of_get? hn
  rw [← hchildren]
  exact nodes_nodup_children none 0 "1" [] a m hm

end Activity

end Workflow
