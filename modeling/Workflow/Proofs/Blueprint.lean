import Workflow.Composite
import Workflow.Proofs.Preparation

/-!
# Composite activities in a definition

The nodes of a shape stand for the shape and what is below it, in pre-order, and there are no
findings.
-/

namespace Workflow

/-! ### Shapes -/

namespace Shape

mutual

/-- What holds of a shape if it holds of its children holds of every shape. -/
theorem tree_induction {P : Shape → Prop} (h : ∀ s, (∀ c ∈ s.children, P c) → P s) : (s : Shape) → P s
  | record label => h (record label) fun _ hc => absurd hc List.not_mem_nil
  | throw message => h (throw message) fun _ hc => absurd hc List.not_mem_nil
  | sequence name children => h (sequence name children) (forest_induction h children)
  | parallel name children => h (parallel name children) (forest_induction h children)
  | tryCatch body => h (tryCatch body) fun c hc => by
    rw [List.mem_singleton.mp hc]
    exact tree_induction h body

/-- What holds of a shape if it holds of its children holds of several shapes. -/
theorem forest_induction {P : Shape → Prop} (h : ∀ s, (∀ c ∈ s.children, P c) → P s) :
    (l : List Shape) → ∀ s ∈ l, P s
  | [] => fun _ hs => absurd hs List.not_mem_nil
  | s :: rest => List.forall_mem_cons.mpr ⟨tree_induction h s, forest_induction h rest⟩

end

theorem buildAll_eq_map (l : List Shape) : buildAll l = l.map build := by
  induction l with
  | nil => rfl
  | cons s rest ih => rw [buildAll, List.map_cons, ih]

theorem build_eq (s : Shape) : s.build = .mk s.name s.body (s.children.map build) [] [] := by
  cases s with
  | record | throw => rfl
  | sequence name children => rw [build, buildAll_eq_map]; rfl
  | parallel name children => rw [build, buildAll_eq_map]; rfl
  | tryCatch body => rw [build]; rfl

theorem listedAll_eq_flatMap (l : List Shape) : listedAll l = l.flatMap listed := by
  induction l with
  | nil => rfl
  | cons s rest ih => rw [listedAll, List.flatMap_cons, ih]

theorem listed_eq (s : Shape) : s.listed = s :: s.children.flatMap listed := by
  cases s with
  | record | throw => rfl
  | sequence name children => rw [listed, listedAll_eq_flatMap]; rfl
  | parallel name children => rw [listed, listedAll_eq_flatMap]; rfl
  | tryCatch body => rw [listed]; simp [children]

theorem anyEscapes_eq_any (l : List Shape) : anyEscapes l = l.any escapes := by
  induction l with
  | nil => rfl
  | cons s rest ih => rw [anyEscapes, List.any_cons, ih]

/-- Whether faults of children are handled. -/
def isCatch : Shape → Bool
  | tryCatch _ => true
  | _ => false

/-- A fault escapes from a failing leaf and from where it is not handled. -/
theorem escapes_eq (s : Shape) :
    s.escapes = (s.isThrow || !s.isCatch && s.children.any escapes) := by
  cases s with
  | record | throw => rfl
  | sequence name children => rw [escapes, anyEscapes_eq_any]; rfl
  | parallel name children => rw [escapes, anyEscapes_eq_any]; rfl
  | tryCatch body => rfl

/-- A fault that escapes is one of a failing leaf. -/
theorem throws_of_escapes {s : Shape} (h : s.escapes = true) : s.throws = true := by
  induction s using tree_induction with
  | h s ih =>
    rw [throws, listed_eq, List.any_cons, Bool.or_eq_true]
    rw [escapes_eq, Bool.or_eq_true, Bool.and_eq_true, List.any_eq_true] at h
    rcases h with h | ⟨-, c, hc, h⟩
    · exact .inl h
    · have hd := ih c hc h
      rw [throws, List.any_eq_true] at hd
      obtain ⟨t, ht, hth⟩ := hd
      exact .inr (List.any_eq_true.mpr ⟨t, List.mem_flatMap.mpr ⟨c, hc, ht⟩, hth⟩)

/-- What is below a shape that is below another is below that. -/
theorem listed_subset {s t : Shape} (h : t ∈ s.listed) : t.listed ⊆ s.listed := by
  induction s using tree_induction with
  | h s ih =>
    rw [listed_eq] at h
    rcases List.mem_cons.mp h with rfl | h
    · exact List.Subset.refl _
    · obtain ⟨c, hc, h⟩ := List.mem_flatMap.mp h
      intro u hu
      rw [listed_eq]
      exact List.mem_cons_of_mem s (List.mem_flatMap.mpr ⟨c, hc, ih c hc h hu⟩)

/-! ### The nodes of a shape -/

theorem size_build (s : Shape) : s.build.size = s.listed.length := by
  induction s using tree_induction with
  | h s ih =>
    rw [build_eq, Activity.size, listed_eq, List.length_cons]
    have below : ∀ l : List Shape, (∀ c ∈ l, c.build.size = c.listed.length) →
        Activity.sizes (l.map build) = (l.flatMap listed).length := by
      intro l hl
      induction l with
      | nil => rfl
      | cons c rest ihl =>
        obtain ⟨hc, hrest⟩ := List.forall_mem_cons.mp hl
        rw [List.map_cons, Activity.sizes, hc, ihl hrest, List.flatMap_cons, List.length_append]
    rw [below s.children ih]

/-- What a node has from a shape. -/
structure Stands (s : Shape) (n : Node) : Prop where
  body : n.body = s.body
  arguments : n.arguments = []
  bookmarks : n.bookmarks = []
  findings : n.findings = {}

/-- The nodes of a shape stand for it and for what is below it, in pre-order. -/
theorem nodes_stand (s : Shape) (parent : Option NodeId) (id : Nat) (path : String)
    (visible : List String) : List.Forall₂ Stands s.listed (s.build.nodes parent id path visible) := by
  induction s using tree_induction generalizing parent id path visible with
  | h s ih =>
    have below : ∀ l : List Shape, (∀ c ∈ l, ∀ (parent : Option NodeId) (id : Nat) (path : String)
        (visible : List String), List.Forall₂ Stands c.listed (c.build.nodes parent id path visible)) →
        ∀ (parent : NodeId) (next : Nat) (path : String) (position : Nat) (visible : List String),
          List.Forall₂ Stands (l.flatMap listed)
            (Activity.forest parent next path position visible (l.map build)) := by
      intro l hl
      induction l with
      | nil => exact fun _ _ _ _ _ => .nil
      | cons c rest ihl =>
        intro parent next path position visible
        obtain ⟨hc, hrest⟩ := List.forall_mem_cons.mp hl
        rw [List.flatMap_cons, List.map_cons, Activity.forest]
        exact List.rel_append (hc _ _ _ _) (ihl hrest _ _ _ _ _)
    rw [build_eq, Activity.nodes, listed_eq]
    refine .cons ⟨rfl, rfl, rfl, ?_⟩ (below s.children ih _ _ _ _ _)
    dsimp only
    split <;> rfl

/-- A list that begins with two others has the second after the first. -/
theorem prefix_of_append {all l r : List Shape} {next : Nat} (h : l ++ r <+: all.drop next) :
    l <+: all.drop next ∧ r <+: all.drop (next + l.length) := by
  obtain ⟨tail, ht⟩ := h
  refine ⟨⟨r ++ tail, by rw [← ht, List.append_assoc]⟩, tail, ?_⟩
  rw [← List.drop_drop, ← ht, List.append_assoc, List.drop_left]

/-- Where the pre-order of a shape begins in a list, the shape stands. -/
theorem getElem?_of_begins {all : List Shape} {s : Shape} {id : Nat} (h : s.listed <+: all.drop id) :
    all[id]? = some s ∧ s.children.flatMap listed <+: all.drop (id + 1) := by
  obtain ⟨tail, ht⟩ := h
  rw [listed_eq, List.cons_append] at ht
  have h0 : (all.drop id)[0]? = some s := by
    rw [← ht]
    rfl
  rw [List.getElem?_drop] at h0
  refine ⟨h0, tail, ?_⟩
  rw [← List.drop_drop, ← ht]
  rfl

/-- The children of a node stand for the children of its shape. -/
theorem childIds_stand {all : List Shape} (l : List Shape) (next : Nat)
    (h : l.flatMap listed <+: all.drop next) :
    (Activity.childIds next (l.map build)).map (fun k => all[k.number]?) = l.map some := by
  induction l generalizing next with
  | nil => rfl
  | cons c rest ih =>
    obtain ⟨first, later⟩ := prefix_of_append (List.flatMap_cons ▸ h)
    rw [List.map_cons, Activity.childIds, List.map_cons, List.map_cons, size_build, ih _ later]
    exact congrArg (· :: _) (getElem?_of_begins first).1

/-- The children of every node stand for the children of its shape. -/
theorem children_stand (all : List Shape) (s : Shape) (parent : Option NodeId) (id : Nat)
    (path : String) (visible : List String) (h : s.listed <+: all.drop id) :
    ∀ n ∈ s.build.nodes parent id path visible, ∃ t, all[n.id.number]? = some t ∧
      n.children = Activity.childIds (n.id.number + 1) (t.children.map build) ∧
      n.children.map (fun k => all[k.number]?) = t.children.map some := by
  induction s using tree_induction generalizing parent id path visible with
  | h s ih =>
    have below : ∀ l : List Shape, (∀ c ∈ l, c ∈ s.children) →
        ∀ (parent : NodeId) (next : Nat) (path : String) (position : Nat) (visible : List String),
          l.flatMap listed <+: all.drop next →
          ∀ n ∈ Activity.forest parent next path position visible (l.map build),
            ∃ t, all[n.id.number]? = some t ∧
              n.children = Activity.childIds (n.id.number + 1) (t.children.map build) ∧
              n.children.map (fun k => all[k.number]?) = t.children.map some := by
      intro l hl
      induction l with
      | nil => exact fun _ _ _ _ _ _ _ hn => absurd hn List.not_mem_nil
      | cons c rest ihl =>
        intro parent next path position visible hp n hn
        obtain ⟨hc, hrest⟩ := List.forall_mem_cons.mp hl
        obtain ⟨first, later⟩ := prefix_of_append (List.flatMap_cons ▸ hp)
        rw [List.map_cons, Activity.forest, size_build] at hn
        rcases List.mem_append.mp hn with hn | hn
        · exact ih c hc _ _ _ _ first n hn
        · exact ihl hrest _ _ _ _ _ later n hn
    obtain ⟨hs, hp⟩ := getElem?_of_begins h
    intro n hn
    rw [build_eq, Activity.nodes] at hn
    rcases List.mem_cons.mp hn with rfl | hn
    · exact ⟨s, hs, rfl, childIds_stand _ _ hp⟩
    · exact below s.children (fun _ hc => hc) _ _ _ _ _ hp n hn

/-- Findings about bookmarks are none where none is declared. -/
theorem checkAllBookmarks_of_stands {l : List Shape} {ns : List Node}
    (h : List.Forall₂ Stands l ns) (seen : List (String × String)) :
    Activity.checkAllBookmarks seen ns = ns := by
  induction h generalizing seen with
  | nil => rfl
  | @cons s n _ _ hn _ ih =>
    have same : Activity.checkBookmarks seen n = (n, seen) := by
      obtain ⟨id, parent, children, path, name, body, locals, arguments, bookmarks, findings⟩ := n
      obtain rfl : bookmarks = [] := hn.bookmarks
      obtain rfl : findings = {} := hn.findings
      rfl
    rw [Activity.checkAllBookmarks, same]
    exact congrArg (n :: ·) (ih seen)

/-- The nodes of a prepared shape are those in pre-order. -/
theorem nodes_prepare (s : Shape) : s.build.prepare.nodes = s.build.nodes none 0 "1" [] := by
  have same := checkAllBookmarks_of_stands (s.nodes_stand none 0 "1" []) []
  rw [build_eq] at same ⊢
  rw [Activity.prepare, same, Activity.nodes]
  rfl

/-- The shape that a node of a prepared shape stands for. -/
def plan (s : Shape) (k : NodeId) : Shape :=
  s.listed[k.number]?.getD s

end Shape

/-- A definition whose nodes stand for shapes. -/
structure Blueprint (d : Definition) (plan : NodeId → Shape) : Prop where
  /-- A node has the body of its shape. -/
  body : ∀ {k : NodeId} {n : Node}, d.get? k = some n → n.body = (plan k).body
  /-- No node has arguments. -/
  arguments : ∀ {k : NodeId} {n : Node}, d.get? k = some n → n.arguments = []
  /-- Every node may run. -/
  valid : ∀ {k : NodeId} {n : Node}, d.get? k = some n → n.isValid = true
  /-- The children stand for the children of the shape. -/
  children : ∀ {k : NodeId} {n : Node}, d.get? k = some n → n.children.map plan = (plan k).children
  /-- They follow in pre-order. -/
  ordered : ∀ {k : NodeId} {n : Node}, d.get? k = some n →
    n.children = Activity.childIds (k.number + 1) ((plan k).children.map Shape.build)
  /-- No child is listed twice. -/
  nodup : ∀ {k : NodeId} {n : Node}, d.get? k = some n → n.children.Nodup
  /-- The declared children are those that are listed. -/
  declared : ∀ {p c : NodeId} {n : Node}, d.get? p = some n →
    (d.isDeclaredChild p c = true ↔ c ∈ n.children)

namespace Shape

/-- A node of a prepared shape stands for something below the shape. -/
theorem exists_stands (s : Shape) {k : NodeId} {n : Node} (hn : s.build.prepare.get? k = some n) :
    s.listed[k.number]? = some (s.plan k) ∧ Stands (s.plan k) n := by
  have hn : s.build.prepare.nodes[k.number]? = some n := hn
  rw [nodes_prepare] at hn
  have stands := s.nodes_stand none 0 "1" []
  have hlen : k.number < s.listed.length := by
    rw [stands.length_eq]
    exact (List.getElem?_eq_some_iff.mp hn).1
  have hs : s.listed[k.number]? = some (s.plan k) := by
    rw [plan, List.getElem?_eq_getElem hlen]
    rfl
  obtain ⟨hk, hn⟩ := List.getElem?_eq_some_iff.mp hn
  refine ⟨hs, ?_⟩
  have h := List.Forall₂.get stands hlen hk
  rw [List.get_eq_getElem, List.get_eq_getElem, hn] at h
  rw [plan, List.getElem?_eq_getElem hlen]
  exact h

/-- The children of a node of a prepared shape stand where the children of its shape do. -/
theorem children_prepare (s : Shape) {k : NodeId} {n : Node} (hn : s.build.prepare.get? k = some n) :
    n.children = Activity.childIds (k.number + 1) ((s.plan k).children.map build) ∧
      n.children.map (fun c => s.listed[c.number]?) = (s.plan k).children.map some := by
  have hm : n ∈ s.build.nodes none 0 "1" [] := by
    rw [← nodes_prepare]
    exact List.mem_of_getElem? hn
  obtain ⟨t, ht, hc⟩ := children_stand s.listed s none 0 "1" [] (List.prefix_refl _) n hm
  rw [s.build.prepare_wellFormed.numbered hn] at ht hc
  rw [(s.exists_stands hn).1] at ht
  cases ht
  exact hc

/-- The nodes of a prepared shape stand for the shape and what is below it. -/
theorem blueprint (s : Shape) : Blueprint s.build.prepare s.plan where
  body hn := (s.exists_stands hn).2.body
  arguments hn := (s.exists_stands hn).2.arguments
  valid hn := by
    rw [Node.isValid, (s.exists_stands hn).2.findings]
    rfl
  children {k n} hn := by
    refine List.map_inj_right (f := some) (fun _ _ => Option.some.inj) |>.mp ?_
    rw [← (s.children_prepare hn).2, List.map_map]
    refine List.map_congr_left fun c hcn => ?_
    obtain ⟨m, hm⟩ : ∃ m, s.build.prepare.get? c = some m := by
      have declared := (s.build.isDeclaredChild_prepare hn).mpr hcn
      rw [Definition.isDeclaredChild, beq_iff_eq, Option.bind_eq_some_iff] at declared
      obtain ⟨m, hm, -⟩ := declared
      exact ⟨m, hm⟩
    exact (s.exists_stands hm).1.symm
  ordered hn := (s.children_prepare hn).1
  nodup := s.build.nodup_children
  declared := s.build.isDeclaredChild_prepare

end Shape

end Workflow
