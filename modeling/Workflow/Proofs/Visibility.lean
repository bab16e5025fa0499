import Workflow.Proofs.Alike

/-!
# Names that activities see

An activity declares variables and arguments, and it sees what those above it declare. In a definition
without errors the names of one activity are distinct, and an argument below the root is bound only to
a name that the activity above sees.
-/

namespace Workflow

/-- The names that a node declares. -/
def Node.declared (n : Node) : List String :=
  Activity.declaredNames n.locals n.arguments

/-- A node of which no error was found. -/
def Node.Clean (n : Node) : Prop :=
  ∀ f ∈ n.findings.toList, f.isError = false

namespace Definition

/-- A node or one above it declares a name. -/
inductive Sees (d : Definition) (name : String) : NodeId → Prop
  /-- The node declares it. -/
  | here {k : NodeId} {n : Node} (hn : d.get? k = some n) (h : name ∈ n.declared) : Sees d name k
  /-- The node above sees it. -/
  | above {k p : NodeId} {n : Node} (hn : d.get? k = some n) (hp : n.parent = some p)
      (h : Sees d name p) : Sees d name k

/-- A definition in which arguments are bound to names that are seen. -/
structure WellScoped (d : Definition) : Prop where
  /-- Nothing is above the root. -/
  top : d.root.parent = none
  /-- The names of one activity are distinct. -/
  distinct : ∀ {k : NodeId} {n : Node}, d.get? k = some n → n.declared.Nodup
  /-- Arguments are bound to what is seen above. -/
  bound : ∀ {k p : NodeId} {n : Node}, d.get? k = some n → n.parent = some p →
    ∀ a ∈ n.arguments, ∀ name, a.binding = .location name → d.Sees name p

end Definition

namespace Activity

variable {site : Site} {taken visible : List String} {locals : List Variable}
variable {arguments : List Argument}

/-! ### Findings -/

theorem isError_of_mem_argumentFindings {f : Finding}
    (h : f ∈ argumentFindings site taken arguments) : f.isError = true := by
  induction arguments generalizing taken with
  | nil => exact absurd h List.not_mem_nil
  | cons a rest ih =>
    rw [argumentFindings] at h
    split at h
    · rcases List.mem_cons.mp h with rfl | h
      · rfl
      · exact ih h
    · exact ih h

theorem isError_of_mem_locationFindings {f : Finding}
    (h : f ∈ locationFindings site arguments taken locals) : f.isError = true := by
  induction locals generalizing taken with
  | nil => exact isError_of_mem_argumentFindings h
  | cons v rest ih =>
    rw [locationFindings] at h
    split at h
    · rcases List.mem_cons.mp h with rfl | h
      · rfl
      · exact ih h
    · exact ih h

theorem isError_of_mem_bindingFindings {f : Finding}
    (h : f ∈ bindingFindings site visible arguments) : f.isError = true := by
  obtain ⟨message, -, rfl⟩ := List.mem_map.mp h
  rfl

/-- Arguments of which nothing is found have names of their own. -/
theorem nodup_of_argumentFindings (h : argumentFindings site taken arguments = []) :
    (arguments.map (·.name)).Nodup ∧ ∀ a ∈ arguments, a.name ∉ taken := by
  induction arguments generalizing taken with
  | nil => exact ⟨.nil, fun _ ha => absurd ha List.not_mem_nil⟩
  | cons a rest ih =>
    rw [argumentFindings] at h
    split at h
    · exact absurd h (List.cons_ne_nil _ _)
    · next free =>
      obtain ⟨distinct, apart⟩ := ih h
      refine ⟨?_, fun b hb => ?_⟩
      · rw [List.map_cons, List.nodup_cons]
        refine ⟨fun hm => ?_, distinct⟩
        obtain ⟨b, hb, same⟩ := List.mem_map.mp hm
        exact apart b hb (same ▸ List.mem_cons_self)
      · rcases List.mem_cons.mp hb with rfl | hb
        · exact free
        · exact fun hm => apart b hb (List.mem_cons_of_mem _ hm)

/-- An activity of whose locations nothing is found declares distinct names. -/
theorem nodup_of_locationFindings (h : locationFindings site arguments taken locals = []) :
    (declaredNames locals arguments).Nodup ∧ ∀ name ∈ declaredNames locals arguments, name ∉ taken := by
  induction locals generalizing taken with
  | nil =>
    obtain ⟨distinct, apart⟩ := nodup_of_argumentFindings h
    refine ⟨distinct, fun name hn => ?_⟩
    obtain ⟨a, ha, rfl⟩ := List.mem_map.mp (show name ∈ arguments.map (·.name) from hn)
    exact apart a ha
  | cons v rest ih =>
    rw [locationFindings] at h
    split at h
    · exact absurd h (List.cons_ne_nil _ _)
    · next free =>
      obtain ⟨distinct, apart⟩ := ih h
      refine ⟨List.nodup_cons.mpr ⟨fun hm => apart _ hm List.mem_cons_self, distinct⟩, fun name hn => ?_⟩
      rcases List.mem_cons.mp hn with rfl | hn
      · exact free
      · exact fun hm => apart name hn (List.mem_cons_of_mem _ hm)

/-- If nothing is found of bindings, those to names are to visible ones. -/
theorem visible_of_bindingFindings (h : bindingFindings site visible arguments = []) {a : Argument}
    (ha : a ∈ arguments) {name : String} (hb : a.binding = .location name) : name ∈ visible := by
  have none : bindingProblem? visible a = none :=
    List.filterMap_eq_nil_iff.mp (List.map_eq_nil_iff.mp h) a ha
  by_contra hidden
  rw [bindingProblem?, hb] at none
  simp only [if_neg hidden] at none
  exact absurd none (Option.some_ne_none _)

/-- Where no finding is an error and every finding would be one, nothing was found. -/
theorem eq_nil_of_errors {l : List Finding} (errors : ∀ f ∈ l, f.isError = true)
    (clean : ∀ f ∈ l, f.isError = false) : l = [] :=
  List.eq_nil_iff_forall_not_mem.mpr fun f hf =>
    absurd ((errors f hf).symm.trans (clean f hf)) Bool.false_ne_true.symm

/-! ### Trees -/

variable {d : Definition}

mutual

/-- In a tree of clean nodes names are distinct, and arguments are bound to what is seen above. -/
theorem nodes_scoped (parent : Option NodeId) (id : Nat) (path : String) (visible : List String)
    (seen : ∀ name ∈ visible, ∃ p, parent = some p ∧ d.Sees name p) :
    (a : Activity) → (∀ n ∈ a.nodes parent id path visible, ∃ m, d.get? n.id = some m ∧
        m.parent = n.parent ∧ m.declared = n.declared) →
      (∀ n ∈ a.nodes parent id path visible, n.Clean) →
      ∀ n ∈ a.nodes parent id path visible, n.declared.Nodup ∧ ∀ p, n.parent = some p →
        ∀ b ∈ n.arguments, ∀ name, b.binding = .location name → d.Sees name p
  | mk name body children locals arguments => by
    intro placed clean n hn
    rw [nodes] at placed clean hn
    obtain ⟨⟨root, hroot, hparent, hdeclared⟩, placed⟩ := List.forall_mem_cons.mp placed
    obtain ⟨cleanRoot, clean⟩ := List.forall_mem_cons.mp clean
    have seenBelow : ∀ name ∈ visible ++ declaredNames locals arguments, d.Sees name ⟨id⟩ := by
      intro name hname
      rcases List.mem_append.mp hname with hname | hname
      · obtain ⟨p, hp, hs⟩ := seen name hname
        exact .above hroot (hparent.trans hp) hs
      · exact .here hroot (hdeclared ▸ hname)
    rcases List.mem_cons.mp hn with rfl | hn
    · have located := eq_nil_of_errors (fun f => isError_of_mem_locationFindings) fun f hf =>
        cleanRoot f (List.mem_append_left _ (List.mem_append_right _ hf))
      refine ⟨(nodup_of_locationFindings located).1, fun p hp b hb target ht => ?_⟩
      have bound := eq_nil_of_errors (fun f => isError_of_mem_bindingFindings) fun f hf =>
        cleanRoot f (List.mem_append_right _ (by rw [show parent = some p from hp]; exact hf))
      obtain ⟨q, hq, hs⟩ := seen target (visible_of_bindingFindings bound hb ht)
      cases hp.symm.trans hq
      exact hs
    · exact forest_scoped ⟨id⟩ (id + 1) path 1 _ seenBelow children placed clean n hn

/-- So it is in several trees below one node. -/
theorem forest_scoped (parent : NodeId) (next : Nat) (path : String) (position : Nat)
    (visible : List String) (seen : ∀ name ∈ visible, d.Sees name parent) :
    (l : List Activity) → (∀ n ∈ forest parent next path position visible l, ∃ m,
        d.get? n.id = some m ∧ m.parent = n.parent ∧ m.declared = n.declared) →
      (∀ n ∈ forest parent next path position visible l, n.Clean) →
      ∀ n ∈ forest parent next path position visible l, n.declared.Nodup ∧
        ∀ p, n.parent = some p → ∀ b ∈ n.arguments, ∀ name, b.binding = .location name →
          d.Sees name p
  | [] => fun _ _ _ hn => absurd hn List.not_mem_nil
  | a :: rest => by
    intro placed clean n hn
    rw [forest] at placed clean hn
    rw [List.forall_mem_append] at placed clean
    rcases List.mem_append.mp hn with hn | hn
    · exact nodes_scoped (some parent) next _ visible (fun name hname => ⟨parent, rfl, seen name hname⟩)
        a placed.1 clean.1 n hn
    · exact forest_scoped parent (next + a.size) path (position + 1) visible seen rest placed.2 clean.2
        n hn

end

/-- Findings about bookmarks come after all others. -/
theorem exists_of_mem_checkAllBookmarks (seen : List (String × String)) (l : List Node) :
    ∀ n ∈ l, ∃ m ∈ checkAllBookmarks seen l, ∀ f ∈ n.findings.toList, f ∈ m.findings.toList := by
  induction l generalizing seen with
  | nil => exact fun _ hn => absurd hn List.not_mem_nil
  | cons a rest ih =>
    intro n hn
    rw [checkAllBookmarks]
    rcases List.mem_cons.mp hn with rfl | hn
    · exact ⟨_, List.mem_cons_self, fun f hf => List.mem_append_left _ hf⟩
    · obtain ⟨m, hm, found⟩ := ih _ n hn
      exact ⟨m, List.mem_cons_of_mem _ hm, found⟩

theorem prepare_nodes (a : Activity) :
    a.prepare.nodes = checkAllBookmarks [] (a.nodes none 0 "1" []) := by
  obtain ⟨name, body, children, locals, arguments⟩ := a
  rw [prepare]
  split
  · next hc => rw [hc]; rfl
  · next hc =>
    rw [nodes, checkAllBookmarks] at hc
    exact absurd hc (List.cons_ne_nil _ _)

/-- In a definition without errors every node is clean. -/
theorem clean_of_ensureValid {a : Activity} (h : a.prepare.ensureValid = .ok ()) :
    ∀ n ∈ a.nodes none 0 "1" [], n.Clean := by
  intro n hn f hf
  obtain ⟨m, hm, found⟩ := exists_of_mem_checkAllBookmarks [] _ n hn
  rw [← prepare_nodes] at hm
  unfold Definition.ensureValid at h
  split at h
  · cases h
  · next none =>
    rw [Bool.not_eq_true] at none
    have all := List.any_eq_false.mp none f (List.mem_flatMap.mpr ⟨m, hm, found f hf⟩)
    rwa [Bool.not_eq_true] at all

/-- A definition without errors binds arguments to names that are seen. -/
theorem prepare_wellScoped {a : Activity} (h : a.prepare.ensureValid = .ok ()) :
    a.prepare.WellScoped := by
  have placed : ∀ n ∈ a.nodes none 0 "1" [], ∃ m, a.prepare.get? n.id = some m ∧
      m.parent = n.parent ∧ m.declared = n.declared := by
    intro n hn
    have hm : (n.id, n.parent, n.declared) ∈
        (a.nodes none 0 "1" []).map fun n => (n.id, n.parent, n.declared) := List.mem_map_of_mem hn
    rw [← prepare_nodes_map (fun n => (n.id, n.parent, n.declared)) fun _ _ => rfl] at hm
    obtain ⟨m, hm, same⟩ := List.mem_map.mp hm
    obtain ⟨j, hj⟩ := List.getElem?_of_mem hm
    have hid : m.id = ⟨j⟩ := a.prepare_wellFormed.numbered (k := ⟨j⟩) hj
    simp only [Prod.mk.injEq] at same
    refine ⟨m, ?_, same.2⟩
    rw [← same.1, hid]
    exact hj
  have visible := nodes_scoped none 0 "1" [] (fun _ hn => absurd hn List.not_mem_nil) a placed
    (clean_of_ensureValid h)
  have found : ∀ {k : NodeId} {n : Node}, a.prepare.get? k = some n →
      ∃ m ∈ a.nodes none 0 "1" [], m.parent = n.parent ∧ m.declared = n.declared ∧
        m.arguments = n.arguments := by
    intro k n hn
    have hm : (n.parent, n.declared, n.arguments) ∈
        a.prepare.nodes.map fun n => (n.parent, n.declared, n.arguments) :=
      List.mem_map_of_mem (List.mem_of_getElem? hn)
    rw [prepare_nodes_map (fun n => (n.parent, n.declared, n.arguments)) fun _ _ => rfl] at hm
    obtain ⟨m, hm, same⟩ := List.mem_map.mp hm
    simp only [Prod.mk.injEq] at same
    exact ⟨m, hm, same⟩
  constructor
  · have heads := congrArg List.head? (prepare_nodes_map (·.parent) (fun _ _ => rfl) a)
    obtain ⟨name, body, children, locals, arguments⟩ := a
    rw [nodes] at heads
    exact Option.some.inj heads
  · intro k n hn
    obtain ⟨m, hm, -, hdeclared, -⟩ := found hn
    exact hdeclared ▸ (visible m hm).1
  · intro k p n hn hp b hb name hname
    obtain ⟨m, hm, hparent, -, harguments⟩ := found hn
    exact (visible m hm).2 p (hparent.trans hp) b (harguments.symm ▸ hb) name hname

end Activity

namespace Definition.Alike

variable {d d' : Definition} {k : NodeId} {n : Node}

/-- Nodes of definitions that are alike declare the same. -/
theorem exists_get? (h : d.Alike d') (hn : d'.get? k = some n) : ∃ m, d.get? k = some m ∧
    m.parent = n.parent ∧ m.declared = n.declared ∧ m.arguments = n.arguments := by
  have same := h.map_get? (f := fun n => (n.parent, n.declared, n.arguments)) (fun _ => rfl) k
  rw [hn, Option.map_some, Option.map_eq_some_iff] at same
  obtain ⟨m, hm, same⟩ := same
  simp only [Prod.mk.injEq] at same
  exact ⟨m, hm, same⟩

theorem declared (h : d.Alike d') (k : NodeId) : (d.node k).declared = (d'.node k).declared :=
  h.apply_node (f := Node.declared) (fun _ => rfl) k

theorem sees {name : String} (h : d.Alike d') (hs : d.Sees name k) : d'.Sees name k := by
  have back : d'.Alike d := Eq.symm h
  induction hs with
  | here hn hname =>
    obtain ⟨m, hm, -, hdeclared, -⟩ := back.exists_get? hn
    exact .here hm (hdeclared ▸ hname)
  | above hn hp _ ih =>
    obtain ⟨m, hm, hparent, -, -⟩ := back.exists_get? hn
    exact .above hm (hparent.trans hp) ih

theorem wellScoped (h : d.Alike d') (hs : d.WellScoped) : d'.WellScoped where
  top := (h.apply_root (f := (·.parent)) fun _ => rfl) ▸ hs.top
  distinct hn := by
    obtain ⟨m, hm, -, hdeclared, -⟩ := h.exists_get? hn
    exact hdeclared ▸ hs.distinct hm
  bound hn hp b hb name hname := by
    obtain ⟨m, hm, hparent, -, harguments⟩ := h.exists_get? hn
    exact h.sees (hs.bound hm (hparent.trans hp) b (harguments.symm ▸ hb) name hname)

end Definition.Alike

end Workflow
