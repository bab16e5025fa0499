import Workflow.Definition.Fingerprint
import Workflow.Proofs.Preparation

/-!
# Definitions that are alike

A body may keep a state of its own and behave differently from call to call. What stays is the
outline of its definition: everything but the programs, of which only the kinds count. Definitions of
one outline agree in all that the scheduler reads from them between two calls.
-/

namespace Workflow

/-- Programs of a kind that do nothing. -/
def Behaviour.blank : BodyKind → Behaviour
  | .code => .code (.done none)
  | .native => .native { execute := .done () }
  | .async => .async { start := fun _ => .done () }

@[simp]
theorem Behaviour.kind_blank (k : BodyKind) : (blank k).kind = k := by
  cases k <;> rfl

/-- A node without its programs. -/
def Node.outline (n : Node) : Node :=
  { n with body := { n.body with behaviour := .blank n.body.kind } }

@[simp]
theorem Node.kind_outline (n : Node) : n.outline.body.kind = n.body.kind :=
  Behaviour.kind_blank _

namespace Definition

/-- A definition without its programs. -/
def outline (d : Definition) : Definition :=
  ⟨d.root.outline, d.below.map Node.outline⟩

theorem nodes_outline (d : Definition) : d.outline.nodes = d.nodes.map Node.outline := rfl

theorem get?_outline (d : Definition) (k : NodeId) :
    d.outline.get? k = (d.get? k).map Node.outline := by
  rw [get?, nodes_outline, List.getElem?_map]
  rfl

theorem node_outline (d : Definition) (k : NodeId) : d.outline.node k = (d.node k).outline := by
  rw [node, node, get?_outline]
  cases d.get? k <;> rfl

/-- What a node tells is what its outline tells, if it tells nothing of programs. -/
theorem map_nodes_outline {β : Type} (d : Definition) {f : Node → β} (hf : ∀ n, f n.outline = f n) :
    d.outline.nodes.map f = d.nodes.map f := by
  rw [nodes_outline, List.map_map]
  exact List.map_congr_left fun n _ => hf n

/-- Two definitions have one outline. -/
def Alike (d d' : Definition) : Prop :=
  d.outline = d'.outline

namespace Alike

variable {d d' d'' : Definition}

theorem refl (d : Definition) : d.Alike d := rfl

/-- Nodes tell the same if they tell nothing of programs. -/
theorem map_nodes {β : Type} (h : d.Alike d') {f : Node → β} (hf : ∀ n, f n.outline = f n) :
    d.nodes.map f = d'.nodes.map f := by
  rw [← map_nodes_outline d hf, ← map_nodes_outline d' hf, h]

theorem map_get? {β : Type} (h : d.Alike d') {f : Node → β} (hf : ∀ n, f n.outline = f n)
    (k : NodeId) : (d.get? k).map f = (d'.get? k).map f := by
  have hm := congrArg (·[k.number]?) (h.map_nodes hf)
  rw [List.getElem?_map, List.getElem?_map] at hm
  exact hm

theorem apply_node {β : Type} (h : d.Alike d') {f : Node → β} (hf : ∀ n, f n.outline = f n)
    (k : NodeId) : f (d.node k) = f (d'.node k) := by
  rw [← hf, ← hf (d'.node k), ← node_outline, ← node_outline, h]

theorem apply_root {β : Type} (h : d.Alike d') {f : Node → β} (hf : ∀ n, f n.outline = f n) :
    f d.root = f d'.root := by
  rw [← hf, ← hf d'.root]
  exact congrArg (fun d : Definition => f d.root) h

theorem isSome_get? (h : d.Alike d') (k : NodeId) : (d.get? k).isSome = (d'.get? k).isSome := by
  have := congrArg Option.isSome (h.map_get? (f := fun _ => ()) (fun _ => rfl) k)
  simpa only [Option.isSome_map] using this

theorem isDeclaredChild (h : d.Alike d') (p c : NodeId) :
    d.isDeclaredChild p c = d'.isDeclaredChild p c := by
  have hm := h.map_get? (f := (·.parent)) (fun _ => rfl) c
  have hb : ∀ d : Definition, (d.get? c).bind (·.parent) = ((d.get? c).map (·.parent)).join := by
    intro d
    cases d.get? c <;> rfl
  rw [Definition.isDeclaredChild, Definition.isDeclaredChild, hb, hb, hm]

theorem kind (h : d.Alike d') (k : NodeId) : (d.node k).body.kind = (d'.node k).body.kind :=
  h.apply_node (f := (·.body.kind)) Node.kind_outline k

theorem path (h : d.Alike d') (k : NodeId) : (d.node k).path = (d'.node k).path :=
  h.apply_node (f := (·.path)) (fun _ => rfl) k

/-- What is searched for by a test of paths is found alike. -/
theorem findByPath? (h : d.Alike d') (path : String) : d.findByPath? path = d'.findByPath? path := by
  have hf : ∀ d : Definition, d.findByPath? path =
      ((d.nodes.map fun n => (n.path, n.id)).find? (·.1 == path)).map (·.2) := by
    intro d
    rw [Definition.findByPath?, List.find?_map, Option.map_map]
    rfl
  rw [hf, hf, h.map_nodes (f := fun n => (n.path, n.id)) fun _ => rfl]

theorem fingerprint (h : d.Alike d') : d.fingerprint = d'.fingerprint := by
  have hi : ∀ n : Node, n.outline.image = n.image := by
    intro n
    rw [Node.image, Node.image, Node.kind_outline]
    rfl
  have hd : ∀ d : Definition, d.image = (d.nodes.map Node.image).flatten := fun d => by
    rw [image, List.flatMap_def]
  rw [Definition.fingerprint, Definition.fingerprint, hd, hd, h.map_nodes hi]

theorem ensureValid (h : d.Alike d') : d.ensureValid = d'.ensureValid := by
  have hf : ∀ d : Definition, d.findings = ⟨(d.nodes.map (·.findings.toList)).flatten⟩ := fun d => by
    rw [findings, List.flatMap_def]
  rw [Definition.ensureValid, Definition.ensureValid, hf, hf,
    h.map_nodes (f := (·.findings.toList)) fun _ => rfl]

theorem wellFormed (h : d.Alike d') (hw : d.WellFormed) : d'.WellFormed where
  numbered {k n} hk := by
    have hm := h.map_get? (f := (·.id)) (fun _ => rfl) k
    rw [hk, Option.map_some, Option.map_eq_some_iff] at hm
    obtain ⟨m, hm, hi⟩ := hm
    exact hi.symm.trans (hw.numbered hm)
  distinct := by
    rw [← h.map_nodes (f := (·.path)) fun _ => rfl]
    exact hw.distinct

theorem runnable (h : d.Alike d') (hr : d.Runnable) : d'.Runnable :=
  ⟨h.wellFormed hr.wellFormed, h.ensureValid ▸ hr.valid⟩

end Alike

end Definition

end Workflow
