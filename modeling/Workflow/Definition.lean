import Workflow.Activity

/-!
# Prepared definitions

A definition holds the nodes of an activity tree in pre-order. A node refers to its parent and
children by their positions and carries the findings that concern it.
-/

namespace Workflow

/-- A node of a prepared definition. -/
structure Node where
  /-- Its position in pre-order. -/
  id : NodeId
  /-- The node above. -/
  parent : Option NodeId
  /-- The nodes of the declared children, in order. -/
  children : List NodeId
  /-- The positions on the way from the root, counted from one and joined by dots. -/
  path : String
  /-- Its display name. -/
  name : String
  /-- Its body. -/
  body : Body
  /-- Its variables. -/
  locals : List Variable
  /-- Its arguments. -/
  arguments : List Argument
  /-- The bookmarks that its body declares. -/
  bookmarks : List String
  /-- The findings that concern it. -/
  findings : Findings

namespace Node

/-- The argument of a name. -/
def argument? (n : Node) (name : String) : Option Argument :=
  n.arguments.find? (·.name == name)

/-- Whether the node may run. -/
def isValid (n : Node) : Bool :=
  !n.findings.hasErrors

end Node

/-- A prepared definition. -/
structure Definition where
  /-- The node of the whole tree. -/
  root : Node
  /-- The nodes below it, in pre-order. -/
  below : List Node

namespace Definition

/-- Every node in pre-order. -/
def nodes (d : Definition) : List Node :=
  d.root :: d.below

/-- The number of nodes. -/
def size (d : Definition) : Nat :=
  d.nodes.length

/-- The node of an identifier. -/
def get? (d : Definition) (id : NodeId) : Option Node :=
  d.nodes[id.number]?

/-- The node of an identifier that the definition gave out; any other leads to the root. -/
def node (d : Definition) (id : NodeId) : Node :=
  (d.get? id).getD d.root

/-- The node at a path. -/
def findByPath? (d : Definition) (path : String) : Option NodeId :=
  (d.nodes.find? (·.path == path)).map (·.id)

/-- Whether one node is a declared child of another. -/
def isDeclaredChild (d : Definition) (parent child : NodeId) : Bool :=
  (d.get? child).bind (·.parent) == some parent

/-- Every finding, node by node. -/
def findings (d : Definition) : Findings :=
  ⟨d.nodes.flatMap (·.findings.toList)⟩

/-- Refuse a definition with errors. -/
def ensureValid (d : Definition) : Except EngineError Unit :=
  if d.findings.hasErrors then .error (.validation d.findings) else .ok ()

/-- What is wrong with the values that a host supplies for the root's arguments: required ones are
missing, or there is no such argument. -/
def inputFindings (d : Definition) (inputs : Environment) : Findings :=
  let finding (message : String) : Finding := ⟨d.root.path, d.root.name, message, .error⟩
  let isMissing (a : Argument) : Bool :=
    a.required && a.direction.isInput && !inputs.contains a.name &&
      match a.binding with
      | .unbound => true
      | _ => false
  let missing := (d.root.arguments.filter isMissing).map fun a =>
    finding ("required input '" ++ a.name ++ "' was not supplied")
  let unknown := (inputs.keys.filter fun name => (d.root.argument? name).isNone).map fun name =>
    finding ("input '" ++ name ++ "' does not match a root argument")
  ⟨missing ++ unknown⟩

/-- Refuse values that do not fit the root's arguments. -/
def checkInputs (d : Definition) (inputs : Environment) : Except EngineError Unit :=
  let findings := d.inputFindings inputs
  if findings.hasErrors then .error (.validation findings) else .ok ()

end Definition

end Workflow
