import Workflow.Definition
import Workflow.Digest.Blake3
import Workflow.Text.Hex

/-!
# Fingerprints of definitions

Two definitions have one fingerprint if they have the same structure: paths, names, kinds and types
of bodies, names of variables, names and directions of arguments, and numbers of children. Values
and programs leave no trace in it.
-/

namespace Workflow

/-- The eight octets of a number, lowest first. -/
def octetsOfCount (n : Nat) : Bytes :=
  (List.range 8).map fun i => UInt8.ofNat (n / Nat.pow 256 i)

/-- The octets that stand for a variable. -/
def Variable.image (v : Variable) : Bytes :=
  Utf8.encode "v:" ++ Utf8.encode v.name

/-- The octets that stand for an argument. -/
def Argument.image (a : Argument) : Bytes :=
  Utf8.encode "a:" ++ Utf8.encode a.name ++ Utf8.encode a.direction.label

/-- The octets that stand for a node. -/
def Node.image (n : Node) : Bytes :=
  Utf8.encode n.path ++ [0] ++ Utf8.encode n.name ++ [0] ++
    Utf8.encode n.body.kind.label ++ Utf8.encode n.body.typeName ++
    n.locals.flatMap Variable.image ++ n.arguments.flatMap Argument.image ++
    octetsOfCount n.children.length

namespace Definition

/-- The octets that stand for a definition. -/
def image (d : Definition) : Bytes :=
  d.nodes.flatMap Node.image

/-- The fingerprint of a definition, in hexadecimal. -/
def fingerprint (d : Definition) : String :=
  Hex.encode (Blake3.digest d.image)

end Definition

end Workflow
