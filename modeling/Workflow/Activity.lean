import Workflow.Body

/-!
# Activity trees

An author describes a workflow as a tree of activities. Each has a body, declares variables and
arguments, and has the children that it may schedule.
-/

namespace Workflow

/-- A variable of an activity. -/
structure Variable where
  /-- Its name. -/
  name : String
  /-- Its first value. -/
  initial : Option Value

/-- Which way the value of an argument flows. -/
inductive Direction where
  /-- From the parent into the activity. -/
  | input
  /-- From the activity back to the parent. -/
  | output
  /-- Both ways. -/
  | both
deriving DecidableEq

namespace Direction

/-- Whether a value flows in. -/
def isInput : Direction → Bool
  | output => false
  | _ => true

/-- Whether a value flows out. -/
def isOutput : Direction → Bool
  | input => false
  | _ => true

/-- The name of a direction in fingerprints. -/
def label : Direction → String
  | input => "In"
  | output => "Out"
  | both => "InOut"

end Direction

/-- Where the value of an argument comes from and goes to. -/
inductive Binding where
  /-- It is fixed. -/
  | literal (v : Value)
  /-- It is a variable or argument that the parent sees. -/
  | location (name : String)
  /-- Nothing is said. -/
  | unbound

/-- An argument of an activity. -/
structure Argument where
  /-- Its name. -/
  name : String
  /-- Which way its value flows. -/
  direction : Direction
  /-- Whether it must have a binding. -/
  required : Bool
  /-- Its binding. -/
  binding : Binding

/-- An activity with its children. -/
inductive Activity where
  /-- An activity of a display name and a body. -/
  | mk (name : String) (body : Body) (children : List Activity) (locals : List Variable)
      (arguments : List Argument)

namespace Activity

mutual

/-- The number of activities in a tree. -/
def size : Activity → Nat
  | mk _ _ children _ _ => sizes children + 1

/-- The number of activities in several trees. -/
def sizes : List Activity → Nat
  | [] => 0
  | a :: rest => a.size + sizes rest

end

mutual

/-- The fields of a tree for inspection. -/
def inspect : Activity → String
  | mk name body children _ _ =>
    "Activity \x7b display_name: " ++ Quoted.quote name ++ ", kind: " ++ body.kind.label ++
      "(" ++ body.typeName ++ "), children: [" ++
      String.intercalate ", " (inspectAll children) ++ "] \x7d"

/-- The fields of several trees. -/
def inspectAll : List Activity → List String
  | [] => []
  | a :: rest => a.inspect :: inspectAll rest

end

end Activity

end Workflow
