import Workflow.Activity

/-!
# Composite activities

Leaves that write a line or fail, and activities that run their children one after another, at once,
or with their faults handled. A shape is a tree of these.
-/

namespace Workflow

namespace Program

/-- Schedule a declared child, or end with the broken rule. -/
def schedule (node : NodeId) (options : ScheduleOptions) : Program .native Unit := do
  let answer ← scheduling (.schedule node options)
  discard <| ofContract answer

/-- Schedule the first of several declared children, if there is one. -/
def scheduleFirst (options : ScheduleOptions) : List NodeId → Program .native Unit
  | [] => pure ()
  | node :: _ => schedule node options

/-- Schedule several declared children. -/
def scheduleAll (options : ScheduleOptions) : List NodeId → Program .native Unit
  | [] => pure ()
  | node :: rest => do
    schedule node options
    scheduleAll options rest

end Program

/-- A tree of composite activities. -/
inductive Shape where
  /-- A leaf that writes its label. -/
  | record (label : String)
  /-- A leaf that fails with a message. -/
  | throw (message : String)
  /-- Children that run one after another. -/
  | sequence (name : String) (children : List Shape)
  /-- Children that run at once. -/
  | parallel (name : String) (children : List Shape)
  /-- A child whose faults are handled. -/
  | tryCatch (body : Shape)

namespace Shape

/-- The shapes of the children. -/
def children : Shape → List Shape
  | sequence _ children => children
  | parallel _ children => children
  | tryCatch body => [body]
  | _ => []

/-- How children are scheduled. -/
def options : Shape → ScheduleOptions
  | sequence _ _ => { onCompleted := some "next" }
  | tryCatch _ => { onCompleted := some "done", onFaulted := some "catch" }
  | _ => {}

/-- The display name. -/
def name : Shape → String
  | record label => label
  | throw _ => "throw"
  | sequence name _ => name
  | parallel name _ => name
  | tryCatch _ => "try"

/-- The name of the type of the body. -/
def typeName : Shape → String
  | record _ => "Record"
  | throw _ => "Throw"
  | sequence _ _ => "Sequence"
  | parallel _ _ => "Parallel"
  | tryCatch _ => "TryCatch"

/-- Schedule the child after the one that has completed, unless the activity is to cancel. -/
def advance (options : ScheduleOptions) (child : CompletedChild) : Program .native Unit := do
  let canceling ← Program.request (.cancellation .isRequested BodyKind.native_ne_code)
  if canceling then return ()
  let nodes ← Program.scheduling .children
  Program.scheduleFirst options ((nodes.dropWhile (· != child.node)).drop 1)

/-- The programs. -/
def behaviour : Shape → Behaviour
  | record label => .code do
    Program.context (.say label)
    return some (.symbol label)
  | throw message => .code (Program.fail (.custom message []))
  | s@(sequence _ _) => .native {
    execute := do
      let nodes ← Program.scheduling .children
      Program.scheduleFirst s.options nodes
    childCompleted := fun _ child => advance s.options child }
  | s@(parallel _ _) => .native {
    execute := do
      let nodes ← Program.scheduling .children
      Program.scheduleAll s.options nodes }
  | s@(tryCatch _) => .native {
    execute := do
      let nodes ← Program.scheduling .children
      Program.scheduleFirst s.options nodes
    childCompleted := fun _ child => Program.context (.say ("done:" ++ child.state.label))
    childFaulted := fun _ context => do
      Program.context (.say ("caught:" ++ context.fault.error.message))
      return .handled }

/-- The body. -/
def body (s : Shape) : Body where
  label := s.name
  typeName := s.typeName
  behaviour := s.behaviour

mutual

/-- The activity of a shape. -/
def build : Shape → Activity
  | s@(record _) => .mk s.name s.body [] [] []
  | s@(throw _) => .mk s.name s.body [] [] []
  | s@(sequence _ children) => .mk s.name s.body (buildAll children) [] []
  | s@(parallel _ children) => .mk s.name s.body (buildAll children) [] []
  | s@(tryCatch body) => .mk s.name s.body [body.build] [] []

/-- The activities of several shapes. -/
def buildAll : List Shape → List Activity
  | [] => []
  | s :: rest => s.build :: buildAll rest

end

mutual

/-- A shape with all that is below it, in pre-order. -/
def listed : Shape → List Shape
  | s@(record _) => [s]
  | s@(throw _) => [s]
  | s@(sequence _ children) => s :: listedAll children
  | s@(parallel _ children) => s :: listedAll children
  | s@(tryCatch body) => s :: body.listed

/-- Several shapes with all that is below them, in pre-order. -/
def listedAll : List Shape → List Shape
  | [] => []
  | s :: rest => s.listed ++ listedAll rest

end

mutual

/-- Whether some failing leaf is below no handler. -/
def escapes : Shape → Bool
  | record _ => false
  | throw _ => true
  | sequence _ children => anyEscapes children
  | parallel _ children => anyEscapes children
  | tryCatch _ => false

/-- Whether some failing leaf of several shapes is below no handler. -/
def anyEscapes : List Shape → Bool
  | [] => false
  | s :: rest => s.escapes || anyEscapes rest

end

/-- The number of activities. -/
def size (s : Shape) : Nat :=
  s.listed.length

/-- Whether a shape is a failing leaf. -/
def isThrow : Shape → Bool
  | throw _ => true
  | _ => false

/-- Whether a shape is a leaf that writes its label. -/
def isRecord : Shape → Bool
  | record _ => true
  | _ => false

/-- Whether there is a failing leaf. -/
def throws (s : Shape) : Bool :=
  s.listed.any isThrow

/-- The lines that an activity writes of itself when nothing fails: a leaf its label, a handler that its
child has closed. -/
def ownLines : Shape → List String
  | record label => [label]
  | tryCatch _ => ["done:Closed"]
  | _ => []

/-- The lines that are written when nothing fails. -/
def lines (s : Shape) : List String :=
  s.listed.flatMap ownLines

end Shape

end Workflow
