import Workflow.Error
import Workflow.Text.Quoted

/-!
# Faults

An activity fails with an error that says what went wrong and why. The error becomes a fault of the
instance, and the fault travels up the instance tree to a handler or to the root.
-/

namespace Workflow

/-- What an activity fails with. -/
inductive ActivityError where
  /-- A request of the activity broke a rule. -/
  | contract (violation : ContractViolation)
  /-- The activity could not register a bookmark. -/
  | bookmark (error : BookmarkError)
  /-- A failure of the activity's own, followed by its causes down to the root cause. -/
  | custom (message : String) (causes : List String)
deriving DecidableEq

namespace ActivityError

/-- The outermost wording. -/
def message : ActivityError → String
  | contract v => v.message
  | bookmark e => e.message
  | custom m _ => m

/-- The wording with all causes. -/
def describe : ActivityError → String
  | contract v => v.message
  | bookmark e => e.message
  | custom m causes => String.intercalate ": " (m :: causes)

/-- The kind of error that a handler can tell apart. -/
def label : ActivityError → String
  | contract v => "Contract." ++ v.label
  | bookmark e => "Bookmark." ++ e.label
  | custom .. => "Other"

end ActivityError

/-- How activity code ends when it does not return. -/
inductive Crash where
  /-- It returns an error. -/
  | error (e : ActivityError)
  /-- It breaks off with a text. -/
  | panic (text : String)
  /-- It breaks off with something that is not a text. -/
  | panicOpaque
deriving DecidableEq

/-- The error that stands for a crash. -/
def Crash.toError : Crash → ActivityError
  | error e => e
  | panic text => .custom ("activity panicked: " ++ text) []
  | panicOpaque => .custom "activity panicked: unknown panic payload" []

/-- An error with the instance that raised it. -/
structure Fault where
  /-- What went wrong. -/
  error : ActivityError
  /-- The instance that raised it. -/
  source : InstanceId
  /-- The activity of that instance. -/
  sourceNode : NodeId
  /-- The display name of that activity. -/
  sourceName : String
  /-- Whether the host terminated the workflow. -/
  isTermination : Bool
deriving DecidableEq

namespace Fault

/-- The fault of a workflow that the host terminates. -/
def terminated (reason : String) (source : InstanceId) (node : NodeId) (name : String) : Fault :=
  ⟨.custom ("workflow terminated: " ++ reason) [], source, node, name, true⟩

/-- The fault shown to activities when the host aborts a workflow. -/
def aborted (reason : String) (source : InstanceId) (node : NodeId) (name : String) : Fault :=
  ⟨.custom ("workflow aborted: " ++ reason) [], source, node, name, false⟩

/-- The text of a fault. -/
def print (f : Fault) : String :=
  "'" ++ f.sourceName ++ "' (instance " ++ toString f.source ++ ") faulted: " ++ f.error.describe

/-- The fields of a fault for inspection. -/
def inspect (f : Fault) : String :=
  "FaultInfo \x7b error: " ++ Quoted.quote f.error.describe ++
    ", source: InstanceId(" ++ toString f.source ++ "), source_name: " ++
    Quoted.quote f.sourceName ++ ", terminated: " ++
    (if f.isTermination then "true" else "false") ++ " \x7d"

end Fault

/-- What a fault handler is told. -/
structure FaultContext where
  /-- The fault. -/
  fault : Fault
  /-- The child of the handler that faulted. -/
  child : InstanceId
  /-- The activity of that child. -/
  childNode : NodeId

/-- The answer of a fault handler. -/
inductive FaultHandling where
  /-- The fault ends here. -/
  | handled
  /-- The handler faults as well. -/
  | propagate
deriving DecidableEq

end Workflow
