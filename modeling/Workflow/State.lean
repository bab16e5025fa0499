/-!
# States

The states of an activity instance and of a whole workflow.
-/

namespace Workflow

/-- The state of an activity instance. -/
inductive ActivityState where
  /-- Running; only now may it schedule children. -/
  | executing
  /-- Asked to cancel and waiting for its children. -/
  | canceling
  /-- A fault is being applied to its subtree. -/
  | faulting
  /-- Completed normally. -/
  | closed
  /-- Completed by cancellation. -/
  | canceled
  /-- Completed by a fault. -/
  | faulted
deriving DecidableEq

namespace ActivityState

/-- Whether the instance has completed. -/
def isTerminal : ActivityState → Bool
  | closed => true
  | canceled => true
  | faulted => true
  | _ => false

/-- Whether the instance may own bookmarks and receive callbacks. -/
def isLive : ActivityState → Bool
  | executing => true
  | canceling => true
  | _ => false

/-- The name of a state. -/
def label : ActivityState → String
  | executing => "Executing"
  | canceling => "Canceling"
  | faulting => "Faulting"
  | closed => "Closed"
  | canceled => "Canceled"
  | faulted => "Faulted"

/-- Every state. -/
def all : List ActivityState :=
  [executing, canceling, faulting, closed, canceled, faulted]

/-- The state of a name. -/
def ofLabel? (text : String) : Option ActivityState :=
  all.find? fun s => s.label == text

end ActivityState

/-- The state of a workflow. -/
inductive WorkflowState where
  /-- Work is queued or being done. -/
  | runnable
  /-- Nothing can be done before a bookmark is resumed or an operation completes. -/
  | idle
  /-- The root closed. -/
  | closed
  /-- The root was canceled. -/
  | canceled
  /-- The root faulted. -/
  | faulted
  /-- Torn down before it completed. -/
  | aborted
deriving DecidableEq

namespace WorkflowState

/-- Whether the root has completed. -/
def isCompleted : WorkflowState → Bool
  | closed => true
  | canceled => true
  | faulted => true
  | _ => false

/-- Whether nothing can happen to the workflow any more. -/
def isFinal (s : WorkflowState) : Bool :=
  s.isCompleted || s == aborted

/-- The name of a state. -/
def label : WorkflowState → String
  | runnable => "Runnable"
  | idle => "Idle"
  | closed => "Closed"
  | canceled => "Canceled"
  | faulted => "Faulted"
  | aborted => "Aborted"

/-- Every state. -/
def all : List WorkflowState :=
  [runnable, idle, closed, canceled, faulted, aborted]

/-- The state of a name. -/
def ofLabel? (text : String) : Option WorkflowState :=
  all.find? fun s => s.label == text

end WorkflowState

end Workflow
