import Workflow.Body

/-!
# Activity instances

An instance is one activation of an activity. It owns values and properties, refers to its parent
and children, and counts what it waits for.
-/

namespace Workflow

/-- One activation of an activity. -/
structure Instance where
  /-- Its identifier. -/
  id : InstanceId
  /-- The node that it runs. -/
  node : NodeId
  /-- Its state. -/
  state : ActivityState := .executing
  /-- The instance that scheduled it. -/
  parent : Option InstanceId
  /-- The children that it has not seen complete, in order of scheduling. -/
  children : List InstanceId := []
  /-- Its variables and arguments. -/
  environment : Environment := ∅
  /-- Its properties, visible to descendants. -/
  properties : Environment := ∅
  /-- How many children, blocking bookmarks and operations it waits for. -/
  busy : Nat := 0
  /-- The parent's callback for its completion. -/
  completionCallback : Option CallbackTag := none
  /-- The parent's callback for its fault. -/
  faultCallback : Option CallbackTag := none
  /-- The scope of the bookmarks that it creates without naming one. -/
  scope : Scope
  /-- Its body has run. -/
  executed : Bool := false
  /-- It was asked to cancel. -/
  cancelRequested : Bool := false
  /-- It agreed to cancel. -/
  markedCanceled : Bool := false
  /-- Its result. -/
  result : Option Value := none
  /-- Its fault. -/
  fault : Option Fault := none

namespace Instance

/-- Whether the body has run and nothing is waited for. -/
def canComplete (i : Instance) : Bool :=
  i.executed && i.busy == 0 && !i.state.isTerminal

/-- Wait for one thing more. -/
def incrementBusy (i : Instance) : Instance :=
  { i with busy := i.busy + 1 }

/-- What the parent is told when the instance has completed. -/
def completed (i : Instance) : CompletedChild :=
  ⟨i.id, i.node, i.state, i.result, i.fault⟩

end Instance

end Workflow
