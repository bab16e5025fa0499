import Workflow.Identifier
import Workflow.Value

/-!
# Scripts

A script is the body of an activity written as data: lists of actions for the calls of the engine.
Actions take their values from expressions, and conditions choose between lists.
-/

namespace Workflow

/-- A value to be computed when an action is done. -/
inductive Expression where
  /-- A fixed value. -/
  | literal (v : Value)
  /-- The value that came with the call. -/
  | payload
  /-- The result of the child that completed. -/
  | childResult
  /-- The value of the nearest location of a name. -/
  | location (name : String)
  /-- The value of an argument. -/
  | argument (name : String)
  /-- The value of the nearest property of a name. -/
  | property (name : String)
  /-- The sum of two integers. -/
  | sum (a b : Expression)

/-- A choice between two lists of actions. -/
inductive Condition where
  /-- The instance was asked to cancel. -/
  | cancelRequested
  /-- The child completed in the state of a name. -/
  | childState (label : String)
  /-- Two values are the same. -/
  | equal (a b : Expression)
  /-- An integer is at least another. -/
  | atLeast (a b : Expression)

/-- A scope as a script names it. -/
inductive ScopeName where
  /-- The scope of the whole workflow. -/
  | default
  /-- The scope created as the n-th, counted from one. -/
  | created (n : Nat)
  /-- The scope created last. -/
  | latest
  /-- The scope of an identifier. -/
  | exact (id : Uuid)

/-- How a script schedules a child. -/
structure ScheduleClause where
  /-- The callback for the child's completion. -/
  completed : Option CallbackTag
  /-- The callback for the child's fault. -/
  faulted : Option CallbackTag
  /-- Values for incoming arguments, by name. -/
  arguments : List (String × Expression)
  /-- The scope in which the child runs. -/
  scope : Option ScopeName

/-- An action that only native activities can do. -/
inductive NativeAction where
  /-- Schedule the child at a position. -/
  | schedule (position : Nat) (clause : ScheduleClause)
  /-- Schedule a node. -/
  | scheduleNode (node : NodeId) (clause : ScheduleClause)
  /-- Schedule every child. -/
  | scheduleAll (clause : ScheduleClause)
  /-- Schedule the child after the one that completed, if there is one. -/
  | scheduleNext (clause : ScheduleClause)
  /-- Cancel the child instance at a position. -/
  | cancelChildAt (position : Nat)
  /-- Cancel a child instance. -/
  | cancelChild (child : InstanceId)
  /-- Cancel every child instance. -/
  | cancelChildren
  /-- Register a bookmark. -/
  | bookmark (name : String) (scope : Option ScopeName) (callback : Option CallbackTag)
      (multipleResume nonBlocking : Bool)
  /-- Remove a bookmark. -/
  | removeBookmark (name : String) (scope : ScopeName)
  /-- Remove every bookmark of the instance. -/
  | removeAllBookmarks
  /-- Create a scope. -/
  | createScope
  /-- Resume a bookmark. -/
  | resume (name : String) (scope : ScopeName) (v : Expression)
  /-- Set the result. -/
  | setResult (v : Expression)
  /-- Add a property. -/
  | addProperty (name : String) (v : Expression)
  /-- Take a property away. -/
  | removeProperty (name : String)
  /-- Ask the host to save the workflow. -/
  | requestPersist

/-- The name of an action that only native activities can do. -/
def NativeAction.label : NativeAction → String
  | schedule .. => "schedule"
  | scheduleNode .. => "schedule"
  | scheduleAll .. => "schedule_all"
  | scheduleNext .. => "schedule_next"
  | cancelChildAt .. => "cancel_child"
  | cancelChild .. => "cancel_child"
  | cancelChildren => "cancel_children"
  | bookmark .. => "bookmark"
  | removeBookmark .. => "remove_bookmark"
  | removeAllBookmarks => "remove_all_bookmarks"
  | createScope => "create_scope"
  | resume .. => "resume"
  | setResult .. => "set_result"
  | addProperty .. => "add_prop"
  | removeProperty .. => "remove_prop"
  | requestPersist => "request_persist"

/-- A single action. -/
inductive Step where
  /-- Write a line. -/
  | say (text : String)
  /-- Fail with messages from the outermost to the root cause. -/
  | fail (chain : List String)
  /-- Break off with a text. -/
  | panic (text : String)
  /-- Break off with something that is not a text. -/
  | panicOpaque
  /-- Write the value of a location. -/
  | get (name : String)
  /-- Assign a location. -/
  | set (name : String) (v : Expression)
  /-- Write the owner of a location. -/
  | locate (name : String)
  /-- Write the value of a location of a given owner. -/
  | getAt (owner : InstanceId) (name : String)
  /-- Assign a location of a given owner. -/
  | setAt (owner : InstanceId) (name : String) (v : Expression)
  /-- Write the value of an argument. -/
  | getArgument (name : String)
  /-- Assign an argument. -/
  | setArgument (name : String) (v : Expression)
  /-- Write the value of a property. -/
  | findProperty (name : String)
  /-- Write the services of the host. -/
  | services
  /-- Write what the instance knows of itself. -/
  | info
  /-- End the list, with a result if one is given. -/
  | finish (v : Option Expression)
  /-- End the list; the fault is handled. -/
  | handled
  /-- End the list; the fault goes on. -/
  | propagate
  /-- Agree to cancel. -/
  | acceptCancellation
  /-- Ask the host to run the workflow, and write what it says. -/
  | hostRun
  /-- Write what the handle of the operation says. -/
  | operationInfo
  /-- Complete the operation with a value. -/
  | complete (v : Expression)
  /-- Complete the operation with an error. -/
  | completeFailed (chain : List String)
  /-- Throw the handle of the operation away. -/
  | dropOperation
  /-- An action of native activities. -/
  | native (a : NativeAction)

/-- An action of a list. A guarded action that fails is written down and passed over. -/
inductive Action where
  /-- A single action. -/
  | step (s : Step) (guarded : Bool)
  /-- One list of actions or another. -/
  | choose (c : Condition) (yes no : List Action) (guarded : Bool)

/-- A body written as data. -/
structure Script where
  /-- What the body does when it is executed or begins its operation. -/
  execute : List Action := []
  /-- What it does when a child completes, by callback. -/
  completed : List (CallbackTag × List Action) := []
  /-- What it does when a child faults, by callback. -/
  faulted : List (CallbackTag × List Action) := []
  /-- What it does when a bookmark is resumed, by callback. -/
  resumed : List (CallbackTag × List Action) := []
  /-- What it does when it is asked to cancel, unless that is left to the engine. -/
  cancel : Option (List Action) := none
  /-- What it does when its operation completes, unless that is left to the engine. -/
  finish : Option (List Action) := none

end Workflow
