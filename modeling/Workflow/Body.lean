import Workflow.Program

/-!
# Bodies of activities

A body holds the programs of an activity: what it does when it is executed, and what it does when
the engine calls it back.
-/

namespace Workflow

/-- What a parent is told of a completed child. -/
structure CompletedChild where
  /-- The child. -/
  id : InstanceId
  /-- The activity of the child. -/
  node : NodeId
  /-- The state in which it completed. -/
  state : ActivityState
  /-- Its result, if it closed with one. -/
  result : Option Value
  /-- Its fault, if it faulted. -/
  fault : Option Fault

/-- The programs of a native activity. -/
structure NativeBody where
  /-- Run the activity. -/
  execute : Program .native Unit
  /-- A child scheduled with a completion callback has completed. -/
  childCompleted : CallbackTag → CompletedChild → Program .native Unit := fun _ _ => .done ()
  /-- A child scheduled with a fault callback has faulted. -/
  childFaulted : CallbackTag → FaultContext → Program .native FaultHandling :=
    fun _ _ => .done .propagate
  /-- A bookmark with a callback was resumed. -/
  bookmarkResumed : CallbackTag → Bookmark → Value → Program .native Unit :=
    fun _ _ _ => .done ()
  /-- The instance is asked to cancel. If nothing else is said, it drops its bookmarks, agrees and
  asks its children to cancel. -/
  cancel : Program .native Unit := do
    Program.scheduling .removeAllBookmarks
    Program.acceptCancellation BodyKind.native_ne_code
    Program.scheduling .cancelChildren

/-- The programs of an asynchronous activity. -/
structure AsyncBody where
  /-- Begin an operation. -/
  start : OperationId → Program .async Unit
  /-- The operation has completed with a value. -/
  finish : Value → Program .code (Option Value) := fun v => .done (some v)
  /-- The instance is asked to cancel. If nothing else is said, it agrees. -/
  cancel : Program .async Unit := Program.acceptCancellation BodyKind.async_ne_code

/-- The programs of an activity. -/
inductive Behaviour where
  /-- A code activity only executes; its result is that of the instance. -/
  | code (execute : Program .code (Option Value))
  /-- A native activity. -/
  | native (body : NativeBody)
  /-- An asynchronous activity. -/
  | async (body : AsyncBody)

/-- The kind of an activity with these programs. -/
def Behaviour.kind : Behaviour → BodyKind
  | code _ => .code
  | native _ => .native
  | async _ => .async

/-- Where a body finds itself while a definition is prepared. -/
structure Site where
  /-- The path of the activity. -/
  path : String
  /-- The display name of the activity. -/
  name : String
  /-- The number of declared children. -/
  childCount : Nat

/-- What a body has to say while a definition is prepared. -/
inductive Remark where
  /-- The activity must not run. -/
  | error (text : String)
  /-- The activity may run. -/
  | warning (text : String)
  /-- The activity creates a bookmark of the name in the default scope. -/
  | bookmark (name : String)

/-- The body of an activity. -/
structure Body where
  /-- The name under which the journal lists its callbacks. -/
  label : String
  /-- The name of its type in fingerprints. -/
  typeName : String
  /-- What it has to say while a definition is prepared. -/
  remarks : Site → List Remark := fun _ => []
  /-- Its programs. -/
  behaviour : Behaviour

/-- The kind of a body. -/
def Body.kind (b : Body) : BodyKind :=
  b.behaviour.kind

/-- A call of the engine to a body. -/
inductive Callback where
  /-- The body of a code or native activity is executed. -/
  | execute
  /-- An asynchronous activity begins an operation. -/
  | start (operation : OperationId)
  /-- A child has completed. -/
  | childCompleted (tag : CallbackTag) (child : CompletedChild)
  /-- A child has faulted. -/
  | childFaulted (tag : CallbackTag) (context : FaultContext)
  /-- A bookmark was resumed. -/
  | bookmarkResumed (tag : CallbackTag) (b : Bookmark) (v : Value)
  /-- The instance is asked to cancel. -/
  | cancel
  /-- The operation has completed. -/
  | finish (v : Value)
  /-- The instance is torn down. -/
  | abort (reason : Fault)

end Workflow
