import Workflow.Environment
import Workflow.Extensions
import Workflow.Fault

/-!
# Activity programs

The code of an activity is a program: it asks the engine questions, goes on with the answers, and
ends with a result or a crash. What it may ask depends on the kind of its activity.
-/

namespace Workflow

/-- The kinds of activities. -/
inductive BodyKind where
  /-- Code that runs at once and schedules nothing. -/
  | code
  /-- Code with full access to the scheduler. -/
  | native
  /-- Code that begins an operation and ends when the operation completes. -/
  | async
deriving DecidableEq

theorem BodyKind.native_ne_code : native ≠ code :=
  BodyKind.noConfusion

theorem BodyKind.async_ne_code : async ≠ code :=
  BodyKind.noConfusion

/-- The name of a kind in fingerprints and listings. -/
def BodyKind.label : BodyKind → String
  | code => "code"
  | native => "native"
  | async => "async"

/-- A variable or argument, found. -/
structure Location where
  /-- The instance that owns it. -/
  owner : InstanceId
  /-- Its name. -/
  name : String
deriving DecidableEq

/-- What an activity knows of itself. -/
structure Identity where
  /-- The running instance. -/
  id : InstanceId
  /-- Its workflow. -/
  workflow : WorkflowId
  /-- Its node in the definition. -/
  node : NodeId
  /-- The path of the node. -/
  path : String
  /-- The display name of the node. -/
  name : String

/-- How a child is scheduled. -/
structure ScheduleOptions where
  /-- The callback for the child's completion. -/
  onCompleted : Option CallbackTag := none
  /-- The callback for the child's fault. -/
  onFaulted : Option CallbackTag := none
  /-- Values that take the place of the bindings of incoming arguments. -/
  arguments : Environment := ∅
  /-- The scope in which the child runs; none is the parent's. -/
  scope : Option Scope := none

/-- The handle of an asynchronous operation, good for one completion. -/
structure OperationHandle where
  /-- The operation. -/
  operation : OperationId
  /-- The workflow that waits for it. -/
  workflow : WorkflowId
  /-- The mailbox of the executor that began it. -/
  mailbox : Nat
deriving DecidableEq

/-- What every activity may ask. -/
inductive ContextRequest where
  /-- Write a line into the journal. -/
  | say (text : String)
  /-- Who am I? -/
  | identity
  /-- Find the nearest location of a name. -/
  | locate (name : String)
  /-- Read a location. -/
  | read (l : Location)
  /-- Write a location. -/
  | write (l : Location) (v : Value)
  /-- Read an argument of the activity itself. -/
  | argument (name : String)
  /-- Assign an outgoing argument of the activity itself. -/
  | setArgument (name : String) (v : Value)
  /-- The services of the host. -/
  | services
  /-- Find the nearest property of a name. -/
  | property (name : String)
  /-- Ask the host to run the workflow. -/
  | rerun

/-- What an answer to a context request is. -/
abbrev ContextRequest.Response : ContextRequest → Type
  | say _ => Unit
  | identity => Identity
  | locate _ => Except ContractViolation Location
  | read _ => Except ContractViolation Value
  | write _ _ => Except ContractViolation Unit
  | argument _ => Except ContractViolation Value
  | setArgument _ _ => Except ContractViolation Unit
  | services => Extensions
  | property _ => Option Value
  | rerun => Option HostError

/-- What an activity that can be canceled may ask. -/
inductive CancellationRequest where
  /-- Was the instance asked to cancel? -/
  | isRequested
  /-- Agree to cancel. -/
  | accept

/-- What an answer to a cancellation request is. -/
abbrev CancellationRequest.Response : CancellationRequest → Type
  | isRequested => Bool
  | accept => Except ContractViolation Unit

/-- What an asynchronous activity may do with the handle of its operation. The activity knows the
operation but not the mailbox behind the handle. -/
inductive OperationRequest where
  /-- Complete the operation at once. -/
  | complete (operation : OperationId) (result : Except ActivityError Value)
  /-- Throw the handle away. -/
  | discard (operation : OperationId)

/-- What an answer to an operation request is. -/
abbrev OperationRequest.Response : OperationRequest → Type
  | complete _ _ => Except ContractViolation Unit
  | discard _ => Unit

/-- What a native activity may ask of the scheduler. -/
inductive SchedulingRequest where
  /-- The declared children, in order. -/
  | children
  /-- The child instances that have not been observed to complete, in order of scheduling. -/
  | childInstances
  /-- Schedule a declared child. -/
  | schedule (node : NodeId) (options : ScheduleOptions)
  /-- Cancel a child. -/
  | cancelChild (child : InstanceId)
  /-- Cancel every child. -/
  | cancelChildren
  /-- Register a bookmark; without a scope, in the ambient one. -/
  | createBookmark (name : String) (scope : Option Scope) (callback : Option CallbackTag)
      (options : BookmarkOptions)
  /-- Remove a bookmark of this instance. -/
  | removeBookmark (b : Bookmark)
  /-- Remove every bookmark of this instance. -/
  | removeAllBookmarks
  /-- Create a scope of this instance. -/
  | createScope
  /-- The scope that was created last, if any was. -/
  | latestScope
  /-- The scope that was created as the n-th, counted from one, if so many were. -/
  | createdScope (n : Nat)
  /-- Resume a bookmark. -/
  | resume (b : Bookmark) (v : Value)
  /-- Set the result of this instance. -/
  | setResult (v : Value)
  /-- Add a property that descendants see. -/
  | addProperty (name : String) (v : Value)
  /-- Take a property away. -/
  | removeProperty (name : String)
  /-- Ask the host to save the workflow when it is next idle. -/
  | requestPersist

/-- What an answer to a scheduling request is. -/
abbrev SchedulingRequest.Response : SchedulingRequest → Type
  | children => List NodeId
  | childInstances => List InstanceId
  | schedule _ _ => Except ContractViolation InstanceId
  | cancelChild _ => Except ContractViolation Unit
  | cancelChildren => Unit
  | createBookmark _ _ _ _ => Except BookmarkError Bookmark
  | removeBookmark _ => Bool
  | removeAllBookmarks => Unit
  | createScope => Except ContractViolation Scope
  | latestScope => Option Scope
  | createdScope _ => Option Scope
  | resume _ _ => Resumption
  | setResult _ => Unit
  | addProperty _ _ => Unit
  | removeProperty _ => Option Value
  | requestPersist => Unit

/-- What an activity of a kind may ask. -/
inductive Request : BodyKind → Type where
  /-- Every activity has a context. -/
  | context {k : BodyKind} (q : ContextRequest) : Request k
  /-- Native and asynchronous activities can be canceled. -/
  | cancellation {k : BodyKind} (q : CancellationRequest) (cancels : k ≠ .code) : Request k
  /-- Asynchronous activities hold the handle of an operation. -/
  | operation (q : OperationRequest) : Request .async
  /-- Native activities schedule. -/
  | scheduling (q : SchedulingRequest) : Request .native

/-- What an answer to a request is. -/
abbrev Request.Response {k : BodyKind} : Request k → Type
  | context q => q.Response
  | cancellation q _ => q.Response
  | operation q => q.Response
  | scheduling q => q.Response

/-- The code of an activity of a kind that results in an `α`. -/
inductive Program (k : BodyKind) (α : Type) : Type where
  /-- End with a result. -/
  | done (a : α)
  /-- End with a crash. -/
  | crash (c : Crash)
  /-- Ask, and go on with the answer. -/
  | ask (q : Request k) (next : q.Response → Program k α)

namespace Program

variable {k : BodyKind} {α β : Type}

/-- Go on with the result of a program. -/
def bind (p : Program k α) (f : α → Program k β) : Program k β :=
  match p with
  | done a => f a
  | crash c => crash c
  | ask q next => ask q fun r => (next r).bind f

instance : Monad (Program k) where
  pure := done
  bind := bind

/-- Turn an error that a program ends with into a result; a panic stays a panic. -/
def attempt (p : Program k α) : Program k (Except ActivityError α) :=
  match p with
  | done a => done (.ok a)
  | crash (.error e) => done (.error e)
  | crash c => crash c
  | ask q next => ask q fun r => (next r).attempt

/-- End with an error. -/
def fail (e : ActivityError) : Program k α :=
  crash (.error e)

/-- Ask one request. -/
def request (q : Request k) : Program k q.Response :=
  ask q done

/-- Ask the context. -/
def context (q : ContextRequest) : Program k q.Response :=
  request (.context q)

/-- Ask the scheduler. -/
def scheduling (q : SchedulingRequest) : Program .native q.Response :=
  request (.scheduling q)

/-- The value of an answer, or an end with the broken rule. -/
def ofContract (answer : Except ContractViolation α) : Program k α :=
  match answer with
  | .ok a => done a
  | .error v => fail (.contract v)

/-- Agree to cancel, or end with the broken rule. -/
def acceptCancellation (cancels : k ≠ .code) : Program k Unit :=
  request (.cancellation .accept cancels) >>= fun answer => ofContract answer

end Program

end Workflow
