import Workflow.Bookmark
import Workflow.Duration
import Workflow.State
import Workflow.Validation

/-!
# Errors

Each concern has its own type of errors, and each type has one function for the wording. Errors of
the engine and of the host wrap those of the concerns below them.
-/

namespace Workflow

/-- A request that breaks a rule of the engine. -/
inductive ContractViolation where
  /-- Only an executing instance may schedule children. -/
  | instanceNotExecuting (id : InstanceId) (state : ActivityState)
  /-- An activity schedules only its own declared children. -/
  | notADeclaredChild (parent child : String)
  /-- An activity with errors is not scheduled. -/
  | invalidDefinition (path : String)
  /-- The instance does not exist. -/
  | unknownInstance (id : InstanceId)
  /-- Only a parent may cancel a child. -/
  | notAChildInstance (parent child : InstanceId)
  /-- The executor behind a handle is gone. -/
  | contextDisposed
  /-- No visible location has the name. -/
  | unknownLocation (name : String)
  /-- The activity declares no such argument. -/
  | unknownArgument (name : String)
  /-- An incoming argument is not assigned to. -/
  | readOnlyArgument (name : String)
  /-- Children run in a scope of their parent. -/
  | scopeNotOwned (scope : Scope)
  /-- The workflow has completed. -/
  | workflowCompleted (workflow : WorkflowId)
  /-- The workflow was aborted. -/
  | workflowAborted (workflow : WorkflowId)
  /-- An instance is marked canceled only after it was asked to cancel. -/
  | cancelNotRequested (id : InstanceId)
deriving DecidableEq

namespace ContractViolation

/-- The name of the broken rule. -/
def label : ContractViolation → String
  | instanceNotExecuting .. => "InstanceNotExecuting"
  | notADeclaredChild .. => "NotADeclaredChild"
  | invalidDefinition .. => "InvalidDefinition"
  | unknownInstance .. => "UnknownInstance"
  | notAChildInstance .. => "NotAChildInstance"
  | contextDisposed => "ContextDisposed"
  | unknownLocation .. => "UnknownLocation"
  | unknownArgument .. => "UnknownArgument"
  | readOnlyArgument .. => "ReadOnlyArgument"
  | scopeNotOwned .. => "ScopeNotOwned"
  | workflowCompleted .. => "WorkflowCompleted"
  | workflowAborted .. => "WorkflowAborted"
  | cancelNotRequested .. => "CancelNotRequested"

/-- The wording of a broken rule. -/
def message : ContractViolation → String
  | instanceNotExecuting i s =>
    "Instance " ++ toString i ++ " is " ++ s.label ++ ", expected Executing"
  | notADeclaredChild parent child =>
    "Activity '" ++ child ++ "' is not a declared child of '" ++ parent ++ "'"
  | invalidDefinition path =>
    "Activity '" ++ path ++ "' has validation errors and cannot be scheduled"
  | unknownInstance i => "Instance " ++ toString i ++ " not found"
  | notAChildInstance parent child =>
    "Instance " ++ toString child ++ " is not a child of " ++ toString parent
  | contextDisposed => "Context used after its turn ended"
  | unknownLocation name => "No location named '" ++ name ++ "' is visible from this activity"
  | unknownArgument name => "Argument '" ++ name ++ "' is not declared"
  | readOnlyArgument name => "Argument '" ++ name ++ "' is an In argument and cannot be assigned"
  | scopeNotOwned scope =>
    "Bookmark scope " ++ scope.print ++ " is not owned by the calling instance"
  | workflowCompleted w => "Workflow " ++ toString w ++ " has already completed"
  | workflowAborted w => "Workflow " ++ toString w ++ " was aborted"
  | cancelNotRequested i =>
    "Instance " ++ toString i ++ " can only be marked canceled after cancellation was requested"

end ContractViolation

/-- A bookmark that cannot be registered. -/
inductive BookmarkError where
  /-- The name is taken in its scope. -/
  | duplicateName (name : String) (scope : Scope)
  /-- The scope does not exist. -/
  | unknownScope (scope : Scope)
  /-- Only a live instance owns bookmarks. -/
  | ownerNotLive (owner : InstanceId)
deriving DecidableEq

namespace BookmarkError

/-- The name of the reason. -/
def label : BookmarkError → String
  | duplicateName .. => "DuplicateName"
  | unknownScope .. => "UnknownScope"
  | ownerNotLive .. => "OwnerNotLive"

/-- The wording of the reason. -/
def message : BookmarkError → String
  | duplicateName name scope =>
    "Bookmark '" ++ name ++ "' already exists in scope " ++ scope.print
  | unknownScope scope => "Bookmark scope " ++ scope.print ++ " does not exist"
  | ownerNotLive owner =>
    "Instance " ++ toString owner ++ " cannot own bookmarks in its current state"

end BookmarkError

/-- A workflow that cannot be captured, or a snapshot that cannot be read or restored. -/
inductive PersistenceError where
  /-- The workflow has work to do, or is torn down. -/
  | notIdle (reason : String)
  /-- Operations are outstanding. -/
  | operationsOutstanding (count : Nat)
  /-- The snapshot belongs to another definition. -/
  | definitionMismatch (expected found : String)
  /-- The definition has no activity at the path. -/
  | unknownActivityPath (path : String)
  /-- A record refers to an instance that is not there. -/
  | unresolvedReference (target : InstanceId)
  /-- Two records have one identifier. -/
  | duplicateInstance (id : InstanceId)
  /-- The snapshot contradicts itself. -/
  | invalidSnapshot (reason : String)
  /-- The octets are not a snapshot. -/
  | decoding
deriving DecidableEq

namespace PersistenceError

/-- The name of the reason. -/
def label : PersistenceError → String
  | notIdle .. => "NotIdle"
  | operationsOutstanding .. => "AsyncOperationsOutstanding"
  | definitionMismatch .. => "DefinitionMismatch"
  | unknownActivityPath .. => "UnknownActivityPath"
  | unresolvedReference .. => "UnresolvedReference"
  | duplicateInstance .. => "DuplicateInstance"
  | invalidSnapshot .. => "InvalidSnapshot"
  | decoding => "Decoding"

/-- The wording of the reason. -/
def message : PersistenceError → String
  | notIdle reason => "Workflow is not idle (" ++ reason ++ ")"
  | operationsOutstanding count =>
    "Cannot persist while " ++ toString count ++ " asynchronous operations are outstanding"
  | definitionMismatch expected found =>
    "Definition identity mismatch: expected " ++ expected ++ ", found " ++ found
  | unknownActivityPath path => "Unknown activity path '" ++ path ++ "'"
  | unresolvedReference i => "Unresolved instance reference " ++ toString i
  | duplicateInstance i => "Instance " ++ toString i ++ " appears more than once in the snapshot"
  | invalidSnapshot reason => "Invalid snapshot: " ++ reason
  | decoding => "Snapshot decoding failed"

end PersistenceError

/-- A store command that was not carried out. -/
inductive StoreError where
  /-- The store was not free in time. -/
  | timeout (limit : Duration)
  /-- A failure that may pass. -/
  | transient (reason : String)
  /-- The instance is not stored. -/
  | instanceNotFound (workflow : WorkflowId)
  /-- Another owner holds the instance. -/
  | instanceLocked (workflow : WorkflowId) (owner : OwnerId)
  /-- The instance was saved as complete. -/
  | instanceCompleted (workflow : WorkflowId)
  /-- The owner is not registered. -/
  | ownerNotFound (owner : OwnerId)
  /-- The files of the store cannot be read or written. -/
  | storage (reason : String)
deriving DecidableEq

namespace StoreError

/-- The name of the reason. -/
def label : StoreError → String
  | timeout .. => "Timeout"
  | transient .. => "Transient"
  | instanceNotFound .. => "InstanceNotFound"
  | instanceLocked .. => "InstanceLocked"
  | instanceCompleted .. => "InstanceCompleted"
  | ownerNotFound .. => "OwnerNotFound"
  | storage .. => "Storage"

/-- The wording of the reason. -/
def message : StoreError → String
  | timeout limit => "Store command timed out after " ++ limit.print
  | transient reason => "Transient store failure: " ++ reason
  | instanceNotFound w => "Instance " ++ toString w ++ " not found"
  | instanceLocked w o => "Instance " ++ toString w ++ " is locked by owner " ++ toString o
  | instanceCompleted w => "Instance " ++ toString w ++ " has completed"
  | ownerNotFound o => "Owner " ++ toString o ++ " not found"
  | storage reason => "Storage error: " ++ reason

end StoreError

/-- A failure of an engine call. -/
inductive EngineError where
  /-- The definition or its inputs have errors. -/
  | validation (findings : Findings)
  /-- The call breaks a rule. -/
  | contract (violation : ContractViolation)
  /-- Capturing or restoring failed. -/
  | persistence (error : PersistenceError)
  /-- The store refused. -/
  | store (error : StoreError)
  /-- The run used up its steps before the queue was empty. -/
  | unsettled (steps : Nat)
deriving DecidableEq

namespace EngineError

/-- The wording of a failure. -/
def message : EngineError → String
  | validation findings => "Validation failed: " ++ findings.print
  | contract v => "Invalid operation: " ++ v.message
  | persistence e => "Persistence error: " ++ e.message
  | store e => "Instance store error: " ++ e.message
  | unsettled steps => "Workflow did not settle within " ++ toString steps ++ " steps"

/-- The name of the kind of failure. -/
def label : EngineError → String
  | validation .. => "Validation"
  | contract v => "Contract." ++ v.label
  | persistence e => "Persistence." ++ e.label
  | store e => "Store." ++ e.label
  | unsettled .. => "Unsettled"

end EngineError

/-- A failure of a host call. -/
inductive HostError where
  /-- Another call is running the workflow. -/
  | instanceBusy (workflow : WorkflowId)
  /-- The workflow is not in memory. -/
  | notLoaded (workflow : WorkflowId)
  /-- No store is configured. -/
  | noInstanceStore
  /-- The engine failed. -/
  | engine (error : EngineError)
deriving DecidableEq

namespace HostError

/-- The wording of a failure. -/
def message : HostError → String
  | instanceBusy w => "Workflow instance " ++ toString w ++ " is already running"
  | notLoaded w => "Workflow instance " ++ toString w ++ " is not loaded"
  | noInstanceStore => "No instance store configured"
  | engine e => e.message

/-- The name of the kind of failure. -/
def label : HostError → String
  | instanceBusy .. => "InstanceBusy"
  | notLoaded .. => "NotLoaded"
  | noInstanceStore => "NoInstanceStore"
  | engine e => e.label

end HostError

end Workflow
