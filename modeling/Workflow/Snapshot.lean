import Workflow.Bookmark
import Workflow.Fault
import Workflow.Timestamp
import Workflow.Value

/-!
# Snapshots

A snapshot is the image of a workflow that waits or has completed. Its records refer to instances
by identifier and to activities by path. Instances are listed depth first from the root, so every
parent stands before its children.
-/

namespace Workflow

/-- The record of a named value. -/
structure NamedValue where
  /-- The name. -/
  name : String
  /-- The value. -/
  value : Value

/-- The record of a fault. -/
structure FaultRecord where
  /-- The error with its causes. -/
  message : String
  /-- The instance that raised it. -/
  source : InstanceId
  /-- The path of that instance's activity. -/
  sourcePath : String
  /-- The display name of that activity. -/
  sourceName : String
  /-- Whether the host terminated the workflow. -/
  terminated : Bool
deriving DecidableEq

/-- The record of an instance. -/
structure InstanceRecord where
  /-- The instance. -/
  id : InstanceId
  /-- The path of its activity. -/
  path : String
  /-- Its parent. -/
  parent : Option InstanceId
  /-- Its state. -/
  state : ActivityState
  /-- Its variables and arguments. -/
  environment : List NamedValue
  /-- Its properties. -/
  properties : List NamedValue
  /-- How many things it waits for. -/
  busy : Nat
  /-- The parent's callback for its completion. -/
  completionCallback : Option CallbackTag
  /-- The parent's callback for its fault. -/
  faultCallback : Option CallbackTag
  /-- Its ambient scope. -/
  scope : Scope
  /-- Its body has run. -/
  executed : Bool
  /-- It was asked to cancel. -/
  cancelRequested : Bool
  /-- It agreed to cancel. -/
  markedCanceled : Bool
  /-- Its result. -/
  result : Option Value
  /-- Its fault. -/
  fault : Option FaultRecord

/-- The record of a scope. -/
structure ScopeRecord where
  /-- The scope. -/
  id : Uuid
  /-- Its owner. -/
  owner : InstanceId
deriving DecidableEq

/-- The image of a workflow. -/
structure Snapshot where
  /-- The workflow. -/
  workflow : WorkflowId
  /-- The fingerprint of its definition. -/
  fingerprint : String
  /-- Its state. -/
  state : WorkflowState
  /-- The number of the next instance. -/
  nextInstance : Nat
  /-- The number of the next operation. -/
  nextOperation : Nat
  /-- The instance of the whole definition. -/
  root : InstanceId
  /-- Its instances. -/
  instances : List InstanceRecord
  /-- Its bookmarks. -/
  bookmarks : List Registration
  /-- Its scopes. -/
  scopes : List ScopeRecord
  /-- When the image was taken. -/
  createdAt : Timestamp
  /-- The stated number of instances. -/
  instanceCount : Nat
  /-- The stated number of bookmarks. -/
  bookmarkCount : Nat

/-- Whether two lists agree item by item. -/
def listsAgree {α : Type} (agree : α → α → Bool) : List α → List α → Bool
  | [], [] => true
  | a :: as, b :: bs => agree a b && listsAgree agree as bs
  | _, _ => false

/-- Whether two named values have one name and one value. -/
def NamedValue.same (a b : NamedValue) : Bool :=
  a.name == b.name && a.value.same b.value

/-- Whether two optional values agree. -/
def Value.sameOption : Option Value → Option Value → Bool
  | some a, some b => a.same b
  | none, none => true
  | _, _ => false

/-- Whether two records of instances agree. -/
def InstanceRecord.same (a b : InstanceRecord) : Bool :=
  a.id == b.id && a.path == b.path && a.parent == b.parent && a.state == b.state &&
    listsAgree NamedValue.same a.environment b.environment &&
    listsAgree NamedValue.same a.properties b.properties &&
    a.busy == b.busy && a.completionCallback == b.completionCallback &&
    a.faultCallback == b.faultCallback && a.scope == b.scope && a.executed == b.executed &&
    a.cancelRequested == b.cancelRequested && a.markedCanceled == b.markedCanceled &&
    Value.sameOption a.result b.result && a.fault == b.fault

/-- Whether two snapshots agree; annotations of values do not count. -/
def Snapshot.same (a b : Snapshot) : Bool :=
  a.workflow == b.workflow && a.fingerprint == b.fingerprint && a.state == b.state &&
    a.nextInstance == b.nextInstance && a.nextOperation == b.nextOperation && a.root == b.root &&
    listsAgree InstanceRecord.same a.instances b.instances && a.bookmarks == b.bookmarks &&
    a.scopes == b.scopes && a.createdAt == b.createdAt && a.instanceCount == b.instanceCount &&
    a.bookmarkCount == b.bookmarkCount

end Workflow
