import Workflow.Store.Command
import Std.Data.ExtTreeMap

/-!
# The index of a store

The index holds the registered owners and, for each saved workflow, its lock and its summary. All
stores share its rules: only a registered owner saves and loads, a complete workflow is neither
saved nor loaded again, and a locked workflow belongs to its holder.
-/

namespace Workflow

/-- A registered owner. -/
structure OwnerRecord where
  /-- Its name. -/
  name : String
  /-- When it was registered. -/
  createdAt : Timestamp

/-- What the index holds of a saved workflow. -/
structure InstanceEntry where
  /-- The owner that has locked it. -/
  lockedBy : Option OwnerId
  /-- It was saved for the last time. -/
  complete : Bool
  /-- Its summary. -/
  metadata : InstanceMetadata

/-- The owners and saved workflows of a store. -/
structure StoreIndex where
  /-- The registered owners. -/
  owners : Std.ExtTreeMap OwnerId OwnerRecord := ∅
  /-- The saved workflows. -/
  instances : Std.ExtTreeMap WorkflowId InstanceEntry := ∅

namespace StoreIndex

variable (x : StoreIndex)

/-- Register an owner under an identifier. -/
def createOwner (owner : OwnerId) (name : String) (now : Timestamp) : StoreIndex :=
  { x with owners := x.owners.insert owner ⟨name, now⟩ }

/-- Remove an owner and release what it has locked. -/
def deleteOwner (owner : OwnerId) : Except StoreError StoreIndex :=
  if x.owners.contains owner then
    let release (entry : InstanceEntry) : InstanceEntry :=
      if entry.lockedBy = some owner then { entry with lockedBy := none } else entry
    .ok ⟨x.owners.erase owner, x.instances.map fun _ entry => release entry⟩
  else .error (.ownerNotFound owner)

/-- Refuse an owner that is not registered. -/
def ensureOwner (owner : OwnerId) : Except StoreError Unit :=
  if x.owners.contains owner then .ok () else .error (.ownerNotFound owner)

/-- Refuse access to a complete workflow and to one that another owner has locked. -/
def checkAccess (owner : OwnerId) (workflow : WorkflowId) : Except StoreError Unit :=
  match x.instances[workflow]? with
  | none => .ok ()
  | some entry =>
    if entry.complete then .error (.instanceCompleted workflow)
    else
      match entry.lockedBy with
      | none => .ok ()
      | some holder =>
        if holder = owner then .ok () else .error (.instanceLocked workflow holder)

/-- Enter a saved workflow. -/
def save (owner : OwnerId) (workflow : WorkflowId) (metadata : InstanceMetadata)
    (complete unlock : Bool) : Except StoreError StoreIndex := do
  x.ensureOwner owner
  x.checkAccess owner workflow
  let lockedBy := if unlock || complete then none else some owner
  return { x with instances := x.instances.insert workflow ⟨lockedBy, complete, metadata⟩ }

/-- Lock a saved workflow and give its summary. -/
def load (owner : OwnerId) (workflow : WorkflowId) :
    Except StoreError (InstanceMetadata × StoreIndex) := do
  x.ensureOwner owner
  match x.instances[workflow]? with
  | none => .error (.instanceNotFound workflow)
  | some entry =>
    x.checkAccess owner workflow
    let locked := { entry with lockedBy := some owner }
    return (entry.metadata, { x with instances := x.instances.insert workflow locked })

end StoreIndex

end Workflow
