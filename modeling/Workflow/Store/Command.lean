import Workflow.Snapshot
import Workflow.Text.Utf8

/-!
# Store commands

A store keeps saved workflows for owners. A workflow stays locked to the owner that last saved or
loaded it, until it is saved unlocked or complete or the owner is removed.
-/

namespace Workflow

/-- What a store can tell of a saved workflow without reading its snapshot. -/
structure InstanceMetadata where
  /-- The fingerprint of its definition. -/
  fingerprint : String
  /-- Its state when it was saved. -/
  state : WorkflowState
  /-- The bookmarks at which it waited. -/
  bookmarks : List String
  /-- The number of its instances. -/
  instanceCount : Nat
  /-- When it was saved. -/
  savedAt : Timestamp

/-- The summary of a snapshot. -/
def Snapshot.summary (s : Snapshot) (now : Timestamp) : InstanceMetadata :=
  ⟨s.fingerprint, s.state, s.bookmarks.map (·.bookmark.print), s.instances.length, now⟩

/-- A saved workflow. -/
structure InstanceData where
  /-- The octets of its snapshot. -/
  bytes : Bytes
  /-- Its summary. -/
  metadata : InstanceMetadata

/-- What a store is asked to do. -/
inductive Command where
  /-- Register an owner. -/
  | createOwner (name : String)
  /-- Remove an owner and release what it has locked. -/
  | deleteOwner (owner : OwnerId)
  /-- Save a workflow; `complete` if it is saved for the last time, `unlock` to release it. -/
  | save (owner : OwnerId) (workflow : WorkflowId) (data : InstanceData) (complete unlock : Bool)
  /-- Load a workflow and lock it. -/
  | load (owner : OwnerId) (workflow : WorkflowId)

/-- What a store answers. -/
inductive CommandOutcome where
  /-- The owner is registered. -/
  | ownerCreated (owner : OwnerId)
  /-- The owner is removed. -/
  | ownerDeleted
  /-- The workflow is saved. -/
  | saved
  /-- The workflow is loaded. -/
  | loaded (data : InstanceData)

namespace CommandOutcome

/-- The loaded workflow. -/
def loaded? : CommandOutcome → Option InstanceData
  | loaded data => some data
  | _ => none

/-- The registered owner. -/
def owner? : CommandOutcome → Option OwnerId
  | ownerCreated owner => some owner
  | _ => none

end CommandOutcome

/-- What a store takes from its surroundings while it carries out a command. -/
structure Surroundings where
  /-- The time. -/
  now : Timestamp
  /-- An identifier that was never used. -/
  fresh : Uuid

end Workflow
