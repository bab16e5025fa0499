import Workflow.Disk
import Workflow.Identifier

/-!
# The files of a store

Under its root a store keeps the configuration of the engine, the index, and a directory with one
snapshot for each saved workflow.
-/

namespace Workflow

/-- The files under a root. -/
structure Layout where
  /-- The directory that holds them. -/
  root : Path

namespace Layout

variable (l : Layout)

/-- The file of the engine's configuration. -/
def configFile : Path :=
  l.root.child "config.json"

/-- The file of the index. -/
def indexFile : Path :=
  l.root.child "index.json"

/-- The directory of the snapshots. -/
def instancesDirectory : Path :=
  l.root.child "instances"

/-- The extension of snapshots. -/
def snapshotExtension : String := "snapshot"

/-- The file of a workflow's snapshot. -/
def snapshotFile (workflow : WorkflowId) : Path :=
  l.instancesDirectory.child (toString workflow ++ "." ++ snapshotExtension)

/-- The temporary files that interrupted writes have left. -/
def staleFiles : DiskM (List Path) := do
  let top ← Disk.list l.root
  let instances ← Disk.list l.instancesDirectory
  return (top ++ instances).filter fun p => p.extension? == some Disk.temporaryExtension

/-- Make the directories, and remove what interrupted writes have left. -/
def init : DiskM Unit := do
  Disk.createDirectories l.instancesDirectory
  for p in ← l.staleFiles do
    Disk.remove ("Failed to remove stale temp file: " ++ p.quote) p

/-- The workflow whose snapshot a file is. -/
def workflowOf? (p : Path) : Option WorkflowId :=
  match p.getLast?.map Path.splitName with
  | some (stem, some extension) =>
    if extension = snapshotExtension then (Uuid.parse? stem).map WorkflowId.mk else none
  | _ => none

/-- The workflows that have a snapshot, in order. -/
def savedWorkflows : DiskM (List WorkflowId) := do
  let entries ← Disk.list l.instancesDirectory
  return (entries.filterMap workflowOf?).mergeSort fun a b => (compare a b).isLE

/-- The octets of a workflow's snapshot; nothing if it has none. -/
def readSnapshot (workflow : WorkflowId) : DiskM (Option Bytes) :=
  Disk.read (l.snapshotFile workflow)

/-- Replace a workflow's snapshot. -/
def writeSnapshot (workflow : WorkflowId) (bytes : Bytes) : DiskM Unit :=
  Disk.replace (l.snapshotFile workflow) bytes

end Layout

end Workflow
