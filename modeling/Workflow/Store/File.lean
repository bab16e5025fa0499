import Workflow.Disk.Document
import Workflow.Store.IndexJson
import Workflow.Store.Layout

/-!
# Stores in files

A store in files reads its index at the start of every command and writes it at the end. A snapshot
is written before the index tells of it.
-/

namespace Workflow

/-- A store in files. -/
structure FileStore where
  /-- Where its files are. -/
  layout : Layout
  /-- The disk that holds them. -/
  disk : Disk

namespace FileStore

/-- A course of steps that may end with the error of a store. -/
abbrev StoreM := ExceptT StoreError (StateM Disk)

/-- Steps whose message is a storage error. -/
def storage {α : Type} (steps : DiskM α) : StoreM α :=
  ExceptT.adapt StoreError.storage steps

/-- The index in the files; an empty one if there is no file. -/
def readIndex (l : Layout) : StoreM StoreIndex := do
  return (← storage (Disk.readDocument l.indexFile StoreIndex.ofJson?)).getD {}

/-- The octets of a workflow's snapshot. -/
def readPayload (l : Layout) (workflow : WorkflowId) : StoreM Bytes := do
  match ← storage (l.readSnapshot workflow) with
  | some bytes => return bytes
  | none => throw (.instanceNotFound workflow)

/-- Carry out a command on an index; tells the answer and the new index. -/
def perform (l : Layout) (s : Surroundings) (index : StoreIndex) :
    Command → StoreM (CommandOutcome × StoreIndex)
  | .createOwner name =>
    return (.ownerCreated ⟨s.fresh⟩, index.createOwner ⟨s.fresh⟩ name s.now)
  | .deleteOwner owner => do
    let index ← ExceptT.mk (pure (index.deleteOwner owner))
    return (.ownerDeleted, index)
  | .save owner workflow data complete unlock => do
    let index ← ExceptT.mk (pure (index.save owner workflow data.metadata complete unlock))
    storage (l.writeSnapshot workflow data.bytes)
    return (.saved, index)
  | .load owner workflow => do
    let (metadata, index) ← ExceptT.mk (pure (index.load owner workflow))
    let bytes ← readPayload l workflow
    return (.loaded ⟨bytes, metadata⟩, index)

/-- The steps of a command. -/
def steps (l : Layout) (s : Surroundings) (c : Command) : StoreM CommandOutcome := do
  let index ← readIndex l
  let (outcome, index) ← perform l s index c
  storage (Disk.writeDocument l.indexFile index.toJson)
  return outcome

/-- Take steps on the disk of a store. -/
def onDisk {α : Type} (f : FileStore) (m : Layout → StoreM α) : Except StoreError α × FileStore :=
  let (result, disk) := (m f.layout).run f.disk
  (result, { f with disk })

/-- Carry out a command. -/
def tryCommand (f : FileStore) (s : Surroundings) (c : Command) :
    Except StoreError CommandOutcome × FileStore :=
  f.onDisk fun l => steps l s c

/-- Open a store, making its directories where they are missing. -/
def openAt (layout : Layout) : StoreM Unit :=
  storage layout.init

end FileStore

end Workflow
