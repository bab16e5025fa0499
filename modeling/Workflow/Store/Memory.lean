import Workflow.Store.Index

/-!
# Stores in memory

A store in memory holds its index and the saved octets. A failure can be planted for its next
command.
-/

namespace Workflow

/-- A store in memory. -/
structure MemoryStore where
  /-- The owners and saved workflows. -/
  index : StoreIndex := {}
  /-- The octets of the saved workflows. -/
  payloads : Std.ExtTreeMap WorkflowId Bytes := ∅
  /-- The failures of the commands to come. -/
  failures : List StoreError := []

namespace MemoryStore

/-- Let a command to come fail. -/
def plant (m : MemoryStore) (error : StoreError) : MemoryStore :=
  { m with failures := m.failures ++ [error] }

/-- Carry out a command that does not fail on its own. -/
def perform (m : MemoryStore) (s : Surroundings) : Command →
    Except StoreError CommandOutcome × MemoryStore
  | .createOwner name =>
    (.ok (.ownerCreated ⟨s.fresh⟩), { m with index := m.index.createOwner ⟨s.fresh⟩ name s.now })
  | .deleteOwner owner =>
    match m.index.deleteOwner owner with
    | .error error => (.error error, m)
    | .ok index => (.ok .ownerDeleted, { m with index })
  | .save owner workflow data complete unlock =>
    match m.index.save owner workflow data.metadata complete unlock with
    | .error error => (.error error, m)
    | .ok index => (.ok .saved, { m with index, payloads := m.payloads.insert workflow data.bytes })
  | .load owner workflow =>
    match m.index.load owner workflow with
    | .error error => (.error error, m)
    | .ok (metadata, index) =>
      match m.payloads[workflow]? with
      | none => (.error (.instanceNotFound workflow), { m with index })
      | some bytes => (.ok (.loaded ⟨bytes, metadata⟩), { m with index })

/-- Carry out a command, unless a failure was planted for it. -/
def tryCommand (m : MemoryStore) (s : Surroundings) (c : Command) :
    Except StoreError CommandOutcome × MemoryStore :=
  match m.failures with
  | error :: rest => (.error error, { m with failures := rest })
  | [] => m.perform s c

end MemoryStore

end Workflow
