import Workflow.Store.File
import Workflow.Store.Memory

/-!
# Stores

A store keeps its workflows in memory or in files. A third kind answers every command with the
same words and keeps nothing.
-/

namespace Workflow

/-- A store. -/
inductive Store where
  /-- A store in memory. -/
  | memory (m : MemoryStore)
  /-- A store in files. -/
  | files (f : FileStore)
  /-- A store that says of every command that it saved. -/
  | heedless

namespace Store

/-- Carry out a command. -/
def tryCommand (s : Surroundings) (c : Command) : Store → Except StoreError CommandOutcome × Store
  | memory m =>
    let (outcome, m) := m.tryCommand s c
    (outcome, memory m)
  | files f =>
    let (outcome, f) := f.tryCommand s c
    (outcome, files f)
  | heedless => (.ok .saved, heedless)

/-- Register an owner. -/
def createOwner (s : Surroundings) (name : String) (store : Store) :
    Except StoreError OwnerId × Store :=
  match store.tryCommand s (.createOwner name) with
  | (.error error, store) => (.error error, store)
  | (.ok outcome, store) =>
    match outcome.owner? with
    | some owner => (.ok owner, store)
    | none => (.error (.storage "store did not return an owner"), store)

end Store

end Workflow
