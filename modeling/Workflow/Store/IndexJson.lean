import Workflow.Snapshot.Json
import Workflow.Store.Index

/-!
# The index as JSON

Owners and saved workflows become fields named by their identifiers.
-/

namespace Workflow

/-- The summary of a saved workflow as a document. -/
def InstanceMetadata.toJson (m : InstanceMetadata) : Json :=
  .object [("definition_fingerprint", .string m.fingerprint), ("state", .string m.state.label),
    ("bookmarks", .array (m.bookmarks.map Json.string)), ("instance_count", .nat m.instanceCount),
    ("saved_at", .string m.savedAt.print)]

/-- Read the summary of a saved workflow. -/
def InstanceMetadata.ofJson? (j : Json) : Option InstanceMetadata := do
  let j := j.asRecord ["definition_fingerprint", "state", "bookmarks", "instance_count", "saved_at"]
  return {
    fingerprint := ← j.required? "definition_fingerprint" Json.string?
    state := ← j.required? "state" WorkflowState.ofJson?
    bookmarks := ← j.required? "bookmarks" (Json.list? Json.string?)
    instanceCount := ← j.required? "instance_count" (Json.natBelow? wordBound)
    savedAt := ← j.required? "saved_at" Timestamp.ofJson? }

/-- The record of an owner as a document. -/
def OwnerRecord.toJson (r : OwnerRecord) : Json :=
  .object [("name", .string r.name), ("created_at", .string r.createdAt.print)]

/-- Read the record of an owner. -/
def OwnerRecord.ofJson? (j : Json) : Option OwnerRecord := do
  let j := j.asRecord ["name", "created_at"]
  return ⟨← j.required? "name" Json.string?, ← j.required? "created_at" Timestamp.ofJson?⟩

/-- The entry of a saved workflow as a document. -/
def InstanceEntry.toJson (entry : InstanceEntry) : Json :=
  .object [("locked_by", .ofOption (entry.lockedBy.map fun owner => .string (toString owner))),
    ("complete", .boolean entry.complete), ("metadata", entry.metadata.toJson)]

/-- Read the entry of a saved workflow. -/
def InstanceEntry.ofJson? (j : Json) : Option InstanceEntry := do
  let j := j.asRecord ["locked_by", "complete", "metadata"]
  return {
    lockedBy := (← j.optional? "locked_by" Uuid.ofJson?).map OwnerId.mk
    complete := ← j.required? "complete" Json.boolean?
    metadata := ← j.required? "metadata" InstanceMetadata.ofJson? }

namespace StoreIndex

/-- An index as a document. -/
def toJson (x : StoreIndex) : Json :=
  .object [
    ("owners", .object (x.owners.toList.map fun (owner, r) => (toString owner, r.toJson))),
    ("instances",
      .object (x.instances.toList.map fun (workflow, entry) => (toString workflow, entry.toJson)))]

/-- Read an object whose fields are named by identifiers. -/
def fieldsById? {α : Type} (read : Json → Option α) (j : Json) : Option (List (Uuid × α)) :=
  j.fields?.bind fun fields => fields.mapM fun (name, value) => do
    return (← Uuid.parse? name, ← read value)

/-- Read an index. -/
def ofJson? (j : Json) : Option StoreIndex := do
  let j := j.asRecord ["owners", "instances"]
  let owners ← j.required? "owners" (fieldsById? OwnerRecord.ofJson?)
  let instances ← j.required? "instances" (fieldsById? InstanceEntry.ofJson?)
  return {
    owners := owners.foldl (fun (m : Std.ExtTreeMap OwnerId OwnerRecord) (id, r) =>
      m.insert ⟨id⟩ r) ∅
    instances := instances.foldl (fun (m : Std.ExtTreeMap WorkflowId InstanceEntry) (id, entry) =>
      m.insert ⟨id⟩ entry) ∅ }

end StoreIndex

end Workflow
