import Workflow.Packed
import Workflow.Snapshot
import Workflow.Value.Parser
import Workflow.Value.Printer
import Workflow.Word

/-!
# Snapshots as packed data

Each record becomes a packed record labelled with its type, its fields in a fixed order. Reading
takes the fields by position. What follows the last field of a record or case is passed over; a
wrapped value or an option has nothing that follows.
-/

namespace Workflow

/-- An instance's identifier as packed data. -/
def InstanceId.toPacked (id : InstanceId) : Packed :=
  .wrapped "InstanceId" (.integer id.number)

/-- Read an instance's identifier. -/
def InstanceId.ofPacked? (p : Packed) : Option InstanceId :=
  p.wrapped? "InstanceId" fun n => (n.natBelow? (wordBound)).map InstanceId.mk

/-- A reference to an instance as packed data. -/
def InstanceId.toReference (id : InstanceId) : Packed :=
  .wrapped "ActivityInstanceReference" id.toPacked

/-- Read a reference to an instance. -/
def InstanceId.ofReference? (p : Packed) : Option InstanceId :=
  p.wrapped? "ActivityInstanceReference" InstanceId.ofPacked?

/-- An identifier of 128 bits as packed data. -/
def Uuid.toPacked (u : Uuid) : Packed :=
  .text u.print

/-- Read an identifier of 128 bits. -/
def Uuid.ofPacked? (p : Packed) : Option Uuid :=
  p.string?.bind Uuid.parse?

/-- A callback as packed data. -/
def CallbackTag.toPacked (tag : CallbackTag) : Packed :=
  .wrapped "CallbackTag" (.text tag)

/-- Read a callback. -/
def CallbackTag.ofPacked? (p : Packed) : Option CallbackTag :=
  p.wrapped? "CallbackTag" Packed.string?

/-- A value as packed data: its printed text. -/
def Value.toPacked (v : Value) : Packed :=
  .wrapped "PersistedValue" (.text v.print)

/-- Read a value. -/
def Value.ofPacked? (p : Packed) : Option Value :=
  p.wrapped? "PersistedValue" fun t => t.string?.bind Value.parse?

/-- A scope as packed data. -/
def Scope.toPacked : Scope → Packed
  | .default => .labelled "Default" []
  | .named id => .wrapped "Named" id.toPacked

/-- Read a scope. -/
def Scope.ofPacked? (p : Packed) : Option Scope := do
  match ← p.record? with
  | ("Default", _) => some .default
  | ("Named", id :: _) => (Uuid.ofPacked? id).map .named
  | _ => none

/-- Read an activity state. -/
def ActivityState.ofPacked? (p : Packed) : Option ActivityState :=
  p.case?.bind ActivityState.ofLabel?

/-- Read a workflow state. -/
def WorkflowState.ofPacked? (p : Packed) : Option WorkflowState :=
  p.case?.bind WorkflowState.ofLabel?

/-- A named value as packed data. -/
def NamedValue.toPacked (v : NamedValue) : Packed :=
  .labelled "NamedValue" [.text v.name, v.value.toPacked]

/-- Read a named value. -/
def NamedValue.ofPacked? (p : Packed) : Option NamedValue := do
  match ← p.fieldsOf? "NamedValue" with
  | name :: value :: _ => return ⟨← name.string?, ← Value.ofPacked? value⟩
  | _ => none

/-- The record of a fault as packed data. -/
def FaultRecord.toPacked (f : FaultRecord) : Packed :=
  .labelled "FaultRecord" [.text f.message, f.source.toPacked, .text f.sourcePath,
    .text f.sourceName, .boolean f.terminated]

/-- Read the record of a fault. -/
def FaultRecord.ofPacked? (p : Packed) : Option FaultRecord := do
  match ← p.fieldsOf? "FaultRecord" with
  | message :: source :: path :: name :: terminated :: _ =>
    return ⟨← message.string?, ← InstanceId.ofPacked? source, ← path.string?, ← name.string?,
      ← terminated.boolean?⟩
  | _ => none

/-- The record of an instance as packed data. -/
def InstanceRecord.toPacked (r : InstanceRecord) : Packed :=
  .labelled "InstanceRecord" [r.id.toPacked, .text r.path,
    .ofOption (r.parent.map InstanceId.toReference), .labelled r.state.label [],
    .sequence (r.environment.map NamedValue.toPacked),
    .sequence (r.properties.map NamedValue.toPacked), .integer r.busy,
    .ofOption (r.completionCallback.map CallbackTag.toPacked),
    .ofOption (r.faultCallback.map CallbackTag.toPacked), r.scope.toPacked,
    .boolean r.executed, .boolean r.cancelRequested, .boolean r.markedCanceled,
    .ofOption (r.result.map Value.toPacked), .ofOption (r.fault.map FaultRecord.toPacked)]

/-- Read the record of an instance. -/
def InstanceRecord.ofPacked? (p : Packed) : Option InstanceRecord := do
  match ← p.fieldsOf? "InstanceRecord" with
  | id :: path :: parent :: state :: environment :: properties :: busy :: completed :: faulted ::
      scope :: executed :: cancelRequested :: markedCanceled :: result :: fault :: _ =>
    return {
      id := ← InstanceId.ofPacked? id
      path := ← path.string?
      parent := ← parent.option? InstanceId.ofReference?
      state := ← ActivityState.ofPacked? state
      environment := ← environment.list? NamedValue.ofPacked?
      properties := ← properties.list? NamedValue.ofPacked?
      busy := ← busy.natBelow? (halfWordBound)
      completionCallback := ← completed.option? CallbackTag.ofPacked?
      faultCallback := ← faulted.option? CallbackTag.ofPacked?
      scope := ← Scope.ofPacked? scope
      executed := ← executed.boolean?
      cancelRequested := ← cancelRequested.boolean?
      markedCanceled := ← markedCanceled.boolean?
      result := ← result.option? Value.ofPacked?
      fault := ← fault.option? FaultRecord.ofPacked? }
  | _ => none

/-- A bookmark as packed data. -/
def Bookmark.toPacked (b : Bookmark) : Packed :=
  .labelled "Bookmark" [b.scope.toPacked, .text b.name]

/-- Read a bookmark. -/
def Bookmark.ofPacked? (p : Packed) : Option Bookmark := do
  match ← p.fieldsOf? "Bookmark" with
  | scope :: name :: _ => return ⟨← Scope.ofPacked? scope, ← name.string?⟩
  | _ => none

/-- The options of a bookmark as packed data. -/
def BookmarkOptions.toPacked (o : BookmarkOptions) : Packed :=
  .labelled "BookmarkOptions" [.boolean o.multipleResume, .boolean o.nonBlocking]

/-- Read the options of a bookmark. -/
def BookmarkOptions.ofPacked? (p : Packed) : Option BookmarkOptions := do
  match ← p.fieldsOf? "BookmarkOptions" with
  | multiple :: nonBlocking :: _ => return ⟨← multiple.boolean?, ← nonBlocking.boolean?⟩
  | _ => none

/-- A registration as packed data. -/
def Registration.toPacked (r : Registration) : Packed :=
  .labelled "BookmarkRecord" [r.bookmark.toPacked, r.owner.toReference,
    .ofOption (r.callback.map CallbackTag.toPacked), r.options.toPacked]

/-- Read a registration. -/
def Registration.ofPacked? (p : Packed) : Option Registration := do
  match ← p.fieldsOf? "BookmarkRecord" with
  | bookmark :: owner :: callback :: options :: _ =>
    return ⟨← Bookmark.ofPacked? bookmark, ← InstanceId.ofReference? owner,
      ← callback.option? CallbackTag.ofPacked?, ← BookmarkOptions.ofPacked? options⟩
  | _ => none

/-- The record of a scope as packed data. -/
def ScopeRecord.toPacked (r : ScopeRecord) : Packed :=
  .labelled "ScopeRecord" [r.id.toPacked, r.owner.toReference]

/-- Read the record of a scope. -/
def ScopeRecord.ofPacked? (p : Packed) : Option ScopeRecord := do
  match ← p.fieldsOf? "ScopeRecord" with
  | id :: owner :: _ => return ⟨← Uuid.ofPacked? id, ← InstanceId.ofReference? owner⟩
  | _ => none

namespace Snapshot

/-- What a snapshot states about itself, as packed data. -/
def metadataToPacked (s : Snapshot) : Packed :=
  .labelled "SnapshotMetadata" [.text s.createdAt.print, .integer s.instanceCount,
    .integer s.bookmarkCount]

/-- Read what a snapshot states about itself. -/
def metadataOfPacked? (p : Packed) : Option (Timestamp × Nat × Nat) := do
  match ← p.fieldsOf? "SnapshotMetadata" with
  | createdAt :: instances :: bookmarks :: _ =>
    return (← createdAt.string?.bind Timestamp.parse?, ← instances.natBelow? (wordBound),
      ← bookmarks.natBelow? (wordBound))
  | _ => none

/-- A snapshot as packed data. -/
def toPacked (s : Snapshot) : Packed :=
  .labelled "WorkflowSnapshot" [.wrapped "WorkflowInstanceId" s.workflow.uuid.toPacked,
    .text s.fingerprint, .labelled s.state.label [], .integer s.nextInstance,
    .integer s.nextOperation, s.root.toReference,
    .sequence (s.instances.map InstanceRecord.toPacked),
    .sequence (s.bookmarks.map Registration.toPacked),
    .sequence (s.scopes.map ScopeRecord.toPacked), s.metadataToPacked]

/-- Read a snapshot. -/
def ofPacked? (p : Packed) : Option Snapshot := do
  match ← p.fieldsOf? "WorkflowSnapshot" with
  | workflow :: fingerprint :: state :: nextInstance :: nextOperation :: root :: instances ::
      bookmarks :: scopes :: metadata :: _ =>
    let (createdAt, instanceCount, bookmarkCount) ← metadataOfPacked? metadata
    return {
      workflow := ⟨← workflow.wrapped? "WorkflowInstanceId" Uuid.ofPacked?⟩
      fingerprint := ← fingerprint.string?
      state := ← WorkflowState.ofPacked? state
      nextInstance := ← nextInstance.natBelow? (wordBound)
      nextOperation := ← nextOperation.natBelow? (wordBound)
      root := ← InstanceId.ofReference? root
      instances := ← instances.list? InstanceRecord.ofPacked?
      bookmarks := ← bookmarks.list? Registration.ofPacked?
      scopes := ← scopes.list? ScopeRecord.ofPacked?
      createdAt, instanceCount, bookmarkCount }
  | _ => none

/-- The octets of a snapshot. -/
def encode (s : Snapshot) : Bytes :=
  s.toPacked.write

/-- The snapshot of octets. -/
def decode (bytes : Bytes) : Except PersistenceError Snapshot :=
  match (Packed.read? bytes).bind ofPacked? with
  | some s => .ok s
  | none => .error .decoding

end Snapshot

end Workflow
