import Workflow.Json.Read
import Workflow.Snapshot
import Workflow.Value.Parser
import Workflow.Value.Printer
import Workflow.Word

/-!
# Snapshots as JSON

Records become objects, identifiers numbers or texts, and values their printed texts.
-/

namespace Workflow

/-- A value as a document. -/
def Value.toJson (v : Value) : Json :=
  .string v.print

/-- Read a value. -/
def Value.ofJson? (j : Json) : Option Value :=
  j.string?.bind Value.parse?

/-- An instance's identifier as a document. -/
def InstanceId.toJson (id : InstanceId) : Json :=
  .nat id.number

/-- Read an instance's identifier. -/
def InstanceId.ofJson? (j : Json) : Option InstanceId :=
  (j.natBelow? wordBound).map InstanceId.mk

/-- Read an identifier of 128 bits. -/
def Uuid.ofJson? (j : Json) : Option Uuid :=
  j.string?.bind Uuid.parse?

/-- Read a point in time. -/
def Timestamp.ofJson? (j : Json) : Option Timestamp :=
  j.string?.bind Timestamp.parse?

/-- A scope as a document. -/
def Scope.toJson : Scope → Json
  | .default => .string "Default"
  | .named id => .object [("Named", .string id.print)]

/-- Read a scope. -/
def Scope.ofJson? : Json → Option Scope
  | .object [("Named", j)] => (Uuid.ofJson? j).map Scope.named
  | j => if j.case? = some "Default" then some .default else none

/-- Read an activity state. -/
def ActivityState.ofJson? (j : Json) : Option ActivityState :=
  j.case?.bind ActivityState.ofLabel?

/-- Read a workflow state. -/
def WorkflowState.ofJson? (j : Json) : Option WorkflowState :=
  j.case?.bind WorkflowState.ofLabel?

/-- A named value as a document. -/
def NamedValue.toJson (v : NamedValue) : Json :=
  .object [("name", .string v.name), ("value", v.value.toJson)]

/-- Read a named value. -/
def NamedValue.ofJson? (j : Json) : Option NamedValue := do
  let j := j.asRecord ["name", "value"]
  return ⟨← j.required? "name" Json.string?, ← j.required? "value" Value.ofJson?⟩

/-- The record of a fault as a document. -/
def FaultRecord.toJson (f : FaultRecord) : Json :=
  .object [("message", .string f.message), ("source", f.source.toJson),
    ("source_path", .string f.sourcePath), ("source_name", .string f.sourceName),
    ("terminated", .boolean f.terminated)]

/-- Read the record of a fault. -/
def FaultRecord.ofJson? (j : Json) : Option FaultRecord := do
  let j := j.asRecord ["message", "source", "source_path", "source_name", "terminated"]
  return {
    message := ← j.required? "message" Json.string?
    source := ← j.required? "source" InstanceId.ofJson?
    sourcePath := ← j.required? "source_path" Json.string?
    sourceName := ← j.required? "source_name" Json.string?
    terminated := ← j.required? "terminated" Json.boolean? }

/-- The record of an instance as a document. -/
def InstanceRecord.toJson (r : InstanceRecord) : Json :=
  .object [("id", r.id.toJson), ("activity_path", .string r.path),
    ("parent", .ofOption (r.parent.map InstanceId.toJson)), ("state", .string r.state.label),
    ("environment", .array (r.environment.map NamedValue.toJson)),
    ("properties", .array (r.properties.map NamedValue.toJson)), ("busy_count", .nat r.busy),
    ("completion_callback", .ofOption (r.completionCallback.map Json.string)),
    ("fault_callback", .ofOption (r.faultCallback.map Json.string)),
    ("bookmark_scope", r.scope.toJson), ("executed", .boolean r.executed),
    ("cancel_requested", .boolean r.cancelRequested),
    ("marked_canceled", .boolean r.markedCanceled),
    ("result", .ofOption (r.result.map Value.toJson)),
    ("fault", .ofOption (r.fault.map FaultRecord.toJson))]

/-- Read the record of an instance. -/
def InstanceRecord.ofJson? (j : Json) : Option InstanceRecord := do
  let j := j.asRecord ["id", "activity_path", "parent", "state", "environment", "properties",
    "busy_count", "completion_callback", "fault_callback", "bookmark_scope", "executed",
    "cancel_requested", "marked_canceled", "result", "fault"]
  return {
    id := ← j.required? "id" InstanceId.ofJson?
    path := ← j.required? "activity_path" Json.string?
    parent := ← j.optional? "parent" InstanceId.ofJson?
    state := ← j.required? "state" ActivityState.ofJson?
    environment := ← j.required? "environment" (Json.list? NamedValue.ofJson?)
    properties := ← j.required? "properties" (Json.list? NamedValue.ofJson?)
    busy := ← j.required? "busy_count" (Json.natBelow? (halfWordBound))
    completionCallback := ← j.optional? "completion_callback" Json.string?
    faultCallback := ← j.optional? "fault_callback" Json.string?
    scope := ← j.required? "bookmark_scope" Scope.ofJson?
    executed := ← j.required? "executed" Json.boolean?
    cancelRequested := ← j.required? "cancel_requested" Json.boolean?
    markedCanceled := ← j.required? "marked_canceled" Json.boolean?
    result := ← j.optional? "result" Value.ofJson?
    fault := ← j.optional? "fault" FaultRecord.ofJson? }

/-- A bookmark as a document. -/
def Bookmark.toJson (b : Bookmark) : Json :=
  .object [("scope", b.scope.toJson), ("name", .string b.name)]

/-- Read a bookmark. -/
def Bookmark.ofJson? (j : Json) : Option Bookmark := do
  let j := j.asRecord ["scope", "name"]
  return ⟨← j.required? "scope" Scope.ofJson?, ← j.required? "name" Json.string?⟩

/-- The options of a bookmark as a document. -/
def BookmarkOptions.toJson (o : BookmarkOptions) : Json :=
  .object [("multiple_resume", .boolean o.multipleResume),
    ("non_blocking", .boolean o.nonBlocking)]

/-- Read the options of a bookmark. -/
def BookmarkOptions.ofJson? (j : Json) : Option BookmarkOptions := do
  let j := j.asRecord ["multiple_resume", "non_blocking"]
  return ⟨← j.required? "multiple_resume" Json.boolean?, ← j.required? "non_blocking" Json.boolean?⟩

/-- A registration as a document. -/
def Registration.toJson (r : Registration) : Json :=
  .object [("bookmark", r.bookmark.toJson), ("owner", r.owner.toJson),
    ("callback", .ofOption (r.callback.map Json.string)), ("options", r.options.toJson)]

/-- Read a registration. -/
def Registration.ofJson? (j : Json) : Option Registration := do
  let j := j.asRecord ["bookmark", "owner", "callback", "options"]
  return {
    bookmark := ← j.required? "bookmark" Bookmark.ofJson?
    owner := ← j.required? "owner" InstanceId.ofJson?
    callback := ← j.optional? "callback" Json.string?
    options := ← j.required? "options" BookmarkOptions.ofJson? }

/-- The record of a scope as a document. -/
def ScopeRecord.toJson (r : ScopeRecord) : Json :=
  .object [("id", .string r.id.print), ("owner", r.owner.toJson)]

/-- Read the record of a scope. -/
def ScopeRecord.ofJson? (j : Json) : Option ScopeRecord := do
  let j := j.asRecord ["id", "owner"]
  return ⟨← j.required? "id" Uuid.ofJson?, ← j.required? "owner" InstanceId.ofJson?⟩

namespace Snapshot

/-- A snapshot as a document. -/
def toJson (s : Snapshot) : Json :=
  .object [("workflow_id", .string (toString s.workflow)),
    ("definition_fingerprint", .string s.fingerprint), ("state", .string s.state.label),
    ("next_instance_id", .nat s.nextInstance), ("next_async_id", .nat s.nextOperation),
    ("root", s.root.toJson), ("instances", .array (s.instances.map InstanceRecord.toJson)),
    ("bookmarks", .array (s.bookmarks.map Registration.toJson)),
    ("scopes", .array (s.scopes.map ScopeRecord.toJson)),
    ("metadata", .object [("created_at", .string s.createdAt.print),
      ("instance_count", .nat s.instanceCount), ("bookmark_count", .nat s.bookmarkCount)])]

/-- Read a snapshot. -/
def ofJson? (j : Json) : Option Snapshot := do
  let j := j.asRecord ["workflow_id", "definition_fingerprint", "state", "next_instance_id",
    "next_async_id", "root", "instances", "bookmarks", "scopes", "metadata"]
  let metadata := (← j.required? "metadata" some).asRecord
    ["created_at", "instance_count", "bookmark_count"]
  return {
    workflow := ⟨← j.required? "workflow_id" Uuid.ofJson?⟩
    fingerprint := ← j.required? "definition_fingerprint" Json.string?
    state := ← j.required? "state" WorkflowState.ofJson?
    nextInstance := ← j.required? "next_instance_id" (Json.natBelow? wordBound)
    nextOperation := ← j.required? "next_async_id" (Json.natBelow? wordBound)
    root := ← j.required? "root" InstanceId.ofJson?
    instances := ← j.required? "instances" (Json.list? InstanceRecord.ofJson?)
    bookmarks := ← j.required? "bookmarks" (Json.list? Registration.ofJson?)
    scopes := ← j.required? "scopes" (Json.list? ScopeRecord.ofJson?)
    createdAt := ← metadata.required? "created_at" Timestamp.ofJson?
    instanceCount := ← metadata.required? "instance_count" (Json.natBelow? wordBound)
    bookmarkCount := ← metadata.required? "bookmark_count" (Json.natBelow? wordBound) }

end Snapshot

end Workflow
