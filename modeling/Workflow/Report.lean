import Workflow.Executor.Run
import Workflow.Json.Printer
import Workflow.Snapshot.Json

/-!
# Reports as JSON

Outcomes, faults, findings, errors, bookmarks and tracking events as documents for a host to read.
-/

namespace Workflow

/-- A fault as a document. -/
def Fault.toJson (f : Fault) : Json :=
  .object [("message", .string f.error.message), ("display", .string f.print),
    ("kind", .string f.error.label), ("source", f.source.toJson),
    ("activity", .nat f.sourceNode.number), ("name", .string f.sourceName),
    ("terminated", .boolean f.isTermination)]

/-- Named values as a document. -/
def Environment.toJson (env : Environment) : Json :=
  .object (env.toList.map fun (name, v) => (name, v.toJson))

/-- An outcome as a document. -/
def Outcome.toJson : Outcome → Json
  | completed result outputs =>
    .object [("outcome", .string "Completed"), ("result", .ofOption (result.map Value.toJson)),
      ("outputs", outputs.toJson)]
  | faulted f => .object [("outcome", .string "Faulted"), ("fault", f.toJson)]
  | canceled => .object [("outcome", .string "Canceled")]
  | idle => .object [("outcome", .string "Idle")]

/-- A finding as a document. -/
def Finding.toJson (f : Finding) : Json :=
  .object [("activity_path", .string f.path), ("activity_name", .string f.name),
    ("message", .string f.message), ("severity", .string f.severity.label)]

/-- Findings as a document. -/
def Findings.toJson (fs : Findings) : Json :=
  .object [("findings", .array (fs.toList.map Finding.toJson))]

/-- An error as a document. -/
def errorJson (label message : String) : Json :=
  .object [("error", .string label), ("message", .string message)]

/-- A broken rule as a document. -/
def ContractViolation.toJson (v : ContractViolation) : Json :=
  errorJson ("Contract." ++ v.label) v.message

/-- A refusal of a store as a document. -/
def StoreError.toJson (error : StoreError) : Json :=
  errorJson ("Store." ++ error.label) error.message

/-- A refused bookmark as a document. -/
def BookmarkError.toJson (error : BookmarkError) : Json :=
  errorJson ("Bookmark." ++ error.label) error.message

/-- A failure of the engine as a document. Octets that are no snapshot are reported without a
message. -/
def EngineError.toJson : EngineError → Json
  | persistence .decoding => .object [("error", .string "Persistence.Decoding")]
  | error => errorJson error.label error.message

/-- A failure of the host as a document. -/
def HostError.toJson : HostError → Json
  | engine error => error.toJson
  | error => errorJson error.label error.message

/-- A bookmark that a workflow waits at, as a document. -/
def BookmarkInfo.toJson (b : BookmarkInfo) : Json :=
  .array [.string b.bookmark.print, b.owner.toJson, .string b.ownerName,
    .boolean b.options.multipleResume, .boolean b.options.nonBlocking]

/-- A reference to an instance as a document. -/
def ActivityInfo.toJson (a : ActivityInfo) : Json :=
  .object [("instance", a.id.toJson), ("activity_path", .string a.path), ("name", .string a.name)]

/-- What a record reports, as a document. -/
def TrackingEvent.toJson : TrackingEvent → Json
  | lifecycle event =>
    .object [("WorkflowInstanceStateChanged", .object [("state", .string event.label)])]
  | scheduled parent child =>
    .object [("ActivityScheduled",
      .object [("parent", .ofOption (parent.map ActivityInfo.toJson)), ("child", child.toJson)])]
  | stateChanged activity state =>
    .object [("ActivityStateChanged",
      .object [("activity", activity.toJson), ("state", .string state.label)])]
  | bookmarkResumed b owner =>
    .object [("BookmarkResumed", .object [("bookmark", b.toJson), ("owner", owner.toJson)])]
  | faultPropagated source handler message =>
    .object [("FaultPropagated",
      .object [("source", source.toJson), ("handler", .ofOption (handler.map ActivityInfo.toJson)),
        ("message", .string message)])]

/-- A record as a document: its number and what it reports. -/
def TrackingRecord.toJson (r : TrackingRecord) : Json :=
  .array [.nat r.number, r.event.toJson]

/-- An instance as a document. What is not out of the ordinary is left out. -/
def Instance.toJson (i : Instance) : Json :=
  let only (b : Bool) (field : String × Json) : List (String × Json) := if b then [field] else []
  let optional (name : String) (j : Option Json) : List (String × Json) :=
    j.toList.map fun j => (name, j)
  .object (
    [("id", i.id.toJson), ("activity", .nat i.node.number), ("state", .string i.state.label),
      ("parent", .ofOption (i.parent.map InstanceId.toJson)),
      ("children", .array (i.children.map InstanceId.toJson)), ("busy", .nat i.busy),
      ("env", i.environment.toJson)] ++
    only (i.scope != .default) ("scope", .string i.scope.print) ++
    only i.cancelRequested ("cancel_requested", .boolean true) ++
    optional "result" (i.result.map Value.toJson) ++
    optional "fault" (i.fault.map fun f => .string f.print))

/-- A registration as a document. -/
def Registration.reportJson (g : Registration) : Json :=
  .array [.string g.bookmark.print, g.owner.toJson, .ofOption (g.callback.map Json.string),
    .boolean g.options.multipleResume, .boolean g.options.nonBlocking,
    .boolean g.options.isBlocking]

end Workflow
