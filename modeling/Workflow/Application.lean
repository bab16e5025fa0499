import Workflow.Config
import Workflow.Store.Persist

/-!
# Applications

An application hosts one workflow. It keeps the executor while the workflow is in memory, the store
and owner under which it saves, and what it gives to every executor of the workflow.
-/

namespace Workflow

/-- What a host is told of an idle workflow. -/
structure IdleReport where
  /-- The workflow. -/
  workflow : WorkflowId
  /-- The bookmarks at which it waits. -/
  bookmarks : List BookmarkInfo
  /-- The number of its outstanding operations. -/
  outstanding : Nat

/-- What a host may want to be told of. -/
inductive NoticeKind where
  /-- The workflow has completed. -/
  | completed
  /-- A run has ended idle. -/
  | idle
  /-- An idle workflow can be saved. -/
  | persistableIdle
  /-- The root has faulted. -/
  | exception
  /-- The workflow was aborted. -/
  | aborted
  /-- The workflow was unloaded. -/
  | unloaded
deriving DecidableEq

/-- The name of a kind of notice. -/
def NoticeKind.label : NoticeKind → String
  | completed => "completed"
  | idle => "idle"
  | persistableIdle => "persistable_idle"
  | exception => "exception"
  | aborted => "aborted"
  | unloaded => "unloaded"

/-- Every kind of notice. -/
def NoticeKind.all : List NoticeKind :=
  [completed, idle, persistableIdle, exception, aborted, unloaded]

/-- What a host is told. -/
inductive Notice where
  /-- The workflow has completed. -/
  | completed (workflow : WorkflowId) (outcome : Outcome)
  /-- A run has ended idle. -/
  | idle (report : IdleReport)
  /-- An idle workflow can be saved. -/
  | persistableIdle (report : IdleReport)
  /-- The root has faulted. -/
  | exception (workflow : WorkflowId) (f : Fault)
  /-- The workflow was aborted. -/
  | aborted (workflow : WorkflowId) (reason : String)
  /-- The workflow was unloaded. -/
  | unloaded (workflow : WorkflowId)

/-- The kind of a notice. -/
def Notice.kind : Notice → NoticeKind
  | completed .. => .completed
  | idle .. => .idle
  | persistableIdle .. => .persistableIdle
  | exception .. => .exception
  | aborted .. => .aborted
  | unloaded .. => .unloaded

/-- The host of one workflow. -/
structure Application where
  /-- The workflow. -/
  id : WorkflowId
  /-- Its definition. -/
  definition : Definition
  /-- Its executor, while it is in memory. -/
  executor : Option Executor
  /-- The owner under which it is saved, if there is a store. -/
  owner : Option OwnerId := none
  /-- The configuration. -/
  config : Config := {}
  /-- The services of every executor. -/
  extensions : Extensions := {}
  /-- The receivers of records of every executor; each executor numbers its records from zero. -/
  tracking : TrackingProvider := {}
  /-- What the host wants to be told of. -/
  listening : List NoticeKind := []
  /-- The completion has been reported. -/
  completionReported : Bool := false

namespace Application

variable (a : Application)

/-- An application for a new workflow. -/
def create (id : WorkflowId) (definition : Definition) (inputs : Environment) (mailbox : Nat) :
    Except EngineError Application := do
  let e ← Executor.create id definition inputs mailbox
  return { id, definition, executor := some e }

/-- Give the executor the services and the receivers again. -/
def reconfigure : Application :=
  { a with executor := a.executor.map fun e =>
    (e.withExtensions a.extensions).withTracking a.tracking }

/-- Use a configuration. -/
def withConfig (c : Config) : Application :=
  { a with config := c, tracking := { a.tracking with enabled := c.tracking } }.reconfigure

/-- Save under an owner. -/
def withOwner (owner : OwnerId) : Application :=
  { a with owner := some owner }

/-- Supply services. -/
def withExtensions (x : Extensions) : Application :=
  { a with extensions := x }.reconfigure

/-- Pass records to receivers, as far as the configuration allows. -/
def withTracking (t : TrackingProvider) : Application :=
  { a with tracking := { t with enabled := a.config.tracking } }.reconfigure

/-- Ask to be told of some kinds of notices. -/
def listeningTo (kinds : List NoticeKind) : Application :=
  { a with listening := kinds }

/-- The state of the workflow, while it is in memory. -/
def state? : Option WorkflowState :=
  a.executor.map (·.state)

/-- Whether the workflow is in memory. -/
def isLoaded : Bool :=
  a.executor.isSome

/-- The receivers with what they have kept so far. -/
def participants : List Participant :=
  match a.executor with
  | some e => e.tracking.participants
  | none => a.tracking.participants

/-- Drop the executor. The receivers keep what they have. -/
def dropExecutor : Application :=
  { a with executor := none, tracking := { a.tracking with participants := a.participants } }

/-- Take an executor that was loaded. One that has completed was reported before. -/
def adopt (e : Executor) : Application :=
  { a with
    executor := some ((e.withExtensions a.extensions).withTracking a.tracking)
    completionReported := a.completionReported || e.state.isCompleted }

/-- The fields of an application for inspection. -/
def inspect : String :=
  let flag (b : Bool) := if b then "true" else "false"
  "WorkflowApplication \x7b id: WorkflowInstanceId(" ++ toString a.id ++ "), loaded: " ++
    flag a.isLoaded ++ ", has_store: " ++ flag a.owner.isSome ++ " \x7d"

end Application

end Workflow
