import Workflow.Application
import Workflow.Journal
import Workflow.Request

/-!
# Hosting a workflow

A host drives its application with calls. What happens on the way is told to the host, whose
reaction may call back into the application before the first call has ended.
-/

namespace Workflow

/-- The result of an operation, as far as it can be read. -/
abbrev OperationResult := Reading (Except ActivityError Value)

/-- A completion that arrives while a host waits. -/
abbrev Arrival := OperationId × OperationResult

/-- A call on an application. -/
inductive HostCall where
  /-- Run the workflow. -/
  | run
  /-- Resume a bookmark. -/
  | resume (b : Bookmark) (v : Value)
  /-- Resume a bookmark and run. -/
  | resumeAndRun (b : Bookmark) (v : Value)
  /-- Cancel the workflow and run. -/
  | cancel
  /-- Terminate the workflow and run. -/
  | terminate (reason : String)
  /-- Abort the workflow. -/
  | abort (reason : String)
  /-- Save the workflow. -/
  | persist
  /-- Save the workflow, release it and drop it from memory. -/
  | unload
  /-- Bring the workflow back into memory. -/
  | reload
  /-- Complete an operation whose handle was given out. -/
  | complete (operation : OperationId) (result : OperationResult)
  /-- Wait for operations while completions arrive. -/
  | waitForOperations (arrivals : List Arrival)
  /-- Run and wait by turns while completions arrive. -/
  | runUntilIdle (arrivals : List Arrival)
  /-- Ask whether the workflow is in memory. -/
  | isLoaded
  /-- Ask for the state. -/
  | state
  /-- Ask for the bookmarks. -/
  | bookmarks
  /-- Ask for the fields of the application. -/
  | inspect

/-- What becomes of a completion. -/
inductive Completion where
  /-- The handle is used. -/
  | done
  /-- There is no such handle. -/
  | noHandle
  /-- The handle is good for nothing. -/
  | violation (v : ContractViolation)
  /-- The result cannot be read. -/
  | unreadable (error : RequestError)

/-- What a waiting host has when nothing more arrives. -/
structure Waiting (α : Type) where
  /-- What became of the completions. -/
  completions : List Completion
  /-- The arrivals to come. -/
  arrivals : List Arrival
  /-- The result, if the waiting has ended. -/
  result : Option (Except HostError α)

/-- What a call answers. -/
inductive Reply where
  /-- It is done. -/
  | done
  /-- The workflow has run. -/
  | outcome (o : Outcome)
  /-- What became of a resumption. -/
  | resumption (r : Resumption)
  /-- What became of a resumption, and of the run if there was one. -/
  | resumptionAndOutcome (r : Resumption) (o : Option Outcome)
  /-- A truth value. -/
  | truth (b : Bool)
  /-- The state, if the workflow is in memory. -/
  | state (s : Option WorkflowState)
  /-- The bookmarks. -/
  | bookmarks (bs : List BookmarkInfo)
  /-- A text. -/
  | text (s : String)
  /-- What became of a completion. -/
  | completion (c : Completion)
  /-- The host has waited. -/
  | waited (w : Waiting Unit)
  /-- The host has run and waited. -/
  | ranUntilIdle (w : Waiting Outcome)
  /-- The host refuses. -/
  | refused (error : HostError)
  /-- The call cannot be read. -/
  | unreadable (error : RequestError)

/-- What happens in a host, in order. -/
inductive HostEvent where
  /-- An entry of the workflow's journal. -/
  | journal (entry : JournalEntry)
  /-- The host is told something. -/
  | notice (n : Notice)
  /-- A call made in reaction to a notice is answered. -/
  | reply (kind : NoticeKind) (r : Reply)

/-- A step of a reaction. -/
inductive ReactionStep where
  /-- Make a call. It is read when its turn comes, for so many scopes as there are then. -/
  | call (read : Nat → Reading HostCall)
  /-- Choose what to do with the idle workflow. -/
  | choose (a : IdleAction)

/-- A host with its application. -/
structure Host where
  /-- The application. -/
  application : Application
  /-- The store; it is used only under an owner. -/
  store : Store
  /-- What the store takes from its surroundings. -/
  surroundings : Surroundings
  /-- The greatest number of items that a run does. -/
  stepLimit : Nat
  /-- How many scopes have been created. -/
  scopeCount : Nat := 0
  /-- How many mailboxes have been made. -/
  mailboxCount : Nat := 0
  /-- The handles that were given out and not used. -/
  handles : List OperationHandle := []
  /-- What has happened since the events were last taken. -/
  events : List HostEvent := []
  /-- The reactions to come, those of one kind in order. -/
  reactions : List (NoticeKind × List ReactionStep) := []

namespace Host

/-- What a host does when it is told something. -/
abbrev React := Notice → Host → Option IdleAction × Host

variable (h : Host)

/-- Add an event. -/
def log (event : HostEvent) : Host :=
  { h with events := h.events ++ [event] }

/-- Change the application. -/
def withApplication (f : Application → Application) : Host :=
  { h with application := f h.application }

/-- Keep an executor after use: take its journal and its handles. -/
def keep (e : Executor) : Host :=
  let (entries, e) := e.takeJournal
  let (handles, e) := e.takeHandles
  { h with
    application := { h.application with executor := some e }
    scopeCount := e.scopeCount
    handles := h.handles.filter (fun old => !handles.any (·.operation == old.operation)) ++ handles
    events := h.events ++ entries.map .journal }

/-- Use the executor, if the workflow is in memory. -/
def useExecutor {α : Type} (f : Executor → α × Executor) : Except HostError (α × Host) :=
  match h.application.executor with
  | none => .error (.notLoaded h.application.id)
  | some e =>
    let (a, e) := f { e with scopeCount := h.scopeCount, isHosted := true }
    .ok (a, h.keep e)

/-- Tell the host something, if it listens. -/
def tell (react : React) (n : Notice) : Option IdleAction × Host :=
  if n.kind ∈ h.application.listening then react n (h.log (.notice n)) else (none, h)

/-- Save the workflow, releasing it if asked to. -/
def save (unlock : Bool) : Except HostError Unit × Host :=
  match h.application.owner with
  | none => (.error .noInstanceStore, h)
  | some owner =>
    match h.useExecutor fun e =>
      let (result, e, store) := e.save h.store h.surroundings owner unlock
      ((result, store), e) with
    | .error error => (.error error, h)
    | .ok ((.error error, store), h) => (.error (.engine error), { h with store })
    | .ok ((.ok (), store), h) => (.ok (), { h with store })

/-- Save the workflow and keep it locked. -/
def persist : Except HostError Unit × Host :=
  h.save false

/-- Save the workflow, release it and drop it from memory. -/
def unload (react : React) : Except HostError Unit × Host :=
  match h.save true with
  | (.error error, h) => (.error error, h)
  | (.ok (), h) =>
    let h := h.withApplication (·.dropExecutor)
    (.ok (), (h.tell react (.unloaded h.application.id)).2)

/-- Bring the workflow back into memory. -/
def reload : Except HostError Unit × Host :=
  match h.application.owner with
  | none => (.error .noInstanceStore, h)
  | some owner =>
    if h.application.isLoaded then (.ok (), h)
    else
      let mailbox := h.mailboxCount
      let (result, store) := Executor.load h.application.definition h.store h.surroundings owner
        h.application.id mailbox
      let h := { h with store, mailboxCount := mailbox + 1 }
      match result with
      | .error error => (.error (.engine error), h)
      | .ok e => (.ok (), h.withApplication (·.adopt e))

/-- Report the completion once; where there is a store, only after it is saved. -/
def reportCompletion (react : React) (outcome : Outcome) : Except HostError Unit × Host :=
  if h.application.completionReported then (.ok (), h)
  else
    let (saved, h) := if h.application.owner.isSome then h.persist else (.ok (), h)
    match saved with
    | .error error => (.error error, h)
    | .ok () =>
      let h := h.withApplication fun a => { a with completionReported := true }
      let id := h.application.id
      let h := match outcome with
        | .faulted f => (h.tell react (.exception id f)).2
        | _ => h
      (.ok (), (h.tell react (.completed id outcome)).2)

/-- Tell of an idle workflow and, if it can be saved, do what the host or the configuration wants. A
request of an activity to save counts where nobody wants anything else. -/
def handleIdle (react : React) (report : IdleReport) (persistRequested : Bool) :
    Except HostError Unit × Host :=
  let (_, h) := h.tell react (.idle report)
  if h.application.owner.isNone ∨ 0 < report.outstanding then (.ok (), h)
  else
    let (wanted, h) :=
      if .persistableIdle ∈ h.application.listening then
        let (action, h) := h.tell react (.persistableIdle report)
        (action.getD .keep, h)
      else (h.application.config.idleAction, h)
    match wanted with
    | .unload => h.unload react
    | .persist => h.persist
    | .keep => if persistRequested then h.persist else (.ok (), h)

/-- What a host is told of an idle executor. -/
def idleReport (e : Executor) : IdleReport :=
  ⟨h.application.id, e.bookmarkInfos, e.operations.size⟩

/-- Run the workflow and tell of the outcome. -/
def run (react : React) : Except HostError Outcome × Host :=
  match h.useExecutor (fun e =>
    match e.run h.stepLimit with
    | (.error error, e) => (Except.error error, e)
    | (.ok outcome, e) =>
      let (requested, e) := e.takePersistRequest
      (Except.ok (outcome, requested, h.idleReport e), e)) with
  | .error error => (.error error, h)
  | .ok (.error error, h) => (.error (.engine error), h)
  | .ok (.ok (outcome, requested, report), h) =>
    let (result, h) :=
      if outcome.isCompleted then h.reportCompletion react outcome
      else h.handleIdle react report requested
    match result with
    | .error error => (.error error, h)
    | .ok () => (.ok outcome, h)

/-- Resume a bookmark. A workflow that is not in memory takes no resumptions. -/
def resume (b : Bookmark) (v : Value) : Resumption × Host :=
  match h.useExecutor (·.resumeBookmark b v) with
  | .error _ => (.notReady, h)
  | .ok answer => answer

/-- Resume a bookmark, and run if that succeeds. -/
def resumeAndRun (react : React) (b : Bookmark) (v : Value) :
    Except HostError (Resumption × Option Outcome) × Host :=
  match h.resume b v with
  | (.success, h) =>
    match h.run react with
    | (.ok outcome, h) => (.ok (.success, some outcome), h)
    | (.error error, h) => (.error error, h)
  | (resumption, h) => (.ok (resumption, none), h)

/-- Make a request that may break a rule, and run. -/
def requestAndRun (react : React) (request : Executor → Except ContractViolation Unit × Executor) :
    Except HostError Outcome × Host :=
  match h.useExecutor request with
  | .error error => (.error error, h)
  | .ok (.error v, h) => (.error (.engine (.contract v)), h)
  | .ok (.ok (), h) => h.run react

/-- Cancel the workflow and run. -/
def cancel (react : React) : Except HostError Outcome × Host :=
  h.requestAndRun react Executor.cancelWorkflow

/-- Terminate the workflow and run. -/
def terminate (react : React) (reason : String) : Except HostError Outcome × Host :=
  h.requestAndRun react (·.terminate reason)

/-- Abort the workflow. -/
def abort (react : React) (reason : String) : Except HostError Unit × Host :=
  match h.useExecutor fun e => ((), e.abort reason) with
  | .error error => (.error error, h)
  | .ok ((), h) => (.ok (), (h.tell react (.aborted h.application.id reason)).2)

/-- Use a handle that was given out. The handle is gone also where the result cannot be read. -/
def complete (operation : OperationId) (result : OperationResult) : Completion × Host :=
  match h.handles.find? (·.operation == operation) with
  | none => (.noHandle, h)
  | some handle =>
    let h := { h with handles := h.handles.filter (·.operation != operation) }
    match result with
    | .error error => (.unreadable error, h)
    | .ok result =>
      match h.useExecutor (·.completeHandle handle result) with
      | .error _ => (.violation .contextDisposed, h)
      | .ok (.ok (), h) => (.done, h)
      | .ok (.error v, h) => (.violation v, h)

end Host

end Workflow
