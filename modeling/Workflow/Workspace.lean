import Workflow.Application.Reaction
import Workflow.Definition.Prepare
import Workflow.Request
import Workflow.Session

/-!
# Workspaces

A workspace holds several stores and applications. Stores, owners, workflows and applications have
names, and every identifier that the workspace makes up has a label by which it is shown. All files
lie on one disk.
-/

namespace Workflow

/-- An application with its store. -/
structure Hosting where
  /-- The host of the application. -/
  host : Host
  /-- The number of its store, if it has one. -/
  store : Option Nat

/-- Several stores and applications. -/
structure Workspace where
  /-- The disk of all files. -/
  disk : Disk := {}
  /-- The stores. -/
  stores : Array Store := #[]
  /-- The numbers of the stores, by name. -/
  storeNames : List (String × Nat) := []
  /-- The owners, by name. -/
  owners : List (String × OwnerId) := []
  /-- The workflows, by name. -/
  workflows : List (String × WorkflowId) := []
  /-- The labels of the identifiers made up here. -/
  labels : List (Uuid × String) := []
  /-- How many identifiers have been made up. -/
  minted : Nat := 0
  /-- The applications, by name. -/
  hostings : List (String × Hosting) := []
  /-- How many scopes have been created. -/
  scopeCount : Nat := 0
  /-- How many mailboxes have been made. -/
  mailboxCount : Nat := 0
  /-- The time at which everything happens. -/
  now : Timestamp
  /-- The greatest number of items that a run does. -/
  stepLimit : Nat

/-- A name that leads nowhere. -/
inductive WorkspaceError where
  /-- There is no such store. -/
  | noStore
  /-- There is no such owner. -/
  | noOwner
  /-- There is no such application. -/
  | noApplication
  /-- The request cannot be read. -/
  | request (error : RequestError)

/-- The wording of a name that leads nowhere. -/
def WorkspaceError.message : WorkspaceError → String
  | noStore => "no such store"
  | noOwner => "no such owner"
  | noApplication => "no such app"
  | request error => error.message

/-- Work in a workspace. -/
abbrev WorkspaceM := ExceptT WorkspaceError (StateM Workspace)

namespace Workspace

/-- The n-th identifier that a workspace makes up. -/
def identifier (n : Nat) : Uuid :=
  .ofNat (0xfe19c0de000040008000000000000000 + n)

/-- Make up an identifier that was never used. -/
def mint : WorkspaceM Uuid := do
  let w ← get
  set { w with minted := w.minted + 1 }
  return identifier (w.minted + 1)

/-- Give an identifier its label. -/
def label (id : Uuid) (text : String) : WorkspaceM Unit :=
  modify fun w => { w with labels := (id, text) :: w.labels }

/-- Go on with what was read of a request. -/
def reading {α : Type} (r : Reading α) : WorkspaceM α :=
  match r with
  | .ok a => return a
  | .error e => throw (.request e)

/-- The workflow of a name or identifier. A new name gets a new workflow. -/
def workflow (name : String) : WorkspaceM WorkflowId := do
  match (← get).workflows.find? (·.1 == name), Uuid.parse? name with
  | some (_, id), _ => return id
  | none, some id => return ⟨id⟩
  | none, none =>
    let id ← mint
    label id ("wf:" ++ name)
    modify fun w => { w with workflows := (name, ⟨id⟩) :: w.workflows }
    return ⟨id⟩

/-- The owner of a name or identifier. -/
def owner (name : String) : WorkspaceM OwnerId := do
  match (← get).owners.find? (·.1 == name), Uuid.parse? name with
  | some (_, id), _ => return id
  | none, some id => return ⟨id⟩
  | none, none => throw .noOwner

/-- The number of the store of a name. -/
def storeNumber (name : String) : WorkspaceM Nat := do
  match (← get).storeNames.find? (·.1 == name) with
  | some (_, n) => return n
  | none => throw .noStore

/-- The store of a number, with the files as they are now. -/
def store (w : Workspace) (n : Nat) : Store :=
  match w.stores[n]? with
  | some (.files f) => .files { f with disk := w.disk }
  | some s => s
  | none => .heedless

/-- Put a store back after use. -/
def putStore (w : Workspace) (n : Nat) (s : Store) : Workspace :=
  let disk := match s with
    | .files f => f.disk
    | _ => w.disk
  { w with disk, stores := w.stores.setIfInBounds n s }

/-- Use the disk. -/
def onDisk {α : Type} (m : StateM Disk α) : WorkspaceM α := do
  let w ← get
  let (a, disk) := m.run w.disk
  set { w with disk }
  return a

/-- Carry out a store command. -/
def command (n : Nat) (c : Command) : WorkspaceM (Except StoreError CommandOutcome) := do
  let fresh ← mint
  let w ← get
  let (result, s) := (w.store n).tryCommand ⟨w.now, fresh⟩ c
  set (w.putStore n s)
  return result

/-- Look at the index of a store. -/
def index (n : Nat) : WorkspaceM (Except StoreError StoreIndex) := do
  let w ← get
  match w.store n with
  | .memory m => return .ok m.index
  | .files f =>
    let (result, f) := f.onDisk FileStore.readIndex
    set (w.putStore n (.files f))
    return result
  | .heedless => return .ok {}

/-- The octets that a store has of a workflow. -/
def payload (n : Nat) (id : WorkflowId) : WorkspaceM (Except StoreError (Option Bytes)) := do
  let w ← get
  match w.store n with
  | .memory m => return .ok m.payloads[id]?
  | .files f =>
    let (result, f) := f.onDisk fun l => FileStore.readPayload l id
    set (w.putStore n (.files f))
    return result.map some
  | .heedless => return .ok none

/-- Whether a store keeps its index in a file. -/
def isOnDisk (n : Nat) : WorkspaceM Bool := do
  match (← get).store n with
  | .files _ => return true
  | _ => return false

/-- Let the next command of a store fail. Only stores in memory do so. -/
def plant (n : Nat) (error : StoreError) : WorkspaceM Unit := do
  let w ← get
  match w.store n with
  | .memory m => set (w.putStore n (.memory (m.plant error)))
  | _ => return ()

/-- Add a store under a name. -/
def addStore (name : String) (s : Store) : WorkspaceM Unit :=
  modify fun w => { w with
    stores := w.stores.push s, storeNames := (name, w.stores.size) :: w.storeNames }

/-- Open a store, in memory or under a root. -/
def openStore (name : String) (root : Option Path) : WorkspaceM (Except StoreError Unit) := do
  match root with
  | none =>
    addStore name (.memory {})
    return .ok ()
  | some root =>
    match ← onDisk (FileStore.openAt ⟨root⟩).run with
    | .error error => return .error error
    | .ok () =>
      addStore name (.files ⟨⟨root⟩, {}⟩)
      return .ok ()

/-- Register an owner with a store under a name. -/
def createOwner (n : Nat) (name : String) : WorkspaceM (Except StoreError OwnerId) := do
  match ← command n (.createOwner name) with
  | .error error => return .error error
  | .ok outcome =>
    let id : OwnerId := outcome.owner?.getD default
    label id.uuid ("owner:" ++ name)
    modify fun w => { w with owners := (name, id) :: w.owners }
    return .ok id

/-- Give a host what the workspace shares. -/
def enter (w : Workspace) (x : Hosting) (fresh : Uuid) : Host :=
  { x.host with
    store := (x.store.map w.store).getD .heedless
    surroundings := ⟨w.now, fresh⟩
    scopeCount := w.scopeCount
    mailboxCount := w.mailboxCount }

/-- Take back from a host what the workspace shares. -/
def leave (w : Workspace) (x : Hosting) (host : Host) : Workspace × Hosting :=
  let w := match x.store with
    | some n => w.putStore n host.store
    | none => w
  ({ w with scopeCount := host.scopeCount, mailboxCount := host.mailboxCount }, { x with host })

/-- Use a host. -/
def useHosting {α : Type} (x : Hosting) (f : Host → α × Host) : WorkspaceM (α × Hosting) := do
  let fresh ← mint
  let w ← get
  let (a, host) := f (w.enter x fresh)
  let (w, x) := w.leave x host
  set w
  return (a, x)

/-- Whether there is an application of a name. -/
def hasApplication (name : String) : WorkspaceM Bool := do
  return (← get).hostings.any (·.1 == name)

/-- Remove the application of a name. -/
def removeApplication (name : String) : WorkspaceM Unit :=
  modify fun w => { w with hostings := w.hostings.filter (·.1 != name) }

/-- Put an application under a name. -/
def putApplication (name : String) (x : Hosting) : WorkspaceM Unit := do
  removeApplication name
  modify fun w => { w with hostings := (name, x) :: w.hostings }

/-- Use the host of an application. -/
def useApplication {α : Type} (name : String) (f : Host → α × Host) : WorkspaceM α := do
  match (← get).hostings.find? (·.1 == name) with
  | none => throw .noApplication
  | some (_, x) =>
    let (a, x) ← useHosting x f
    putApplication name x
    return a

/-- How an application is set up. -/
structure Setup where
  /-- Its configuration, if it is given one. -/
  config : Option Config
  /-- Its store and owner, if it has them. -/
  store : Option (Nat × OwnerId)
  /-- Its services, if it is given some. -/
  extensions : Option Extensions
  /-- Its receivers of records, if it is given some. -/
  receivers : Option (List Reaction)
  /-- What it wants to be told of. -/
  listening : List NoticeKind
  /-- Its reactions. -/
  reactions : List (NoticeKind × List ReactionStep)

/-- Apply something that may be missing. -/
def applyGiven {α β : Type} (f : β → α → β) (b : β) : Option α → β
  | some a => f b a
  | none => b

/-- The host of an application with its configuration, store and owner. -/
def Setup.base (s : Setup) (w : Workspace) (a : Application) : Hosting :=
  let a := applyGiven Application.withConfig a s.config
  let a := applyGiven Application.withOwner a (s.store.map (·.2))
  let host : Host :=
    { application := a, store := .heedless, surroundings := ⟨w.now, default⟩
      stepLimit := w.stepLimit }
  ⟨host, s.store.map (·.1)⟩

/-- Give a host its services, receivers and reactions. -/
def Setup.finish (s : Setup) (x : Hosting) : Hosting :=
  let a := applyGiven Application.withExtensions x.host.application s.extensions
  let a := applyGiven (fun a rs => a.withTracking (.ofReactions rs)) a s.receivers
  { x with host := { x.host with
    application := a.listeningTo s.listening, reactions := s.reactions } }

/-- Create an application for a new workflow under a name. -/
def createApplication (name : String) (d : Definition) (inputs : Environment) (setup : Setup) :
    WorkspaceM (Except EngineError Unit) := do
  let id ← mint
  label id ("wf:" ++ name)
  let w ← get
  set { w with mailboxCount := w.mailboxCount + 1 }
  match Application.create ⟨id⟩ d inputs w.mailboxCount with
  | .error error => return .error error
  | .ok a =>
    modify fun w => { w with workflows := (name, ⟨id⟩) :: w.workflows.filter (·.1 != name) }
    putApplication name (setup.finish (setup.base w a))
    return .ok ()

/-- Load an application for a saved workflow under a name. -/
def loadApplication (name : String) (d : Definition) (id : WorkflowId) (setup : Setup) :
    WorkspaceM (Except HostError Unit) := do
  let x := setup.base (← get) { id, definition := d, executor := none }
  let (result, x) ← useHosting x fun host => host.reload
  match result with
  | .error error => return .error error
  | .ok () =>
    modify fun w =>
      if w.workflows.any (·.1 == name) then w
      else { w with workflows := (name, id) :: w.workflows }
    putApplication name (setup.finish x)
    return .ok ()

/-- Take the events and the kept records of a host. -/
def collectHost (host : Host) : (List HostEvent × List TrackingRecord) × Host :=
  let a := host.application
  let tracking := { a.tracking with participants := a.participants }
  let a := { a with
    tracking := a.tracking.handOver
    executor := a.executor.map fun e => e.withTracking e.tracking.handOver }
  ((host.events, tracking.kept), { host with events := [], application := a })

end Workspace

end Workflow
