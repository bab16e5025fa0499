import Workflow.Definition.Prepare
import Workflow.Store.Persist

/-!
# Sessions

A session is for somebody who drives one workflow step by step. Handles that activities leave unused
are parked until they are used or thrown away, and a store in memory keeps what is saved. The
executor can be replaced by a restored one; the handles of the old one are then good for nothing.
-/

namespace Workflow

/-- A workflow at hand. -/
structure Session where
  /-- The executor. -/
  executor : Executor
  /-- What the receivers of records do with them. -/
  receivers : List Reaction := []
  /-- The parked handles. -/
  handles : List OperationHandle := []
  /-- The store. -/
  store : MemoryStore
  /-- The owner under which the session saves. -/
  owner : OwnerId
  /-- What the store takes from its surroundings. -/
  surroundings : Surroundings
  /-- How many mailboxes have been made. -/
  mailboxCount : Nat := 1

/-- Receivers that have kept nothing yet. -/
def TrackingProvider.ofReactions (reactions : List Reaction) : TrackingProvider :=
  { participants := reactions.map fun reaction => { reaction } }

/-- What the receivers have kept, record by record. -/
def TrackingProvider.kept (t : TrackingProvider) : List TrackingRecord :=
  let kept := t.participants.map fun p => p.kept.reverse
  let longest := (kept.map List.length).foldl max 0
  (List.range longest).flatMap fun n => kept.filterMap fun records => records[n]?

/-- The provider whose receivers have handed over what they had kept. -/
def TrackingProvider.handOver (t : TrackingProvider) : TrackingProvider :=
  { t with participants := t.participants.map fun p => { p with kept := [] } }

namespace Session

/-- A session on a new executor. -/
def start (e : Executor) (receivers : List Reaction) (enabled : Bool) (s : Surroundings) :
    Session :=
  let e := e.withTracking { TrackingProvider.ofReactions receivers with enabled }
  { executor := e, receivers, surroundings := s, owner := ⟨s.fresh⟩
    store := { index := ({} : StoreIndex).createOwner ⟨s.fresh⟩ "" s.now } }

variable (s : Session)

/-- Go on with another executor of the workflow. It has the same services and new receivers. -/
def adopt (e : Executor) : Session :=
  let e := { e with scopeCount := s.executor.scopeCount, extensions := s.executor.extensions }
  { s with
    executor := e.withTracking (.ofReactions s.receivers)
    mailboxCount := s.mailboxCount + 1 }

/-- Adopt an executor if there is one. -/
def adoptResult : Except EngineError Executor → Except EngineError Unit × Session
  | .ok e => (.ok (), s.adopt e)
  | .error error => (.error error, s)

/-- Do items until none is left or so many are done; tells how many were done and whether the last
try found one. -/
def doItems : Nat → Nat → Session → Except EngineError (Nat × Bool) × Session
  | 0, count, s => (.ok (count, true), s)
  | limit + 1, count, s =>
    match s.executor.runOneStep with
    | (.ok true, e) => doItems limit (count + 1) { s with executor := e }
    | (.ok false, e) => (.ok (count, false), { s with executor := e })
    | (.error error, e) => (.error error, { s with executor := e })

/-- The image of the workflow. -/
def capture : Except EngineError Snapshot :=
  (s.executor.capture s.surroundings.now).mapError .persistence

/-- Go on from a snapshot. -/
def restore (snapshot : Snapshot) (d : Definition) : Except EngineError Unit × Session :=
  s.adoptResult (snapshot.restore d s.mailboxCount)

/-- Go on from the octets of the workflow's image; tells whether they read back as the image, and
whether what they read back as can be restored. -/
def roundTrip (d : Definition) : Except EngineError (Bool × Except EngineError Unit) × Session :=
  match s.capture with
  | .error error => (.error error, s)
  | .ok snapshot =>
    match Snapshot.decode snapshot.encode with
    | .error error => (.error (.persistence error), s)
    | .ok decoded =>
      let (restored, s) := s.restore decoded d
      (.ok (snapshot.same decoded, restored), s)

/-- Use the session's store. -/
def withStore {α : Type} (f : Store → α × Store) : α × Session :=
  match f (.memory s.store) with
  | (a, .memory m) => (a, { s with store := m })
  | (a, _) => (a, s)

/-- Save the workflow; tells what the index has then. -/
def persist : Except EngineError (Option InstanceEntry) × Session :=
  let ((result, e), s) := s.withStore fun store =>
    let (result, e, store) := s.executor.save store s.surroundings s.owner false
    ((result, e), store)
  let s := { s with executor := e }
  (result.map fun _ => s.store.index.instances[e.workflow]?, s)

/-- Load a workflow and go on with it. -/
def load (d : Definition) (workflow : WorkflowId) : Except EngineError Unit × Session :=
  let (result, s) := s.withStore fun store =>
    Executor.load d store s.surroundings s.owner workflow s.mailboxCount
  s.adoptResult result

/-- Load a workflow from a store that keeps nothing. -/
def loadHeedless (d : Definition) (workflow : WorkflowId) : Except EngineError Unit × Session :=
  s.adoptResult
    (Executor.load d .heedless s.surroundings s.owner workflow s.mailboxCount).1

/-- Register an owner with a store that keeps nothing. -/
def createHeedlessOwner : Except StoreError OwnerId :=
  (Store.createOwner s.surroundings "" .heedless).1

/-- Let the next command of the store fail. -/
def plant (error : StoreError) : Session :=
  { s with store := s.store.plant error }

/-- The octets that are saved of the workflow. -/
def payload : Bytes :=
  (s.store.payloads[s.executor.workflow]?).getD []

/-- Save octets as those of a workflow. -/
def put (workflow : WorkflowId) (bytes : Bytes) : Except StoreError Unit × Session :=
  let metadata : InstanceMetadata :=
    ⟨s.executor.definition.fingerprint, .idle, [], 1, s.surroundings.now⟩
  let (result, store) := s.store.tryCommand s.surroundings
    (.save s.owner workflow ⟨bytes, metadata⟩ false false)
  (result.map fun _ => (), { s with store })

/-- Whether the handle of an operation is parked. -/
def isParked (operation : OperationId) : Bool :=
  s.handles.any (·.operation == operation)

/-- Throw a parked handle away. -/
def discard (operation : OperationId) : Session :=
  { s with handles := s.handles.filter (·.operation != operation) }

/-- Use a parked handle; `none` if it is not there. -/
def complete (operation : OperationId) (result : Except ActivityError Value) :
    Option (Except ContractViolation Unit) × Session :=
  match s.handles.find? (·.operation == operation) with
  | none => (none, s)
  | some h =>
    let (answer, e) := s.executor.completeHandle h result
    (some answer, { s.discard operation with executor := e })

/-- Take the journal and the kept records, and park the handles that were given out. -/
def collect : List JournalEntry × List TrackingRecord × Session :=
  let (journal, e) := s.executor.takeJournal
  let (handles, e) := e.takeHandles
  let old := s.handles.filter fun h => !handles.any (·.operation == h.operation)
  (journal, e.tracking.kept,
    { s with executor := e.withTracking e.tracking.handOver, handles := old ++ handles })

end Session

end Workflow
