import Workflow.Snapshot.Capture

/-!
# Restoring a workflow

A snapshot is restored against a definition of the same fingerprint. Every record becomes an
instance once; then every reference is looked up, and a reference that leads nowhere, or to the
wrong place, is refused.
-/

namespace Workflow

/-- The values of records, by name. -/
def Environment.ofRecords (records : List NamedValue) : Environment :=
  records.foldl (fun (env : Environment) r => env.declare r.name r.value) ∅

/-- The activity at a path. -/
def Definition.resolvePath (d : Definition) (path : String) : Except PersistenceError NodeId :=
  match d.findByPath? path with
  | some node => .ok node
  | none => .error (.unknownActivityPath path)

/-- The fault of a record. Its error is one message, whatever it was before. -/
def FaultRecord.restore (d : Definition) (r : FaultRecord) : Except PersistenceError Fault := do
  let node ← d.resolvePath r.sourcePath
  return ⟨.custom r.message [], r.source, node, r.sourceName, r.terminated⟩

/-- The instance of a record, without its children. -/
def InstanceRecord.restore (d : Definition) (r : InstanceRecord) :
    Except PersistenceError Instance := do
  let node ← d.resolvePath r.path
  let fault ← r.fault.mapM (·.restore d)
  return {
    id := r.id, node, state := r.state, parent := r.parent
    environment := .ofRecords r.environment
    properties := .ofRecords r.properties
    busy := r.busy
    completionCallback := r.completionCallback
    faultCallback := r.faultCallback
    scope := r.scope
    executed := r.executed
    cancelRequested := r.cancelRequested
    markedCanceled := r.markedCanceled
    result := r.result
    fault }

/-- The instances of a table. -/
abbrev InstanceTable := Std.ExtTreeMap InstanceId Instance

namespace InstanceTable

/-- The instance that a reference leads to. -/
def resolve (table : InstanceTable) (id : InstanceId) : Except PersistenceError Instance :=
  match table[id]? with
  | some i => .ok i
  | none => .error (.unresolvedReference id)

/-- Add the instance of a record. Its identifier must be below the next one and new. -/
def addRecord (d : Definition) (next : Nat) (table : InstanceTable) (r : InstanceRecord) :
    Except PersistenceError InstanceTable := do
  if next ≤ r.id.number then
    .error (.invalidSnapshot
      ("instance " ++ toString r.id ++ " is beyond the id counter " ++ toString next))
  let i ← r.restore d
  if table.contains r.id then .error (.duplicateInstance r.id)
  return table.insert r.id i

/-- Enter the instance of a record among its parent's children. -/
def linkRecord (d : Definition) (table : InstanceTable) (r : InstanceRecord) :
    Except PersistenceError InstanceTable :=
  match r.parent with
  | none => .ok table
  | some parent => do
    let child ← table.resolve r.id
    let p ← table.resolve parent
    if !d.isDeclaredChild p.node child.node then
      .error (.invalidSnapshot
        ("instance " ++ toString r.id ++ " does not run a declared child of instance " ++
          toString parent))
    return table.insert parent { p with children := p.children ++ [r.id] }

end InstanceTable

namespace Registry

/-- Add a recorded scope. -/
def restoreScope (table : InstanceTable) (g : Registry) (r : ScopeRecord) :
    Except PersistenceError Registry := do
  let owner ← table.resolve r.owner
  return g.addScope r.id owner.id

/-- Add a recorded bookmark, whose owner must be live. -/
def restoreBookmark (table : InstanceTable) (g : Registry) (r : Registration) :
    Except PersistenceError Registry := do
  let owner ← table.resolve r.owner
  if !owner.state.isLive then
    .error (.invalidSnapshot
      ("bookmark '" ++ r.bookmark.print ++ "' is owned by " ++ owner.state.label ++ " instance " ++
        toString owner.id))
  match g.register r with
  | .ok (_, g) => return g
  | .error error => .error (.invalidSnapshot error.message)

end Registry

namespace Snapshot

/-- Whether a workflow can be restored to the snapshot's state. -/
def ensureRestorable (s : Snapshot) (d : Definition) : Except PersistenceError Unit :=
  if s.fingerprint ≠ d.fingerprint then .error (.definitionMismatch s.fingerprint d.fingerprint)
  else if s.state = .runnable ∨ s.state = .aborted then
    .error (.invalidSnapshot ("workflow state " ++ s.state.label ++ " cannot be restored"))
  else .ok ()

/-- The instances of the snapshot, entered among their parents' children. -/
def restoreInstances (s : Snapshot) (d : Definition) : Except PersistenceError InstanceTable := do
  let table ← s.instances.foldlM (InstanceTable.addRecord d s.nextInstance) ∅
  s.instances.foldlM (InstanceTable.linkRecord d) table

/-- The bookmarks and scopes of the snapshot. -/
def restoreRegistry (s : Snapshot) (table : InstanceTable) : Except PersistenceError Registry := do
  let scopes ← s.scopes.foldlM (Registry.restoreScope table) {}
  s.bookmarks.foldlM (Registry.restoreBookmark table) scopes

/-- The executor of the snapshot's workflow, not yet known to be completed. -/
def restoreExecutor (s : Snapshot) (d : Definition) (mailbox : Nat) :
    Except PersistenceError Executor := do
  s.ensureRestorable d
  let instances ← s.restoreInstances d
  let root ← instances.resolve s.root
  if root.parent.isSome ∨ root.node ≠ .root then
    .error (.invalidSnapshot "root record does not run the root activity")
  let bookmarks ← s.restoreRegistry instances
  return {
    workflow := s.workflow, definition := d, instances, mailbox, bookmarks
    nextInstance := s.nextInstance
    nextOperation := s.nextOperation
    root := root.id
    state := s.state }

/-- The executor of the snapshot's workflow. One that has completed has its outcome again. -/
def restore (s : Snapshot) (d : Definition) (mailbox : Nat) : Except EngineError Executor := do
  d.ensureValid
  match s.restoreExecutor d mailbox with
  | .error error => .error (.persistence error)
  | .ok e =>
    let e := if e.state.isCompleted then e.finishWorkflow else e
    return { e with announcement := some .loaded }

end Snapshot

end Workflow
