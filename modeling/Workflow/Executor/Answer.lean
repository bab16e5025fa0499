import Workflow.Executor.Scheduling

/-!
# Answering activities

The executor answers the requests of a running program one by one, each on behalf of the running
instance, and so performs the program to its end.
-/

namespace Workflow.Executor

variable (e : Executor)

/-- What an instance knows of itself. -/
def identity (id : InstanceId) : Identity :=
  let node := e.nodeOf id
  ⟨id, e.workflow, node.id, node.path, node.name⟩

/-- Find the nearest location of a name. -/
def locate (id : InstanceId) (name : String) : Except ContractViolation Location :=
  match e.resolve? id name with
  | some owner => .ok ⟨owner, name⟩
  | none => .error (.unknownLocation name)

/-- Read a location of the instance itself or of an ancestor. -/
def readLocation (id : InstanceId) (l : Location) : Except ContractViolation Value :=
  let value? := (e.instance? l.owner).bind (·.environment[l.name]?)
  match e.isAncestorOrSelf l.owner id, value? with
  | true, some v => .ok v
  | _, _ => .error (.unknownLocation l.name)

/-- Write a location of the instance itself or of an ancestor. -/
def writeLocation (id : InstanceId) (l : Location) (v : Value) :
    Except ContractViolation Unit × Executor :=
  let env? := (e.instance? l.owner).bind (·.environment.assign? l.name v)
  match e.isAncestorOrSelf l.owner id, env? with
  | true, some env => (.ok (), e.modify l.owner fun i => { i with environment := env })
  | _, _ => (.error (.unknownLocation l.name), e)

/-- Read an argument that the instance's activity declares. -/
def readArgument (id : InstanceId) (name : String) : Except ContractViolation Value :=
  let value? := (e.instance? id).bind (·.environment[name]?)
  match (e.nodeOf id).argument? name, value? with
  | some _, some v => .ok v
  | _, _ => .error (.unknownArgument name)

/-- Assign an outgoing argument that the instance's activity declares. -/
def assignArgument (id : InstanceId) (name : String) (v : Value) :
    Except ContractViolation Unit × Executor :=
  match (e.nodeOf id).argument? name with
  | none => (.error (.unknownArgument name), e)
  | some a =>
    if !a.direction.isOutput then (.error (.readOnlyArgument name), e)
    else if e.instances.contains id then
      (.ok (), e.modify id fun i => { i with environment := i.environment.declare name v })
    else (.error (.unknownInstance id), e)

/-- Answer a question about the context. -/
def answerContext (id : InstanceId) : (q : ContextRequest) → q.Response × Executor
  | .say text => ((), e.log (.line text))
  | .identity => (e.identity id, e)
  | .locate name => (e.locate id name, e)
  | .read l => (e.readLocation id l, e)
  | .write l v => e.writeLocation id l v
  | .argument name => (e.readArgument id name, e)
  | .setArgument name v => e.assignArgument id name v
  | .services => (e.extensions, e)
  | .property name => (e.property? id name, e)
  | .rerun => (if e.isHosted then some (.instanceBusy e.workflow) else none, e)

/-- Answer a question about cancellation. -/
def answerCancellation (id : InstanceId) : (q : CancellationRequest) → q.Response × Executor
  | .isRequested => ((e.instance? id).any (·.cancelRequested), e)
  | .accept => e.markCanceled id

/-- Use a handle that has not been used. -/
def answerOperation : (q : OperationRequest) → q.Response × Executor
  | .complete operation result =>
    if operation ∈ e.handles then
      let e := { e with handles := e.handles.erase operation }
      e.completeHandle (e.handleOf operation) result
    else (.error .contextDisposed, e)
  | .discard operation => ((), { e with handles := e.handles.erase operation })

/-- Answer a request to the scheduler. -/
def answerScheduling (id : InstanceId) : (q : SchedulingRequest) → q.Response × Executor
  | .children => ((e.nodeOf id).children, e)
  | .childInstances => (((e.instance? id).map (·.children)).getD [], e)
  | .schedule node options => e.scheduleChild id node options
  | .cancelChild child => e.cancelChild id child
  | .cancelChildren => ((), e.cancelChildren id)
  | .createBookmark name scope callback options =>
    let ambient := ((e.instance? id).map (·.scope)).getD .default
    e.createBookmark ⟨⟨scope.getD ambient, name⟩, id, callback, options⟩
  | .removeBookmark b => e.removeBookmark id b
  | .removeAllBookmarks => ((), e.removeAllBookmarks id)
  | .createScope => e.createScope id
  | .latestScope => (e.createdScope? e.scopeCount, e)
  | .createdScope n => (e.createdScope? n, e)
  | .resume b v => e.resumeBookmark b v
  | .setResult v => ((), e.modify id fun i => { i with result := some v })
  | .addProperty name v =>
    ((), e.modify id fun i => { i with properties := i.properties.declare name v })
  | .removeProperty name =>
    ((e.instance? id).bind (·.properties[name]?),
      e.modify id fun i => { i with properties := i.properties.erase name })
  | .requestPersist => ((), { e with persistRequested := true })

/-- Answer a request. -/
def answer {k : BodyKind} (id : InstanceId) : (q : Request k) → q.Response × Executor
  | .context q => e.answerContext id q
  | .cancellation q _ => e.answerCancellation id q
  | .operation q => e.answerOperation q
  | .scheduling q => e.answerScheduling id q

/-- Perform a program on behalf of an instance. -/
def perform {k : BodyKind} {α : Type} (e : Executor) (id : InstanceId) :
    Program k α → Except Crash α × Executor
  | .done a => (.ok a, e)
  | .crash c => (.error c, e)
  | .ask q next =>
    let (answer, e) := e.answer id q
    e.perform id (next answer)

end Workflow.Executor
