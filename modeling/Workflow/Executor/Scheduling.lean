import Workflow.Executor.Basic

/-!
# Scheduling, bookmarks and operations

What an activity may change: it schedules and cancels children, registers and resumes bookmarks,
creates scopes, and begins operations. Each change keeps the count of what an instance waits for.
-/

namespace Workflow.Executor

variable (e : Executor)

/-- The scope in which a child is to run: its parent's, the default one, or one of its parent's
own. -/
def childScope (parent : Instance) : Option Scope → Except ContractViolation Scope
  | none => .ok parent.scope
  | some .default => .ok .default
  | some scope =>
    if e.bookmarks.scopeOwner? scope = some parent.id ∨ scope = parent.scope then .ok scope
    else .error (.scopeNotOwned scope)

/-- Whether a node has an incoming argument of a name. -/
def acceptsArgument (node : Node) (name : String) : Bool :=
  (node.argument? name).any (·.direction.isInput)

/-- The parent instance and the scope of a child that may be scheduled. Only an executing instance
schedules, only a valid declared child, only in a scope of its own or its parent's, and only with
values for incoming arguments. -/
def checkSchedule (parent : InstanceId) (node : NodeId) (options : ScheduleOptions) :
    Except ContractViolation (Instance × Scope) := do
  let some p := e.instance? parent | .error (.unknownInstance parent)
  if p.state ≠ .executing then .error (.instanceNotExecuting parent p.state)
  if !e.definition.isDeclaredChild p.node node then
    .error (.notADeclaredChild (e.definition.node p.node).path
      (((e.definition.get? node).map (·.path)).getD (toString node)))
  let child := e.definition.node node
  if !child.isValid then .error (.invalidDefinition child.path)
  let scope ← e.childScope p options.scope
  match options.arguments.keys.find? fun name => !acceptsArgument child name with
  | some name => .error (.unknownArgument name)
  | none => .ok (p, scope)

/-- The value of a location as an instance sees it. -/
def visibleValue? (id : InstanceId) (name : String) : Option Value :=
  (e.resolve? id name).bind fun owner => (e.instance? owner).bind (·.environment[name]?)

/-- The first value of an argument of a child: the one that its parent supplies, else that of its
binding. -/
def firstArgument (parent : InstanceId) (supplied : Environment) (a : Argument) : Value :=
  if a.direction.isInput then
    match supplied[a.name]? with
    | some v => v
    | none =>
      match a.binding with
      | .literal v => v
      | .location name => (e.visibleValue? parent name).getD .null
      | .unbound => .null
  else .null

/-- The first values of a node's variables and arguments. -/
def firstValues (node : Node) (argument : Argument → Value) : Environment :=
  let locals := node.locals.foldl
    (fun (env : Environment) v => env.declare v.name (v.initial.getD .null)) ∅
  node.arguments.foldl (fun env a => env.declare a.name (argument a)) locals

/-- The next instance, as a child of a parent. -/
def newChild (parent : InstanceId) (node : NodeId) (scope : Scope) (options : ScheduleOptions) :
    Instance where
  id := ⟨e.nextInstance⟩
  node := node
  parent := some parent
  scope := scope
  environment := firstValues (e.definition.node node) (e.firstArgument parent options.arguments)
  completionCallback := options.onCompleted
  faultCallback := options.onFaulted

/-- Put a new child below its parent and queue its execution. -/
def adopt (parent : InstanceId) (child : Instance) : Executor :=
  let e := { e with
    nextInstance := e.nextInstance + 1
    instances := e.instances.insert child.id child }
  let e := e.modify parent fun p => { p with children := p.children ++ [child.id] }.incrementBusy
  e.enqueue (.execute child.id)

/-- Add a child instance and queue its execution. -/
def addChild (parent : InstanceId) (node : NodeId) (scope : Scope) (options : ScheduleOptions) :
    InstanceId × Executor :=
  let child := e.newChild parent node scope options
  let e := e.adopt parent child
  (child.id, e.trackScheduled (e.info? parent) child.id)

/-- Schedule a declared child. -/
def scheduleChild (parent : InstanceId) (node : NodeId) (options : ScheduleOptions) :
    Except ContractViolation InstanceId × Executor :=
  match e.checkSchedule parent node options with
  | .error v => (.error v, e)
  | .ok (_, scope) =>
    let (id, e) := e.addChild parent node scope options
    (.ok id, e)

/-- Queue the cancellation of a child. -/
def cancelChild (parent child : InstanceId) : Except ContractViolation Unit × Executor :=
  match e.instance? parent with
  | none => (.error (.unknownInstance parent), e)
  | some p =>
    if child ∈ p.children then (.ok (), e.enqueue (.cancel child))
    else (.error (.notAChildInstance parent child), e)

/-- Queue the cancellation of every child. -/
def cancelChildren (parent : InstanceId) : Executor :=
  (((e.instance? parent).map (·.children)).getD []).foldl
    (fun e child => e.enqueue (.cancel child)) e

/-- Let an instance that was asked to cancel agree. -/
def markCanceled (id : InstanceId) : Except ContractViolation Unit × Executor :=
  match e.instance? id with
  | none => (.error (.unknownInstance id), e)
  | some i =>
    if i.cancelRequested then (.ok (), e.modify id fun i => { i with markedCanceled := true })
    else (.error (.cancelNotRequested id), e)

/-- Register a bookmark; its owner waits for it if it is new and blocking. -/
def createBookmark (g : Registration) : Except BookmarkError Bookmark × Executor :=
  if e.isLive g.owner then
    match e.bookmarks.register g with
    | .error error => (.error error, e)
    | .ok (outcome, bookmarks) =>
      let e := { e with bookmarks }
      if outcome = .registered ∧ g.options.isBlocking then
        (.ok g.bookmark, e.modify g.owner Instance.incrementBusy)
      else (.ok g.bookmark, e)
  else (.error (.ownerNotLive g.owner), e)

/-- Remove a bookmark of an owner; tells whether the owner had it. -/
def removeBookmark (owner : InstanceId) (b : Bookmark) : Bool × Executor :=
  match e.bookmarks.resolve? b with
  | none => (false, e)
  | some g =>
    if g.owner = owner then
      let e := { e with bookmarks := e.bookmarks.unregister b }
      (true, if g.options.isBlocking then e.release owner 1 else e)
    else (false, e)

/-- Remove every bookmark of an owner. -/
def removeAllBookmarks (owner : InstanceId) : Executor :=
  let blocking := (e.bookmarks.ownedBy owner).countP (·.options.isBlocking)
  let e := { e with bookmarks := e.bookmarks.removeOwned owner }
  e.release owner blocking

/-- The identifier of the n-th scope; no two scopes share one. -/
def scopeUuid (n : Nat) : Uuid :=
  .ofNat (0x40008000000000000000 + n)

/-- Create a scope of an owner. -/
def createScope (owner : InstanceId) : Except ContractViolation Scope × Executor :=
  match e.instance? owner with
  | none => (.error (.unknownInstance owner), e)
  | some i =>
    if i.state.isLive then
      let id := scopeUuid (e.scopeCount + 1)
      (.ok (.named id),
        { e with scopeCount := e.scopeCount + 1, bookmarks := e.bookmarks.addScope id owner })
    else (.error (.instanceNotExecuting owner i.state), e)

/-- The scope that was created as the n-th, counted from one. -/
def createdScope? (n : Nat) : Option Scope :=
  if 1 ≤ n ∧ n ≤ e.scopeCount then some (.named (scopeUuid n)) else none

/-- Resume a bookmark. The value waits in the queue; a bookmark for one resumption is gone at
once, and its owner stops waiting for it when the value arrives. -/
def resumeBookmark (b : Bookmark) (v : Value) (priority : Priority := .normal) :
    Resumption × Executor :=
  if e.state = .aborted then (.notReady, e)
  else
    match e.bookmarks.resolve? b with
    | none => (.notFound, e)
    | some g =>
      let once := !g.options.multipleResume
      let item : WorkItem :=
        .bookmark g.owner b g.callback v (once && g.options.isBlocking)
      let e := { e with
        bookmarks := if once then e.bookmarks.unregister b else e.bookmarks
        queue := e.queue.push item priority
        state := if e.state = .idle then .runnable else e.state }
      (.success, e)

/-- Whether a scope is the default one or has been created here. -/
def isOwnScope : Scope → Bool
  | .default => true
  | .named id => (List.range e.scopeCount).any fun n => scopeUuid (n + 1) == id

/-- What the host sees of the bookmarks, in the order of scope and name. The scopes that have been
created here come before those of other executors. -/
def bookmarkInfos : List BookmarkInfo :=
  let (own, foreign) := e.bookmarks.toList.partition fun g => e.isOwnScope g.bookmark.scope
  (own ++ foreign).map fun g =>
    let name := ((e.instance? g.owner).map fun i => (e.definition.node i.node).name).getD ""
    ⟨g.bookmark, g.owner, name, g.options⟩

/-- Begin an operation for an owner, which then waits for it. -/
def beginOperation (owner : InstanceId) : OperationId × Executor :=
  let id : OperationId := ⟨e.nextOperation⟩
  let e := { e with
    nextOperation := e.nextOperation + 1
    operations := e.operations.insert id owner
    handles := e.handles ++ [id] }
  (id, e.modify owner Instance.incrementBusy)

/-- Forget the operations of an owner, which no longer waits for them. -/
def abandonOperations (owner : InstanceId) : Executor :=
  let count := e.operations.values.count owner
  let e := { e with operations := e.operations.filter fun _ o => o != owner }
  e.release owner count

/-- Take the news of a completed operation into the inbox. -/
def post (news : OperationCompletion) : Executor :=
  { e with inbox := e.inbox ++ [news] }

/-- Queue every completion of the inbox; tells how many there were. -/
def drainInbox : Nat × Executor :=
  let queue := e.inbox.foldl
    (fun (q : WorkQueue) news => q.push (.operation news.operation news.result)) e.queue
  let state := if !e.inbox.isEmpty ∧ e.state = .idle then .runnable else e.state
  (e.inbox.length, { e with queue, state, inbox := [] })

/-- The handle of an operation of this executor. -/
def handleOf (operation : OperationId) : OperationHandle :=
  ⟨operation, e.workflow, e.mailbox⟩

/-- Complete an operation by its handle. The handle is good only for the executor that gave it
out. -/
def completeHandle (h : OperationHandle) (result : Except ActivityError Value) :
    Except ContractViolation Unit × Executor :=
  if h.mailbox = e.mailbox then (.ok (), e.post ⟨h.operation, result⟩)
  else (.error .contextDisposed, e)

end Workflow.Executor
