import Workflow.Body
import Workflow.Json.Printer
import Workflow.Script
import Workflow.Value.Printer
import Workflow.Word

/-!
# Performing scripts

A list of actions becomes a program for any kind of activity. What the kind cannot do fails when
the action's turn comes.
-/

namespace Workflow

/-- What a list of actions knows of the call that it answers. -/
structure Frame where
  /-- The value that came with the call. -/
  payload : Option Value := none
  /-- The child that completed. -/
  child : Option CompletedChild := none
  /-- The operation that begins. -/
  operation : Option OperationId := none

/-- How a list of actions ended before its last action. -/
inductive Verdict where
  /-- With a result, if there is one. -/
  | finished (v : Option Value)
  /-- With the fault handled. -/
  | handled
  /-- With the fault going on. -/
  | propagate

/-- An error with the given messages, the outermost first. -/
def ActivityError.ofChain : List String → ActivityError
  | [] => .custom "" []
  | message :: causes => .custom message causes

/-- The text of an optional value. -/
def Value.printOption : Option Value → String
  | some v => "Some(" ++ v.print ++ ")"
  | none => "None"

namespace Script

open Program

variable {k : BodyKind}

/-- End with an error of the script's own. -/
def failWith {α : Type} (text : String) : Program k α :=
  fail (.custom text [])

/-- The running instance. -/
def self : Program k Identity :=
  context .identity

/-- Write a line that starts with the running instance. -/
def say (text : String) : Program k Unit := do
  let me ← self
  context (.say (toString me.id ++ ":" ++ text))

/-- A text with the running instance in its marked places. -/
def fill (text : String) : Program k String := do
  let me ← self
  return text.replace "\x7bid\x7d" (toString me.id)

/-- The value of the nearest location of a name. -/
def readNearest (name : String) : Program k Value := do
  let l ← ofContract (← context (.locate name))
  ofContract (← context (.read l))

/-- The integer of a value. -/
def integer (v : Value) : Program k Int :=
  match v.int64? with
  | some n => done n
  | none => failWith ("not an integer: " ++ v.print)

/-- The sum of two integers of sixty-four bits with sign. -/
def add (a b : Int) : Program k Value :=
  if fitsSigned (a + b) then done (.integer (a + b)) else failWith "overflow"

/-- The value of an expression. -/
def evaluate (frame : Frame) : Expression → Program k Value
  | .literal v => done v
  | .payload => done (frame.payload.getD .null)
  | .childResult => done ((frame.child.bind (·.result)).getD .null)
  | .location name => readNearest name
  | .argument name => do ofContract (← context (.argument name))
  | .property name => do return (← context (.property name)).getD .null
  | .sum a b => do
    let a ← integer (← evaluate frame a)
    let b ← integer (← evaluate frame b)
    add a b

/-- Whether the instance was asked to cancel; code activities are never asked. -/
def isCancelRequested : Program k Bool :=
  if h : k = .code then done false else request (.cancellation .isRequested h)

/-- Whether a condition holds. -/
def holds (frame : Frame) : Condition → Program k Bool
  | .cancelRequested => isCancelRequested
  | .childState label => done (frame.child.any (·.state.label == label))
  | .equal a b => do
    let a ← evaluate frame a
    let b ← evaluate frame b
    return a.same b
  | .atLeast a b => do
    let a ← integer (← evaluate frame a)
    let b ← integer (← evaluate frame b)
    return decide (b ≤ a)

/-- The scope that a name stands for. -/
def scopeOf : ScopeName → Program .native Scope
  | .default => done .default
  | .exact id => done (.named id)
  | .latest => do
    match ← scheduling .latestScope with
    | some scope => done scope
    | none => failWith "no scope"
  | .created n => do
    match ← scheduling (.createdScope n) with
    | some scope => done scope
    | none => failWith ("no scope " ++ toString n)

/-- The options of a clause. -/
def optionsOf (frame : Frame) (c : ScheduleClause) : Program .native ScheduleOptions := do
  let arguments ← c.arguments.foldlM
    (fun (env : Environment) (name, v) => do return env.declare name (← evaluate frame v)) ∅
  let scope ← match c.scope with
    | none => pure none
    | some name => some <$> scopeOf name
  return ⟨c.completed, c.faulted, arguments, scope⟩

/-- Schedule a node and write its instance. -/
def scheduleNode (frame : Frame) (c : ScheduleClause) (node : NodeId) : Program .native Unit := do
  let options ← optionsOf frame c
  let id ← ofContract (← scheduling (.schedule node options))
  say ("scheduled " ++ toString node ++ " " ++ toString id)

/-- The item after another one in a list. -/
def after? (node : NodeId) : List NodeId → Option NodeId
  | [] => none
  | n :: rest => if n = node then rest.head? else after? node rest

/-- Do an action of native activities. -/
def performNative (frame : Frame) : NativeAction → Program .native Unit
  | .schedule position clause => do
    match (← scheduling .children)[position]? with
    | some node => scheduleNode frame clause node
    | none => failWith "script: no such child"
  | .scheduleNode node clause => scheduleNode frame clause node
  | .scheduleAll clause => do
    for node in ← scheduling .children do
      scheduleNode frame clause node
  | .scheduleNext clause => do
    match frame.child.bind (after? ·.node <| ← scheduling .children) with
    | some node => scheduleNode frame clause node
    | none => return ()
  | .cancelChildAt position => do
    match (← scheduling .childInstances)[position]? with
    | some child => ofContract (← scheduling (.cancelChild child))
    | none => failWith "script: no such instance"
  | .cancelChild child => do ofContract (← scheduling (.cancelChild child))
  | .cancelChildren => scheduling .cancelChildren
  | .bookmark name scope callback multipleResume nonBlocking => do
    let name ← fill name
    let scope ← match scope with
      | none => pure none
      | some s => some <$> scopeOf s
    match ← scheduling (.createBookmark name scope callback ⟨multipleResume, nonBlocking⟩) with
    | .ok b => say ("bookmark " ++ b.print)
    | .error error => fail (.bookmark error)
  | .removeBookmark name scope => do
    let removed ← scheduling (.removeBookmark ⟨← scopeOf scope, ← fill name⟩)
    say ("removed " ++ (if removed then "true" else "false"))
  | .removeAllBookmarks => scheduling .removeAllBookmarks
  | .createScope => do
    let scope ← ofContract (← scheduling .createScope)
    say scope.print
  | .resume name scope v => do
    let b : Bookmark := ⟨← scopeOf scope, ← fill name⟩
    let resumption ← scheduling (.resume b (← evaluate frame v))
    say ("resume " ++ resumption.label)
  | .setResult v => do scheduling (.setResult (← evaluate frame v))
  | .addProperty name v => do
    let name ← fill name
    scheduling (.addProperty name (← evaluate frame v))
  | .removeProperty name => do
    let removed ← scheduling (.removeProperty (← fill name))
    say ("removed " ++ Value.printOption removed)
  | .requestPersist => scheduling .requestPersist

/-- End with the error of an action that the activity cannot do. -/
def unsupported {α : Type} (name : String) : Program k α :=
  failWith ("script: unsupported " ++ name)

/-- Agree to cancel, which only an activity with a native or an asynchronous body can do. -/
def acceptCancel : Program k Unit :=
  if h : k = .code then failWith "script: not native" else acceptCancellation h

/-- Use the handle of the operation that begins. -/
def withOperation (frame : Frame) (name : String) (use : OperationId → Program .async Unit) :
    {k : BodyKind} → Program k Unit
  | .async =>
    match frame.operation with
    | some operation => use operation
    | none => unsupported name
  | _ => unsupported name

/-- Write a truth value. -/
def flag (b : Bool) : String :=
  if b then "true" else "false"

/-- What an instance of each kind knows beyond its identity. -/
def details : {k : BodyKind} → Program k String
  | .code => done ""
  | .async => do return " cancel=" ++ flag (← isCancelRequested)
  | .native => do
    let children ← scheduling .children
    let instances ← scheduling .childInstances
    let listed (items : List Nat) := "[" ++ String.intercalate ", " (items.map toString) ++ "]"
    return " children=" ++ listed (children.map (·.number)) ++ " instances=" ++
      listed (instances.map (·.number)) ++ " cancel=" ++ flag (← isCancelRequested)

/-- Do a single action; tells how the list ends if it ends here. -/
def performStep (frame : Frame) : Step → Program k (Option Verdict)
  | .say text => do
    say (← fill text)
    return none
  | .fail chain => fail (.ofChain chain)
  | .panic text => crash (.panic text)
  | .panicOpaque => crash .panicOpaque
  | .get name => do
    let name ← fill name
    let v ← readNearest name
    say ("get " ++ name ++ "=" ++ v.print)
    return none
  | .set name v => do
    let name ← fill name
    let v ← evaluate frame v
    let l ← ofContract (← context (.locate name))
    ofContract (← context (.write l v))
    return none
  | .locate name => do
    let name ← fill name
    let l ← ofContract (← context (.locate name))
    say ("location " ++ name ++ "@" ++ toString l.owner)
    return none
  | .getAt owner name => do
    let name ← fill name
    let v ← ofContract (← context (.read ⟨owner, name⟩))
    say ("ref " ++ name ++ "@" ++ toString owner ++ "=" ++ v.print)
    return none
  | .setAt owner name v => do
    let name ← fill name
    let v ← evaluate frame v
    ofContract (← context (.write ⟨owner, name⟩ v))
    return none
  | .getArgument name => do
    let name ← fill name
    let v ← ofContract (← context (.argument name))
    say ("arg " ++ name ++ "=" ++ v.print)
    return none
  | .setArgument name v => do
    let name ← fill name
    let v ← evaluate frame v
    ofContract (← context (.setArgument name v))
    return none
  | .findProperty name => do
    let name ← fill name
    let v ← context (.property name)
    say ("prop " ++ name ++ "=" ++ Value.printOption v)
    return none
  | .services => do
    let services ← context .services
    let text := match services.text? with
      | some s => "Some(" ++ Quoted.quote s ++ ")"
      | none => "None"
    let number := match services.integer? with
      | some n => "Some(" ++ toString n ++ ")"
      | none => "None"
    say ("ext " ++ text ++ " " ++ number ++ " " ++ flag services.switch?.isNone)
    return none
  | .info => do
    let me ← self
    say ("info " ++ toString me.node ++ " " ++ me.path ++ " " ++ me.name ++ " wf=" ++
      toString me.workflow ++ (← details))
    return none
  | .finish v => do
    match v with
    | some v => return some (.finished (some (← evaluate frame v)))
    | none => return some (.finished none)
  | .handled => return some .handled
  | .propagate => return some .propagate
  | .acceptCancellation => do
    acceptCancel
    return none
  | .hostRun => do
    match ← context .rerun with
    | some error =>
      let fields := [("error", Json.string error.label), ("message", Json.string error.message)]
      say ("host_run " ++ (Json.object fields).compact)
    | none => say "host_run none"
    return none
  | .operationInfo => do
    withOperation frame "op_info" fun operation => do
      let me ← self
      say ("op " ++ toString operation ++ " wf=" ++ toString me.workflow)
    return none
  | .complete v => do
    let v ← evaluate frame v
    withOperation frame "complete" fun operation => do
      ofContract (← request (.operation (.complete operation (.ok v))))
    return none
  | .completeFailed chain => do
    withOperation frame "complete" fun operation => do
      ofContract (← request (.operation (.complete operation (.error (.ofChain chain)))))
    return none
  | .dropOperation => do
    withOperation frame "drop_op" fun operation => request (.operation (.discard operation))
    return none
  | .native a =>
    match k with
    | .native => do
      performNative frame a
      return none
    | _ => unsupported a.label

/-- Do something guarded or not. A guarded failure is written down and passed over. -/
def guardStep (guarded : Bool) (p : Program k (Option Verdict)) : Program k (Option Verdict) :=
  if guarded then do
    match ← p.attempt with
    | .ok verdict => return verdict
    | .error error =>
      say ("err " ++ error.label ++ " " ++ error.describe)
      return none
  else p

mutual

/-- Do an action; tells how the list ends if it ends here. -/
def performAction (frame : Frame) : Action → Program k (Option Verdict)
  | .step s guarded => guardStep guarded (performStep frame s)
  | .choose c yes no guarded => guardStep guarded do
    if ← holds frame c then performAll frame yes else performAll frame no

/-- Do actions in turn until the list ends. -/
def performAll (frame : Frame) : List Action → Program k (Option Verdict)
  | [] => return none
  | a :: rest => do
    match ← performAction frame a with
    | some verdict => return some verdict
    | none => performAll frame rest

end

/-- Do actions for their effect. -/
def performUnit (frame : Frame) (actions : List Action) : Program k Unit := do
  let _ ← performAll frame actions

/-- Do actions for their result. -/
def performResult (frame : Frame) (actions : List Action) : Program k (Option Value) := do
  match ← performAll frame actions with
  | some (.finished v) => return v
  | _ => return none

/-- Do actions for their judgement of a fault. -/
def performHandling (frame : Frame) (actions : List Action) : Program k FaultHandling := do
  match ← performAll frame actions with
  | some .handled => return .handled
  | _ => return .propagate

/-- The actions for a callback. -/
def actionsFor? (tag : CallbackTag) (table : List (CallbackTag × List Action)) :
    Option (List Action) :=
  (table.find? (·.1 == tag)).map (·.2)

/-- The native body that does what a script says, and what the engine expects where the script is
silent. -/
def nativeBody (s : Script) : NativeBody :=
  let silent : NativeBody := { execute := .done () }
  { execute := performUnit {} s.execute
    childCompleted := fun tag child =>
      match actionsFor? tag s.completed with
      | some actions => performUnit { child := some child } actions
      | none => silent.childCompleted tag child
    childFaulted := fun tag faultContext =>
      match actionsFor? tag s.faulted with
      | some actions => performHandling {} actions
      | none => silent.childFaulted tag faultContext
    bookmarkResumed := fun tag b v =>
      match actionsFor? tag s.resumed with
      | some actions => performUnit { payload := some v } actions
      | none => silent.bookmarkResumed tag b v
    cancel := match s.cancel with
      | some actions => performUnit {} actions
      | none => silent.cancel }

/-- The asynchronous body that does what a script says, and what the engine expects where the
script is silent. -/
def asyncBody (s : Script) : AsyncBody :=
  let silent : AsyncBody := { start := fun _ => .done () }
  { start := fun operation => performUnit { operation := some operation } s.execute
    finish := fun v =>
      match s.finish with
      | some actions => performResult { payload := some v } actions
      | none => silent.finish v
    cancel := match s.cancel with
      | some actions => performUnit {} actions
      | none => silent.cancel }

/-- The programs that do what a script says in an activity of a kind. -/
def behaviour (s : Script) : BodyKind → Behaviour
  | .code => .code (performResult {} s.execute)
  | .native => .native s.nativeBody
  | .async => .async s.asyncBody

end Script

end Workflow
