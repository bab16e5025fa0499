import Workflow.Activity
import Workflow.Json.Parser
import Workflow.Request
import Workflow.Script.Perform

/-!
# Activities as documents

A document describes a tree of activities whose bodies are scripts. An action that cannot be read
fails when its turn comes; the rest of the tree is refused as a whole.
-/

namespace Workflow

/-- Read an expression nested at most to a depth. -/
def Expression.within : Nat → Json → Reading Expression
  | 0, _ => .error .tooDeep
  | depth + 1, j =>
    match j.string?, j.givenText? "var", j.givenText? "arg", j.givenText? "prop",
      j.given? "add" with
    | some _, _, _, _, _ => literal <$> j.toValue
    | none, some name, _, _, _ => .ok (location name)
    | none, none, some name, _, _ => .ok (argument name)
    | none, none, none, some name, _ => .ok (property name)
    | none, none, none, none, some (.array [a, b]) => do
      return sum (← within depth a) (← within depth b)
    | none, none, none, none, _ =>
      if (j.get? "payload").isSome then .ok payload
      else if (j.get? "child_result").isSome then .ok childResult
      else .error .badValue

/-- Read an expression. -/
def Expression.ofJson (j : Json) : Reading Expression :=
  within (Json.maxDepth + 1) j

/-- Read the expression of a field. -/
def Json.givenExpression (j : Json) (name : String) : Reading Expression := do
  Expression.ofJson (← j.given name)

/-- Read the expression of a field; a missing one is the null value. -/
def Json.expressionOrNull (j : Json) (name : String) : Reading Expression :=
  match j.given? name with
  | some v => Expression.ofJson v
  | none => .ok (.literal .null)

/-- Read two expressions. -/
def Json.givenPair (j : Json) (name : String) : Reading (Expression × Expression) :=
  match j.givenItems name with
  | [a, b] => do return (← Expression.ofJson a, ← Expression.ofJson b)
  | _ => .error (.missing name)

/-- Read a condition. -/
def Condition.ofJson (j : Json) : Reading Condition := do
  if (j.get? "cancel_requested").isSome then return cancelRequested
  match j.givenText? "child_state", (j.get? "eq").isSome with
  | some label, _ => return childState label
  | none, true =>
    let (a, b) ← j.givenPair "eq"
    return equal a b
  | none, false =>
    let (a, b) ← j.givenPair "ge"
    return atLeast a b

/-- Read how a child is scheduled. -/
def ScheduleClause.ofJson (j : Json) : Reading ScheduleClause := do
  let arguments ← (j.givenFields "args").mapM fun (name, v) => do
    return (name, ← Expression.ofJson v)
  return ⟨j.givenText? "completed", j.givenText? "faulted", arguments, ← ScopeName.ofRequest? j⟩

/-- Read an action of native activities; `none` if there is none of the name. -/
def NativeAction.ofJson? (name : String) (j : Json) : Reading (Option NativeAction) := do
  match name with
  | "schedule" =>
    let c ← ScheduleClause.ofJson j
    match j.givenNumber? "id" with
    | some n => return some (scheduleNode ⟨n⟩ c)
    | none => return some (schedule (j.givenNumber "child") c)
  | "schedule_all" => return some (scheduleAll (← ScheduleClause.ofJson j))
  | "schedule_next" => return some (scheduleNext (← ScheduleClause.ofJson j))
  | "cancel_child" =>
    match j.givenNumber? "instance" with
    | some n => return some (cancelChild ⟨n⟩)
    | none => return some (cancelChildAt (j.givenNumber "index"))
  | "cancel_children" => return some cancelChildren
  | "bookmark" =>
    return some (bookmark (j.givenText "name") (← ScopeName.ofRequest? j)
      (j.givenText? "callback") (j.isGiven "multi") (j.isGiven "nonblocking"))
  | "remove_bookmark" =>
    return some (removeBookmark (j.givenText "name") ((← ScopeName.ofRequest? j).getD .default))
  | "remove_all_bookmarks" => return some removeAllBookmarks
  | "create_scope" => return some createScope
  | "resume" =>
    return some (resume (j.givenText "name") ((← ScopeName.ofRequest? j).getD .default)
      (← j.expressionOrNull "value"))
  | "set_result" => return some (setResult (← j.givenExpression "value"))
  | "add_prop" => return some (addProperty (j.givenText "name") (← j.givenExpression "value"))
  | "remove_prop" => return some (removeProperty (j.givenText "name"))
  | "request_persist" => return some requestPersist
  | _ => return none

/-- Read an access to a location of a given owner; with a value it is an assignment. -/
def Step.accessOfJson (j : Json) : Reading Step := do
  let owner : InstanceId := ⟨j.givenNumber "owner"⟩
  let name := j.givenText "name"
  match j.given? "value" with
  | some v => return setAt owner name (← Expression.ofJson v)
  | none => return getAt owner name

/-- Read a single action of a name. -/
def Step.ofJson (name : String) (j : Json) : Reading Step := do
  match name with
  | "log" => return say (j.givenText "text")
  | "fail" => return fail (j.givenTexts "chain")
  | "panic" =>
    if j.givenText? "kind" = some "other" then return panicOpaque
    else return panic (j.givenText "text")
  | "get" => return get (j.givenText "name")
  | "set" => return set (j.givenText "name") (← j.givenExpression "value")
  | "location" => return locate (j.givenText "name")
  | "get_ref" => accessOfJson j
  | "set_ref" => accessOfJson j
  | "get_arg" => return getArgument (j.givenText "name")
  | "set_arg" => return setArgument (j.givenText "name") (← j.givenExpression "value")
  | "find_prop" => return findProperty (j.givenText "name")
  | "ext" => return services
  | "info" => return info
  | "return" =>
    match j.given? "value" with
    | some v => return finish (some (← Expression.ofJson v))
    | none => return finish none
  | "handled" => return handled
  | "propagate" => return propagate
  | "mark_canceled" => return acceptCancellation
  | "host_run" => return hostRun
  | "op_info" => return operationInfo
  | "complete" =>
    match j.given? "error" with
    | some _ => return completeFailed (j.givenTexts "error")
    | none => return complete (← j.givenExpression "value")
  | "drop_op" => return dropOperation
  | _ =>
    match ← NativeAction.ofJson? name j with
    | some a => return native a
    | none => .error (.unsupportedAction name)

/-- Read an action whose lists are nested at most to a depth. -/
def Action.within : Nat → Json → Action
  | 0, _ => step (.fail [RequestError.tooDeep.message]) false
  | depth + 1, j =>
    let guarded := j.isGiven "try"
    let reading : Reading Action := do
      let name := j.givenText "do"
      if name = "if" then
        let c ← Condition.ofJson (← j.given "cond")
        let yes := (j.givenItems "then").map (within depth)
        let no := (j.givenItems "else").map (within depth)
        return choose c yes no guarded
      else return step (← Step.ofJson name j) guarded
    match reading with
    | .ok a => a
    | .error error => step (.fail [error.message]) guarded

/-- Read a list of actions. -/
def Action.listOfJson (js : List Json) : List Action :=
  js.map (within (Json.maxDepth + 1))

/-- Read lists of actions by callback. -/
def Action.tableOfJson (fields : List (String × Json)) : List (CallbackTag × List Action) :=
  fields.map fun (tag, list) => (tag, listOfJson (list.items?.getD []))

/-- Read a script. -/
def Script.ofJson (j : Json) : Script :=
  let list? (name : String) : Option (List Action) :=
    (j.given? name).map fun _ => Action.listOfJson (j.givenItems name)
  { execute := Action.listOfJson (j.givenItems "execute")
    completed := Action.tableOfJson (j.givenFields "completed")
    faulted := Action.tableOfJson (j.givenFields "faulted")
    resumed := Action.tableOfJson (j.givenFields "resumed")
    cancel := list? "cancel"
    finish := list? "end" }

/-- Read what a body has to say while a definition is prepared. Without a known purpose it warns of
where it finds itself. -/
def Remark.ofJson (site : Site) (j : Json) : Remark :=
  let text := j.givenText "text"
  match j.givenText? "do" with
  | some "error" => error text
  | some "warning" => warning text
  | some "declare" => bookmark text
  | _ => warning (site.path ++ " " ++ site.name ++ " " ++ toString site.childCount)

/-- Read the kind of an activity; it is native unless something else is said. -/
def BodyKind.ofJson (j : Json) : BodyKind :=
  match j.givenText? "kind" with
  | some "code" => code
  | some "async" => async
  | _ => native

/-- Read a body under the name of its activity. -/
def Body.ofJson (name : String) (j : Json) : Body :=
  let script := (j.given? "script").getD (.object [])
  { label := name
    typeName := (j.givenText? "type").getD "script"
    remarks := fun site => (script.givenItems "meta").map (Remark.ofJson site)
    behaviour := (Script.ofJson script).behaviour (.ofJson j) }

/-- Read a variable. -/
def Variable.ofJson (j : Json) : Reading Variable := do
  let name := j.givenText "name"
  return ⟨name, ← (j.given? "default").mapM Json.toValue⟩

/-- Read a direction; a value flows in unless something else is said. -/
def Direction.ofJson (j : Json) : Direction :=
  match j.givenText? "direction" with
  | some "out" => output
  | some "inout" => both
  | _ => input

/-- Read an argument. A location counts before a literal. -/
def Argument.ofJson (j : Json) : Reading Argument := do
  let name := j.givenText "name"
  let binding ← match j.givenText? "variable", j.given? "literal" with
    | some target, _ => pure (Binding.location target)
    | none, some v => Binding.literal <$> v.toValue
    | none, none => pure Binding.unbound
  return ⟨name, .ofJson j, j.isGiven "required", binding⟩

/-- Read a tree of activities at most of a depth. -/
def Activity.within : Nat → Json → Reading Activity
  | 0, _ => .error .tooDeep
  | depth + 1, j => do
    let name := j.givenText "name"
    let children ← (j.givenItems "children").mapM (within depth)
    let locals ← (j.givenItems "variables").mapM Variable.ofJson
    let arguments ← (j.givenItems "arguments").mapM Argument.ofJson
    return mk ((j.givenText? "rename").getD name) (.ofJson name j) children locals arguments

/-- Read a tree of activities. -/
def Activity.ofJson (j : Json) : Reading Activity :=
  within (Json.maxDepth + 1) j

end Workflow
