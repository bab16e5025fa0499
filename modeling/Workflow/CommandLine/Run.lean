import Workflow.CommandLine
import Workflow.Snapshot.Packed
import Workflow.Store.File

/-!
# Doing what a command line asks for

A run of the program changes the disk and ends with an exit code, lines of output and lines of
complaint.
-/

namespace Workflow.CommandLine

/-- How a run of the program ends. -/
structure Report where
  /-- The exit code. -/
  code : Nat
  /-- The lines on the output. -/
  output : List String := []
  /-- The lines on the error output. -/
  complaint : List String := []

/-- A text with blanks behind it up to a width. -/
def padRight (width : Nat) (text : String) : String :=
  text ++ String.ofList (List.replicate (width - text.length) ' ')

/-- The number of columns of the screen. -/
def screenWidth : Nat := 100

/-- A list of names with what each one means. The meanings stand in a second column; but where that
column would begin past two fifths of the screen and some meaning would not fit beside it, each
meaning stands on a line of its own. The marks behind a meaning are counted without the blank before
them. -/
def columns (rows : List (String × String × String)) : List String :=
  let width := (rows.map (·.1.length)).foldl max 0
  let left := width + 4
  let crowded := 2 * screenWidth < 5 * left &&
    rows.any fun (_, meaning, marks) => screenWidth < left + meaning.length + marks.length
  rows.flatMap fun (name, meaning, marks) =>
    let text := if marks.isEmpty then meaning else meaning ++ " " ++ marks
    if crowded then ["  " ++ name, "          " ++ text]
    else ["  " ++ padRight width name ++ "  " ++ text]

/-- How the program is used. -/
def programUsage : String :=
  "Usage: " ++ program ++ " [OPTIONS] <COMMAND>"

/-- What the command that gives help does. -/
def helpAbout : String :=
  "Print this message or the help of the given subcommand(s)"

/-- The row of the option that asks for help. -/
def helpRow : String × String × String :=
  ("-h, --help", "Print help", "")

/-- The help of the program. -/
def programHelp : List String :=
  ["Activity-based workflow engine store inspector", "", programUsage, "", "Commands:"] ++
    columns (Verb.all.map (fun v => (v.label, v.about, "")) ++ [(helpName, helpAbout, "")]) ++
    ["", "Options:"] ++
    columns [("-r, --root <ROOT>", "Root directory of the instance store",
        "[default: " ++ defaultRoot ++ "]"), helpRow]

/-- The help of a command. -/
def Verb.help (v : Verb) : List String :=
  let options : List (String × String × String) := match v with
    | .init =>
      [("    --store-timeout-ms <STORE_TIMEOUT_MS>",
          "Store command timeout in milliseconds", "[default: 5000]"),
        ("    --persistable-idle <PERSISTABLE_IDLE>",
          "Action on persistable idle: none, persist or unload", "[default: none]"),
        ("    --no-tracking", "Disable tracking records", "")]
    | _ => []
  let words := match v with
    | .display => ["Arguments:"] ++ columns [("<ID>", "Workflow instance id (UUID)", "")] ++ [""]
    | _ => []
  [v.about, "", v.usage, ""] ++ words ++ ["Options:"] ++ columns (options ++ [helpRow])

/-- The help of a topic. -/
def Topic.text : Topic → List String
  | program => programHelp
  | verb v => v.help
  | help =>
    [helpAbout, "", "Usage: " ++ CommandLine.program ++ " " ++ helpName ++ " [COMMAND]...", "",
      "Arguments:"] ++ columns [("[COMMAND]...", "Print help for the subcommand(s)", "")]

/-- The report of a usage error. -/
def UsageError.report (e : UsageError) : Report :=
  let missing := match e with
    | .missingWord => ["  <ID>"]
    | _ => []
  ⟨2, [], ["error: " ++ e.message] ++ missing ++ ["", "For more information, try '--help'."]⟩

/-- A time with its distance from universal time in full. -/
def printTime (t : Timestamp) : String :=
  String.ofList t.print.toList.dropLast ++ "+00:00"

/-- The line of a saved workflow, and a line for each bookmark. -/
def describeInstance (id : WorkflowId) (entry : InstanceEntry) : List String :=
  let lock := match entry.lockedBy with
    | some owner => "locked by " ++ toString owner
    | none => "unlocked"
  let complete := if entry.complete then "  complete" else ""
  (toString id ++ "  " ++ entry.metadata.state.label ++ "  " ++ lock ++ complete ++ "  saved " ++
      printTime entry.metadata.savedAt) ::
    entry.metadata.bookmarks.map ("    bookmark " ++ ·)

/-- The line of an owner. -/
def describeOwner (id : OwnerId) (r : OwnerRecord) : String :=
  toString id ++ "  " ++ r.name ++ "  " ++ printTime r.createdAt

/-- The action of a name on the command line. -/
def idleActionOf? (text : String) : Option IdleAction :=
  [.keep, .persist, .unload].find? fun a => a.label.toLower == text

/-- A course of steps that ends with lines of output or with a complaint. -/
abbrev TaskM := ExceptT String (StateM Disk)

/-- Steps on a store, whose errors become complaints. -/
def onStore {α : Type} (steps : FileStore.StoreM α) : TaskM α :=
  ExceptT.adapt StoreError.message steps

/-- Make a store and write its configuration. -/
def makeStore (root : String) (timeoutMillis : Nat) (idleAction : String) (tracking : Bool) :
    TaskM (List String) := do
  match idleActionOf? idleAction with
  | none => throw ("Unknown persistable idle action: " ++ idleAction)
  | some action =>
    Config.init ⟨root, timeoutMillis, action, tracking⟩
    return ["Initialized CoreWF store at " ++ Quoted.quote root]

/-- Print the snapshot of a workflow. -/
def displaySnapshot (layout : Layout) (id : String) : TaskM (List String) := do
  match Uuid.parse? id with
  | none => throw ("Invalid instance id: " ++ id)
  | some uuid =>
    onStore (FileStore.openAt layout)
    let bytes ← onStore (FileStore.readPayload layout ⟨uuid⟩)
    match Snapshot.decode bytes with
    | .error error => throw error.message
    | .ok snapshot => return snapshot.toJson.indented.splitOn "\n"

/-- Do a task under a root. -/
def perform (root : String) : Task → TaskM (List String)
  | .init timeoutMillis idleAction tracking => makeStore root timeoutMillis idleAction tracking
  | .instances => do
    let layout : Layout := ⟨.ofText root⟩
    onStore (FileStore.openAt layout)
    let index ← onStore (FileStore.readIndex layout)
    if index.instances.isEmpty then return ["No stored instances"]
    return index.instances.toList.flatMap fun (id, entry) => describeInstance id entry
  | .owners => do
    let layout : Layout := ⟨.ofText root⟩
    onStore (FileStore.openAt layout)
    let index ← onStore (FileStore.readIndex layout)
    return index.owners.toList.map fun (id, r) => describeOwner id r
  | .display id => displaySnapshot ⟨.ofText root⟩ id
  | .help topic => return topic.text

/-- Run an understood command line. -/
def Invocation.run (i : Invocation) : StateM Disk Report := do
  match ← (perform i.root i.task).run with
  | .ok output => return ⟨0, output, []⟩
  | .error message => return ⟨1, [], ["Error: " ++ message]⟩

/-- Run the program. Without any argument it tells its help. -/
def run (args : List String) : StateM Disk Report :=
  if args.isEmpty || args == ["--"] then return ⟨2, [], programHelp⟩
  else
    match read args with
    | .ok i => i.run
    | .error e => return e.report

end Workflow.CommandLine
