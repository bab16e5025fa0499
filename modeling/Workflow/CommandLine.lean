import Workflow.Config
import Workflow.Text.Plain
import Workflow.Word

/-!
# The command line

A command line names the root of a store in files and one task to do there. Options may stand
anywhere within their command, and a line that cannot be understood is refused before anything is
done.
-/

namespace Workflow

namespace CommandLine

/-- The name of the program. -/
def program : String := "corewf-cli"

/-- The commands. -/
inductive Verb where
  /-- Make a store and write its configuration. -/
  | init
  /-- List the saved workflows. -/
  | instances
  /-- List the owners. -/
  | owners
  /-- Print a snapshot. -/
  | display
deriving DecidableEq

namespace Verb

/-- Every command. -/
def all : List Verb :=
  [init, instances, owners, display]

/-- The name of a command. -/
def label : Verb → String
  | init => "init"
  | instances => "instances"
  | owners => "owners"
  | display => "show"

/-- The command of a name. -/
def ofLabel? (text : String) : Option Verb :=
  all.find? fun v => v.label == text

/-- What a command does, as help tells it. -/
def about : Verb → String
  | init => "Initialize a store root and write its configuration"
  | instances => "List stored workflow instances"
  | owners => "List registered owners"
  | display => "Decode a stored snapshot and print it as JSON"

/-- How a command is used. -/
def usage : Verb → String
  | init => "Usage: " ++ program ++ " init [OPTIONS]"
  | instances => "Usage: " ++ program ++ " instances"
  | owners => "Usage: " ++ program ++ " owners"
  | display => "Usage: " ++ program ++ " show <ID>"

/-- The greatest number of words after the command. -/
def wordLimit : Verb → Nat
  | display => 1
  | _ => 0

end Verb

/-- An option of the program or of a command. -/
inductive Flag where
  /-- The root of the store. -/
  | root
  /-- How long a store command may take. -/
  | storeTimeout
  /-- What to do with an idle workflow. -/
  | idleAction
  /-- No records are passed on. -/
  | noTracking
  /-- Help is wanted. -/
  | help
deriving DecidableEq

namespace Flag

/-- The name of an option. -/
def long : Flag → String
  | root => "root"
  | storeTimeout => "store-timeout-ms"
  | idleAction => "persistable-idle"
  | noTracking => "no-tracking"
  | help => "help"

/-- The letter of an option. -/
def short? : Flag → Option Char
  | root => some 'r'
  | help => some 'h'
  | _ => none

/-- Whether an option is followed by a value. -/
def takesValue : Flag → Bool
  | root => true
  | storeTimeout => true
  | idleAction => true
  | _ => false

/-- An option with a place for its value, as errors tell it. -/
def display : Flag → String
  | root => "--root <ROOT>"
  | storeTimeout => "--store-timeout-ms <STORE_TIMEOUT_MS>"
  | idleAction => "--persistable-idle <PERSISTABLE_IDLE>"
  | noTracking => "--no-tracking"
  | help => "--help"

/-- The options before a command. -/
def ofProgram : List Flag :=
  [root, help]

/-- The options of a command. -/
def ofVerb : Verb → List Flag
  | .init => [storeTimeout, idleAction, noTracking, help]
  | _ => [help]

end Flag

/-- A command line that cannot be understood. -/
inductive UsageError where
  /-- There is no such command. -/
  | unknownCommand (name : String)
  /-- No command is given. -/
  | missingCommand
  /-- An option or word has no place here. -/
  | unexpectedArgument (text : String)
  /-- An option without a value is given one. -/
  | unexpectedValue (f : Flag) (value : String)
  /-- An option is not followed by its value. -/
  | missingValue (f : Flag)
  /-- An option is given twice. -/
  | repeatedFlag (f : Flag)
  /-- The value of an option cannot be read. -/
  | invalidValue (f : Flag) (value reason : String)
  /-- A command needs a word that is not given. -/
  | missingWord

/-- The wording of a usage error. What it cites is shown as plain text. -/
def UsageError.message : UsageError → String
  | unknownCommand name => "unrecognized subcommand '" ++ Plain.ofText name ++ "'"
  | missingCommand => "'" ++ program ++ "' requires a subcommand but one was not provided"
  | unexpectedArgument text => "unexpected argument '" ++ Plain.ofText text ++ "' found"
  | unexpectedValue f value =>
    "unexpected value '" ++ Plain.ofText value ++ "' for '" ++ f.display ++
      "' found; no more were expected"
  | missingValue f => "a value is required for '" ++ f.display ++ "' but none was supplied"
  | repeatedFlag f => "the argument '" ++ f.display ++ "' cannot be used multiple times"
  | invalidValue f value reason =>
    "invalid value '" ++ Plain.ofText value ++ "' for '" ++ f.display ++ "': " ++ reason
  | missingWord => "the following required arguments were not provided:"

/-- What help is about. -/
inductive Topic where
  /-- The program as a whole. -/
  | program
  /-- A command. -/
  | verb (v : Verb)
  /-- Help itself. -/
  | help
deriving DecidableEq

/-- The name of the command that gives help. -/
def helpName : String := "help"

/-- What help is about when its words are given, one inside the other. Only the program has topics
of its own. -/
def Topic.ofWords : List String → Except UsageError Topic
  | [] => .ok .program
  | name :: rest =>
    let topic? := if name = helpName then some help else (Verb.ofLabel? name).map verb
    match topic?, rest with
    | none, _ => .error (.unknownCommand name)
    | some topic, [] => .ok topic
    | some _, w :: _ => .error (.unknownCommand w)

/-- What a command line asks for. -/
inductive Task where
  /-- Make a store with a configuration. -/
  | init (timeoutMillis : Nat) (idleAction : String) (tracking : Bool)
  /-- List the saved workflows. -/
  | instances
  /-- List the owners. -/
  | owners
  /-- Print the snapshot of a workflow. -/
  | display (id : String)
  /-- Print help. -/
  | help (topic : Topic)

/-- An understood command line. -/
structure Invocation where
  /-- The root of the store. -/
  root : String
  /-- What to do there. -/
  task : Task

/-- An argument by itself. -/
inductive Token where
  /-- A word. -/
  | word (text : String)
  /-- The mark after which everything is a word. -/
  | wordsFollow
  /-- An option, with the value if it is written in the same argument. -/
  | flag (f : Flag) (value : Option String)
  /-- Several options of one letter in one argument. -/
  | unknown (text : String)

/-- The option of a name, with what stands behind an equals sign. -/
def longToken (flags : List Flag) (text : List Char) : Token :=
  let name := String.ofList (text.takeWhile (· != '='))
  let value := match text.dropWhile (· != '=') with
    | [] => none
    | _ :: v => some (String.ofList v)
  match flags.find? (·.long == name) with
  | some f => .flag f value
  | none => .unknown ("--" ++ name)

/-- The option of a letter, with what stands behind it. -/
def shortToken (flags : List Flag) (c : Char) (rest : List Char) : Token :=
  let value := match rest with
    | [] => none
    | '=' :: v => some (String.ofList v)
    | v => some (String.ofList v)
  match flags.find? (·.short? == some c) with
  | some f => .flag f (if f.takesValue then value else none)
  | none => .unknown (String.ofList ['-', c])

/-- Tell what an argument is among the options that may stand here. -/
def Token.ofArgument (flags : List Flag) (text : String) : Token :=
  match text.toList with
  | ['-', '-'] => .wordsFollow
  | '-' :: '-' :: name => longToken flags name
  | '-' :: c :: rest => shortToken flags c rest
  | _ => .word text

/-- The arguments of a command in order: options with their values, and words. The option met last
may still wait, for its value or for what comes after it. -/
structure Arguments where
  /-- The options that are settled. -/
  flags : List (Flag × Option String) := []
  /-- The words. -/
  words : List String := []
  /-- The option that waits, with its value if that is already given. -/
  waiting : Option (Flag × Option String) := none

/-- The value of a settled option. -/
def Arguments.value? (a : Arguments) (f : Flag) : Option String :=
  (a.flags.find? (·.1 == f)).bind (·.2)

/-- Whether an option is settled. -/
def Arguments.has (a : Arguments) (f : Flag) : Bool :=
  a.flags.any (·.1 == f)

/-- Read decimal digits as a number of 64 bits. The first character that is no digit or goes beyond
the bound decides which. -/
def readDigits (n : Nat) : List Char → Except String Nat
  | [] => .ok n
  | c :: rest =>
    if !c.isDigit then .error "invalid digit found in string"
    else
      let next := 10 * n + (c.toNat - 48)
      if next < wordBound then readDigits next rest
      else .error "number too large to fit in target type"

/-- A number of 64 bits as an option's value; a plus sign may stand before its digits. -/
def readMillis (value : String) : Except UsageError Nat :=
  let number : Except String Nat := match value.toList with
    | [] => .error "cannot parse integer from empty string"
    | '+' :: c :: rest => readDigits 0 (c :: rest)
    | cs => readDigits 0 cs
  number.mapError (.invalidValue .storeTimeout value ·)

/-- Refuse an option's value that cannot be read. -/
def checkValue (f : Flag) (value : String) : Except UsageError Unit :=
  match f with
  | .storeTimeout => (readMillis value).map fun _ => ()
  | .root => if value.isEmpty then .error (.missingValue f) else .ok ()
  | _ => .ok ()

namespace Arguments

/-- Add an option that is not there yet. -/
def add (a : Arguments) (f : Flag) (value : Option String) : Except UsageError Arguments :=
  if a.has f then .error (.repeatedFlag f)
  else .ok { a with flags := a.flags ++ [(f, value)] }

/-- Add an option with its value. -/
def addValue (a : Arguments) (f : Flag) (value : String) : Except UsageError Arguments := do
  let a ← a.add f (some value)
  checkValue f value
  return a

/-- Settle the option that waits. -/
def settle (a : Arguments) : Except UsageError Arguments :=
  match a.waiting with
  | none => .ok a
  | some (f, none) => .error (.missingValue f)
  | some (f, some value) => addValue { a with waiting := none } f value

end Arguments

/-- How far the arguments of a command are read. -/
inductive Reading where
  /-- All of them are read. -/
  | complete (a : Arguments)
  /-- Help is wanted. -/
  | help
  /-- There is a word too many. -/
  | surplus (a : Arguments) (word : String) (rest : List String)
  /-- There is a word too many after the mark that only words follow. -/
  | surplusAfterMark (word : String)

/-- Read words up to a limit. -/
def scanWords (limit : Nat) (a : Arguments) : List String → Except UsageError Reading
  | [] => return .complete (← a.settle)
  | w :: rest =>
    if a.words.length < limit then do
      let a ← a.settle
      scanWords limit { a with words := a.words ++ [w] } rest
    else .ok (.surplusAfterMark w)

/-- Read the arguments of a command up to a number of words. An option with its value in the next
argument waits until the next option or word is accepted, so whatever is refused outright in between
is refused first. -/
def scan (flags : List Flag) (limit : Nat) (a : Arguments) :
    List String → Except UsageError Reading
  | [] => return .complete (← a.settle)
  | text :: rest =>
    match Token.ofArgument flags text with
    | .wordsFollow => scanWords limit a rest
    | .unknown w => .error (.unexpectedArgument w)
    | .flag f (some value) =>
      if f.takesValue then do scan flags limit (← (← a.settle).addValue f value) rest
      else .error (.unexpectedValue f value)
    | .flag f none => do
      let a ← a.settle
      if f = .help then return .help
      else if f.takesValue then scan flags limit { a with waiting := some (f, none) } rest
      else scan flags limit (← a.add f none) rest
    | .word w =>
      match a.waiting with
      | some (f, none) => scan flags limit { a with waiting := some (f, some w) } rest
      | _ =>
        if a.words.length < limit then do
          let a ← a.settle
          scan flags limit { a with words := a.words ++ [w] } rest
        else .ok (.surplus a w rest)

/-- The task of a command with its arguments. -/
def taskOf (v : Verb) (a : Arguments) : Except UsageError Task :=
  match v, a.words with
  | .init, _ => do
    let millis ← readMillis ((a.value? .storeTimeout).getD "5000")
    return .init millis ((a.value? .idleAction).getD "none") (!a.has .noTracking)
  | .instances, _ => .ok .instances
  | .owners, _ => .ok .owners
  | .display, id :: _ => .ok (.display id)
  | .display, [] => .error .missingWord

/-- The task of a command with what follows it. -/
def readTask (v : Verb) (rest : List String) : Except UsageError Task := do
  match ← scan (Flag.ofVerb v) v.wordLimit {} rest with
  | .complete a => taskOf v a
  | .help => return .help (.verb v)
  | .surplus _ w _ => throw (.unexpectedArgument w)
  | .surplusAfterMark w => throw (.unexpectedArgument w)

/-- The root where none is given. -/
def defaultRoot : String := ".corewf"

/-- A task at the root that the options before the command give. -/
def Invocation.ofTask (a : Arguments) (task : Task) : Invocation :=
  ⟨(a.value? .root).getD defaultRoot, task⟩

/-- Understand a command line. What follows the command is looked at before the option that waits in
front of it. -/
def read (args : List String) : Except UsageError Invocation := do
  match ← scan Flag.ofProgram 0 {} args with
  | .complete _ => throw .missingCommand
  | .help => return .ofTask {} (.help .program)
  | .surplusAfterMark w =>
    if w = helpName || (Verb.ofLabel? w).isSome then throw (.unexpectedArgument w)
    else throw (.unknownCommand w)
  | .surplus a name rest =>
    if name = helpName then return .ofTask a (.help (← Topic.ofWords rest))
    else
      match Verb.ofLabel? name with
      | none => throw (.unknownCommand name)
      | some v =>
        let task ← readTask v rest
        match task with
        | .help topic => return .ofTask a (.help topic)
        | task => return .ofTask (← a.settle) task

end CommandLine

end Workflow
