import Workflow.Bookmark
import Workflow.Environment
import Workflow.Json
import Workflow.Script
import Workflow.Text.Hex
import Workflow.Value.Parser
import Workflow.Word

/-!
# Reading requests

A request is an object. A field that is null counts as missing, a field that nobody asks for is
passed over, and where a field has the wrong form it counts as missing too. A missing name is empty
and a missing number is zero; a missing value or reason is an error.
-/

namespace Workflow

/-- What is wrong with a request. -/
inductive RequestError where
  /-- A field is missing. -/
  | missing (field : String)
  /-- A text is not the text of a value. -/
  | badValue
  /-- A text is not the name of a scope. -/
  | badScope
  /-- So many scopes have not been created. -/
  | noScope (n : Nat)
  /-- A text is not a sequence of octets in hexadecimal. -/
  | badHex
  /-- There is no action of the name. -/
  | unsupportedAction (name : String)
  /-- The description of an activity is nested too deep. -/
  | tooDeep
  /-- There is no step of the name. -/
  | unknownStep (name : String)
deriving DecidableEq

/-- The wording of what is wrong with a request. -/
def RequestError.message : RequestError → String
  | missing field => "missing " ++ field
  | badValue => "BadValue"
  | badScope => "bad scope"
  | noScope n => "no scope " ++ toString n
  | badHex => "BadHex"
  | unsupportedAction name => "script: unsupported " ++ name
  | tooDeep => "too deep"
  | unknownStep name => "unknown step " ++ name

/-- A reading of a request. -/
abbrev Reading (α : Type) := Except RequestError α

/-- What follows the given beginning of a text. -/
def afterStart? (start text : String) : Option String :=
  let n := start.toList.length
  if text.toList.take n == start.toList then some (String.ofList (text.toList.drop n)) else none

/-- The natural number that a text spells in digits. -/
def digitsNumber? (text : String) : Option Nat :=
  if !text.isEmpty && text.toList.all Char.isDigit then
    some (text.toList.foldl (fun n c => 10 * n + (c.toNat - 48)) 0)
  else none

namespace Json

variable (j : Json)

/-- The value of a field that is there and not null. -/
def given? (name : String) : Option Json :=
  match j.get? name with
  | some null => none
  | other => other

/-- The value of a field that must be there. -/
def given (name : String) : Reading Json :=
  match j.given? name with
  | some v => .ok v
  | none => .error (.missing name)

/-- The text of a field. -/
def givenText? (name : String) : Option String :=
  (j.given? name).bind string?

/-- The text of a field; a missing one is empty. -/
def givenText (name : String) : String :=
  (j.givenText? name).getD ""

/-- The reason that a request gives. -/
def givenReason : Reading String :=
  match j.givenText? "reason" with
  | some reason => .ok reason
  | none => .error (.missing "reason")

/-- The number of 64 bits of a field. -/
def givenNumber? (name : String) : Option Nat :=
  (j.given? name).bind (natBelow? (wordBound))

/-- The number of 64 bits of a field; a missing one is zero. -/
def givenNumber (name : String) : Nat :=
  (j.givenNumber? name).getD 0

/-- The truth value of a field; a missing one is false. -/
def isGiven (name : String) : Bool :=
  ((j.given? name).bind boolean?).getD false

/-- The items of a field; a missing one has none. -/
def givenItems (name : String) : List Json :=
  ((j.given? name).bind items?).getD []

/-- The fields of a field; a missing one has none. -/
def givenFields (name : String) : List (String × Json) :=
  ((j.given? name).bind fields?).getD []

/-- The texts among the items of a field. -/
def givenTexts (name : String) : List String :=
  (j.givenItems name).filterMap string?

/-- The value that a text stands for. -/
def toValue : Reading Value :=
  match j.string?.bind Value.parse? with
  | some v => .ok v
  | none => .error .badValue

/-- The value that the text of a field stands for. -/
def givenValue (name : String) : Reading Value := do
  toValue (← j.given name)

/-- The values of a field by name; a missing field has none. -/
def givenEnvironment (name : String) : Reading Environment :=
  (j.givenFields name).foldlM
    (fun (env : Environment) (n, v) => do return env.declare n (← v.toValue)) ∅

end Json

/-- The octets that a text spells. -/
def readHex (text : String) : Reading Bytes :=
  match Hex.decode? text with
  | some bytes => .ok bytes
  | none => .error .badHex

/-- The scope that a text names. -/
def ScopeName.ofText (text : String) : Reading ScopeName :=
  if text = "default" then .ok .default
  else if text = "last" then .ok .latest
  else
    match (afterStart? "scope:" text).bind digitsNumber?,
      (afterStart? "uuid:" text).bind Uuid.parse? with
    | some n, _ => .ok (.created n)
    | none, some id => .ok (.exact id)
    | none, none => .error .badScope

/-- The scope that a request names, if it names one. -/
def ScopeName.ofRequest? (j : Json) : Reading (Option ScopeName) :=
  match j.given? "scope" with
  | none => .ok none
  | some (.string text) => some <$> ofText text
  | some _ => .error .badScope

/-- The scope of a name when so many scopes have been created. -/
def ScopeName.resolve (count : Nat) (identify : Nat → Uuid) : ScopeName → Reading Scope
  | default => .ok .default
  | exact id => .ok (.named id)
  | latest => if count = 0 then .error (.noScope 0) else .ok (.named (identify count))
  | created n =>
    if 1 ≤ n ∧ n ≤ count then .ok (.named (identify n)) else .error (.noScope n)

end Workflow
