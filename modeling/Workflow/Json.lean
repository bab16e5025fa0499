import Workflow.Double

/-!
# JSON documents

A document is a tree of JSON values; the fields of an object stand in the order in which they were
written. Numbers are integers of sixty-four bits where they fit and doubles otherwise.
-/

namespace Workflow

/-- A JSON number. -/
inductive JsonNumber where
  /-- An integer between `-2 ^ 63` and `2 ^ 64 - 1`. -/
  | integer (n : Int)
  /-- Any other number. -/
  | real (d : Double)
deriving DecidableEq

/-- A JSON value. -/
inductive Json where
  /-- The null value. -/
  | null
  /-- A truth value. -/
  | boolean (b : Bool)
  /-- A number. -/
  | number (n : JsonNumber)
  /-- A text. -/
  | string (s : String)
  /-- An array. -/
  | array (items : List Json)
  /-- An object. -/
  | object (fields : List (String × Json))
  /-- A part that is written like a value but holds what is none: a text that is not well formed or
  a number beyond the range of doubles. It can be passed over, not read. -/
  | unreadable

namespace Json

instance : Inhabited Json := ⟨null⟩

/-- A natural number as a document. -/
def nat (n : Nat) : Json :=
  number (.integer n)

/-- An optional document; nothing is null. -/
def ofOption : Option Json → Json
  | some j => j
  | none => null

/-- The value of a field; of fields of one name the last counts. -/
def get? (name : String) : Json → Option Json
  | object fields => (fields.reverse.find? (·.1 == name)).map (·.2)
  | _ => none

/-- The text of a string. -/
def string? : Json → Option String
  | string s => some s
  | _ => none

/-- A truth value. -/
def boolean? : Json → Option Bool
  | boolean b => some b
  | _ => none

/-- A natural number below a bound. -/
def natBelow? (bound : Nat) : Json → Option Nat
  | number (.integer (.ofNat n)) => if n < bound then some n else none
  | _ => none

/-- The items of an array. -/
def items? : Json → Option (List Json)
  | array items => some items
  | _ => none

/-- The fields of an object. -/
def fields? : Json → Option (List (String × Json))
  | object fields => some fields
  | _ => none

/-- Put a field into fields in name order, in place of one of the same name. -/
def insertField (field : String × Json) : List (String × Json) → List (String × Json)
  | [] => [field]
  | f :: rest =>
    match compare field.1 f.1 with
    | .lt => field :: f :: rest
    | .eq => field :: rest
    | .gt => f :: insertField field rest

mutual

/-- Whether every part of a document can be read. -/
def isReadable : Json → Bool
  | unreadable => false
  | array items => areReadable items
  | object fields => fieldsAreReadable fields
  | _ => true

/-- Whether every item can be read. -/
def areReadable : List Json → Bool
  | [] => true
  | j :: js => j.isReadable && areReadable js

/-- Whether the value of every field can be read. -/
def fieldsAreReadable : List (String × Json) → Bool
  | [] => true
  | f :: fs => fieldIsReadable f && fieldsAreReadable fs

/-- Whether the value of a field can be read. -/
def fieldIsReadable : String × Json → Bool
  | (_, j) => j.isReadable

end

mutual

/-- The document with the fields of every object in the byte order of their names, one for each
name. -/
def sortFields : Json → Json
  | array items => array (sortItems items)
  | object fields => object ((sortObject fields).foldl (fun sorted f => insertField f sorted) [])
  | j => j

/-- Sort the fields inside each item. -/
def sortItems : List Json → List Json
  | [] => []
  | j :: js => j.sortFields :: sortItems js

/-- Sort the fields inside each field's value. -/
def sortObject : List (String × Json) → List (String × Json)
  | [] => []
  | f :: fs => sortField f :: sortObject fs

/-- Sort the fields inside a field's value. -/
def sortField : String × Json → String × Json
  | (name, j) => (name, j.sortFields)

end

end Json

end Workflow
