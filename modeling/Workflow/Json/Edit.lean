import Workflow.Json

/-!
# Edits of a document

An edit changes one place of a document, found by a path of field names and item positions.
-/

namespace Workflow

/-- One step of a path. -/
inductive JsonStep where
  /-- The value of the named field. -/
  | field (name : String)
  /-- The item at a position. -/
  | item (position : Nat)

/-- A change at the place that a path leads to. -/
inductive JsonEdit where
  /-- Put a document there; a missing field is added. -/
  | put (j : Json)
  /-- Append an item to the array that stands there. -/
  | append (j : Json)
  /-- Append a copy of the item that stands there to its array. -/
  | duplicate
  /-- Take the field or item away. -/
  | remove
  /-- Reverse the array that stands there. -/
  | reverse

namespace Json

/-- Change the value of a field in place, or append the field if a value is given for a missing
one. -/
def alterField (name : String) (f : Option Json → Option Json) :
    List (String × Json) → Option (List (String × Json))
  | [] => (f none).map fun j => [(name, j)]
  | (n, j) :: rest =>
    if n = name then (f (some j)).map fun k => (n, k) :: rest
    else (alterField name f rest).map ((n, j) :: ·)

/-- Change one item of a list. -/
def alterItem (f : Json → Option Json) : Nat → List Json → Option (List Json)
  | _, [] => none
  | 0, j :: js => (f j).map (· :: js)
  | n + 1, j :: js => (alterItem f n js).map (j :: ·)

/-- Apply an edit whose path ends here. -/
def editHere (edit : JsonEdit) : Option Json → Option Json
  | target =>
    match edit, target with
    | .put j, _ => some j
    | .append j, some (array items) => some (array (items ++ [j]))
    | .reverse, some (array items) => some (array items.reverse)
    | _, _ => none

/-- Apply an edit that changes the container of its place, if the last step leads into one. -/
def editInside (edit : JsonEdit) (step : JsonStep) (container : Json) : Option Json :=
  match edit, step, container with
  | .remove, .field name, object fields => some (object (fields.filter (·.1 != name)))
  | .remove, .item n, array items =>
    if n < items.length then some (array (items.eraseIdx n)) else none
  | .duplicate, .item n, array items => (items[n]?).map fun j => array (items ++ [j])
  | .remove, _, _ => none
  | .duplicate, _, _ => none
  | _, .field name, object fields => (alterField name (editHere edit) fields).map object
  | _, .item n, array items => (alterItem (fun j => editHere edit (some j)) n items).map array
  | _, _, _ => none

/-- Apply an edit at the end of a path; `none` if the path leads nowhere. -/
def edit? (edit : JsonEdit) : List JsonStep → Json → Option Json
  | [], j => editHere edit (some j)
  | [step], j => editInside edit step j
  | .field name :: path, object fields =>
    (alterField name (fun j => j.bind (edit? edit path)) fields).map object
  | .item n :: path, array items => (alterItem (edit? edit path) n items).map array
  | _, _ => none

end Json

end Workflow
