import Workflow.Json

/-!
# Reading records from documents

A record is an object, or an array of all its fields in their order. A field that must be there
occurs once; an optional field may be missing or null. Fields that nobody asks for are passed over.
-/

namespace Workflow.Json

/-- The values of the fields of a name. -/
def valuesOf (j : Json) (name : String) : Option (List Json) :=
  j.fields?.map fun fields => (fields.filter (·.1 == name)).map (·.2)

/-- A record as an object: an array of as many items as the record has fields becomes one. -/
def asRecord (names : List String) : Json → Json
  | array items => if items.length = names.length then object (names.zip items) else array items
  | j => j

/-- Read a field that must be there. -/
def required? {α : Type} (j : Json) (name : String) (read : Json → Option α) : Option α :=
  match j.valuesOf name with
  | some [v] => read v
  | _ => none

/-- Read a field that may be missing or null. -/
def optional? {α : Type} (j : Json) (name : String) (read : Json → Option α) :
    Option (Option α) :=
  match j.valuesOf name with
  | some [] => some none
  | some [null] => some none
  | some [v] => (read v).map some
  | _ => none

/-- Read every item of an array. -/
def list? {α : Type} (read : Json → Option α) (j : Json) : Option (List α) :=
  j.items?.bind (·.mapM read)

/-- Read a name that stands for one of several cases: a text, or an object with that field alone,
null. -/
def case? : Json → Option String
  | string s => some s
  | object [(name, null)] => some name
  | _ => none

end Workflow.Json
