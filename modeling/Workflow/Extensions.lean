/-!
# Host services

A host supplies services to the activities that it runs, at most one of each type.
-/

namespace Workflow

/-- A service of the host. -/
inductive Service where
  /-- A text. -/
  | text (s : String)
  /-- A number. -/
  | integer (n : Int)
  /-- A switch. -/
  | switch (b : Bool)
deriving DecidableEq

/-- Whether two services have one type. -/
def Service.sameType : Service → Service → Bool
  | text _, text _ => true
  | integer _, integer _ => true
  | switch _, switch _ => true
  | _, _ => false

/-- The services of a host. -/
structure Extensions where
  /-- The services, no two of one type. -/
  services : List Service := []

namespace Extensions

/-- Add a service in place of one of the same type. -/
def add (x : Extensions) (s : Service) : Extensions :=
  ⟨x.services.filter (fun t => !t.sameType s) ++ [s]⟩

/-- The text service. -/
def text? (x : Extensions) : Option String :=
  x.services.findSome? fun
    | .text s => some s
    | _ => none

/-- The number service. -/
def integer? (x : Extensions) : Option Int :=
  x.services.findSome? fun
    | .integer n => some n
    | _ => none

/-- The switch service. -/
def switch? (x : Extensions) : Option Bool :=
  x.services.findSome? fun
    | .switch b => some b
    | _ => none

/-- The fields of the collection for inspection. -/
def inspect (x : Extensions) : String :=
  "Extensions \x7b count: " ++ toString x.services.length ++ " \x7d"

end Extensions

end Workflow
