/-!
# Findings

Preparing a definition collects findings. A finding names the activity that it concerns; an error
keeps the activity from running and a warning does not.
-/

namespace Workflow

/-- How much a finding weighs. -/
inductive Severity where
  /-- The activity must not run. -/
  | error
  /-- The activity may run. -/
  | warning
deriving DecidableEq

/-- The name of a severity in records. -/
def Severity.label : Severity → String
  | error => "Error"
  | warning => "Warning"

/-- A finding about one activity. -/
structure Finding where
  /-- The path of the activity. -/
  path : String
  /-- The display name of the activity. -/
  name : String
  /-- What was found. -/
  message : String
  /-- How much it weighs. -/
  severity : Severity
deriving DecidableEq

namespace Finding

/-- Whether the finding keeps its activity from running. -/
def isError (f : Finding) : Bool :=
  f.severity == .error

/-- The text of a finding. -/
def print (f : Finding) : String :=
  let level := match f.severity with
    | .error => "error"
    | .warning => "warning"
  level ++ " in '" ++ f.name ++ "' (" ++ f.path ++ "): " ++ f.message

end Finding

/-- Findings in the order of their discovery. -/
structure Findings where
  /-- The findings. -/
  toList : List Finding := []
deriving DecidableEq

namespace Findings

/-- The findings that keep an activity from running. -/
def errors (fs : Findings) : List Finding :=
  fs.toList.filter Finding.isError

/-- The findings that do not. -/
def warnings (fs : Findings) : List Finding :=
  fs.toList.filter fun f => !f.isError

/-- Whether some finding is an error. -/
def hasErrors (fs : Findings) : Bool :=
  fs.toList.any Finding.isError

/-- The findings of both, the first ones first. -/
def append (fs gs : Findings) : Findings :=
  ⟨fs.toList ++ gs.toList⟩

instance : Append Findings := ⟨append⟩

/-- The findings as one text. -/
def print (fs : Findings) : String :=
  String.intercalate "; " (fs.toList.map Finding.print)

end Findings

end Workflow
