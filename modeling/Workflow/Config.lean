import Workflow.Disk.Document
import Workflow.Json.Read
import Workflow.Store.Layout
import Workflow.Word

/-!
# The configuration of the engine

A host may keep its configuration under the root of its store.
-/

namespace Workflow

/-- What to do with an idle workflow that can be saved. -/
inductive IdleAction where
  /-- Keep it in memory. -/
  | keep
  /-- Save it and keep it in memory. -/
  | persist
  /-- Save it, release it and drop it from memory. -/
  | unload
deriving DecidableEq

namespace IdleAction

/-- The name of an action in the configuration. -/
def label : IdleAction → String
  | keep => "None"
  | persist => "Persist"
  | unload => "Unload"

/-- The action of a name. -/
def ofLabel? (text : String) : Option IdleAction :=
  [keep, persist, unload].find? fun a => a.label == text

end IdleAction

/-- The configuration of a host. -/
structure Config where
  /-- The root of the store in files. -/
  root : String := ".corewf"
  /-- How long a store command may take, in milliseconds. -/
  storeTimeoutMillis : Nat := 5000
  /-- What to do with an idle workflow. -/
  idleAction : IdleAction := .keep
  /-- Whether participants receive records. -/
  tracking : Bool := true

namespace Config

/-- A configuration as a document. -/
def toJson (c : Config) : Json :=
  .object [("root", .string c.root), ("store_timeout_ms", .nat c.storeTimeoutMillis),
    ("persistable_idle", .string c.idleAction.label), ("tracking", .boolean c.tracking)]

/-- Read a configuration. -/
def ofJson? (j : Json) : Option Config := do
  let j := j.asRecord ["root", "store_timeout_ms", "persistable_idle", "tracking"]
  return {
    root := ← j.required? "root" Json.string?
    storeTimeoutMillis := ← j.required? "store_timeout_ms" (Json.natBelow? (wordBound))
    idleAction := ← j.required? "persistable_idle" fun a => a.case?.bind IdleAction.ofLabel?
    tracking := ← j.required? "tracking" Json.boolean? }

/-- Make the root and write the configuration there. -/
def init (c : Config) : DiskM Unit := do
  let layout : Layout := ⟨.ofText c.root⟩
  layout.init
  Disk.writeDocument layout.configFile c.toJson

/-- Read the configuration under a root. -/
def load (root : Path) : DiskM Config := do
  let layout : Layout := ⟨root⟩
  match ← Disk.readDocument layout.configFile ofJson? with
  | some c => return c
  | none => throw ("No engine configuration at " ++ layout.configFile.quote)

end Config

end Workflow
