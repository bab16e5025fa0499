import Workflow.Disk
import Workflow.Json.Parser
import Workflow.Json.Printer

/-!
# Documents in files

A file may hold a JSON document. It is written indented and read as a whole.
-/

namespace Workflow.Disk

/-- The document in a file; nothing if there is no such file. -/
def readDocument {α : Type} (p : Path) (ofJson? : Json → Option α) : DiskM (Option α) := do
  match ← read p with
  | none => return none
  | some bytes =>
    match (Json.ofBytes? bytes).bind ofJson? with
    | some a => return some a
    | none => throw ("Failed to parse " ++ p.quote)

/-- Replace a document. -/
def writeDocument (p : Path) (j : Json) : DiskM Unit :=
  replace p (Utf8.encode j.indented)

end Workflow.Disk
