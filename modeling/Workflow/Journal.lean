import Workflow.Body
import Workflow.Value.Printer

/-!
# The journal

The journal lists, in order, every call of the engine to a body and every line that a body writes.
-/

namespace Workflow

/-- An entry of the journal. -/
inductive JournalEntry where
  /-- The engine called the body of an instance. -/
  | call (id : InstanceId) (label : String) (callback : Callback)
  /-- A body wrote a line. -/
  | line (text : String)

/-- A text for something that may be missing. -/
def printOptional {α : Type} (print : α → String) : Option α → String
  | some a => print a
  | none => "-"

/-- The line of a call. -/
def Callback.print (id : InstanceId) (label : String) : Callback → String
  | execute => toString id ++ ":execute " ++ label
  | start operation => toString id ++ ":begin " ++ label ++ " " ++ toString operation
  | childCompleted tag child =>
    toString id ++ ":completed " ++ tag ++ " child=" ++ toString child.id ++ " " ++
      toString child.node ++ " " ++ child.state.label ++ " result=" ++
      printOptional Value.print child.result ++ " fault=" ++ printOptional Fault.print child.fault
  | childFaulted tag context =>
    toString id ++ ":faulted " ++ tag ++ " child=" ++ toString context.child ++ " " ++
      toString context.childNode ++ " kind=" ++ context.fault.error.label ++ " " ++
      context.fault.print
  | bookmarkResumed tag b v =>
    toString id ++ ":resumed " ++ tag ++ " " ++ b.print ++ " " ++ v.print
  | cancel => toString id ++ ":cancel"
  | finish v => toString id ++ ":end " ++ v.print
  | abort reason => label ++ " abort: " ++ reason.print

/-- The line of an entry. -/
def JournalEntry.print : JournalEntry → String
  | call id label callback => callback.print id label
  | line text => text

end Workflow
