import Workflow.Application.Reaction
import Workflow.Report

/-!
# Reports of a host

Answers to calls as documents, and what happens in a host as lines of text.
-/

namespace Workflow

/-- The bookmarks of an idle workflow as a document. -/
def IdleReport.bookmarksJson (r : IdleReport) : Json :=
  .array (r.bookmarks.map BookmarkInfo.toJson)

/-- The fields of a document in name order, without blanks. -/
def Json.canonical (j : Json) : String :=
  j.sortFields.compact

/-- A request that cannot be read as a document. -/
def RequestError.toJson (e : RequestError) : Json :=
  .object [("error", .string e.message)]

/-- What became of a completion as a document. -/
def Completion.toJson : Completion → Json
  | done => .string "ok"
  | noHandle => .string "none"
  | violation v => v.toJson
  | unreadable e => e.toJson

/-- What a waiting host has as a document. -/
def Waiting.toJson {α : Type} (encode : α → Json) (w : Waiting α) : Json :=
  let result := match w.result with
    | some (.ok a) => encode a
    | some (.error e) => e.toJson
    | none => .string "pending"
  .object [("completed", .array (w.completions.map Completion.toJson)), ("r", result)]

/-- An answer as a document. -/
def Reply.toJson : Reply → Json
  | done => .string "ok"
  | outcome o => o.toJson
  | resumption r => .string r.label
  | resumptionAndOutcome r o => .array [.string r.label, .ofOption (o.map Outcome.toJson)]
  | truth b => .boolean b
  | state s => .ofOption (s.map fun s => .string s.label)
  | bookmarks bs => .array (bs.map BookmarkInfo.toJson)
  | text s => .string s
  | completion c => c.toJson
  | waited w => w.toJson fun _ => .string "ok"
  | ranUntilIdle w => w.toJson Outcome.toJson
  | refused error => error.toJson
  | unreadable error => error.toJson

/-- What a notice tells, as a text. -/
def Notice.print : Notice → String
  | completed workflow o => toString workflow ++ " " ++ o.toJson.canonical
  | idle r => printIdle r
  | persistableIdle r => printIdle r
  | exception workflow f => toString workflow ++ " " ++ f.print
  | aborted workflow reason => toString workflow ++ " " ++ reason
  | unloaded workflow => toString workflow
where
  /-- What is told of an idle workflow. -/
  printIdle (r : IdleReport) : String :=
    toString r.workflow ++ " async=" ++ toString r.outstanding ++ " " ++ r.bookmarksJson.canonical

/-- The line of an event. -/
def HostEvent.print : HostEvent → String
  | journal entry => entry.print
  | notice n => n.kind.label ++ " " ++ n.print
  | reply kind r => kind.label ++ "> " ++ r.toJson.canonical

end Workflow
