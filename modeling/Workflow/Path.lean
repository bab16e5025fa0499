import Workflow.Text.Quoted

/-!
# Paths

A path is a list of names, as it was given: it may hold empty names and dots, which say nothing or
lead back, and it is printed the way it was given.
-/

namespace Workflow

/-- The names that lead to a file or directory. -/
abbrev Path := List String

namespace Path

/-- The path of a text. -/
def ofText (text : String) : Path :=
  text.splitOn "/"

/-- The text of a path. -/
def print (p : Path) : String :=
  String.intercalate "/" p

/-- The text of a path between quotes. -/
def quote (p : Path) : String :=
  Quoted.quote p.print

/-- The path to a name in a directory. A slash that ends the directory's path is not doubled. -/
def child (p : Path) (name : String) : Path :=
  match p.getLast? with
  | some "" => p.dropLast ++ [name]
  | _ => p ++ [name]

/-- The path to the directory that holds what a path leads to. -/
def parent (p : Path) : Path :=
  match p.dropLast with
  | [] => [""]
  | [""] => ["", ""]
  | q => q

/-- The directory where a path starts, with the names to follow from there. A slash in front stands
for the top of all directories. -/
def start (p : Path) : List String × List String :=
  match p with
  | "" :: names => ([""], names)
  | _ => ([], p)

/-- A path that starts where another one leads, unless it starts at the top itself. -/
def join (p : Path) (q : Path) : Path :=
  match q, p.getLast? with
  | "" :: _ :: _, _ => q
  | _, some "" => p.dropLast ++ q
  | _, _ => p ++ q

/-- The part of a name before its last dot and the part after it; a dot in front begins no
extension. -/
def splitName (name : String) : String × Option String :=
  let cs := name.toList.reverse
  let extension := cs.takeWhile (· != '.')
  let stem := (cs.dropWhile (· != '.')).drop 1
  if stem.isEmpty then (name, none)
  else (String.ofList stem.reverse, some (String.ofList extension.reverse))

/-- The extension of the last name. -/
def extension? (p : Path) : Option String :=
  p.getLast?.bind fun name => (splitName name).2

/-- The path with another extension of its last name. -/
def withExtension (p : Path) (extension : String) : Path :=
  match p.getLast? with
  | some name => p.dropLast ++ [(splitName name).1 ++ "." ++ extension]
  | none => p

/-- The paths that lead to a path, one name after the other, with the path itself. -/
def ancestry (p : Path) : List Path :=
  (List.range p.length).map fun n => p.take (n + 1)

end Path

end Workflow
