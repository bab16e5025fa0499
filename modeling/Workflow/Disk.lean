import Workflow.Path
import Workflow.Text.Utf8
import Std.Data.ExtTreeMap
import Std.Data.ExtTreeSet

/-!
# Files and directories

A disk is a tree of directories and files, changed step by step. A path is followed name by name,
and every directory on the way has to be there, also where a later name leads back out of it. Any
step may fail, and a failed step changes nothing; only directories on the way to one that cannot be
made stay. A file is replaced as a whole through a temporary file beside it.
-/

namespace Workflow

/-- The names of the directories that a file or directory lies in, with its own name. An empty name
in front stands for the top of all directories, and leading double dots lead out of the directory
where paths start. -/
abbrev Address := List String

namespace Address

/-- The directory around a directory. -/
def parent (l : Address) : Address :=
  match l.getLast? with
  | none => [".."]
  | some ".." => l ++ [".."]
  | some "" => l
  | _ => l.dropLast

/-- Whether a directory is there on every disk: the top, where paths start, and those around it. -/
def isGiven (l : Address) : Bool :=
  l == [""] || l.all (· == "..")

end Address

/-- A tree of directories and files. -/
structure Disk where
  /-- The contents of the files. -/
  files : Std.ExtTreeMap Address Bytes := ∅
  /-- The directories. -/
  directories : Std.ExtTreeSet Address := ∅
  /-- Which of the steps to come fail. -/
  faults : List Bool := []

/-- What a path leads to. -/
inductive Place where
  /-- A directory. -/
  | directory (l : Address)
  /-- A file with its contents. -/
  | file (l : Address) (bytes : Bytes)
  /-- Nothing, in a directory that is there. -/
  | free (l : Address)
  /-- Nothing, and a directory on the way is missing. -/
  | missing
  /-- Nothing can be there: something on the way is a file, or the path cannot be asked for. -/
  | blocked

/-- A course of steps on a disk; it may end with a message. -/
abbrev DiskM := ExceptT String (StateM Disk)

namespace Disk

/-- Whether a step to come fails. -/
def nextFault : DiskM Bool := do
  let d ← get
  match d.faults with
  | [] => return false
  | fault :: rest =>
    set { d with faults := rest }
    return fault

/-- Do a step: change the disk, or end with a message if the step fails or cannot be done. -/
def step {α : Type} (message : String) (change : Disk → Option (α × Disk)) : DiskM α := do
  let fault ← nextFault
  match fault, change (← get) with
  | false, some (a, d) =>
    set d
    return a
  | _, _ => throw message

/-- The greatest number of octets of a name. Nothing has a longer one. -/
def nameLimit : Nat := 255

/-- The greatest number of octets of a path. -/
def pathLimit : Nat := 4095

/-- What is at an address in a directory that is there. -/
def placeAt (d : Disk) (l : Address) : Place :=
  if l.isGiven || d.directories.contains l then .directory l
  else
    match d.files[l]? with
    | some bytes => .file l bytes
    | none => .free l

/-- What a name leads to in a directory. An empty name leads nowhere else. -/
def enter (d : Disk) (l : Address) (name : String) : Place :=
  match name with
  | "" => .directory l
  | "." => .directory l
  | ".." => .directory l.parent
  | _ => if nameLimit < name.utf8ByteSize then .missing else d.placeAt (l ++ [name])

/-- What a name leads to from what an earlier name has led to. -/
def follow (d : Disk) (here : Place) (name : String) : Place :=
  match here with
  | .directory l => d.enter l name
  | .free _ => .missing
  | .missing => .missing
  | .file _ _ => .blocked
  | .blocked => .blocked

/-- Whether a path can be asked for at all: it is not too long, and no name holds the character that
ends texts. -/
def isAskable (p : Path) : Bool :=
  p.print.utf8ByteSize ≤ pathLimit && p.all fun name => !name.toList.contains (Char.ofNat 0)

/-- What a path leads to. An empty path leads to nothing. -/
def find (d : Disk) (p : Path) : Place :=
  if p = [] ∨ p = [""] then .missing
  else if isAskable p then p.start.2.foldl d.follow (.directory p.start.1)
  else .blocked

/-- Follow names from a directory, making directories where nothing is; tells whether all of them
could be followed. -/
def makeAll : List String → Address → Disk → Bool × Disk
  | [], _, d => (true, d)
  | name :: rest, l, d =>
    match d.enter l name with
    | .directory next => makeAll rest next d
    | .free next => makeAll rest next { d with directories := d.directories.insert next }
    | _ => (false, d)

/-- Make a directory with every directory on the way to it. -/
def createDirectories (p : Path) : DiskM Unit := do
  let fault ← nextFault
  let d ← get
  let (made, d) := if fault || !isAskable p then (false, d) else makeAll p.start.2 p.start.1 d
  set d
  if made then return ()
  else throw ("Failed to create directory: " ++ p.quote)

/-- The names of what is directly in a directory. -/
def namesIn (d : Disk) (l : Address) : List String :=
  (d.directories.toList ++ d.files.keys).filterMap fun q =>
    if q.dropLast == l then q.getLast? else none

/-- List what is directly in a directory. -/
def list (p : Path) : DiskM (List Path) :=
  step ("Failed to read directory: " ++ p.quote) fun d =>
    match d.find p with
    | .directory l => some ((d.namesIn l).map p.child, d)
    | _ => none

/-- Remove a file, ending with a message that depends on what it was. -/
def remove (message : String) (p : Path) : DiskM Unit :=
  step message fun d =>
    match d.find p with
    | .file l _ => some ((), { d with files := d.files.erase l })
    | _ => none

/-- The contents of a file; nothing if there is no file of the path. -/
def read (p : Path) : DiskM (Option Bytes) :=
  step ("Failed to read file: " ++ p.quote) fun d =>
    match d.find p with
    | .file _ bytes => some (some bytes, d)
    | .free _ => some (none, d)
    | .missing => some (none, d)
    | .directory _ => none
    | .blocked => none

/-- Put contents into a file, which may be new. -/
def put (d : Disk) (p : Path) (bytes : Bytes) : Option Disk :=
  match d.find p with
  | .file l _ => some { d with files := d.files.insert l bytes }
  | .free l => some { d with files := d.files.insert l bytes }
  | _ => none

/-- Make an empty file. -/
def create (p : Path) : DiskM Unit :=
  step ("Failed to create temp file: " ++ p.quote) fun d => (d.put p []).map ((), ·)

/-- Fill a file that is there. -/
def fill (p : Path) (bytes : Bytes) : DiskM Unit :=
  step "Failed to write data" fun d =>
    match d.find p with
    | .file _ _ => (d.put p bytes).map ((), ·)
    | _ => none

/-- Wait until a file is kept for good. -/
def syncFile : DiskM Unit :=
  step "Failed to sync file" fun d => some ((), d)

/-- Give a file another path, in place of a file that has it. -/
def rename (old new : Path) : DiskM Unit :=
  step ("Failed to rename " ++ old.quote ++ " to " ++ new.quote) fun d =>
    match d.find old with
    | .file l bytes => (put { d with files := d.files.erase l } new bytes).map ((), ·)
    | _ => none

/-- Wait until the names in a directory are kept for good. -/
def syncDirectory (p : Path) : DiskM Unit :=
  step ("Failed to sync directory: " ++ p.quote) fun d =>
    match d.find p with
    | .directory _ => some ((), d)
    | _ => none

/-- The extension of temporary files. -/
def temporaryExtension : String := "tmp"

/-- Replace a file as a whole: fill a temporary file and give it the path. -/
def replace (p : Path) (bytes : Bytes) : DiskM Unit := do
  let temporary := p.withExtension temporaryExtension
  create temporary
  fill temporary bytes
  syncFile
  rename temporary p
  syncDirectory p.parent

end Disk

end Workflow
