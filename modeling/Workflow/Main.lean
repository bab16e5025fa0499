import Workflow.CommandLine.Run

/-!
# The program

The program reads what a task can need of the file system into a disk, runs, and carries the changes
of the disk over to the file system.
-/

namespace Workflow.Main

/-- Add what a path leads to, if anything is there. -/
def addPath (d : Disk) (p : Path) : IO Disk := do
  let here ← IO.currentDir
  let text := p.print
  match d.find p with
  | .free l =>
    if ← (here / (text ++ "/")).isDir then
      return { d with directories := d.directories.insert l }
    else if ← (here / text).pathExists then
      let bytes ← try IO.FS.readBinFile text catch _ => pure ⟨#[]⟩
      return { d with files := d.files.insert l bytes.toList }
    else return d
  | _ => return d

/-- Add what is directly in a directory. -/
def addEntries (d : Disk) (directory : Path) : IO Disk := do
  let here ← IO.currentDir
  let entries ← try (here / directory.print).readDir catch _ => pure #[]
  entries.foldlM (fun d entry => addPath d (directory.child entry.fileName)) d

/-- What is on the way to a root and under it. -/
def readDisk (root : String) : IO Disk := do
  let layout : Layout := ⟨.ofText root⟩
  let d ← layout.instancesDirectory.ancestry.foldlM addPath {}
  addEntries (← addEntries d layout.root) layout.instancesDirectory

/-- Carry changes of the disk over to the file system. -/
def writeChanges (before after : Disk) : IO Unit := do
  for l in after.directories.toList do
    if !before.directories.contains l then IO.FS.createDirAll (Path.print l)
  for (l, bytes) in after.files.toList do
    if before.files[l]? ≠ some bytes then IO.FS.writeBinFile (Path.print l) ⟨bytes.toArray⟩
  for (l, _) in before.files.toList do
    if !after.files.contains l then IO.FS.removeFile (Path.print l)

/-- Run the program on the file system. -/
def run (args : List String) : IO UInt32 := do
  let root := match CommandLine.read args with
    | .ok i => i.root
    | .error _ => CommandLine.defaultRoot
  let before ← readDisk root
  let (report, after) := CommandLine.run args before
  writeChanges before after
  for line in report.output do
    IO.println line
  for line in report.complaint do
    IO.eprintln line
  return UInt32.ofNat report.code

end Workflow.Main

/-- The program. -/
def main (args : List String) : IO UInt32 :=
  Workflow.Main.run args
