import NameBinding.Tool

/-!
The command line. The part of the real disk that the arguments name is copied
into a `Disk`, the command runs on the copy, and then its output and its report
are written out.
-/

namespace NameBinding

def Text.asString (text : Text) : String :=
  (String.fromUTF8? ⟨text.toArray⟩).getD ""

def entryAt (location : List Text) : IO.FS.DirEntry :=
  ⟨"/", Text.asString ([Text.slash].intercalate location)⟩

def readFile (entry : IO.FS.DirEntry) : IO (Option Node) := do
  try return some (.file (← IO.FS.readBinFile entry.path).data.toList)
  catch _ => return none

/-- A file with its content, or a folder without its entries. -/
def look (location : List Text) : IO (Option Node) := do
  let entry := entryAt location
  if ← entry.path.isDir then return some (.folder []) else readFile entry

/-- Copies what lies on the way of a path, and tells where the names lead. Names
that are missing are passed, because a run may make folders for them. -/
def reveal (disk : Disk) (location : List Text) : List Text → IO (Disk × List Text)
  | [] => return (disk, location)
  | name :: rest => do
    if name == Path.here then reveal disk location rest
    else if name == Path.up then reveal disk location.dropLast rest
    else
      let next := location ++ [name]
      if (disk.root.get? next).isSome then reveal disk next rest
      else
        match ← look next with
        | none => reveal disk next rest
        | some node => reveal { disk with root := disk.root.put next node } next rest

/-- Copies the interface files below a folder. Links to folders are not followed. -/
partial def revealBelow (folder : IO.FS.DirEntry) : IO Node := do
  let mut entries := []
  for entry in ← folder.path.readDir do
    let name := Text.ofString entry.fileName
    if ← entry.path.isDir then
      if (← entry.path.symlinkMetadata).type == .dir then
        entries := entries ++ [(name, ← revealBelow entry)]
    else if Discovery.isInterface name then
      if let some node ← readFile entry then
        entries := entries ++ [(name, node)]
  return .folder entries

def revealRoot (disk : Disk) (root : Path) : IO Disk := do
  let (disk, location) ← reveal disk (disk.start root) root.names
  if disk.holdsFolder location then
    let found ← revealBelow (entryAt location)
    return { disk with root := disk.root.put location found }
  else return disk

def revealFile (disk : Disk) (path : Path) : IO Disk := do
  return (← reveal disk (disk.start path) path.names).1

/-- The disk as far as a command line can see it. -/
def revealFor (line : CommandLine) : IO Disk := do
  let folder := Path.ofText (Text.ofString (← IO.currentDir).toString)
  let (disk, _) ← reveal { workingFolder := folder.names } [] folder.names
  let disk ← (Discovery.searchRoots (line.importRoots.map Path.ofText)).foldlM revealRoot disk
  (line.inputs ++ line.report.toList).foldlM (fun disk path => revealFile disk (Path.ofText path))
    disk

/-- The folders that a run made, those of a report that failed among them. -/
def makeFolders (disk : Disk) (done : Completion) : IO Unit := do
  for location in done.disk.root.folders do
    unless disk.holdsFolder location do IO.FS.createDir (entryAt location).path

def print (stream : IO.FS.Stream) (text : Text) : IO Unit := do
  stream.write ⟨text.toArray⟩
  stream.flush

end NameBinding

open NameBinding in
def main (args : List String) : IO UInt32 := do
  let arguments := args.map Text.ofString
  let line? := (CommandLine.parse arguments).toOption
  let disk ← match line? with
    | some line => revealFor line
    | none => pure {}
  let done := Tool.run disk arguments
  print (← IO.getStdout) done.out
  print (← IO.getStderr) done.err
  makeFolders disk done
  if let (some path, some content) := (line?.bind (·.report), done.report) then
    IO.FS.writeBinFile path.asString ⟨content.toArray⟩
  return done.exit.toUInt32
