import NameBinding.Path

/-!
Files and folders, without links. A path is followed name by name from the root
or from the working folder, and every name on the way, dots included, needs a
folder to stand in. What a written path means is settled here and not in its
normal form: it ends at its first NUL, and it has to keep to the limits.
-/

namespace NameBinding

/-- The entries of a folder stand in the order in which they are enumerated. -/
inductive Node where
  | file (content : Text)
  | folder (entries : List (Text × Node))
deriving Repr, Inhabited

namespace Node

def isFolder : Node → Bool
  | .file _ => false
  | .folder _ => true

def child? (node : Node) (name : Text) : Option Node :=
  match node with
  | .file _ => none
  | .folder entries => entries.lookup name

/-- The node below this one, down the names in turn. -/
def get? (node : Node) (location : List Text) : Option Node :=
  location.foldlM child? node

/-- A new entry comes last; an entry of the same name is replaced where it is. -/
def setEntry (name : Text) (node : Node) : List (Text × Node) → List (Text × Node)
  | [] => [(name, node)]
  | (other, old) :: rest =>
    if other == name then (name, node) :: rest else (other, old) :: setEntry name node rest

/-- Puts `new` at a location, making the folders that are missing on the way. -/
def put : (node : Node) → (location : List Text) → (new : Node) → Node
  | _, [], new => new
  | .file content, _ :: _, _ => .file content
  | .folder entries, name :: rest, new =>
    let inner := (entries.lookup name).getD (.folder [])
    .folder (setEntry name (inner.put rest new) entries)

mutual

/-- The locations of the files below a node, in order of enumeration. -/
def files : Node → List (List Text)
  | .file _ => [[]]
  | .folder entries => filesAmong entries

def filesAmong : List (Text × Node) → List (List Text)
  | [] => []
  | (name, node) :: rest => node.files.map (name :: ·) ++ filesAmong rest

end

mutual

/-- The locations of the folders at and below a node, each before those inside it. -/
def folders : Node → List (List Text)
  | .file _ => []
  | .folder entries => [] :: foldersAmong entries

def foldersAmong : List (Text × Node) → List (List Text)
  | [] => []
  | (name, node) :: rest => node.folders.map (name :: ·) ++ foldersAmong rest

end

end Node

structure Disk where
  root : Node := .folder []
  workingFolder : List Text := []
deriving Repr, Inhabited

/-- Why the folders of a path cannot be made. -/
inductive FolderFault where
  | notAFolder
  | nameTaken
  | tooLong
deriving DecidableEq, Repr

def FolderFault.message : FolderFault → Text
  | .notAFolder => "Not a directory"
  | .nameTaken => "File exists"
  | .tooLong => "File name too long"

inductive WriteFault where
  | folders (fault : FolderFault)
  | unopened
deriving DecidableEq, Repr

namespace Disk

/-- The longest name, in bytes, that a folder can hold. -/
def nameLimit : Nat := 255

/-- The longest path, in bytes, that is followed at all. -/
def pathLimit : Nat := 4095

/-- The most folders that are made for one path. -/
def folderLimit : Nat := 1000

/-- The path that the disk is asked for, unless it is too long. -/
def request? (written : Text) : Option Path :=
  let seen := written.takeWhile (· != 0)
  if seen.length ≤ pathLimit then some (Path.ofText seen) else none

def start (disk : Disk) (path : Path) : List Text :=
  if path.absolute then [] else disk.workingFolder

/-- One step of a walk that has come to `location`. -/
def enter? (disk : Disk) (location : List Text) (name : Text) : Option (List Text) := do
  let node ← disk.root.get? location
  guard node.isFolder
  if name == Path.here then return location
  else if name == Path.up then return location.dropLast
  else
    let _ ← node.child? name
    return location ++ [name]

/-- Follows names as far as they lead: the location come to, and the names from
the first one that leads nowhere. -/
def follow (disk : Disk) (location : List Text) : (names : List Text) →
    List Text × List Text
  | [] => (location, [])
  | name :: rest =>
    match disk.enter? location name with
    | some next => disk.follow next rest
    | none => (location, name :: rest)

/-- Where names lead, if all of them lead on. -/
def followAll? (disk : Disk) (location : List Text) (names : List Text) :
    Option (List Text) :=
  match disk.follow location names with
  | (location, []) => some location
  | (_, _ :: _) => none

/-- Where a path leads, if there is something. A slash at the end asks for a
folder, and the empty path leads nowhere. -/
def locate? (disk : Disk) (written : Text) : Option (List Text) := do
  let path ← request? written
  guard !path.isEmpty
  let location ← disk.followAll? (disk.start path) path.names
  if path.trailing then disk.enter? location Path.here else return location

def find? (disk : Disk) (written : Text) : Option Node := do
  disk.root.get? (← disk.locate? written)

/-- The content of a file. A folder opens like a file and reads as empty. -/
def read? (disk : Disk) (written : Text) : Option Text :=
  match disk.find? written with
  | some (.file content) => some content
  | some (.folder _) => some []
  | none => none

def holdsFolder (disk : Disk) (location : List Text) : Bool :=
  (disk.root.get? location).any (·.isFolder)

/-- Makes the missing folders down `names` from `location`, which is a folder.
Those made before a fault stay. -/
def makeFrom (disk : Disk) (location : List Text) :
    (names : List Text) → Disk × Except FolderFault Unit
  | [] => (disk, .ok ())
  | name :: rest =>
    if name == Path.here then disk.makeFrom location rest
    else if name == Path.up then disk.makeFrom location.dropLast rest
    else
      let next := location ++ [name]
      match disk.root.get? next with
      | some (.folder _) => disk.makeFrom next rest
      | some (.file _) => (disk, .error .nameTaken)
      | none =>
        if name.length > nameLimit then (disk, .error .tooLong)
        else
          let disk := { disk with root := disk.root.put next (.folder []) }
          disk.makeFrom next rest

/-- Makes the missing folders of a path. Nothing is made if the path asks for too
many, or if the part of it that is there ends in a file; a path with both faults
counts as too long. -/
def makeFolders (disk : Disk) (written : Text) : Disk × Except FolderFault Unit :=
  match request? written with
  | none => (disk, .error .tooLong)
  | some path =>
    let (location, missing) := disk.follow (disk.start path) path.names
    if (missing.filter (!Path.isDots ·)).length > folderLimit then (disk, .error .tooLong)
    else if disk.holdsFolder location then disk.makeFrom location missing
    else (disk, .error .notAFolder)

/-- Where a file of this path can be written: in a folder that is there, and not
in place of a folder. -/
def target? (disk : Disk) (written : Text) : Option (List Text) := do
  let path ← request? written
  guard !path.trailing
  let name ← path.names.getLast?
  guard (!Path.isDots name && name.length ≤ nameLimit)
  let folder ← disk.followAll? (disk.start path) path.names.dropLast
  let location := folder ++ [name]
  guard (disk.holdsFolder folder && !disk.holdsFolder location)
  return location

/-- Writes a file, in place of one that is there, and makes the folders that it
needs. -/
def write (disk : Disk) (written : Text) (content : Text) :
    Disk × Except WriteFault Unit :=
  match disk.makeFolders (Path.folderPart written) with
  | (disk, .error fault) => (disk, .error (.folders fault))
  | (disk, .ok ()) =>
    match disk.target? written with
    | none => (disk, .error .unopened)
    | some location =>
      ({ disk with root := disk.root.put location (.file content) }, .ok ())

end Disk

end NameBinding
