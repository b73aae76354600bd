import NameBinding.Disk
import Std.Data.TreeSet

/-!
Finding module interfaces: the files below the search roots whose names end in
`.sigilmod` after at least one more byte. They are listed in path order, so that
what is found does not depend on how the disk enumerates its folders.
-/

namespace NameBinding

inductive RootFault where
  | missing
  | notAFolder
deriving DecidableEq, Repr

def RootFault.message : RootFault → Text
  | .missing => "import root does not exist"
  | .notAFolder => "import root is not a directory"

structure RootIssue where
  root : Path
  fault : RootFault
deriving DecidableEq, Repr

structure Discovery where
  files : List Path := []
  issues : List RootIssue := []
deriving DecidableEq, Repr

namespace Discovery

def suffix : Text := ".sigilmod"

def isInterface (name : Text) : Bool :=
  suffix.isSuffixOf name && name.length > suffix.length

/-- The roots to search: normal, without a slash at the end, each one once. An
empty path is no root. -/
def searchRoots (paths : List Path) : List Path :=
  ((paths.filter (!·.isEmpty)).map fun path =>
    { path.normalize with trailing := false }).eraseDups

def issue? (disk : Disk) (root : Path) : Option RootIssue :=
  match disk.find? root.toText with
  | none => some ⟨root, .missing⟩
  | some (.file _) => some ⟨root, .notAFolder⟩
  | some (.folder _) => none

def interfacesBelow (disk : Disk) (root : Path) : List Path :=
  match disk.find? root.toText with
  | some (.folder entries) =>
    let found := (Node.filesAmong entries).filter fun location =>
      isInterface (location.getLastD [])
    found.map fun location =>
      (({ root with names := root.names ++ location } : Path).normalize)
  | _ => []

def run (disk : Disk) (roots : List Path) : Discovery :=
  { files := (Std.TreeSet.ofList (roots.flatMap (interfacesBelow disk))).toList
    issues := roots.filterMap (issue? disk) }

end Discovery

end NameBinding
