import NameBinding.Text

/-!
Paths of a file system in which a slash sets names apart. The normal form of a
path is lexical: it takes no notice of what is on the disk.
-/

namespace NameBinding

/-- No name is empty, however many slashes stand side by side. `trailing` tells
whether a slash comes after the last name. -/
structure Path where
  absolute : Bool := false
  names : List Text := []
  trailing : Bool := false
deriving DecidableEq, Repr, Inhabited

namespace Path

def here : Text := "."
def up : Text := ".."

/-- A name that makes no entry: it stays in a folder or goes back up. -/
def isDots (name : Text) : Bool := name == here || name == up

def ofText (text : Text) : Path :=
  let names := (text.splitOn Text.slash).filter (!·.isEmpty)
  { absolute := text.head? == some Text.slash
    names
    trailing := !names.isEmpty && text.getLast? == some Text.slash }

def toText (path : Path) : Text :=
  let root : Text := if path.absolute then "/" else []
  let close : Text := if path.trailing then "/" else []
  root ++ [Text.slash].intercalate path.names ++ close

def isEmpty (path : Path) : Bool := !path.absolute && path.names.isEmpty

/-- What stands before the last name of a written path, or before the slashes at
its end. It is cut as it is written, so that slashes side by side and dots are
kept. -/
def folderPart (written : Text) : Text :=
  let backwards := written.reverse.dropWhile (· != Text.slash)
  match backwards.dropWhile (· == Text.slash) with
  | [] => if backwards.isEmpty then [] else [Text.slash]
  | folder => folder.reverse

/-- One more name on a normal path. A dot leaves a slash behind, and two dots
take away the name before them. Above an absolute root there is nothing. -/
def advance (path : Path) (name : Text) : Path :=
  if name == here then { path with trailing := !path.names.isEmpty }
  else if name == up then
    match path.names.getLast? with
    | none => if path.absolute then path else { path with names := [up] }
    | some last =>
      if last == up then { path with names := path.names ++ [up], trailing := false }
      else
        { path with
          names := path.names.dropLast
          trailing := !path.names.dropLast.isEmpty }
  else { path with names := path.names ++ [name], trailing := false }

/-- Two dots at the end bear no slash, and an empty path is a dot. -/
def tidy (path : Path) : Path :=
  if path.isEmpty then { names := [here] }
  else if path.names.getLast? == some up then { path with trailing := false }
  else path

/-- The path without dots, and with two dots at most at the front. The empty
path is its own normal form. -/
def normalize (path : Path) : Path :=
  if path.isEmpty then path
  else
    let plain := path.names.foldl advance { absolute := path.absolute }
    let closed := if path.trailing then plain.advance here else plain
    closed.tidy

/-- Relative paths come before absolute ones; then the names decide, one by one
and byte by byte. -/
def order : Path → Path → Ordering :=
  compareLex (compareOn Path.absolute)
    (compareLex (compareOn Path.names) (compareOn Path.trailing))

instance : Ord Path := ⟨order⟩

instance : Std.TransOrd Path :=
  inferInstanceAs (Std.TransCmp (compareLex (compareOn Path.absolute)
    (compareLex (compareOn Path.names) (compareOn Path.trailing))))

end Path

end NameBinding
