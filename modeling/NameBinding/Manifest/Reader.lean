import NameBinding.Manifest
import NameBinding.Manifest.Item

/-!
Reading a manifest. Lines are read one after the other into the blocks that are
open; a line with a fault changes nothing but the list of complaints, except
that `end` closes a block even if something stands after it. Only closed blocks
are part of the manifest.
-/

namespace NameBinding

/-- The open blocks. Modules nest, innermost first here; a unit stands alone. -/
inductive OpenBlock where
  | outside
  | inModule (inner : Module) (outer : List Module)
  | inUnit (unit : SourceUnit)
deriving Repr, Inhabited

structure Reading where
  manifest : Manifest := {}
  block : OpenBlock := .outside
  complaints : List Complaint := []
deriving Repr, Inhabited

namespace OpenBlock

/-- A line outside of all blocks opens one. -/
def enter (mode : ManifestMode) (keyword : Word) (rest : List Word) :
    Except Complaint OpenBlock :=
  if keyword.text == "module" then do
    let name ← keyword.readName "module" rest
    return .inModule { name, span := keyword.span } []
  else if keyword.text == "unit" then
    match mode with
    | .interface => .error (keyword.complain .unitInInterface)
    | .workspace => do
      let name ← keyword.readName "unit" rest
      return .inUnit { module := name, span := keyword.span }
  else .error (keyword.complain (.strayLine keyword.text))

/-- A line of a module opens a submodule or declares a symbol. -/
def extendModule (inner : Module) (outer : List Module) (keyword : Word)
    (rest : List Word) : Except Complaint OpenBlock :=
  if keyword.text == "module" || keyword.text == "unit" then
    .error (keyword.complain (.blockInModule keyword.text inner.name))
  else if keyword.text == "submodule" then do
    let name ← keyword.readName "submodule" rest
    return .inModule { name, span := keyword.span } (inner :: outer)
  else do
    let symbol ← keyword.readSymbol rest
    return .inModule { inner with symbols := inner.symbols ++ [symbol] } outer

/-- A line of a unit adds an import, a declaration or a reference. -/
def extendUnit (unit : SourceUnit) (keyword : Word) (rest : List Word) :
    Except Complaint OpenBlock :=
  if keyword.text == "import" then do
    let declaration ← keyword.readImport rest
    return .inUnit { unit with imports := unit.imports ++ [declaration] }
  else if keyword.text == "declare" then do
    let symbol ← keyword.readDeclaration rest
    return .inUnit { unit with symbols := unit.symbols ++ [symbol] }
  else if keyword.text == "reference" then do
    let reference ← keyword.readReference rest
    return .inUnit { unit with references := unit.references ++ [reference] }
  else .error (keyword.complain (.strayInUnit keyword.text unit.module))

def extend (mode : ManifestMode) (keyword : Word) (rest : List Word) :
    OpenBlock → Except Complaint OpenBlock
  | .outside => enter mode keyword rest
  | .inModule inner outer => extendModule inner outer keyword rest
  | .inUnit unit => extendUnit unit keyword rest

/-- Every block that the source leaves open is a fault of its own; of nested
modules the outermost is named. -/
def unclosed : OpenBlock → List ManifestFault
  | .outside => []
  | .inModule inner outer => [.unclosedModule (outer.getLastD inner).name]
  | .inUnit unit => [.unclosedUnit unit.module]

end OpenBlock

namespace Reading

def complain (reading : Reading) (complaint : Complaint) : Reading :=
  { reading with complaints := reading.complaints ++ [complaint] }

/-- Closes the innermost open block. -/
def close (reading : Reading) (keyword : Word) : Reading :=
  match reading.block with
  | .outside => reading.complain (keyword.complain .nothingToEnd)
  | .inUnit unit =>
    { reading with
      manifest.units := reading.manifest.units ++ [unit]
      block := .outside }
  | .inModule inner [] =>
    { reading with
      manifest.modules := reading.manifest.modules ++ [inner]
      block := .outside }
  | .inModule inner (around :: outer) =>
    { reading with
      block := .inModule { around with submodules := around.submodules ++ [inner] } outer }

def endLine (reading : Reading) (keyword : Word) : (rest : List Word) → Reading
  | [] => reading.close keyword
  | extra :: _ =>
    (reading.complain (extra.complain (.wordAfterEnd extra.text))).close keyword

def line (mode : ManifestMode) (reading : Reading) : (words : List Word) → Reading
  | [] => reading
  | keyword :: rest =>
    if keyword.text == "end" then reading.endLine keyword rest
    else
      match reading.block.extend mode keyword rest with
      | .ok block => { reading with block }
      | .error complaint => reading.complain complaint

def lines (mode : ManifestMode) (reading : Reading) (words : List (List Word)) : Reading :=
  words.foldl (line mode) reading

/-- The end of the source, at the first column of its last line. -/
def finish (reading : Reading) (lineCount : Nat) : Reading :=
  let place : Location := ⟨UInt32.ofNat lineCount, 1⟩
  { reading with
    block := .outside
    complaints := reading.complaints ++
      reading.block.unclosed.map fun fault => ⟨fault, ⟨place, place⟩⟩ }

end Reading

namespace Manifest

def readAll (mode : ManifestMode) (source : Text) : Reading :=
  let lines := Word.ofSource source
  (({} : Reading).lines mode lines).finish lines.length

/-- What the source declares, and what is wrong with it. -/
def read (mode : ManifestMode) (source : Text) : Manifest × List Diagnostic :=
  let reading := readAll mode source
  (reading.manifest, reading.complaints.map (·.diagnostic))

end Manifest

end NameBinding
