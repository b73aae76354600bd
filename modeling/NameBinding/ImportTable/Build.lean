import NameBinding.Import
import NameBinding.ImportTable
import NameBinding.Options
import NameBinding.Registry

/-!
Building the import table of a unit. What a declaration contributes depends on
that declaration, the registry, the unit's name and the options only; the table
is the sequence of the contributions. Only the warning about a redundant import
looks back at the declarations before.
-/

namespace NameBinding

inductive ImportFault where
  | selfImport
  | missingModule
  | missingSubmodule (path : Text)
  | missingSymbol (kind : Kind) (name : Text)
deriving DecidableEq, Repr

namespace ImportFault

def status : ImportFault → ImportStatus
  | .selfImport => .selfImport
  | .missingModule => .moduleNotFound
  | .missingSubmodule _ => .submoduleNotFound
  | .missingSymbol .. => .symbolNotFound

def code : ImportFault → Text
  | .missingModule => "SIGIL-E2101"
  | .missingSubmodule _ => "SIGIL-E2102"
  | .missingSymbol .. => "SIGIL-E2103"
  | .selfImport => "SIGIL-E2104"

def message (declaration : Import) : ImportFault → Text
  | .missingModule =>
    "Import " ++ declaration.module.quoted ++ " could not be resolved: no such module."
  | .missingSubmodule path =>
    "Module " ++ declaration.module.quoted ++ " has no submodule named " ++
      path.quoted ++ "."
  | .missingSymbol kind name =>
    "Module " ++ declaration.module.quoted ++ " has no " ++ kind.keyword ++ " named " ++
      name.quoted ++ "."
  | .selfImport =>
    "Module " ++ declaration.module.quoted ++ " cannot import itself (" ++
      declaration.describe.quoted ++ ")."

def diagnostic (declaration : Import) (fault : ImportFault) : Diagnostic :=
  { code := fault.code, message := fault.message declaration, span := declaration.span }

end ImportFault

/-- The symbols that a declaration brings in, or why it brings in none. -/
abbrev Contribution := Except ImportFault (List Located)

namespace Contribution

def status : Contribution → ImportStatus
  | .ok _ => .resolved
  | .error fault => fault.status

def symbols : Contribution → List Located
  | .ok symbols => symbols
  | .error _ => []

def diagnostics (contribution : Contribution) (declaration : Import) : List Diagnostic :=
  match contribution with
  | .ok _ => []
  | .error fault => [fault.diagnostic declaration]

end Contribution

namespace Import

/-- A single symbol is bound more tightly than what comes with a module. -/
def tier (declaration : Import) : Tier :=
  match declaration.target with
  | .symbol .. => .importedDeclaration
  | .everything | .submodule _ => .importedModule

/-- A unit without a name imports itself nowhere. -/
def isSelf (declaration : Import) (unit : Text) : Bool :=
  !unit.isEmpty && declaration.module == unit

def contribution (declaration : Import) (registry : Registry) (unit : Text)
    (options : Options) : Contribution :=
  if declaration.isSelf unit then .error .selfImport
  else
    match registry.lookup? declaration.module with
    | none => .error .missingModule
    | some scope =>
      match declaration.target with
      | .everything => .ok (scope.exposed options.reexport)
      | .submodule path =>
        match scope.findSubmodule? path with
        | some inner => .ok (inner.exposed options.reexport)
        | none => .error (.missingSubmodule path)
      | .symbol kind name =>
        match scope.findDeclared? kind name with
        | some symbol => .ok [symbol]
        | none => .error (.missingSymbol kind name)

/-- The record of a declaration that made `count` bindings. -/
def entry (declaration : Import) (contribution : Contribution) (count : Nat) : ImportEntry :=
  { description := declaration.describe
    module := declaration.module
    status := contribution.status
    bindingCount := count
    span := declaration.span }

def bindings (declaration : Import) (order : Nat) (contribution : Contribution) :
    List Binding :=
  contribution.symbols.map fun located =>
    ⟨located.symbol.name, located, declaration.tier, order⟩

def redundant (declaration : Import) : Diagnostic :=
  { code := "SIGIL-W2105"
    message := "Redundant " ++ declaration.describe.quoted ++
      ": already imported above."
    span := declaration.span
    severity := .warning }

end Import

namespace ImportTable

/-- A table under construction. `seen` holds what the declarations so far say,
self imports left out. -/
structure Build where
  table : ImportTable := {}
  seen : List Text := []
  diagnostics : List Diagnostic := []

namespace Build

/-- The warning about a repetition, where one is due. -/
def warnings (build : Build) (unit : Text) (options : Options) (declaration : Import) :
    List Diagnostic :=
  if !declaration.isSelf unit && build.seen.contains declaration.describe &&
      options.reportRedundant then
    [declaration.redundant]
  else []

/-- The declaration at position `order`. Its warning comes before its error. -/
def add (registry : Registry) (unit : Text) (options : Options) (build : Build)
    (declaration : Import) (order : Nat) : Build :=
  let contribution := declaration.contribution registry unit options
  let (table, count) := build.table.addCounted (declaration.bindings order contribution)
  { table := table.addEntry (declaration.entry contribution count)
    seen := if declaration.isSelf unit then build.seen
      else declaration.describe :: build.seen
    diagnostics := build.diagnostics ++ build.warnings unit options declaration ++
      contribution.diagnostics declaration }

end Build

/-- The table of a unit's imports, with the diagnostics they give rise to. -/
def build (registry : Registry) (unit : Text) (options : Options)
    (imports : List Import) : ImportTable × List Diagnostic :=
  let built := imports.zipIdx.foldl
    (fun built (declaration, order) => built.add registry unit options declaration order)
    ({} : Build)
  (built.table, built.diagnostics)

end ImportTable

end NameBinding
