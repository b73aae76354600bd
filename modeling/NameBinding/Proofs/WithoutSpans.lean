import NameBinding.Manifest

/-!
Declarations without the places at which they were read: what there is to compare between
manifests whose lines are laid out in different ways.
-/

namespace NameBinding

namespace Symbol

mutual

/-- The symbol with every span taken out, those of its members included. -/
def withoutSpans : Symbol → Symbol
  | ⟨name, kind, owner, signature, members, _⟩ =>
    ⟨name, kind, owner, signature, allWithoutSpans members, {}⟩

def allWithoutSpans : List Symbol → List Symbol
  | [] => []
  | first :: rest => first.withoutSpans :: allWithoutSpans rest

end

@[simp] theorem allWithoutSpans_eq_map (symbols : List Symbol) :
    allWithoutSpans symbols = symbols.map withoutSpans := by
  induction symbols with
  | nil => rfl
  | cons first rest ih => rw [allWithoutSpans, ih, List.map_cons]

theorem withoutSpans_eq (symbol : Symbol) :
    symbol.withoutSpans =
      { symbol with members := symbol.members.map (·.withoutSpans), span := {} } := by
  cases symbol
  rw [withoutSpans, allWithoutSpans_eq_map]

end Symbol

namespace Module

mutual

def withoutSpans : Module → Module
  | ⟨name, symbols, submodules, _⟩ =>
    ⟨name, symbols.map (·.withoutSpans), allWithoutSpans submodules, {}⟩

def allWithoutSpans : List Module → List Module
  | [] => []
  | first :: rest => first.withoutSpans :: allWithoutSpans rest

end

@[simp] theorem allWithoutSpans_eq_map (modules : List Module) :
    allWithoutSpans modules = modules.map withoutSpans := by
  induction modules with
  | nil => rfl
  | cons first rest ih => rw [allWithoutSpans, ih, List.map_cons]

theorem withoutSpans_eq (module : Module) :
    module.withoutSpans =
      { name := module.name
        symbols := module.symbols.map (·.withoutSpans)
        submodules := module.submodules.map (·.withoutSpans) } := by
  cases module
  rw [withoutSpans, allWithoutSpans_eq_map]

theorem withoutSpans_declare (module : Module) (symbol : Symbol) :
    { module with symbols := module.symbols ++ [symbol] }.withoutSpans =
      { module.withoutSpans with
        symbols := module.withoutSpans.symbols ++ [symbol.withoutSpans] } := by
  cases module
  simp [withoutSpans]

theorem withoutSpans_enclose (module inner : Module) :
    { module with submodules := module.submodules ++ [inner] }.withoutSpans =
      { module.withoutSpans with
        submodules := module.withoutSpans.submodules ++ [inner.withoutSpans] } := by
  cases module
  simp [withoutSpans]

end Module

def Import.withoutSpan (declaration : Import) : Import := { declaration with span := {} }

def Reference.withoutSpan (reference : Reference) : Reference := { reference with span := {} }

namespace SourceUnit

def withoutSpans (unit : SourceUnit) : SourceUnit :=
  { module := unit.module
    imports := unit.imports.map (·.withoutSpan)
    symbols := unit.symbols.map (·.withoutSpans)
    references := unit.references.map (·.withoutSpan) }

variable (unit : SourceUnit)

theorem withoutSpans_import (declaration : Import) :
    { unit with imports := unit.imports ++ [declaration] }.withoutSpans =
      { unit.withoutSpans with
        imports := unit.withoutSpans.imports ++ [declaration.withoutSpan] } := by
  simp [withoutSpans]

theorem withoutSpans_declare (symbol : Symbol) :
    { unit with symbols := unit.symbols ++ [symbol] }.withoutSpans =
      { unit.withoutSpans with
        symbols := unit.withoutSpans.symbols ++ [symbol.withoutSpans] } := by
  simp [withoutSpans]

theorem withoutSpans_reference (reference : Reference) :
    { unit with references := unit.references ++ [reference] }.withoutSpans =
      { unit.withoutSpans with
        references := unit.withoutSpans.references ++ [reference.withoutSpan] } := by
  simp [withoutSpans]

end SourceUnit

def Manifest.withoutSpans (manifest : Manifest) : Manifest :=
  { modules := manifest.modules.map (·.withoutSpans)
    units := manifest.units.map (·.withoutSpans) }

end NameBinding
