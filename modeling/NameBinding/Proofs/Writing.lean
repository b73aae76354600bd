import NameBinding.Proofs.Acceptance
import NameBinding.Proofs.Layout

/-!
Manifests written as text. What is written is a manifest by the grammar, so reading it gives
the manifest back, whatever names and however deep a nest of submodules it has.
-/

namespace NameBinding

namespace Symbol

mutual

/-- The symbol as far as a manifest tells it: the owner and the signature are unknown. -/
def bare : Symbol → Symbol
  | ⟨name, kind, _, _, members, _⟩ => { name, kind, members := allBare members }

def allBare : List Symbol → List Symbol
  | [] => []
  | first :: rest => first.bare :: allBare rest

end

@[simp] theorem allBare_eq_map (symbols : List Symbol) :
    allBare symbols = symbols.map bare := by
  induction symbols with
  | nil => rfl
  | cons first rest ih => rw [allBare, ih, List.map_cons]

theorem bare_eq (symbol : Symbol) :
    symbol.bare =
      { name := symbol.name, kind := symbol.kind, members := symbol.members.map bare } := by
  cases symbol
  rw [bare, allBare_eq_map]

def memberWord (member : Symbol) : Text := member.kind.keyword ++ ":" ++ member.name

/-- The words of a declaration. A colon stands before the members if there are any. -/
def words (symbol : Symbol) : List Text :=
  symbol.kind.keyword :: symbol.name ::
    if symbol.members.isEmpty then [] else ":" :: symbol.members.map memberWord

/-- A line has a place for the names of a symbol and its members, and for no more. -/
structure Writable (symbol : Symbol) : Prop where
  name : symbol.name.isIdentifier
  memberName (member : Symbol) : member ∈ symbol.members → member.name.isIdentifier
  memberless (member : Symbol) : member ∈ symbol.members → member.members = []

instance (symbol : Symbol) : Decidable symbol.Writable :=
  decidable_of_iff
    (symbol.name.isIdentifier ∧ (∀ member ∈ symbol.members, member.name.isIdentifier) ∧
      ∀ member ∈ symbol.members, member.members = [])
    ⟨fun h => ⟨h.1, h.2.1, h.2.2⟩, fun h => ⟨h.name, h.memberName, h.memberless⟩⟩

variable {symbol : Symbol}

theorem Writable.declarationForm (h : symbol.Writable) :
    DeclarationForm symbol.words symbol.bare := by
  rw [bare_eq, words]
  cases hmembers : symbol.members with
  | nil => exact .bare symbol.kind h.name
  | cons first rest =>
      refine .apart symbol.kind h.name ?_
      rw [← hmembers, List.forall₂_map_left_iff, List.forall₂_map_right_iff, List.forall₂_same]
      intro member hmember
      rw [bare_eq, h.memberless member hmember]
      exact .ofKind member.kind (h.memberName member hmember)

end Symbol

namespace Module

mutual

def bare : Module → Module
  | ⟨name, symbols, submodules, _⟩ =>
    { name, symbols := symbols.map (·.bare), submodules := allBare submodules }

def allBare : List Module → List Module
  | [] => []
  | first :: rest => first.bare :: allBare rest

end

@[simp] theorem allBare_eq_map (modules : List Module) :
    allBare modules = modules.map bare := by
  induction modules with
  | nil => rfl
  | cons first rest ih => rw [allBare, ih, List.map_cons]

theorem bare_eq (module : Module) :
    module.bare =
      { name := module.name
        symbols := module.symbols.map (·.bare)
        submodules := module.submodules.map bare } := by
  cases module
  rw [bare, allBare_eq_map]

mutual

/-- The lines inside the module: its symbols, then a block for each submodule. -/
def lines : Module → List Text
  | ⟨_, symbols, submodules, _⟩ =>
    symbols.map (fun symbol => Text.spaced symbol.words) ++ submoduleLines submodules

def submoduleLines : List Module → List Text
  | [] => []
  | first :: rest => Text.enclosed "submodule" first.name first.lines ++ submoduleLines rest

end

theorem submoduleLines_eq_flatMap (modules : List Module) :
    submoduleLines modules =
      modules.flatMap fun module => Text.enclosed "submodule" module.name module.lines := by
  induction modules with
  | nil => rfl
  | cons first rest ih => rw [submoduleLines, ih, List.flatMap_cons]

theorem lines_eq (module : Module) :
    module.lines =
      module.symbols.map (fun symbol => Text.spaced symbol.words) ++
        module.submodules.flatMap fun submodule =>
          Text.enclosed "submodule" submodule.name submodule.lines := by
  cases module
  rw [lines, submoduleLines_eq_flatMap]

inductive Writable : Module → Prop where
  | intro {module : Module} : module.name.isIdentifier →
      (∀ symbol ∈ module.symbols, symbol.Writable) →
      (∀ submodule ∈ module.submodules, Writable submodule) → Writable module

end Module

namespace Import

/-- The words after `import`. -/
def words (declaration : Import) : List Text :=
  match declaration.target with
  | .everything => [declaration.module]
  | .symbol kind name => [kind.keyword, declaration.module ++ "." ++ name]
  | .submodule path => [declaration.module ++ "." ++ path]

/-- What is imported is named by an identifier, and a submodule by a path of them. -/
def Writable (declaration : Import) : Prop :=
  declaration.module.isIdentifier ∧
    match declaration.target with
    | .everything => True
    | .symbol _ name => name.isIdentifier
    | .submodule path => ∃ names, NamePath path names

instance : DecidablePred Writable
  | ⟨module, .everything, _⟩ => inferInstanceAs (Decidable (module.isIdentifier ∧ True))
  | ⟨module, .symbol _ name, _⟩ =>
    inferInstanceAs (Decidable (module.isIdentifier ∧ name.isIdentifier))
  | ⟨module, .submodule path, _⟩ =>
    decidable_of_iff (module.isIdentifier ∧ path.isDottedPath)
      (and_congr_right'
        ⟨fun h => ⟨_, Text.isDottedPath_iff.mp h⟩, fun ⟨_, hnames⟩ => hnames.isDottedPath⟩)

variable {declaration : Import}

theorem describe_eq (declaration : Import) :
    declaration.describe = Text.spaced ("import" :: declaration.words) := by
  unfold describe words
  cases declaration.target <;> simp [Text.spaced, List.intercalate_cons_cons] <;> rfl

theorem Writable.importForm (h : declaration.Writable) :
    ImportForm declaration.words declaration.withoutSpan := by
  obtain ⟨module, target, span⟩ := declaration
  obtain ⟨hmodule, htarget⟩ := h
  cases target with
  | everything => exact .path (.singleton hmodule)
  | symbol kind name => exact .symbol kind hmodule htarget
  | submodule path =>
      obtain ⟨names, hnames⟩ := htarget
      have hform := ImportForm.path (hnames.cons hmodule)
      rwa [← hnames.submodule_eq] at hform

end Import

namespace Reference

/-- The words after `reference`; that any kind will do is not said. -/
def words (reference : Reference) : List Text :=
  match reference.context with
  | .any => [reference.text]
  | context => [context.word, reference.text]

structure Writable (reference : Reference) : Prop where
  nonempty : reference.path ≠ []
  identifiers (name : Text) : name ∈ reference.path → name.isIdentifier

instance (reference : Reference) : Decidable reference.Writable :=
  decidable_of_iff (reference.path ≠ [] ∧ ∀ name ∈ reference.path, name.isIdentifier)
    ⟨fun h => ⟨h.1, h.2⟩, fun h => ⟨h.nonempty, h.identifiers⟩⟩

variable {reference : Reference}

theorem Writable.namePath (h : reference.Writable) : NamePath reference.text reference.path :=
  ⟨h.nonempty, h.identifiers, rfl⟩

theorem Writable.referenceForm (h : reference.Writable) :
    ReferenceForm reference.words reference.withoutSpan := by
  obtain ⟨path, context, span⟩ := reference
  cases context with
  | any => exact .plain h.namePath
  | value => exact .inContext .value h.namePath
  | type => exact .inContext .type h.namePath

end Reference

namespace SourceUnit

def bare (unit : SourceUnit) : SourceUnit :=
  { module := unit.module
    imports := unit.imports.map (·.withoutSpan)
    symbols := unit.symbols.map (·.bare)
    references := unit.references.map (·.withoutSpan) }

def lines (unit : SourceUnit) : List Text :=
  unit.imports.map (·.describe) ++
    (unit.symbols.map (fun symbol => Text.spaced ("declare" :: symbol.words)) ++
      unit.references.map fun reference => Text.spaced ("reference" :: reference.words))

structure Writable (unit : SourceUnit) : Prop where
  name : unit.module.isIdentifier
  imports (declaration : Import) : declaration ∈ unit.imports → declaration.Writable
  symbols (symbol : Symbol) : symbol ∈ unit.symbols → symbol.Writable
  references (reference : Reference) : reference ∈ unit.references → reference.Writable

end SourceUnit

namespace Manifest

def bare (manifest : Manifest) : Manifest :=
  { modules := manifest.modules.map (·.bare)
    units := manifest.units.map (·.bare) }

def lines (manifest : Manifest) : List Text :=
  manifest.modules.flatMap (fun module => Text.enclosed "module" module.name module.lines) ++
    manifest.units.flatMap fun unit => Text.enclosed "unit" unit.module unit.lines

def write (manifest : Manifest) : Text := Text.ofLines manifest.lines

structure Writable (manifest : Manifest) : Prop where
  modules (module : Module) : module ∈ manifest.modules → module.Writable
  units (unit : SourceUnit) : unit ∈ manifest.units → unit.Writable

end Manifest

open Text

namespace Module

theorem spelled_symbols {symbols : List Symbol} {submodules : List Module} {lines : List Text}
    (hsymbols : ∀ symbol ∈ symbols, symbol.Writable)
    (h : Spelled lines (ModuleBody · [] submodules)) :
    Spelled (symbols.map (fun symbol => spaced symbol.words) ++ lines)
      (ModuleBody · (symbols.map (·.bare)) submodules) := by
  rw [List.map_eq_flatMap]
  refine spelled_flatMap (fun symbols body => ModuleBody body (symbols.map _) _) h ?_
  intro symbol hsymbol
  have hform := (hsymbols symbol hsymbol).declarationForm
  have hspells := spells_spaced (by simp [Symbol.words]) (isWord_of_declarationForm hform)
  exact spelled_singleton hspells fun _ _ hbody => .symbol hform hbody

theorem spelled_submodules {submodules : List Module}
    (h : ∀ submodule ∈ submodules, submodule.name.isIdentifier ∧
      Spelled submodule.lines (ModuleBody · (submodule.symbols.map (·.bare))
        (submodule.submodules.map (·.bare)))) :
    Spelled (submodules.flatMap fun submodule =>
        enclosed "submodule" submodule.name submodule.lines)
      (ModuleBody · [] (submodules.map (·.bare))) := by
  rw [← List.append_nil (submodules.flatMap _)]
  refine spelled_flatMap (fun submodules body => ModuleBody body _ (submodules.map _))
    (spelled_nil .done) ?_
  intro submodule hsubmodule
  obtain ⟨hname, hlines⟩ := h submodule hsubmodule
  refine spelled_enclosed (by decide) hname hlines ?_
  intro words hwords rest body hbody
  rw [List.map_cons, bare_eq]
  exact .submodule hname hwords hbody

/-- By induction over the nest of submodules. -/
theorem Writable.spelled {module : Module} (h : module.Writable) :
    module.name.isIdentifier ∧
      Spelled module.lines (ModuleBody · (module.symbols.map (·.bare))
        (module.submodules.map (·.bare))) := by
  induction h with
  | intro hname hsymbols _ ih =>
      rw [lines_eq]
      exact ⟨hname, spelled_symbols hsymbols (spelled_submodules ih)⟩

end Module

namespace SourceUnit

theorem spelled_references {references : List Reference}
    (h : ∀ reference ∈ references, reference.Writable) :
    Spelled (references.map fun reference => spaced ("reference" :: reference.words))
      (UnitBody · [] [] (references.map (·.withoutSpan))) := by
  rw [List.map_eq_flatMap, ← List.append_nil (references.flatMap _)]
  refine spelled_flatMap (fun references body => UnitBody body _ _ (references.map _))
    (spelled_nil .done) ?_
  intro reference hreference
  have hform := (h reference hreference).referenceForm
  have hspells := spells_keyword "reference" (by decide) (isWord_of_referenceForm hform)
  exact spelled_singleton hspells fun _ _ hbody => .reference hform hbody

theorem spelled_declarations {symbols : List Symbol} {references : List Reference}
    {lines : List Text} (hsymbols : ∀ symbol ∈ symbols, symbol.Writable)
    (h : Spelled lines (UnitBody · [] [] references)) :
    Spelled (symbols.map (fun symbol => spaced ("declare" :: symbol.words)) ++ lines)
      (UnitBody · [] (symbols.map (·.bare)) references) := by
  rw [List.map_eq_flatMap]
  refine spelled_flatMap (fun symbols body => UnitBody body _ (symbols.map _) _) h ?_
  intro symbol hsymbol
  have hform := (hsymbols symbol hsymbol).declarationForm
  have hspells := spells_keyword "declare" (by decide) (isWord_of_declarationForm hform)
  exact spelled_singleton hspells fun _ _ hbody => .declare hform hbody

theorem spelled_imports {imports : List Import} {symbols : List Symbol}
    {references : List Reference} {lines : List Text}
    (himports : ∀ declaration ∈ imports, declaration.Writable)
    (h : Spelled lines (UnitBody · [] symbols references)) :
    Spelled (imports.map (·.describe) ++ lines)
      (UnitBody · (imports.map (·.withoutSpan)) symbols references) := by
  rw [List.map_eq_flatMap]
  refine spelled_flatMap (fun imports body => UnitBody body (imports.map _) _ _) h ?_
  intro declaration hdeclaration
  have hform := (himports declaration hdeclaration).importForm
  have hspells := spells_keyword "import" (by decide) (isWord_of_importForm hform)
  rw [Import.describe_eq]
  exact spelled_singleton hspells fun _ _ hbody => .import hform hbody

theorem Writable.spelled {unit : SourceUnit} (h : unit.Writable) :
    Spelled unit.lines (UnitBody · (unit.imports.map (·.withoutSpan))
      (unit.symbols.map (·.bare)) (unit.references.map (·.withoutSpan))) :=
  spelled_imports h.imports (spelled_declarations h.symbols (spelled_references h.references))

end SourceUnit

namespace Manifest

theorem spelled_units {units : List SourceUnit} (h : ∀ unit ∈ units, unit.Writable) :
    Spelled (units.flatMap fun unit => enclosed "unit" unit.module unit.lines)
      (ManifestForm .workspace · { units := units.map (·.bare) }) := by
  rw [← List.append_nil (units.flatMap _)]
  refine spelled_flatMap (fun units body => ManifestForm _ body { units := units.map _ })
    (spelled_nil .done) ?_
  intro unit hunit
  have hwritable := h unit hunit
  exact spelled_enclosed (by decide) hwritable.name hwritable.spelled
    fun _ hinner _ _ hform => .unit hwritable.name hinner hform

theorem spelled_modules {mode : ManifestMode} {modules : List Module} {units : List SourceUnit}
    {lines : List Text} (hmodules : ∀ module ∈ modules, module.Writable)
    (h : Spelled lines (ManifestForm mode · { units })) :
    Spelled (modules.flatMap (fun module => enclosed "module" module.name module.lines) ++ lines)
      (ManifestForm mode · { modules := modules.map (·.bare), units }) := by
  refine spelled_flatMap (fun modules body => ManifestForm mode body ⟨modules.map _, units⟩) h ?_
  intro module hmodule
  obtain ⟨hname, hlines⟩ := (hmodules module hmodule).spelled
  refine spelled_enclosed (by decide) hname hlines ?_
  intro words hwords rest body hform
  rw [List.map_cons, Module.bare_eq]
  exact .module hname hwords hform

theorem Writable.spelled {manifest : Manifest} (h : manifest.Writable) {mode : ManifestMode}
    (hmode : mode = .workspace ∨ manifest.units = []) :
    Spelled manifest.lines (ManifestForm mode · manifest.bare) := by
  refine spelled_modules h.modules ?_
  rcases hmode with rfl | hunits
  · exact spelled_units h.units
  · rw [hunits]
    exact spelled_nil .done

/-- A manifest that is written is read again, less the places, owners and signatures, which
are not written. An interface file holds one that has no units. -/
theorem read_write {manifest : Manifest} (h : manifest.Writable) {mode : ManifestMode}
    (hmode : mode = .workspace ∨ manifest.units = []) :
    (read mode manifest.write).2 = [] ∧
      (read mode manifest.write).1.withoutSpans = manifest.bare :=
  manifestForm_iff_read.mp (h.spelled hmode).wordLines

/-- Names that are words of the format elsewhere, a submodule in a submodule, and all forms
of imports and references. The owner of a symbol is lost. -/
theorem read_write_keywords :
    let innermost : Module := { name := "end", symbols := [{ name := "module" }] }
    let relay : Module := { name := "submodule", submodules := [innermost] }
    let medal : Symbol :=
      { name := "value", kind := .enumType, owner := "end"
        members := [{ name := "import", kind := .constant }, { name := "func" }] }
    let sports : Module := { name := "end", symbols := [medal], submodules := [relay] }
    let unit : SourceUnit :=
      { module := "unit"
        imports :=
          [{ module := "end" }, { module := "end", target := .symbol .enumType "value" },
            { module := "end", target := .submodule "submodule.end" }]
        symbols := [{ name := "declare", kind := .structType }]
        references :=
          [{ path := ["reference"] }, { path := ["end", "value"], context := .type },
            { path := ["any"], context := .value }] }
    let manifest : Manifest := { modules := [sports], units := [unit] }
    let source : Text :=
      "module end\n  enum value : let:import func:func\n  submodule submodule\n" ++
        "    submodule end\n      func module\n    end\n  end\nend\nunit unit\n" ++
        "  import end\n  import enum end.value\n  import end.submodule.end\n" ++
        "  declare struct declare\n  reference reference\n  reference type end.value\n" ++
        "  reference value any\nend\n"
    manifest.Writable ∧ manifest.write = source ∧ (read .workspace source).2 = [] ∧
      (read .workspace source).1.withoutSpans = manifest.bare := by
  intro innermost relay medal sports unit manifest source
  have hinnermost : innermost.Writable := .intro (by decide) (by decide) (by simp [innermost])
  have hrelay : relay.Writable :=
    .intro (by decide) (by decide) (List.forall_mem_singleton.mpr hinnermost)
  have hsports : sports.Writable :=
    .intro (by decide) (by decide) (List.forall_mem_singleton.mpr hrelay)
  have hunit : unit.Writable := ⟨by decide, by decide, by decide, by decide⟩
  have hmanifest : manifest.Writable :=
    ⟨List.forall_mem_singleton.mpr hsports, List.forall_mem_singleton.mpr hunit⟩
  have hsource : manifest.write = source := by decide +kernel
  have hread := read_write hmanifest (.inl (rfl : ManifestMode.workspace = .workspace))
  rw [hsource] at hread
  exact ⟨hmanifest, hsource, hread⟩

end Manifest

end NameBinding
