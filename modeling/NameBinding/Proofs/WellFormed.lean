import NameBinding.Proofs.Registration
import NameBinding.Proofs.Writing

/-!
What reading lets through. Every name that gets into a manifest is an identifier, by whatever
line it came and however faulty the lines around it are. So modules that are read are never
refused for want of a name, and imports that are read are told apart by their descriptions.
-/

namespace NameBinding

/-- A symbol as a line declares it: it has no owner and no signature yet, and its members have
no members. -/
structure Symbol.WellFormed (symbol : Symbol) : Prop where
  name : symbol.name.isIdentifier
  owner : symbol.owner = []
  signature : symbol.signature = []
  members (member : Symbol) : member ∈ symbol.members →
    member.name.isIdentifier ∧ member.owner = [] ∧ member.signature = [] ∧ member.members = []

inductive Module.WellFormed : Module → Prop where
  | intro {module : Module} : module.name.isIdentifier →
      (∀ symbol ∈ module.symbols, symbol.WellFormed) →
      (∀ inner ∈ module.submodules, WellFormed inner) → WellFormed module

structure SourceUnit.WellFormed (unit : SourceUnit) : Prop where
  name : unit.module.isIdentifier
  imports (declaration : Import) : declaration ∈ unit.imports → declaration.Writable
  symbols (symbol : Symbol) : symbol ∈ unit.symbols → symbol.WellFormed
  references (reference : Reference) : reference ∈ unit.references → reference.Writable

structure Manifest.WellFormed (mode : ManifestMode) (manifest : Manifest) : Prop where
  modules (module : Module) : module ∈ manifest.modules → module.WellFormed
  units (unit : SourceUnit) : unit ∈ manifest.units → unit.WellFormed
  unitless : mode = .interface → manifest.units = []

def OpenBlock.WellFormed (mode : ManifestMode) : OpenBlock → Prop
  | .outside => True
  | .inModule inner outer => inner.WellFormed ∧ ∀ module ∈ outer, module.WellFormed
  | .inUnit unit => mode = .workspace ∧ unit.WellFormed

theorem Symbol.wellFormed_withoutSpans {symbol : Symbol} :
    symbol.withoutSpans.WellFormed ↔ symbol.WellFormed := by
  rw [withoutSpans_eq]
  constructor
  · intro h
    refine ⟨h.name, h.owner, h.signature, fun member hmember => ?_⟩
    have hspanless := h.members _ (List.mem_map_of_mem hmember)
    rw [withoutSpans_eq member] at hspanless
    exact ⟨hspanless.1, hspanless.2.1, hspanless.2.2.1, List.map_eq_nil_iff.mp hspanless.2.2.2⟩
  · intro h
    refine ⟨h.name, h.owner, h.signature, List.forall_mem_map.mpr fun member hmember => ?_⟩
    obtain ⟨hname, howner, hsignature, hnone⟩ := h.members member hmember
    rw [withoutSpans_eq member, hnone]
    exact ⟨hname, howner, hsignature, rfl⟩

namespace Module

theorem WellFormed.withoutSpans {module : Module} (h : module.WellFormed) :
    module.withoutSpans.WellFormed := by
  induction h with
  | intro hname hsymbols _ ih =>
      rw [withoutSpans_eq]
      refine .intro hname (List.forall_mem_map.mpr fun symbol hsymbol => ?_)
        (List.forall_mem_map.mpr ih)
      exact Symbol.wellFormed_withoutSpans.mpr (hsymbols symbol hsymbol)

theorem wellFormed_of_withoutSpans :
    (module : Module) → module.withoutSpans.WellFormed → module.WellFormed
  | ⟨name, symbols, submodules, span⟩, h => by
    rw [withoutSpans_eq] at h
    cases h with
    | intro hname hsymbols hsubmodules =>
        refine .intro hname (fun symbol hsymbol => ?_) (fun inner hinner => ?_)
        · exact Symbol.wellFormed_withoutSpans.mp (hsymbols _ (List.mem_map_of_mem hsymbol))
        · have hsize : sizeOf inner < sizeOf submodules := List.sizeOf_lt_of_mem hinner
          exact wellFormed_of_withoutSpans inner (hsubmodules _ (List.mem_map_of_mem hinner))
termination_by module => module
decreasing_by
  simp only [Module.mk.sizeOf_spec]
  omega

theorem wellFormed_withoutSpans {module : Module} :
    module.withoutSpans.WellFormed ↔ module.WellFormed :=
  ⟨wellFormed_of_withoutSpans module, .withoutSpans⟩

end Module

section Forms

variable {words : List Text}

theorem wellFormed_of_memberForms {members : List Symbol}
    (h : List.Forall₂ MemberForm words members) :
    ∀ member ∈ members, member.name.isIdentifier ∧ member.owner = [] ∧
      member.signature = [] ∧ member.members = [] := by
  induction h with
  | nil => simp
  | cons hmember _ ih =>
      refine List.forall_mem_cons.mpr ⟨?_, ih⟩
      cases hmember with
      | plain hname => exact ⟨hname, rfl, rfl, rfl⟩
      | ofKind kind hname => exact ⟨hname, rfl, rfl, rfl⟩

theorem DeclarationForm.wellFormed {symbol : Symbol} (h : DeclarationForm words symbol) :
    symbol.WellFormed := by
  cases h with
  | bare kind hname => exact ⟨hname, rfl, rfl, by simp⟩
  | joined kind hname hmembers => exact ⟨hname, rfl, rfl, wellFormed_of_memberForms hmembers⟩
  | apart kind hname hmembers => exact ⟨hname, rfl, rfl, wellFormed_of_memberForms hmembers⟩

theorem ImportForm.writable {declaration : Import} (h : ImportForm words declaration) :
    declaration.Writable := by
  cases h with
  | @path text module below hpath =>
      obtain ⟨hmodule, hbelow⟩ := List.forall_mem_cons.mp hpath.identifiers
      cases below with
      | nil => exact ⟨hmodule, trivial⟩
      | cons next more => exact ⟨hmodule, next :: more, ⟨by simp, hbelow, rfl⟩⟩
  | symbol kind hmodule hname => exact ⟨hmodule, hname⟩

theorem ReferenceForm.writable {reference : Reference} (h : ReferenceForm words reference) :
    reference.Writable := by
  cases h with
  | plain hpath => exact ⟨hpath.nonempty, hpath.identifiers⟩
  | inContext context hpath => exact ⟨hpath.nonempty, hpath.identifiers⟩

end Forms

namespace OpenBlock

variable {mode : ManifestMode} {block next : OpenBlock}

theorem wellFormed_withoutSpans :
    block.withoutSpans.WellFormed mode ↔ block.WellFormed mode := by
  cases block with
  | outside => exact Iff.rfl
  | inModule inner outer =>
      simp [withoutSpans, WellFormed, Module.wellFormed_withoutSpans]
  | inUnit unit =>
      refine and_congr_right' ⟨fun h => ?_, fun h => ?_⟩
      · refine ⟨h.name, fun declaration hdeclaration => ?_, fun symbol hsymbol => ?_,
          fun reference hreference => ?_⟩
        · exact h.imports declaration.withoutSpan (List.mem_map_of_mem hdeclaration)
        · exact Symbol.wellFormed_withoutSpans.mp (h.symbols _ (List.mem_map_of_mem hsymbol))
        · obtain ⟨hnonempty, hnames⟩ := h.references _ (List.mem_map_of_mem hreference)
          exact ⟨hnonempty, hnames⟩
      · refine ⟨h.name, List.forall_mem_map.mpr fun declaration hdeclaration => ?_,
          List.forall_mem_map.mpr fun symbol hsymbol => ?_,
          List.forall_mem_map.mpr fun reference hreference => ?_⟩
        · exact h.imports declaration hdeclaration
        · exact Symbol.wellFormed_withoutSpans.mpr (h.symbols symbol hsymbol)
        · obtain ⟨hnonempty, hnames⟩ := h.references reference hreference
          exact ⟨hnonempty, hnames⟩

/-- What a line adds to the open blocks is named by identifiers. -/
theorem Takes.wellFormed {words : List Text} (h : Takes mode block words next)
    (hblock : block.WellFormed mode) : next.WellFormed mode := by
  cases h with
  | module hname => exact ⟨.intro hname (by simp) (by simp), by simp⟩
  | unit hmode hname => exact ⟨hmode, hname, by simp, by simp, by simp⟩
  | submodule hname =>
      exact ⟨.intro hname (by simp) (by simp), List.forall_mem_cons.mpr hblock⟩
  | symbol hform =>
      obtain ⟨⟨hname, hsymbols, hsubmodules⟩, houter⟩ := hblock
      refine ⟨.intro hname (List.forall_mem_append.mpr ⟨hsymbols, ?_⟩) hsubmodules, houter⟩
      exact List.forall_mem_singleton.mpr hform.wellFormed
  | «import» hform =>
      obtain ⟨hmode, hunit⟩ := hblock
      refine ⟨hmode, hunit.name, List.forall_mem_append.mpr ⟨hunit.imports, ?_⟩, hunit.symbols,
        hunit.references⟩
      exact List.forall_mem_singleton.mpr hform.writable
  | declare hform =>
      obtain ⟨hmode, hunit⟩ := hblock
      refine ⟨hmode, hunit.name, hunit.imports, List.forall_mem_append.mpr ⟨hunit.symbols, ?_⟩,
        hunit.references⟩
      exact List.forall_mem_singleton.mpr hform.wellFormed
  | reference hform =>
      obtain ⟨hmode, hunit⟩ := hblock
      refine ⟨hmode, hunit.name, hunit.imports, hunit.symbols,
        List.forall_mem_append.mpr ⟨hunit.references, ?_⟩⟩
      exact List.forall_mem_singleton.mpr hform.writable

theorem Ends.wellFormed {manifest ended : Manifest} (h : Ends manifest block ended next)
    (hmanifest : manifest.WellFormed mode) (hblock : block.WellFormed mode) :
    ended.WellFormed mode ∧ next.WellFormed mode := by
  cases h with
  | outside => exact ⟨hmanifest, trivial⟩
  | unit unit =>
      obtain ⟨rfl, hunit⟩ := hblock
      refine ⟨⟨hmanifest.modules, List.forall_mem_append.mpr ⟨hmanifest.units, ?_⟩, nofun⟩,
        trivial⟩
      exact List.forall_mem_singleton.mpr hunit
  | module inner =>
      refine ⟨⟨List.forall_mem_append.mpr ⟨hmanifest.modules, ?_⟩, hmanifest.units,
        hmanifest.unitless⟩, trivial⟩
      exact List.forall_mem_singleton.mpr hblock.1
  | submodule inner around outer =>
      obtain ⟨hinner, houter⟩ := hblock
      obtain ⟨⟨hname, hsymbols, hsubmodules⟩, houter⟩ := List.forall_mem_cons.mp houter
      refine ⟨hmanifest, .intro hname hsymbols (List.forall_mem_append.mpr ⟨hsubmodules, ?_⟩),
        houter⟩
      exact List.forall_mem_singleton.mpr hinner

end OpenBlock

namespace Reading

variable {mode : ManifestMode}

/-- One line keeps what is declared and what is open well formed. -/
theorem wellFormed_line (reading : Reading) (words : List Word)
    (hmanifest : reading.manifest.WellFormed mode) (hblock : reading.block.WellFormed mode) :
    (reading.line mode words).manifest.WellFormed mode ∧
      (reading.line mode words).block.WellFormed mode := by
  cases words with
  | nil => exact ⟨hmanifest, hblock⟩
  | cons keyword rest =>
      by_cases hend : keyword.text = "end"
      · exact (line_end_ends mode reading hend rest).1.wellFormed hmanifest hblock
      · rw [line_other mode reading hend]
        cases hextend : reading.block.extend mode keyword rest with
        | error complaint => exact ⟨hmanifest, hblock⟩
        | ok block =>
            have htakes := OpenBlock.map_extend_eq_ok_iff.mp
              (Complaint.map_eq_ok (·.withoutSpans) hextend)
            have hnext := htakes.wellFormed (OpenBlock.wellFormed_withoutSpans.mpr hblock)
            exact ⟨hmanifest, OpenBlock.wellFormed_withoutSpans.mp hnext⟩

theorem wellFormed_lines (reading : Reading) (words : List (List Word))
    (hmanifest : reading.manifest.WellFormed mode) (hblock : reading.block.WellFormed mode) :
    (reading.lines mode words).manifest.WellFormed mode ∧
      (reading.lines mode words).block.WellFormed mode := by
  induction words generalizing reading with
  | nil => exact ⟨hmanifest, hblock⟩
  | cons first rest ih =>
      obtain ⟨hmanifest', hblock'⟩ := wellFormed_line reading first hmanifest hblock
      exact ih _ hmanifest' hblock'

end Reading

theorem Manifest.wellFormed_read (mode : ManifestMode) (source : Text) :
    (read mode source).1.WellFormed mode :=
  (Reading.wellFormed_lines {} _ ⟨by simp, by simp, fun _ => rfl⟩ trivial).1

namespace Module

theorem WellFormed.name_ne_nil {module : Module} (h : module.WellFormed) : module.name ≠ [] := by
  cases h with
  | intro hname => exact Text.ne_nil_of_isIdentifier hname

/-- Among submodules that have names, and no fault of name inside them, none is refused for
its name. -/
theorem status_faultAmong? {path : Text} {seen : List Text} {modules : List Module}
    {refusal : Refusal} (h : faultAmong? path seen modules = some refusal)
    (hmodules : ∀ inner ∈ modules, inner.name ≠ [] ∧ ∀ path refusal,
      inner.fault? path = some refusal → refusal.cause.status ≠ .invalidModuleName) :
    refusal.cause.status ≠ .invalidModuleName := by
  induction modules generalizing seen with
  | nil => cases h
  | cons first rest ih =>
      obtain ⟨⟨hname, hfirst⟩, hrest⟩ := List.forall_mem_cons.mp hmodules
      simp only [faultAmong?, List.isEmpty_iff, hname, if_false] at h
      split at h
      · obtain rfl := Option.some.inj h
        simp [RefusalCause.status]
      · split at h
        · next found hfound =>
          obtain rfl := Option.some.inj h
          exact hfirst _ _ hfound
        · exact ih h hrest

theorem WellFormed.status_fault? {module : Module} (h : module.WellFormed) {path : Text}
    {refusal : Refusal} (hfault : module.fault? path = some refusal) :
    refusal.cause.status ≠ .invalidModuleName := by
  induction h generalizing path refusal with
  | @intro module hname _ hsubmodules ih =>
      obtain ⟨name, symbols, submodules, span⟩ := module
      unfold fault? at hfault
      split at hfault
      · obtain rfl := Option.some.inj hfault
        simp [RefusalCause.status]
      · exact status_faultAmong? hfault fun inner hinner =>
          ⟨(hsubmodules inner hinner).name_ne_nil, fun _ _ => ih inner hinner⟩

theorem WellFormed.status_register {module : Module} (h : module.WellFormed)
    (registry : Registry) : registry.status module ≠ .invalidModuleName := by
  cases hrefusal : registry.refusal? module with
  | none => simp [Registry.status_of_accepted hrefusal]
  | some refusal =>
      rw [Registry.status_of_refused hrefusal]
      simp only [Registry.refusal?, List.isEmpty_iff, h.name_ne_nil, if_false] at hrefusal
      split at hrefusal
      · obtain rfl := Option.some.inj hrefusal
        simp [RefusalCause.status]
      · split at hrefusal
        · obtain rfl := Option.some.inj hrefusal
          simp [RefusalCause.status]
        · exact h.status_fault? hrefusal

end Module

namespace Import

/-- The words of an import say all there is to say about it. -/
theorem eq_of_importForm {words : List Text} {left right : Import}
    (hleft : ImportForm words left) (hright : ImportForm words right) : left = right := by
  let keyword : Word := ⟨"import", 1, 1⟩
  let rest : List Word := words.map fun text => ⟨text, 1, 1⟩
  have hwords : rest.map (·.text) = words := by simp [rest, Function.comp_def]
  rw [← hwords] at hleft hright
  have hread : (keyword.readImport rest).map (·.withoutSpan) = .ok left :=
    Word.map_readImport_eq_ok_iff.mpr hleft
  rw [Word.map_readImport_eq_ok_iff.mpr hright] at hread
  exact (Except.ok.inj hread).symm

theorem Writable.words_describe {declaration : Import} (h : declaration.Writable) :
    declaration.describe.words = ("import" : Text) :: declaration.words := by
  rw [describe_eq]
  refine Text.words_spaced (List.forall_mem_cons.mpr ⟨?_, ?_⟩)
  · exact Text.isWord_of_isIdentifier (by decide)
  · exact Text.isWord_of_importForm h.importForm

theorem describe_eq_iff {left right : Import} (hleft : left.Writable) (hright : right.Writable) :
    left.describe = right.describe ↔ left.module = right.module ∧ left.target = right.target := by
  constructor
  · intro h
    have hwords := congrArg Text.words h
    rw [hleft.words_describe, hright.words_describe] at hwords
    have hform := hleft.importForm
    rw [(List.cons.inj hwords).2] at hform
    have hsame : left.withoutSpan = right.withoutSpan :=
      eq_of_importForm hform hright.importForm
    obtain ⟨hmodule, htarget, -⟩ := Import.mk.inj hsame
    exact ⟨hmodule, htarget⟩
  · rintro ⟨hmodule, htarget⟩
    rw [describe, describe, hmodule, htarget]

end Import

namespace Manifest

/-- The import declarations of all units. -/
def imports (manifest : Manifest) : List Import := manifest.units.flatMap (·.imports)

theorem WellFormed.imports {mode : ManifestMode} {manifest : Manifest}
    (h : manifest.WellFormed mode) : ∀ declaration ∈ manifest.imports, declaration.Writable := by
  intro declaration hdeclaration
  obtain ⟨unit, hunit, hmember⟩ := List.mem_flatMap.mp hdeclaration
  exact (h.units unit hunit).imports declaration hmember

/-- Whatever bytes are read, what comes out is well formed: names are identifiers, paths are
made of them, members have no members, nothing has an owner or a signature yet, and an
interface has no units. Hence a registry has nothing to say about the name of a module that is
read or of a submodule in it, and two imports that are read, be it from one source or from
two, have one description just if they ask for the same. -/
theorem read_well_formed (mode : ManifestMode) (source : Text) :
    (read mode source).1.WellFormed mode ∧
    (∀ module ∈ (read mode source).1.modules, ∀ registry : Registry,
      registry.status module ≠ .invalidModuleName) ∧
    ∀ (otherMode : ManifestMode) (otherSource : Text),
      ∀ left ∈ (read mode source).1.imports, ∀ right ∈ (read otherMode otherSource).1.imports,
        left.describe = right.describe ↔
          left.module = right.module ∧ left.target = right.target := by
  have hread := wellFormed_read mode source
  refine ⟨hread, ?_, ?_⟩
  · intro module hmodule registry
    exact (hread.modules module hmodule).status_register registry
  · intro otherMode otherSource left hleft right hright
    exact Import.describe_eq_iff (hread.imports left hleft)
      ((wellFormed_read otherMode otherSource).imports right hright)

/-- Lines with names of all the wrong forms around the few that are right. The submodule and
the symbol of one name are two imports, with two descriptions. -/
theorem read_well_formed_stables :
    let source : Text :=
      "module Stables\n  struct 1st\n  struct Horse: gallop func:trot:\n  submodule Hay-loft\n" ++
        "  enum Gait : func:trot gallop\nend\nmodule\nunit Rider\n  import Stables..Gait\n" ++
        "  import Stables.Gait\n  import enum Stables.Gait\n  reference type Stables.\nend\n"
    let manifest : Manifest := (read .workspace source).1
    let gait : Import := ⟨"Stables", .submodule "Gait", ⟨⟨10, 3⟩, ⟨10, 9⟩⟩⟩
    let gaitType : Import := ⟨"Stables", .symbol .enumType "Gait", ⟨⟨11, 3⟩, ⟨11, 9⟩⟩⟩
    (read .workspace source).2.length = 6 ∧ manifest.WellFormed .workspace ∧
      manifest.imports = [gait, gaitType] ∧ gait.describe ≠ gaitType.describe ∧
      manifest.modules.map (·.symbols.map (·.name)) = ([["Gait"]] : List (List Text)) ∧
      ∀ module ∈ manifest.modules, Registry.sports.status module ≠ .invalidModuleName := by
  intro source manifest gait gaitType
  have himports : manifest.imports = [gait, gaitType] := by decide +kernel
  obtain ⟨hread, hregistered, hdescribed⟩ := read_well_formed .workspace source
  refine ⟨by decide +kernel, hread, himports, ?_, by decide +kernel, ?_⟩
  · intro hsame
    have hgait : gait ∈ manifest.imports := by rw [himports]; decide
    have hgaitType : gaitType ∈ manifest.imports := by rw [himports]; decide
    have htarget := ((hdescribed .workspace source gait hgait gaitType hgaitType).mp hsame).2
    exact absurd htarget (by decide)
  · exact fun module hmodule => hregistered module hmodule .sports

end Manifest

end NameBinding
