import NameBinding.Proofs.Dependence
import NameBinding.Proofs.Soundness
import NameBinding.Proofs.WellFormed

/-!
What resolving speaks of. Modules and units that are read name what they declare by identifiers,
and hand it to owners that are paths of them. Resolving adds no name of its own, so this is true
of every symbol that it finds or offers as a candidate.
-/

namespace NameBinding

namespace Symbol

/-- The symbol and everything below it is named by an identifier and owned by a path of them. -/
inductive Named : Symbol → Prop where
  | intro {symbol : Symbol} : symbol.name.isIdentifier → symbol.owner.isDottedPath →
      (∀ member ∈ symbol.members, Named member) → Named symbol

theorem WellFormed.named_ownedBy {symbol : Symbol} (h : symbol.WellFormed) {owner : Text}
    (howner : owner.isDottedPath) : (symbol.ownedBy owner).Named := by
  refine .intro ?_ ?_ ?_
  · rw [name_ownedBy]
    exact h.name
  · rwa [owner_ownedBy]
  · rw [members_ownedBy]
    refine List.forall_mem_map.mpr fun member hmember => ?_
    obtain ⟨hname, -, -, hnone⟩ := h.members member hmember
    refine .intro ?_ ?_ ?_
    · rwa [name_ownedBy]
    · rwa [owner_ownedBy]
    · simp [hnone]

end Symbol

theorem Located.Leads.named {located target : Located} (h : located.Leads target)
    (hlocated : located.symbol.Named) : target.symbol.Named := by
  induction h with
  | here => exact hlocated
  | down hmember _ ih =>
      obtain ⟨index, hindex, -⟩ := mem_members hmember
      obtain ⟨-, -, hmembers⟩ := hlocated
      exact ih (hmembers _ (List.mem_of_getElem? hindex))

/-- The symbols of the module and of the modules inside it, at any depth, have such names. -/
inductive Module.Named : Module → Prop where
  | intro {module : Module} : (∀ symbol ∈ module.symbols, symbol.Named) →
      (∀ inner ∈ module.submodules, Named inner) → Named module

namespace Text

theorem isDottedPath_of_isIdentifier {name : Text} (h : name.isIdentifier) : name.isDottedPath :=
  (NamePath.singleton h).isDottedPath

theorem isDottedPath_below {path name : Text} (hpath : path.isDottedPath)
    (hname : name.isIdentifier) : (path ++ "." ++ name).isDottedPath := by
  have hnames := isDottedPath_iff.mp hpath
  have hbelow : NamePath (path ++ "." ++ name) (path.parts ++ [name]) := by
    refine ⟨by simp, ?_, ?_⟩
    · exact List.forall_mem_append.mpr ⟨hnames.identifiers, List.forall_mem_singleton.mpr hname⟩
    · rw [dotted_append_singleton hnames.nonempty, dotted_parts]
  exact hbelow.isDottedPath

end Text

/-- A path of names adds a name at each step down. -/
theorem Module.WellFormed.named_owned {module : Module} (h : module.WellFormed) {path : Text}
    (hpath : path.isDottedPath) : (module.owned path).Named := by
  induction h generalizing path with
  | @intro module _ hsymbols hsubmodules ih =>
      refine .intro ?_ ?_
      · rw [symbols_owned]
        exact List.forall_mem_map.mpr fun symbol hsymbol =>
          (hsymbols symbol hsymbol).named_ownedBy hpath
      · rw [submodules_owned]
        refine List.forall_mem_map.mpr fun inner hinner => ih inner hinner ?_
        obtain ⟨hname, -, -⟩ := hsubmodules inner hinner
        exact Text.isDottedPath_below hpath hname

theorem Scope.Leads.named {outer inner : Scope} {path : List Text} (h : outer.Leads path inner)
    (houter : outer.module.Named) : inner.module.Named := by
  induction h with
  | here => exact houter
  | down hinner _ ih =>
      obtain ⟨index, hindex, -⟩ := mem_submodules hinner
      obtain ⟨-, hsubmodules⟩ := houter
      exact ih (hsubmodules _ (List.mem_of_getElem? hindex))

theorem Module.Named.symbol_of_mem {scope : Scope} (h : scope.module.Named) {located : Located}
    (hlocated : located ∈ scope.symbols) : located.symbol.Named := by
  obtain ⟨index, hindex, -⟩ := Scope.mem_symbols hlocated
  obtain ⟨hsymbols, -⟩ := h
  exact hsymbols _ (List.mem_of_getElem? hindex)

namespace Registry

/-- The registries that are filled with modules read from sources. -/
inductive FromSources : Registry → Prop where
  | empty : FromSources {}
  | register {registry : Registry} {module : Module} (mode : ManifestMode) (source : Text) :
      module ∈ (Manifest.read mode source).1.modules →
        FromSources registry → FromSources (registry.register module)
  | freeze {registry : Registry} : FromSources registry → FromSources registry.freeze

variable {registry : Registry}

theorem FromSources.reachable (h : registry.FromSources) : registry.Reachable := by
  induction h with
  | empty => exact .empty
  | register mode source _ _ ih => exact .register _ ih
  | freeze _ ih => exact .freeze ih

theorem FromSources.registerAll (h : registry.FromSources) (mode : ManifestMode) (source : Text) :
    (registry.registerAll (Manifest.read mode source).1.modules).FromSources := by
  have hfold (modules : List Module) (hread : ∀ module ∈ modules,
      module ∈ (Manifest.read mode source).1.modules) :
      (registry.registerAll modules).FromSources := by
    induction modules generalizing registry with
    | nil => exact h
    | cons first rest ih =>
        obtain ⟨hfirst, hrest⟩ := List.forall_mem_cons.mp hread
        exact ih (.register mode source hfirst h) hrest
  exact hfold _ fun _ hmodule => hmodule

theorem FromSources.named (h : registry.FromSources) :
    ∀ module ∈ registry.modules, module.Named := by
  induction h with
  | empty => simp
  | freeze _ ih => exact ih
  | @register registry module mode source hmodule _ ih =>
      cases hrefusal : registry.refusal? module with
      | some refusal =>
          rw [register_of_refused hrefusal]
          exact ih
      | none =>
          rw [register_of_accepted hrefusal]
          have hread := (Manifest.wellFormed_read mode source).modules module hmodule
          have hname : module.name.isDottedPath := by
            obtain ⟨hname, -, -⟩ := hread
            exact Text.isDottedPath_of_isIdentifier hname
          intro other hother
          rcases Array.mem_push.mp hother with hold | rfl
          · exact ih other hold
          · exact hread.named_owned hname

theorem FromSources.lookup? (h : registry.FromSources) {name : Text} {scope : Scope}
    (hfound : registry.lookup? name = some scope) : scope.module.Named := by
  unfold Registry.lookup? at hfound
  obtain ⟨position, -, hposition⟩ := Option.bind_eq_some_iff.mp hfound
  obtain ⟨module, hmodule, hscope⟩ := Option.bind_eq_some_iff.mp hposition
  obtain rfl := Option.some.inj hscope
  exact h.named module (Array.mem_of_getElem? hmodule)

end Registry

namespace Outcome

/-- What an outcome speaks of: the symbol that was found, or the candidates. -/
def mentioned {σ : Type} (outcome : Outcome σ) : List σ :=
  outcome.symbol?.toList ++ outcome.candidates

end Outcome

namespace Resolver

variable {resolver : Resolver}

theorem DeclaredAt.named {root : Located} {tier : Tier} (h : resolver.DeclaredAt root tier)
    (hregistry : resolver.registry.FromSources)
    (hlocals : ∀ located ∈ resolver.locals.located, located.symbol.Named) :
    root.symbol.Named := by
  cases tier with
  | localDeclaration => exact hlocals root h
  | importedDeclaration =>
      obtain ⟨entry, -, -, scope, hscope, hroot⟩ := h
      exact (hregistry.lookup? hscope).symbol_of_mem hroot
  | importedModule =>
      obtain ⟨entry, -, -, scope, hscope, path, inner, hinner, hroot⟩ := h
      exact (hinner.named (hregistry.lookup? hscope)).symbol_of_mem hroot

theorem SoundOutcome.named {reference : Reference} {outcome : Outcome Located}
    (h : resolver.SoundOutcome reference outcome)
    (hregistry : resolver.registry.FromSources)
    (hlocals : ∀ located ∈ resolver.locals.located, located.symbol.Named) :
    ∀ located ∈ outcome.mentioned, located.symbol.Named := by
  cases outcome with
  | found target tier =>
      obtain ⟨found, hfound, -, -, -, hstands⟩ := h.found rfl
      obtain rfl := Option.some.inj hfound
      refine List.forall_mem_singleton.mpr ?_
      cases tier with
      | some tier =>
          obtain ⟨root, hroot, hleads⟩ := hstands
          exact hleads.named (hroot.named hregistry hlocals)
      | none =>
          obtain ⟨-, scope, path, hscope, ⟨inner, hinner, root, hroot, hleads⟩, -⟩ := hstands
          have hbelow := hinner.named (hregistry.lookup? hscope)
          exact hleads.named (hbelow.symbol_of_mem hroot)
  | failed failure =>
      cases failure with
      | ambiguous tier candidates =>
          obtain ⟨-, found, -, -, -, hcandidates⟩ := h.ambiguous rfl
          intro located hlocated
          exact (hcandidates located hlocated).1.named hregistry hlocals
      | _ => exact nofun

/-- Every outcome over a registry that is reached and a table that is built is well founded. -/
theorem sound_resolve {unit : Text} {options : Options} {imports : List Import}
    (hsound : resolver.registry.Sound)
    (htable : resolver.imports = (ImportTable.build resolver.registry unit options imports).1)
    (reference : Reference) : resolver.SoundOutcome reference (resolver.resolve reference) := by
  obtain ⟨path, context, span⟩ := reference
  unfold resolve
  match path with
  | [] => exact sound_failed (by decide)
  | head :: rest =>
      dsimp only
      split
      · exact sound_failed (by decide)
      · cases rest with
        | nil => exact unqualified_sound hsound htable head context span
        | cons name rest => exact dotted_sound hsound htable head name rest context span

end Resolver

namespace SourceUnit

variable {registry : Registry} {unit : SourceUnit}

theorem WellFormed.named_located (h : unit.WellFormed) :
    ∀ located ∈ (Locals.ofList unit.module unit.symbols).located, located.symbol.Named := by
  intro located hlocated
  have hsymbol : located.symbol ∈ unit.symbols.map (·.ownedBy unit.module) := by
    rw [Locals.ofList_eq] at hlocated
    obtain ⟨index, hindex, rfl⟩ := List.mem_mapIdx.mp hlocated
    exact List.getElem_mem hindex
  obtain ⟨symbol, hmember, hsame⟩ := List.mem_map.mp hsymbol
  rw [← hsame]
  exact (h.symbols symbol hmember).named_ownedBy (Text.isDottedPath_of_isIdentifier h.name)

/-- Whatever the references of a unit mean, it has a name. -/
theorem WellFormed.named_mentioned (h : unit.WellFormed) (hregistry : registry.FromSources)
    (options : Options) :
    ∀ resolved ∈ (unit.resolve registry options).references,
      ∀ located ∈ resolved.outcome.mentioned, located.symbol.Named := by
  rw [references_resolve]
  refine List.forall_mem_map.mpr fun reference _ => ?_
  have hsound : (unit.resolver registry options).SoundOutcome reference
      ((unit.resolver registry options).resolve reference) :=
    Resolver.sound_resolve hregistry.reachable.sound rfl reference
  exact hsound.named hregistry h.named_located

end SourceUnit

end NameBinding
