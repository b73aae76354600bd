import NameBinding.Resolver
import NameBinding.Proofs.Bindings
import NameBinding.Proofs.Exposure

/-!
What a list of imports offers a resolver. A single-declaration import names one
symbol and the last of them hides the others; every other import opens a scope,
and what these scopes expose stands side by side.
-/

namespace NameBinding

/-- A symbol bound under its own name. -/
def Binding.of (tier : Tier) (order : Nat) (located : Located) : Binding :=
  ⟨located.symbol.name, located, tier, order⟩

namespace Registry

variable {registry : Registry}

theorem lookup_toOption_eq_some {name : Text} {scope : Scope} :
    (registry.lookup name).toOption = some scope ↔ registry.lookup? name = some scope := by
  unfold lookup
  cases registry.lookup? name <;> simp [Except.toOption]

theorem lookupSubmodule_toOption_eq_some {name path : Text} {inner : Scope} :
    (registry.lookupSubmodule name path).toOption = some inner ↔
      ∃ scope, registry.lookup? name = some scope ∧
        scope.findSubmodule? path = some inner := by
  unfold lookupSubmodule
  cases registry.lookup? name with
  | none => simp [Except.toOption]
  | some scope => cases hinner : scope.findSubmodule? path <;> simp [Except.toOption, hinner]

theorem lookupSymbol_toOption_eq_some {module : Text} {kind : Kind} {name : Text}
    {located : Located} :
    (registry.lookupSymbol module kind name).toOption = some located ↔
      ∃ scope, registry.lookup? module = some scope ∧
        scope.findDeclared? kind name = some located := by
  unfold lookupSymbol
  cases registry.lookup? module with
  | none => simp [Except.toOption]
  | some scope =>
      cases hdeclared : scope.findDeclared? kind name <;> simp [Except.toOption, hdeclared]

end Registry

namespace Import

/-- The symbol that a single-declaration import names. Nothing comes of a self
import, or of a name that the module does not declare. -/
def singleSymbol? (declaration : Import) (registry : Registry) (unit : Text) :
    Option Located :=
  match declaration.target with
  | .symbol kind name =>
    if declaration.isSelf unit then none
    else (registry.lookupSymbol declaration.module kind name).toOption
  | .everything | .submodule _ => none

/-- The scope that a whole-module or a submodule import opens. -/
def openedScope? (declaration : Import) (registry : Registry) (unit : Text) :
    Option Scope :=
  match declaration.target with
  | .everything =>
    if declaration.isSelf unit then none
    else (registry.lookup declaration.module).toOption
  | .submodule path =>
    if declaration.isSelf unit then none
    else (registry.lookupSubmodule declaration.module path).toOption
  | .symbol .. => none

def exposedSymbols (declaration : Import) (registry : Registry) (unit : Text)
    (options : Options) : List Located :=
  (declaration.openedScope? registry unit).toList.flatMap (·.exposed options.reexport)

/-- The symbols that a declaration binds at a tier. -/
def broughtAt (declaration : Import) (registry : Registry) (unit : Text)
    (options : Options) : Tier → List Located
  | .localDeclaration => []
  | .importedDeclaration => (declaration.singleSymbol? registry unit).toList
  | .importedModule => declaration.exposedSymbols registry unit options

/-- A declaration binds its one symbol, or what its scope exposes. -/
theorem bindings_contribution (declaration : Import) (registry : Registry)
    (unit : Text) (options : Options) (order : Nat) :
    declaration.bindings order (declaration.contribution registry unit options) =
      (declaration.singleSymbol? registry unit).toList.map
          (Binding.of .importedDeclaration order) ++
        (declaration.exposedSymbols registry unit options).map
          (Binding.of .importedModule order) := by
  unfold bindings contribution exposedSymbols singleSymbol? openedScope? tier Binding.of
  cases hself : declaration.isSelf unit with
  | true => cases declaration.target <;> simp [Contribution.symbols]
  | false =>
      simp only [Registry.lookupSymbol, Registry.lookup, Registry.lookupSubmodule]
      cases registry.lookup? declaration.module with
      | none => cases declaration.target <;> simp [Contribution.symbols, Except.toOption]
      | some scope =>
          cases declaration.target with
          | everything => simp [Contribution.symbols, Except.toOption]
          | symbol kind name =>
              cases hdeclared : scope.findDeclared? kind name <;>
                simp [Contribution.symbols, Except.toOption, hdeclared]
          | submodule path =>
              cases hinner : scope.findSubmodule? path <;>
                simp [Contribution.symbols, Except.toOption, hinner]

variable {declaration : Import} {registry : Registry} {unit : Text}

theorem singleSymbol?_eq_some {located : Located} (options : Options)
    (h : declaration.singleSymbol? registry unit = some located) :
    declaration.contribution registry unit options = .ok [located] ∧
      ∃ root, registry.lookup? declaration.module = some root ∧
        located ∈ root.symbols := by
  unfold singleSymbol? at h
  cases htarget : declaration.target with
  | everything => simp [htarget] at h
  | submodule path => simp [htarget] at h
  | symbol kind name =>
      rw [htarget] at h
      obtain ⟨hself, hfound⟩ := Option.ite_none_left_eq_some.mp h
      obtain ⟨root, hroot, hdeclared⟩ := Registry.lookupSymbol_toOption_eq_some.mp hfound
      refine ⟨?_, root, hroot, List.mem_of_find?_eq_some hdeclared⟩
      simp [contribution, hself, hroot, htarget, hdeclared]

theorem openedScope?_eq_some {scope : Scope} (options : Options)
    (h : declaration.openedScope? registry unit = some scope) :
    declaration.contribution registry unit options = .ok (scope.exposed options.reexport) ∧
      ∃ root path, registry.lookup? declaration.module = some root ∧
        root.Leads path scope := by
  unfold openedScope? at h
  cases htarget : declaration.target with
  | symbol kind name => simp [htarget] at h
  | everything =>
      rw [htarget] at h
      obtain ⟨hself, hfound⟩ := Option.ite_none_left_eq_some.mp h
      have hroot := Registry.lookup_toOption_eq_some.mp hfound
      refine ⟨?_, scope, [], hroot, .here scope⟩
      simp [contribution, hself, hroot, htarget]
  | submodule path =>
      rw [htarget] at h
      obtain ⟨hself, hfound⟩ := Option.ite_none_left_eq_some.mp h
      obtain ⟨root, hroot, hinner⟩ := Registry.lookupSubmodule_toOption_eq_some.mp hfound
      refine ⟨?_, root, path.parts, hroot, Scope.leads_of_findSubmodule? hinner⟩
      simp [contribution, hself, hroot, htarget, hinner]

end Import

namespace Binding

theorem filter_of (tier : Tier) (order : Nat) (symbols : List Located) (name : Text)
    (context : Context) :
    ((symbols.map (of tier order)).filter fun binding =>
        binding.tier == tier && binding.name == name).filter
          (·.symbol.symbol.kind.fits context) =
      (symbols.filter (·.answers name context)).map (of tier order) := by
  rw [List.filter_filter, List.filter_map]
  congr 2
  funext located
  simp [of, Located.answers, Symbol.answers, Bool.and_comm]

theorem filter_of_other {tier other : Tier} (h : tier ≠ other) (order : Nat)
    (symbols : List Located) (name : Text) :
    ((symbols.map (of tier order)).filter fun binding =>
      binding.tier == other && binding.name == name) = [] := by
  rw [List.filter_eq_nil_iff]
  intro binding hbinding
  obtain ⟨located, -, rfl⟩ := List.mem_map.mp hbinding
  simp [of, h]

theorem foldl_max_le {orders : List Nat} {start bound : Nat} (hstart : start ≤ bound)
    (h : ∀ order ∈ orders, order ≤ bound) : orders.foldl max start ≤ bound := by
  induction orders generalizing start with
  | nil => exact hstart
  | cons first rest ih =>
      rw [List.foldl_cons]
      apply ih
      · exact Nat.max_le.mpr ⟨hstart, h first (by simp)⟩
      · intro order horder
        exact h order (by simp [horder])

/-- Where the orders rise, the bindings of the greatest order are the last one. -/
theorem filter_latest {bindings : List Binding}
    (h : bindings.Pairwise fun earlier later => earlier.order < later.order) :
    bindings.filter (·.order == (bindings.map (·.order)).foldl max 0) =
      bindings.getLast?.toList := by
  induction bindings using List.reverseRecOn with
  | nil => rfl
  | append_singleton earlier last _ =>
      obtain ⟨-, -, hbefore⟩ := List.pairwise_append.mp h
      have hbelow : ∀ binding ∈ earlier, binding.order < last.order := by
        intro binding hbinding
        exact hbefore binding hbinding last (by simp)
      have hbound : (earlier.map (·.order)).foldl max 0 ≤ last.order := by
        apply foldl_max_le (Nat.zero_le _)
        intro order horder
        obtain ⟨binding, hbinding, rfl⟩ := List.mem_map.mp horder
        exact Nat.le_of_lt (hbelow binding hbinding)
      have hlatest : ((earlier ++ [last]).map (·.order)).foldl max 0 = last.order := by
        simp only [List.map_append, List.foldl_append, List.map_cons, List.map_nil,
          List.foldl_cons, List.foldl_nil]
        exact Nat.max_eq_right hbound
      have hearlier : earlier.filter (·.order == last.order) = [] := by
        rw [List.filter_eq_nil_iff]
        intro binding hbinding
        have hless := hbelow binding hbinding
        simp only [beq_iff_eq]
        omega
      rw [hlatest, List.filter_append, hearlier]
      simp

end Binding

theorem pairwise_zipIdx {α : Type} (list : List α) :
    list.zipIdx.Pairwise fun earlier later => earlier.2 < later.2 := by
  apply List.pairwise_map.mp
  rw [List.zipIdx_map_snd]
  exact List.pairwise_lt_range'

theorem flatMap_zipIdx {α β : Type} (list : List α) (f : α → List β) :
    (list.zipIdx.flatMap fun entry => f entry.1) = list.flatMap f := by
  conv_rhs => rw [← List.zipIdx_map_fst 0 list]
  rw [List.flatMap_map]

namespace Resolver

variable (registry : Registry) (unit : Text) (options : Options) (imports : List Import)

/-- The symbols that single-declaration imports name, in the order of writing. -/
def singles : List Located := imports.filterMap (·.singleSymbol? registry unit)

/-- What the other imports expose, in the order of contribution. -/
def opened : List Located := imports.flatMap (·.exposedSymbols registry unit options)

/-- Among the single-declaration imports of a name the last one decides. -/
def lastSingle? (name : Text) (context : Context) : Option Located :=
  ((singles registry unit imports).filter (·.answers name context)).getLast?

/-- What the other imports show under a name, each symbol once. -/
def shownUnder (name : Text) (context : Context) : List Located :=
  ((opened registry unit options imports).filter (·.answers name context)).eraseDups

variable {registry unit options imports} {resolver : Resolver}

/-- What bindings of a name there are at a tier of a built table. Each declaration
adds those of its symbols that answer, under its own order. -/
theorem fitting_build
    (h : resolver.imports = (ImportTable.build registry unit options imports).1)
    (name : Text) (context : Context) (tier : Tier) :
    (resolver.imports.bindingsNamed name tier).filter
        (·.symbol.symbol.kind.fits context) =
      imports.zipIdx.flatMap fun entry =>
        ((entry.1.broughtAt registry unit options tier).filter
          (·.answers name context)).map (Binding.of tier entry.2) := by
  rw [h, ImportTable.build_eq_after,
    ImportTable.bindingsNamed_eq_filter (ImportTable.after_indexed registry unit options imports),
    ImportTable.after_bindings, List.filter_flatMap, List.filter_flatMap]
  congr 1
  funext entry
  rw [Import.bindings_contribution, List.filter_append, List.filter_append]
  cases tier with
  | localDeclaration =>
      rw [Binding.filter_of_other (by decide), Binding.filter_of_other (by decide)]
      rfl
  | importedDeclaration =>
      rw [Binding.filter_of, Binding.filter_of_other (by decide)]
      exact List.append_nil _
  | importedModule =>
      rw [Binding.filter_of, Binding.filter_of_other (by decide)]
      rfl

/-- The last single-declaration import of a name hides those before it. -/
theorem importedDeclarations_build
    (h : resolver.imports = (ImportTable.build registry unit options imports).1)
    (name : Text) (context : Context) :
    resolver.importedDeclarations name context =
      (lastSingle? registry unit imports name context).toList := by
  have hrising : (imports.zipIdx.flatMap fun entry =>
      ((entry.1.singleSymbol? registry unit).toList.filter
        (·.answers name context)).map (Binding.of .importedDeclaration entry.2)).Pairwise
          fun earlier later => earlier.order < later.order := by
    rw [List.pairwise_flatMap]
    constructor
    · intro entry _
      cases entry.1.singleSymbol? registry unit with
      | none => simp
      | some located => cases hanswers : located.answers name context <;> simp [hanswers]
    · refine (pairwise_zipIdx imports).imp ?_
      intro earlier later hless left hleft right hright
      obtain ⟨_, -, rfl⟩ := List.mem_map.mp hleft
      obtain ⟨_, -, rfl⟩ := List.mem_map.mp hright
      exact hless
  have hsymbols : (imports.zipIdx.flatMap fun entry =>
      ((entry.1.singleSymbol? registry unit).toList.filter
        (·.answers name context)).map (Binding.of .importedDeclaration entry.2)).map
          (·.symbol) = (singles registry unit imports).filter (·.answers name context) := by
    rw [List.map_flatMap, singles, List.filterMap_eq_flatMap_toList, List.filter_flatMap,
      ← flatMap_zipIdx imports]
    congr 1
    funext entry
    simp [Function.comp_def, Binding.of]
  unfold importedDeclarations lastSingle?
  simp only [fitting_build h, Import.broughtAt]
  rw [Binding.filter_latest hrising, ← hsymbols, List.getLast?_map]
  cases List.getLast? _ <;> simp [List.eraseDups_cons]

theorem importedModuleSymbols_build
    (h : resolver.imports = (ImportTable.build registry unit options imports).1)
    (name : Text) (context : Context) :
    resolver.importedModuleSymbols name context =
      shownUnder registry unit options imports name context := by
  unfold importedModuleSymbols shownUnder
  simp only [fitting_build h, Import.broughtAt]
  rw [List.map_flatMap, opened, List.filter_flatMap, ← flatMap_zipIdx imports]
  congr 2
  funext entry
  simp [Function.comp_def, Binding.of]

end Resolver

end NameBinding
