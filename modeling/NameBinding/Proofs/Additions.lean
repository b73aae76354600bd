import NameBinding.Proofs.Dependence
import NameBinding.Proofs.Redundancy
import NameBinding.Proofs.Relocation

/-!
What a unit may be added to without harm. One more local, wherever it stands, is felt only by
references that start with its name or name it below the unit's own name. One more import is
felt only by references that start with a name it binds and, where qualifying asks for an
import, by the paths below its module.
-/

namespace NameBinding

/-- The positions from `position` on make room for one more local. -/
def makeRoom (position index : Nat) : Nat := if index < position then index else index + 1

theorem makeRoom_of_lt {position index : Nat} (h : index < position) :
    makeRoom position index = index := if_pos h

theorem makeRoom_add (position index : Nat) :
    makeRoom position (index + position) = index + 1 + position := by
  rw [makeRoom, if_neg (by omega)]
  omega

theorem makeRoom_injective (position : Nat) : Function.Injective (makeRoom position) := by
  intro left right hsame
  unfold makeRoom at hsame
  split at hsame <;> split at hsame <;> omega

theorem Reference.head?_eq_some_head {reference : Reference} (h : reference.path ≠ []) :
    reference.path.head? = some reference.head := by
  obtain ⟨head, rest, hpath⟩ := List.exists_cons_of_ne_nil h
  rw [Reference.head, hpath]
  rfl

namespace Locals

variable (unit : Text) (before later : List Symbol) (symbol : Symbol)

/-- The new local stands between those that were there. -/
theorem located_added :
    ∃ earlier after,
      (ofList unit (before ++ later)).located = earlier ++ after ∧
        (ofList unit (before ++ symbol :: later)).located =
          earlier.map (Located.relocated (makeRoom before.length)) ++
            ⟨.declared before.length, symbol.ownedBy unit⟩ ::
              after.map (Located.relocated (makeRoom before.length)) := by
  let place (index : Nat) (symbol : Symbol) : Located := ⟨.declared index, symbol.ownedBy unit⟩
  have hlocated (symbols : List Symbol) :
      (ofList unit symbols).located = symbols.mapIdx place := by
    rw [ofList_eq]
    refine List.ext_getElem? fun index => ?_
    simp only [located, List.getElem?_mapIdx, List.getElem?_map, Option.map_map]
    rfl
  have hearlier : (before.mapIdx place).map (Located.relocated (makeRoom before.length)) =
      before.mapIdx place := by
    refine (List.map_congr_left fun located hmember => ?_).trans (List.map_id _)
    obtain ⟨index, hindex, rfl⟩ := List.mem_mapIdx.mp hmember
    exact congrArg (place · before[index]) (makeRoom_of_lt hindex)
  have hafter :
      (later.mapIdx fun index => place (index + before.length)).map
          (Located.relocated (makeRoom before.length)) =
        later.mapIdx fun index => place (index + 1 + before.length) := by
    refine List.ext_getElem? fun index => ?_
    simp only [List.getElem?_map, List.getElem?_mapIdx, Option.map_map, ← makeRoom_add]
    rfl
  refine ⟨before.mapIdx place, later.mapIdx fun index => place (index + before.length), ?_, ?_⟩
  · rw [hlocated, List.mapIdx_append]
  · rw [hlocated, hearlier, hafter, List.mapIdx_append, List.mapIdx_cons, Nat.zero_add]

theorem mem_located_added {located : Located}
    (h : located ∈ (ofList unit (before ++ later)).located) :
    located.relocated (makeRoom before.length) ∈
      (ofList unit (before ++ symbol :: later)).located := by
  obtain ⟨earlier, after, hold, hnew⟩ := located_added unit before later symbol
  rw [hnew]
  rw [hold] at h
  rcases List.mem_append.mp h with hearlier | hafter
  · exact List.mem_append_left _ (List.mem_map_of_mem hearlier)
  · exact List.mem_append_right _ (List.mem_cons_of_mem _ (List.mem_map_of_mem hafter))

variable {symbol}

theorem moves_added {name : Text} (h : symbol.name ≠ name) :
    (ofList unit (before ++ later)).Moves (ofList unit (before ++ symbol :: later))
      (makeRoom before.length) name := by
  intro context
  obtain ⟨earlier, after, hold, hnew⟩ := located_added unit before later symbol
  have hother : (Located.mk (.declared before.length) (symbol.ownedBy unit)).answers name
      context = false := by
    simp [Located.answers, Symbol.answers, h]
  have hfilter (symbols : List Located) :
      (symbols.map (Located.relocated (makeRoom before.length))).filter
          (·.answers name context) =
        (symbols.filter (·.answers name context)).map
          (Located.relocated (makeRoom before.length)) := by
    rw [List.filter_map]
    rfl
  rw [named, named, hold, hnew, List.filter_append, List.filter_append, List.filter_cons,
    if_neg (by simp [hother]), hfilter, hfilter, List.map_append]

end Locals

namespace Import

variable {declaration : Import} {registry : Registry} {unit : Text} {options : Options}

/-- No binding that the declaration makes has the name. -/
def SparesName (declaration : Import) (registry : Registry) (unit : Text) (options : Options)
    (name : Text) : Prop :=
  ∀ located ∈ (declaration.contribution registry unit options).symbols,
    located.symbol.name ≠ name

variable {name : Text} {located : Located} {context : Context}

theorem sparesName_iff_bindings (order : Nat) :
    declaration.SparesName registry unit options name ↔
      ∀ binding ∈ declaration.bindings order (declaration.contribution registry unit options),
        binding.name ≠ name := by
  rw [SparesName, bindings, List.forall_mem_map]

theorem answers_eq_false_of_name_ne (h : located.symbol.name ≠ name) :
    located.answers name context = false := by
  simp [Located.answers, Symbol.answers, h]

theorem SparesName.singleSymbol? (h : declaration.SparesName registry unit options name)
    (hlocated : declaration.singleSymbol? registry unit = some located) :
    located.answers name context = false := by
  obtain ⟨hcontribution, -⟩ := singleSymbol?_eq_some options hlocated
  refine answers_eq_false_of_name_ne (h located ?_)
  rw [hcontribution]
  exact List.mem_singleton_self located

theorem SparesName.exposedSymbols (h : declaration.SparesName registry unit options name)
    (hlocated : located ∈ declaration.exposedSymbols registry unit options) :
    located.answers name context = false := by
  obtain ⟨scope, hscope, hexposed⟩ := List.mem_flatMap.mp hlocated
  obtain ⟨hcontribution, -⟩ := openedScope?_eq_some options (Option.mem_toList.mp hscope)
  refine answers_eq_false_of_name_ne (h located ?_)
  rw [hcontribution]
  exact hexposed

/-- Under a name that it spares, a declaration shows nothing new. -/
theorem SparesName.newlyShown (h : declaration.SparesName registry unit options name)
    (before : List Import) :
    Resolver.newlyShown registry unit options before [declaration] name context = [] := by
  have hnothing : (Resolver.opened registry unit options [declaration]).filter
      (·.answers name context) = [] := by
    rw [List.filter_eq_nil_iff]
    intro located hlocated
    obtain ⟨other, hother, hexposed⟩ := List.mem_flatMap.mp hlocated
    obtain rfl := List.mem_singleton.mp hother
    rw [h.exposedSymbols hexposed]
    exact Bool.false_ne_true
  rw [Resolver.newlyShown, hnothing]
  rfl

end Import

namespace SourceUnit

variable {registry : Registry} {options : Options} {unit : SourceUnit} {reference : Reference}

theorem resolve_declaring {before later : List Symbol} {symbol : Symbol}
    (hsymbols : unit.symbols = before ++ later)
    (hhead : reference.path.head? ≠ some symbol.name)
    (hbelow : ∀ rest, reference.path ≠ unit.module :: symbol.name :: rest) :
    ({ unit with symbols := before ++ symbol :: later }.resolver registry options).resolve
        reference =
      ((unit.resolver registry options).resolve reference).map
        (Located.relocated (makeRoom before.length)) := by
  have hmoves {name : Text} (hother : symbol.name ≠ name) :
      (unit.resolver registry options).locals.Moves
        (Locals.ofList unit.module (before ++ symbol :: later)) (makeRoom before.length) name := by
    rw [resolver, hsymbols]
    exact Locals.moves_added unit.module before later hother
  have hunit (symbols : List Symbol) : (Locals.ofList unit.module symbols).unit = unit.module := by
    rw [Locals.ofList_eq]
  have hmodules : (unit.resolver registry options).imports.FromModules :=
    ImportTable.fromModules_build registry unit.module options unit.imports
  refine Resolver.resolve_relocated hmodules ?_ ?_ ?_
  · exact (hunit _).trans (hunit _).symm
  · intro head hpath
    refine hmoves ?_
    rintro rfl
    exact hhead hpath
  · intro name rest hpath
    refine hmoves ?_
    rintro rfl
    refine hbelow rest ?_
    rw [hpath]
    exact congrArg (· :: symbol.name :: rest) (hunit _)

/-- A module is imported without the declaration if it is not the declaration's module. -/
theorem importsModule_delete_of_ne {before later : List Import} {declaration : Import}
    {module : Text} (h : declaration.module ≠ module) :
    (ImportTable.build registry unit.module options
        (before ++ declaration :: later)).1.importsModule module =
      (ImportTable.build registry unit.module options (before ++ later)).1.importsModule
        module := by
  simp [ImportTable.importsModule_build, beq_eq_false_iff_ne.mpr h]

theorem resolve_importing {before later : List Import} {declaration : Import}
    (hreach : registry.Reachable) (himports : unit.imports = before ++ later)
    (hspared : reference.head ≠ [] →
      declaration.SparesName registry unit.module options reference.head)
    (haccess : options.requireImport = true → reference.isDotted = true →
      declaration.module ≠ reference.head) :
    ({ unit with imports := before ++ declaration :: later }.resolver registry options).resolve
        reference =
      (unit.resolver registry options).resolve reference := by
  obtain ⟨module, imports, symbols, references, span⟩ := unit
  obtain rfl : imports = before ++ later := himports
  refine Resolver.resolve_congr (by rfl) ?_ ?_
  · intro hhead
    refine Resolver.searchAlike_of_candidates (by rfl) ?_ ?_
    · intro context
      rw [Resolver.importedDeclarations_build rfl, Resolver.importedDeclarations_build rfl]
      refine congrArg Option.toList
        ((lastSingle?_delete_iff reference.head context).mpr fun located hlocated hanswers => ?_)
      rw [(hspared hhead).singleSymbol? hlocated] at hanswers
      cases hanswers
    · intro context _
      rw [Resolver.importedModuleSymbols_build rfl, Resolver.importedModuleSymbols_build rfl,
        shownUnder_delete_iff, (hspared hhead).newlyShown]
      exact List.nil_prefix
  · intro name rest hpath _
    have hdotted : reference.isDotted = true := by simp [Reference.isDotted, hpath]
    refine Option.map_congr fun scope hscope => ?_
    have hname : scope.module.name = reference.head := (hreach.sound.lookup? hscope).2.2.1
    refine Resolver.qualified_congr (by rfl) (fun hrequire => ?_) name rest reference.context
    rw [hname]
    exact importsModule_delete_of_ne (haccess hrequire hdotted)

/-- A unit with one more local, anywhere, or with one more import, anywhere, has its other
references mean what they meant. The locals that stand below the new one have moved, and
nothing else about them is different. -/
theorem resolve_added (registry : Registry) (hreach : registry.Reachable) (options : Options)
    (unit : SourceUnit) (reference : Reference) :
    (∀ before symbol later, unit.symbols = before ++ later →
      let grown : SourceUnit := { unit with symbols := before ++ symbol :: later }
      let moved := Located.relocated (makeRoom before.length)
      let old := (unit.resolver registry options).resolve reference
      let new := (grown.resolver registry options).resolve reference
      Function.Injective moved ∧
        (∀ located ∈ (unit.resolver registry options).locals.located,
          moved located ∈ (grown.resolver registry options).locals.located) ∧
        (reference.path.head? ≠ some symbol.name →
          (∀ rest, reference.path ≠ unit.module :: symbol.name :: rest) →
            new = old.map moved ∧ new.status = old.status ∧ new.tier? = old.tier? ∧
              new.symbol?.map (·.symbol) = old.symbol?.map (·.symbol) ∧
              new.candidates.map (·.symbol) = old.candidates.map (·.symbol))) ∧
    ∀ before declaration later, unit.imports = before ++ later →
      let grown : SourceUnit := { unit with imports := before ++ declaration :: later }
      (∀ binding ∈ declaration.bindings before.length
          (declaration.contribution registry unit.module options),
        reference.path.head? ≠ some binding.name) →
      ¬ (options.requireImport = true ∧ reference.isDotted = true ∧
        reference.path.head? = some declaration.module) →
      (grown.resolver registry options).resolve reference =
        (unit.resolver registry options).resolve reference := by
  constructor
  · intro before symbol later hsymbols grown moved old new
    refine ⟨Located.relocated_injective (makeRoom_injective before.length), ?_, ?_⟩
    · intro located hlocated
      rw [resolver, hsymbols] at hlocated
      exact Locals.mem_located_added unit.module before later symbol hlocated
    · intro hhead hbelow
      have hnew : new = old.map moved := resolve_declaring hsymbols hhead hbelow
      rw [hnew]
      simp [moved, Located.relocated, Function.comp_def]
  · intro before declaration later himports grown hnames haccess
    refine resolve_importing hreach himports (fun hhead => ?_) ?_
    · rw [Import.sparesName_iff_bindings before.length]
      intro binding hbinding hname
      refine hnames binding hbinding ?_
      rw [hname]
      refine Reference.head?_eq_some_head ?_
      rintro hpath
      exact hhead (by rw [Reference.head, hpath]; rfl)
    · intro hrequire hdotted hmodule
      refine haccess ⟨hrequire, hdotted, ?_⟩
      rw [hmodule]
      refine Reference.head?_eq_some_head ?_
      rintro hpath
      simp [Reference.isDotted, hpath] at hdotted

/-- A local in front of the one that supplies the path, and a module in front of the other
import. -/
theorem resolve_added_start :
    let unit : SourceUnit :=
      { module := "Meet"
        imports := [⟨"Triathlon", .everything, {}⟩]
        symbols := [{ name := "Course", kind := .enumType, members := [{ name := "finish" }] }] }
    let options : Options := { requireImport := true }
    let finish : Reference := ⟨["Course", "finish"], .any, {}⟩
    let start : Symbol := { name := "start" }
    let pentathlon : Import := ⟨"Pentathlon", .everything, {}⟩
    let declaring : SourceUnit := { unit with symbols := [] ++ start :: unit.symbols }
    let importing : SourceUnit := { unit with imports := [] ++ pentathlon :: unit.imports }
    let old := (unit.resolver .sports options).resolve finish
    let new := (declaring.resolver .sports options).resolve finish
    Registry.sports.Reachable ∧
      finish.path.head? ≠ some start.name ∧
      (∀ rest, finish.path ≠ unit.module :: start.name :: rest) ∧
      new = old.map (Located.relocated (makeRoom 0)) ∧
      old.map (·.place) = .found (.member (.declared 0) 0) (some .localDeclaration) ∧
      new.map (·.place) = .found (.member (.declared 1) 0) (some .localDeclaration) ∧
      (∀ binding ∈ pentathlon.bindings 0 (pentathlon.contribution .sports unit.module options),
        finish.path.head? ≠ some binding.name) ∧
      (importing.resolver .sports options).resolve finish = old := by
  intro unit options finish start pentathlon declaring importing old new
  obtain ⟨hlocal, himport⟩ :=
    resolve_added .sports Registry.sports_reachable options unit finish
  have hhead : finish.path.head? ≠ some start.name := by decide
  have hbelow (rest : List Text) : finish.path ≠ unit.module :: start.name :: rest := by
    intro hpath
    exact absurd (List.cons.inj hpath).1 (by decide)
  have hnames : ∀ binding ∈ pentathlon.bindings 0
      (pentathlon.contribution .sports unit.module options),
      finish.path.head? ≠ some binding.name := by decide
  exact ⟨Registry.sports_reachable, hhead, hbelow,
    ((hlocal [] start unit.symbols rfl).2.2 hhead hbelow).1, by decide, by decide, hnames,
    himport [] pentathlon unit.imports rfl hnames (by decide)⟩

end SourceUnit

end NameBinding
