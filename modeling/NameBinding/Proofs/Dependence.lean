import NameBinding.SourceUnit
import NameBinding.Proofs.Equivalence
import NameBinding.Proofs.Variation

/-!
On which modules the meaning of a unit depends. A table knows the modules that its
imports name. A path may also go through a module that no import names, and the table
does not know of it; a unit without such a path means the same whatever the modules
hold that its table does not name.
-/

namespace NameBinding

theorem Import.contribution_congr {left right : Registry} {declaration : Import}
    (h : left.lookup? declaration.module = right.lookup? declaration.module) (unit : Text)
    (options : Options) :
    declaration.contribution left unit options =
      declaration.contribution right unit options := by
  unfold contribution
  rw [h]

/-- A table is built from the modules that its imports name. -/
theorem ImportTable.build_congr {left right : Registry} {imports : List Import}
    (h : ∀ declaration ∈ imports,
      left.lookup? declaration.module = right.lookup? declaration.module)
    (unit : Text) (options : Options) :
    build left unit options imports = build right unit options imports := by
  have hafter : after left unit options imports = after right unit options imports := by
    induction imports using List.reverseRecOn with
    | nil => rfl
    | append_singleton imports last ih =>
        have hlast := Import.contribution_congr (h last (by simp)) unit options
        have hbefore := ih fun declaration hmember => h declaration (by simp [hmember])
        rw [after_append_singleton, after_append_singleton, hbefore, Build.add, Build.add,
          hlast]
  rw [build_eq_after, build_eq_after, hafter]

theorem ImportTable.importsModule_eq_false {table : ImportTable} {module : Text}
    (h : table.dependsOn module = false) : table.importsModule module = false := by
  unfold dependsOn at h
  unfold importsModule
  rw [← Array.any_toList, List.any_eq_false] at h ⊢
  intro entry hentry
  have hother := h entry hentry
  rw [Bool.and_eq_true]
  rintro ⟨-, hnamed⟩
  exact hother hnamed

namespace Resolver

/-- The reference is left to a module: a path that starts with its name, that no
declaration of the unit supplies and for which no import is required. -/
def LeavesTo (resolver : Resolver) (reference : Reference) (module : Text) : Prop :=
  resolver.options.requireImport = false ∧ resolver.registry.contains module = true ∧
    ∃ name rest, reference.path = module :: name :: rest ∧
      resolver.preferredMember? module name rest reference.context = none

theorem searchAlike_of_imports {left right : Resolver} (hlocals : left.locals = right.locals)
    (himports : left.imports = right.imports) (name : Text) :
    left.SearchAlike right name := by
  refine searchAlike_of_candidates hlocals ?_ ?_
  · intro context
    rw [importedDeclarations, importedDeclarations, himports]
  · intro context _
    rw [importedModuleSymbols, importedModuleSymbols, himports]

/-- A resolver looks up the head of a dotted path and nothing else. -/
theorem resolve_of_lookup? {left right : Resolver} {reference : Reference}
    (hlocals : left.locals = right.locals) (himports : left.imports = right.imports)
    (hoptions : left.options = right.options)
    (hlookup : reference.isDotted = true →
      left.registry.lookup? reference.head = right.registry.lookup? reference.head) :
    left.resolve reference = right.resolve reference := by
  refine resolve_congr hlocals
    (fun _ => searchAlike_of_imports hlocals himports reference.head) ?_
  intro name rest hpath _
  have hdotted : reference.isDotted = true := by simp [Reference.isDotted, hpath]
  refine throughModule?_congr hoptions (hlookup hdotted) ?_ name rest reference.context
  intro _ module
  rw [himports]

/-- Where no import names a module, only a reference that is left to it reads it. -/
theorem resolve_agreeExcept {left right : Resolver} {module : Text} {reference : Reference}
    (hleft : left.registry.Sound) (hright : right.registry.Sound)
    (hagree : left.registry.AgreeExcept right.registry module)
    (hlocals : left.locals = right.locals) (hoptions : left.options = right.options)
    (himports : left.imports = right.imports)
    (hdepends : left.imports.dependsOn module = false)
    (hreads : ¬ left.LeavesTo reference module) :
    left.resolve reference = right.resolve reference := by
  by_cases hsame : left.registry.lookup? reference.head = right.registry.lookup? reference.head
  · exact resolve_of_lookup? hlocals himports hoptions fun _ => hsame
  · have hhead : reference.head = module := by
      by_contra hother
      exact hsame (hagree.lookup? reference.head hother)
    have hknown : left.registry.contains module = true := by
      by_contra hunknown
      have hleftUnknown := Bool.not_eq_true _ ▸ hunknown
      have hrightUnknown := (hagree.contains module).symm.trans hleftUnknown
      rw [hhead, Registry.lookup?_eq_none_of_contains hleft hleftUnknown,
        Registry.lookup?_eq_none_of_contains hright hrightUnknown] at hsame
      exact hsame rfl
    refine resolve_congr hlocals
      (fun _ => searchAlike_of_imports hlocals himports reference.head) ?_
    intro name rest hpath hpreferred
    rw [hhead] at hpath hpreferred ⊢
    have hrequire : left.options.requireImport = true := by
      by_contra hfree
      exact hreads ⟨Bool.not_eq_true _ ▸ hfree, hknown, name, rest, hpath, hpreferred⟩
    -- Both sides are refused before either of them reads the module.
    have hmissing := ImportTable.importsModule_eq_false hdepends
    have hother : right.registry.contains module = true := by
      rw [← hagree.contains module, hknown]
    rw [Registry.contains_eq_isSome_lookup? hleft] at hknown
    rw [Registry.contains_eq_isSome_lookup? hright] at hother
    obtain ⟨scope, hscope⟩ := Option.isSome_iff_exists.mp hknown
    obtain ⟨scope', hscope'⟩ := Option.isSome_iff_exists.mp hother
    have hrefused := (left.qualified_eq_moduleNotImported_iff scope name rest
      reference.context).mpr ⟨hrequire, by rw [(hleft.lookup? hscope).2.2.1, hmissing]⟩
    have hrefused' := (right.qualified_eq_moduleNotImported_iff scope' name rest
      reference.context).mpr ⟨hoptions ▸ hrequire,
        by rw [(hright.lookup? hscope').2.2.1, ← himports, hmissing]⟩
    rw [throughModule?, throughModule?, hscope, hscope', Option.map_some,
      Option.map_some, hrefused, hrefused']

end Resolver

section Supply

/-- A symbol below which a path is found: each name is a member of the one before, and
the last fits the context. -/
def Symbol.supplying (context : Context) (name : Text) : List Text → Symbol
  | [] => { name, kind := if context = .type then .structType else .function }
  | next :: rest => { name, members := [supplying context next rest] }

/-- A module that holds what a path below it asks for. -/
def Module.supplying (module : Text) (context : Context) (name : Text)
    (rest : List Text) : Module :=
  { name := module, symbols := [Symbol.supplying context name rest] }

theorem Symbol.answers_supplying (context : Context) (name : Text) (rest : List Text)
    (owner : Text) :
    ((supplying context name rest).ownedBy owner).answers name
      (if rest.isEmpty then context else .any) = true := by
  cases rest with
  | nil => cases context <;> simp [supplying, answers, ownedBy, Kind.fits, Kind.isType]
  | cons next others => simp [supplying, answers, ownedBy, Kind.fits]

theorem Located.follow?_supplying (context : Context) (name : Text) (rest : List Text)
    (owner : Text) (place : Place) :
    ∃ target, (⟨place, (Symbol.supplying context name rest).ownedBy owner⟩ :
      Located).follow? context rest = some target := by
  induction rest generalizing name place with
  | nil => exact ⟨_, rfl⟩
  | cons next others ih =>
      have hmembers : (⟨place, (Symbol.supplying context name (next :: others)).ownedBy owner⟩ :
          Located).members =
            [⟨.member place 0, (Symbol.supplying context next others).ownedBy owner⟩] := rfl
      have hanswers := Symbol.answers_supplying context next others owner
      cases others with
      | nil =>
          refine ⟨⟨.member place 0, (Symbol.supplying context next []).ownedBy owner⟩, ?_⟩
          rw [follow?, findMember?, hmembers]
          exact List.find?_cons_of_pos hanswers
      | cons third more =>
          obtain ⟨target, htarget⟩ := ih next (.member place 0)
          refine ⟨target, ?_⟩
          rw [follow?, findMember?, hmembers]
          · rw [List.find?_cons_of_pos (by exact hanswers)]
            exact htarget
          · simp

namespace Resolver

variable {resolver : Resolver} {scope : Scope}

/-- Without submodules there is nothing to go down to: the name is looked for in the
module and the rest below it. -/
theorem qualified_of_bare (hrequire : resolver.options.requireImport = false)
    (hbare : scope.module.submodules = []) (name : Text) (rest : List Text)
    (context : Context) :
    resolver.qualified scope name rest context =
      match scope.find? name (if rest.isEmpty then context else .any) with
      | none => .failed (if rest.isEmpty then .symbolNotFound else .submoduleNotFound)
      | some symbol =>
        match symbol.follow? context rest with
        | some target => .found target none
        | none => .failed .symbolNotFound := by
  have hchild (path : Text) : scope.findSubmodule? path = none := by
    have hparts : path.parts ≠ [] := List.splitOn_ne_nil _ _
    obtain ⟨first, others, hfirst⟩ := List.exists_cons_of_ne_nil hparts
    rw [Scope.findSubmodule?, hfirst, List.foldlM_cons]
    simp [Scope.child?, Scope.submodules, hbare]
  have hdescend : descend scope name rest = (scope, name, rest) := by
    cases rest with
    | nil => rfl
    | cons next others => rw [descend, hchild]
  have hexposed : scope.exposed resolver.options.reexport = scope.symbols := by
    obtain ⟨place, moduleName, symbols, submodules, span⟩ := scope
    obtain rfl : submodules = [] := hbare
    simp [Scope.exposed, Scope.exposedBy, Scope.exposedByAll, Scope.symbols]
  unfold qualified
  rw [hrequire, hdescend]
  simp only [Bool.false_and, Bool.false_eq_true, if_false, Scope.search?_eq_find?, hexposed]
  rfl

/-- Whatever the status of a path through a module is, other contents of the module
give it another one: a module without symbols fails the path, and one that is made for
it supplies it. -/
theorem exists_content {module : Text} (hmodule : module ≠ []) (name : Text)
    (rest : List Text) (context : Context) (span : Span) (status : Status) :
    ∃ content : Module, content.name = module ∧ content.fault? content.name = none ∧
      ∀ resolver : Resolver, resolver.options.requireImport = false →
        resolver.preferredMember? module name rest context = none →
          resolver.registry.lookup? module = some (.ofModule (content.owned content.name)) →
            (resolver.resolve ⟨module :: name :: rest, context, span⟩).status ≠ status := by
  by_cases hstatus : status = .resolved
  · subst hstatus
    refine ⟨{ name := module }, rfl, rfl, ?_⟩
    intro resolver hrequire hpreferred hlookup
    have hnothing : (Scope.ofModule (({ name := module } : Module).owned module)).find? name
        (if rest.isEmpty then context else .any) = none := rfl
    rw [resolve_dotted hmodule, dotted_of_lookup hpreferred hlookup,
      qualified_of_bare hrequire rfl, hnothing]
    cases rest <;> simp [Outcome.status, Failure.status]
  · refine ⟨.supplying module context name rest, rfl, rfl, ?_⟩
    intro resolver hrequire hpreferred hlookup
    have hfound : (Scope.ofModule ((Module.supplying module context name rest).owned
        module)).find? name (if rest.isEmpty then context else .any) =
          some ⟨.exported (.root module) 0,
            (Symbol.supplying context name rest).ownedBy module⟩ :=
      List.find?_cons_of_pos (Symbol.answers_supplying context name rest module)
    obtain ⟨target, htarget⟩ := Located.follow?_supplying context name rest module
      (.exported (.root module) 0)
    have hbare : (Scope.ofModule ((Module.supplying module context name rest).owned
        module)).module.submodules = [] := rfl
    have hsupplied := qualified_of_bare hrequire hbare name rest context
    simp only [hfound, htarget] at hsupplied
    rw [resolve_dotted hmodule, dotted_of_lookup hpreferred hlookup]
    intro hsame
    apply hstatus
    rw [← hsame]
    exact congrArg Outcome.status hsupplied

end Resolver

end Supply

namespace SourceUnit

/-- The resolver that the references of a unit go through. -/
def resolver (unit : SourceUnit) (registry : Registry) (options : Options) : Resolver :=
  ⟨registry, (ImportTable.build registry unit.module options unit.imports).1,
    Locals.ofList unit.module unit.symbols, options⟩

theorem references_resolve (unit : SourceUnit) (registry : Registry) (options : Options) :
    (unit.resolve registry options).references = unit.references.map fun reference =>
      ⟨reference, (unit.resolver registry options).resolve reference⟩ := rfl

theorem dependsOn_resolve (unit : SourceUnit) (registry : Registry) (options : Options)
    (module : Text) :
    (unit.resolve registry options).imports.dependsOn module =
      unit.imports.any (·.module == module) :=
  ImportTable.dependsOn_build registry unit.module options unit.imports module

/-- A unit is resolved alike over two registries if its imports build the same table
and its references have the same outcomes. -/
theorem resolve_congr {unit : SourceUnit} {left right : Registry} {options : Options}
    (htable : ImportTable.build left unit.module options unit.imports =
      ImportTable.build right unit.module options unit.imports)
    (hreferences : ∀ reference ∈ unit.references,
      (unit.resolver left options).resolve reference =
        (unit.resolver right options).resolve reference) :
    unit.resolve left options = unit.resolve right options := by
  have houtcomes : (unit.resolve left options).references =
      (unit.resolve right options).references := by
    rw [references_resolve, references_resolve]
    apply List.map_congr_left
    intro reference hreference
    rw [hreferences reference hreference]
  have hparts (registry : Registry) : unit.resolve registry options =
      { module := unit.module
        locals := Locals.ofList unit.module unit.symbols
        imports := (ImportTable.build registry unit.module options unit.imports).1
        references := (unit.resolve registry options).references
        log := (unit.resolve registry options).references.foldl ResolvedReference.report
          (Log.empty.append
            (ImportTable.build registry unit.module options unit.imports).2) } := rfl
  rw [hparts left, hparts right, htable, houtcomes]

section Contents

variable {registry other : Registry} {unit : SourceUnit} {options : Options} {module : Text}

/-- The table is the same whatever a module holds that no import names. -/
theorem build_agreeExcept
    (hunnamed : (unit.resolve registry options).imports.dependsOn module = false)
    (hagree : registry.AgreeExcept other module) :
    ImportTable.build registry unit.module options unit.imports =
      ImportTable.build other unit.module options unit.imports := by
  rw [dependsOn_resolve, List.any_eq_false] at hunnamed
  apply ImportTable.build_congr
  intro declaration hmember
  apply hagree.lookup? declaration.module
  simpa using hunnamed declaration hmember

theorem resolve_agreeExcept (hreach : registry.Reachable) (hother : other.Reachable)
    (hunnamed : (unit.resolve registry options).imports.dependsOn module = false)
    (hagree : registry.AgreeExcept other module)
    (hnone : ∀ reference ∈ unit.references,
      ¬ (unit.resolver registry options).LeavesTo reference module) :
    unit.resolve registry options = unit.resolve other options := by
  have htable := build_agreeExcept hunnamed hagree
  apply resolve_congr htable
  intro reference hreference
  exact Resolver.resolve_agreeExcept hreach.sound hother.sound hagree rfl rfl
    (congrArg Prod.fst htable) hunnamed (hnone reference hreference)

/-- A reference that is left to a module has another status over some registry that
differs in what this module holds. -/
theorem exists_status_ne (hreach : registry.Reachable)
    (hunnamed : (unit.resolve registry options).imports.dependsOn module = false)
    {reference : Reference} (hleft : (unit.resolver registry options).LeavesTo reference module) :
    ∃ other : Registry, other.Reachable ∧ registry.AgreeExcept other module ∧
      ((unit.resolver other options).resolve reference).status ≠
        ((unit.resolver registry options).resolve reference).status := by
  obtain ⟨path, context, span⟩ := reference
  obtain ⟨hrequire, hknown, name, rest, hpath, hpreferred⟩ := hleft
  dsimp only at hpath hpreferred
  subst hpath
  have hsome : (registry.lookup? module).isSome = true := by
    rw [← Registry.contains_eq_isSome_lookup? hreach.sound]
    exact hknown
  obtain ⟨scope, hscope⟩ := Option.isSome_iff_exists.mp hsome
  have hname := (hreach.sound.lookup? hscope).1
  obtain ⟨content, rfl, hfaultless, hcontent⟩ := Resolver.exists_content hname name rest
    context span ((unit.resolver registry options).resolve
      ⟨module :: name :: rest, context, span⟩).status
  obtain ⟨other, hother, -, hagree, hlookup⟩ := hreach.exists_variant hfaultless hknown
  refine ⟨other, hother, hagree, ?_⟩
  have halike : (unit.resolver registry options).SearchAlike (unit.resolver other options)
      content.name := by
    apply Resolver.searchAlike_of_imports
    · rfl
    · exact congrArg Prod.fst (build_agreeExcept hunnamed hagree)
  have hpreferred' : (unit.resolver other options).preferredMember? content.name name rest
      context = none := by
    rw [← Resolver.preferredMember?_congr halike]
    exact hpreferred
  exact hcontent (unit.resolver other options) hrequire hpreferred' hlookup

end Contents

/-- For a module that the table of a unit does not name: if no reference is left to
it, the unit is resolved alike whatever the module holds, and if one is, then other
contents of the module change the statuses of the unit's references. -/
theorem resolve_alike_unless_left (registry : Registry) (hreach : registry.Reachable)
    (unit : SourceUnit) (options : Options) (module : Text)
    (hdepends : (unit.resolve registry options).imports.dependsOn module = false) :
    ((∀ reference ∈ unit.references,
        ¬ (unit.resolver registry options).LeavesTo reference module) →
      ∀ other : Registry, other.Reachable → registry.AgreeExcept other module →
        unit.resolve other options = unit.resolve registry options) ∧
    ((∃ reference ∈ unit.references,
        (unit.resolver registry options).LeavesTo reference module) →
      ∃ other : Registry, other.Reachable ∧ registry.AgreeExcept other module ∧
        (unit.resolve other options).references.map (·.outcome.status) ≠
          (unit.resolve registry options).references.map (·.outcome.status)) := by
  constructor
  · intro hnone other hother hagree
    exact (resolve_agreeExcept hreach hother hdepends hagree hnone).symm
  · rintro ⟨reference, hreference, hleft⟩
    obtain ⟨other, hother, hagree, hstatus⟩ := exists_status_ne hreach hdepends hleft
    refine ⟨other, hother, hagree, ?_⟩
    rw [references_resolve, references_resolve, List.map_map, List.map_map]
    intro hsame
    exact hstatus (List.map_inj_left.mp hsame reference hreference)

/-- A unit that imports one sport: `run` does not read the other sport, and a path
through it does. -/
theorem resolve_run_alike :
    let imports : List Import := [⟨"Pentathlon", .everything, {}⟩]
    let meet : SourceUnit := { module := "Meet", imports, references := [⟨["run"], .any, {}⟩] }
    let reading : SourceUnit :=
      { module := "Meet", imports, references := [⟨["Triathlon", "swim"], .value, {}⟩] }
    Registry.sports.Reachable ∧
      (meet.resolve .sports {}).imports.dependsOn "Triathlon" = false ∧
      (reading.resolve .sports {}).imports.dependsOn "Triathlon" = false ∧
      (∀ other : Registry, other.Reachable → Registry.sports.AgreeExcept other "Triathlon" →
        meet.resolve other {} = meet.resolve .sports {}) ∧
      ∃ other : Registry, other.Reachable ∧ Registry.sports.AgreeExcept other "Triathlon" ∧
        (reading.resolve other {}).references.map (·.outcome.status) ≠
          (reading.resolve .sports {}).references.map (·.outcome.status) := by
  intro imports meet reading
  have hmeet : (meet.resolve .sports {}).imports.dependsOn "Triathlon" = false := by
    rw [dependsOn_resolve]
    decide
  have hreading : (reading.resolve .sports {}).imports.dependsOn "Triathlon" = false := by
    rw [dependsOn_resolve]
    decide
  refine ⟨Registry.sports_reachable, hmeet, hreading, ?_, ?_⟩
  · apply (resolve_alike_unless_left .sports Registry.sports_reachable meet {} "Triathlon"
      hmeet).1
    rintro reference hreference ⟨-, -, name, rest, hpath, -⟩
    obtain rfl := List.mem_singleton.mp hreference
    exact absurd hpath (by simp)
  · apply (resolve_alike_unless_left .sports Registry.sports_reachable reading {}
      "Triathlon" hreading).2
    exact ⟨⟨["Triathlon", "swim"], .value, {}⟩, List.mem_singleton_self _, rfl, by decide,
      "swim", [], rfl, rfl⟩

/-- No import names the module, so the table does not depend on it, and still the
path through the module fails once the module is empty. -/
theorem unnamed_module_read :
    let unit : SourceUnit := { references := [⟨["M", "x"], .any, {}⟩] }
    let full : Registry := ({} : Registry).register { name := "M", symbols := [{ name := "x" }] }
    let bare : Registry := ({} : Registry).register { name := "M" }
    full.Reachable ∧ bare.Reachable ∧ full.AgreeExcept bare "M" ∧
      (unit.resolve full {}).imports.dependsOn "M" = false ∧
      (unit.resolve full {}).references.map (·.outcome.status) = [.resolved] ∧
      (unit.resolve bare {}).references.map (·.outcome.status) = [.symbolNotFound] := by
  intro unit full bare
  refine ⟨.register _ .empty, .register _ .empty, ?_, ?_, by decide, by decide⟩
  · exact Registry.agreeExcept_register Registry.sound_empty rfl rfl rfl
  · rw [dependsOn_resolve]
    decide

end SourceUnit

end NameBinding
