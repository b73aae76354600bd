import NameBinding.Proofs.Ledger
import NameBinding.Proofs.Qualification
import NameBinding.Proofs.SourceLines

/-!
Qualifying and importing see the same symbols in the same order. What a name means below
a module or a submodule is the first binding of the name that an import of this module or
submodule makes, wherever the import stands in a list.
-/

namespace NameBinding

/-- Whether a use of `name` in `context` may mean what is bound. -/
def Binding.answers (binding : Binding) (name : Text) (context : Context) : Bool :=
  binding.name == name && binding.symbol.symbol.kind.fits context

/-- The names that an import goes down below its module. -/
def ImportTarget.steps : ImportTarget → List Text
  | .everything | .symbol .. => []
  | .submodule path => path.parts

theorem ImportTarget.dot_not_mem_steps (target : ImportTarget) :
    ∀ step ∈ target.steps, Text.dot ∉ step := by
  cases target with
  | submodule path => exact fun step hstep => Text.separator_not_mem hstep
  | _ => simp [steps]

namespace Import

variable {declaration : Import} {registry : Registry} {unit : Text} {scope : Scope}

theorem leads_of_openedScope? (h : declaration.openedScope? registry unit = some scope) :
    registry.Leads (declaration.module :: declaration.target.steps) scope := by
  unfold openedScope? at h
  cases htarget : declaration.target with
  | symbol kind name => simp [htarget] at h
  | everything =>
      rw [htarget] at h
      obtain ⟨-, hfound⟩ := Option.ite_none_left_eq_some.mp h
      exact ⟨scope, Registry.lookup_toOption_eq_some.mp hfound, .here scope⟩
  | submodule path =>
      rw [htarget] at h
      obtain ⟨-, hfound⟩ := Option.ite_none_left_eq_some.mp h
      obtain ⟨root, hroot, hinner⟩ := Registry.lookupSubmodule_toOption_eq_some.mp hfound
      exact ⟨root, hroot, Scope.leads_of_findSubmodule? hinner⟩

/-- Searching the bindings of an import is searching what its scope exposes. -/
theorem find?_bindings (declaration : Import) (order : Nat) (contribution : Contribution)
    (name : Text) (context : Context) :
    ((declaration.bindings order contribution).find? (·.answers name context)).map
        (·.symbol) =
      contribution.symbols.find? (·.answers name context) := by
  rw [bindings, List.find?_map, Option.map_map]
  exact Option.map_id'

end Import

namespace ImportTable

variable {registry : Registry} {unit : Text} {options : Options} {imports : List Import}

/-- The share of an import and the scope that the import opens are searched alike. -/
theorem find?_share {order : Nat} {declaration : Import} {scope : Scope}
    (hwritten : imports[order]? = some declaration)
    (hopened : declaration.openedScope? registry unit = some scope) (name : Text)
    (context : Context) :
    (((build registry unit options imports).1.share order).find?
        (·.answers name context)).map (·.symbol) =
      scope.search? options.reexport name context := by
  obtain ⟨hcontribution, -⟩ := Import.openedScope?_eq_some options hopened
  have hshare : (build registry unit options imports).1.share order =
      declaration.bindings order (declaration.contribution registry unit options) :=
    share_after registry unit options hwritten
  rw [hshare, Import.find?_bindings, hcontribution, Scope.search?_eq_find?]
  rfl

theorem importsModule_of_openedScope? {order : Nat} {declaration : Import} {scope : Scope}
    (hwritten : imports[order]? = some declaration)
    (hopened : declaration.openedScope? registry unit = some scope) :
    (build registry unit options imports).1.importsModule declaration.module = true := by
  obtain ⟨hcontribution, -⟩ := Import.openedScope?_eq_some options hopened
  exact importsModule_build_iff.mpr
    ⟨declaration, List.mem_of_getElem? hwritten, by rw [hcontribution]; rfl, rfl⟩

end ImportTable

namespace Resolver

/-- The last name of a path is searched for in the scope that the others lead to. -/
theorem resolve_of_leads (resolver : Resolver) (hreach : resolver.registry.Reachable)
    {head : Text} {path : List Text} {scope : Scope}
    (hleads : resolver.registry.Leads (head :: path) scope)
    (hplain : ∀ part ∈ path, Text.dot ∉ part)
    (hallowed : resolver.imports.importsModule head = true) {name : Text}
    {context : Context} {span : Span}
    (hsupplied : resolver.supplied? ⟨head :: path ++ [name], context, span⟩ = none) :
    resolver.resolve ⟨head :: path ++ [name], context, span⟩ =
      match scope.search? resolver.options.reexport name context with
      | some symbol => .found symbol none
      | none => .failed .symbolNotFound := by
  obtain ⟨root, hroot, hscope⟩ := hleads
  obtain ⟨hhead, -, hmodule, -⟩ := hreach.sound.lookup? hroot
  obtain ⟨next, others, hpath⟩ : ∃ next others, path ++ [name] = next :: others :=
    List.exists_cons_of_ne_nil (by simp)
  have hdescend : descend root next others = (scope, name, []) :=
    descend_of_leads (Registry.Reachable.wellNamed hreach hroot) hplain hscope
      (fun hmore => absurd rfl hmore) hpath
  rw [List.cons_append, hpath] at hsupplied ⊢
  have hpreferred : resolver.preferredMember? head next others context = none := hsupplied
  have hqualified := qualified_of_descend (fun _ => by rwa [hmodule]) hdescend context
  rw [resolve_dotted hhead, dotted_of_lookup hpreferred hroot, hqualified, List.isEmpty_nil,
    if_pos rfl]
  cases scope.search? resolver.options.reexport name context <;> rfl

/-- Searching a module, or a submodule at any depth, finds what the first binding of the
name stands for among those that its import makes, and nothing if the import makes none.
A path that spells the module and goes on to the name means the same, unless something
that the unit declares or singly imports supplies it. -/
theorem search_of_import (registry : Registry) (hreach : registry.Reachable) (unit : Text)
    (options : Options) (imports : List Import) (order : Nat) (declaration : Import)
    (hwritten : imports[order]? = some declaration) (scope : Scope)
    (hopened : declaration.openedScope? registry unit = some scope) :
    let table := (ImportTable.build registry unit options imports).1
    ∀ (name : Text) (context : Context),
      let first? := (table.share order).find? (·.answers name context)
      scope.search? options.reexport name context = first?.map (·.symbol) ∧
      (scope.search? options.reexport name context = none ↔
        ∀ binding ∈ table.share order,
          binding.name = name → binding.symbol.symbol.kind.fits context = false) ∧
      ∀ (locals : Locals) (atUse : Options) (span : Span),
        let resolver : Resolver := ⟨registry, table, locals, atUse⟩
        let path := declaration.module :: declaration.target.steps ++ [name]
        atUse.reexport = options.reexport →
          resolver.supplied? ⟨path, context, span⟩ = none →
            resolver.resolve ⟨path, context, span⟩ =
              match first? with
              | some binding => .found binding.symbol none
              | none => .failed .symbolNotFound := by
  intro table name context first?
  have hfirst : first?.map (·.symbol) = scope.search? options.reexport name context :=
    ImportTable.find?_share hwritten hopened name context
  refine ⟨hfirst.symm, ?_, ?_⟩
  · rw [← hfirst, Option.map_eq_none_iff, List.find?_eq_none]
    simp [Binding.answers]
  · intro locals atUse span resolver path hreexport hsupplied
    have hresolve := resolve_of_leads resolver hreach
      (Import.leads_of_openedScope? hopened) declaration.target.dot_not_mem_steps
      (ImportTable.importsModule_of_openedScope? hwritten hopened) hsupplied
    rw [hresolve, hreexport, ← hfirst]
    cases first? <;> rfl

/-- Laps are swum in a pool and run outside. The pool is further down, but it comes first
with a triathlon, and it is all that comes with the swim. -/
theorem search_lap_of_import :
    let pool : Module := { name := "Pool", symbols := [{ name := "lap" }] }
    let swim : Module := { name := "Swim", submodules := [pool] }
    let run : Module := { name := "Run", symbols := [{ name := "lap" }] }
    let registry : Registry :=
      ({} : Registry).register { name := "Triathlon", submodules := [swim, run] }
    let options : Options := { reexport := true, requireImport := true }
    let whole : Import := ⟨"Triathlon", .everything, {}⟩
    let part : Import := ⟨"Triathlon", .submodule "Swim", {}⟩
    let table := (ImportTable.build registry "Meet" options [part, whole]).1
    let resolver : Resolver := ⟨registry, table, {}, options⟩
    let inPool : Located :=
      ⟨.exported (.inside (.inside (.root "Triathlon") 0) 0) 0,
        { name := "lap", owner := "Triathlon.Swim.Pool" }⟩
    registry.Reachable ∧ (table.share 0).map (·.symbol) = [inPool] ∧
      (table.share 1).length = 2 ∧
      ((table.share 1).find? (·.answers "lap" .value)).map (·.symbol) = some inPool ∧
      resolver.resolve ⟨["Triathlon", "Swim", "lap"], .value, {}⟩ = .found inPool none ∧
      resolver.resolve ⟨["Triathlon", "lap"], .value, {}⟩ = .found inPool none ∧
      resolver.resolve ⟨["Triathlon", "lap"], .type, {}⟩ = .failed .symbolNotFound := by
  intro pool swim run registry options whole part table resolver inPool
  have hreach : registry.Reachable := .register _ .empty
  obtain ⟨outer, houter⟩ : ∃ scope, whole.openedScope? registry "Meet" = some scope := ⟨_, rfl⟩
  obtain ⟨inner, hinner⟩ : ∃ scope, part.openedScope? registry "Meet" = some scope := ⟨_, rfl⟩
  have hwhole := search_of_import registry hreach "Meet" options [part, whole] 1 whole rfl outer
    houter "lap"
  have hpart := search_of_import registry hreach "Meet" options [part, whole] 0 part rfl inner
    hinner "lap"
  have hlap : (table.share 1).find? (·.answers "lap" .value) =
      some ⟨"lap", inPool, .importedModule, 1⟩ := by decide +kernel
  have hinside : (table.share 0).find? (·.answers "lap" .value) =
      some ⟨"lap", inPool, .importedModule, 0⟩ := by decide +kernel
  have hnone : (table.share 1).find? (·.answers "lap" .type) = none := by decide +kernel
  have hundeclared : ¬ resolver.Declares "Triathlon" := by decide +kernel
  have hsupplied (path : List Text) (context : Context) :
      resolver.supplied? ⟨"Triathlon" :: path, context, {}⟩ = none :=
    supplied?_of_not_declares
      (ImportTable.after_indexed registry "Meet" options [part, whole]) hundeclared
  obtain ⟨-, -, hbelow⟩ := hpart .value
  obtain ⟨-, -, hvalue⟩ := hwhole .value
  obtain ⟨-, -, htype⟩ := hwhole .type
  refine ⟨hreach, by decide +kernel, by decide +kernel, by rw [hlap]; rfl, ?_, ?_, ?_⟩
  · refine (hbelow {} options {} rfl (hsupplied ["Swim", "lap"] .value)).trans ?_
    rw [hinside]
  · refine (hvalue {} options {} rfl (hsupplied ["lap"] .value)).trans ?_
    rw [hlap]
  · refine (htype {} options {} rfl (hsupplied ["lap"] .type)).trans ?_
    rw [hnone]

end Resolver

end NameBinding
