import NameBinding.Proofs.Agreement
import NameBinding.Proofs.Contribution
import NameBinding.Proofs.Distinct

/-!
The precedence of declarations. What a single name means is read off the unit's
locals and imports tier by tier, without an index, without orders and without
the bindings of a table; resolving a name gives exactly that.
-/

namespace NameBinding

/-- The scopes whose symbols a list of imports brings in. -/
def importedScopes (registry : Registry) (unit : Text) (options : Options)
    (imports : List Import) : List Scope :=
  (imports.filterMap (·.openedScope? registry unit)).flatMap (·.visible options.reexport)

/-- What a name means that has these candidates among the locals, hidden by no
other single-declaration import, and among what the other imports show. -/
def Outcome.ofTiers (declared : List Located) (single : Option Located)
    (shown : List Located) : Outcome Located :=
  match declared, single, shown with
  | [symbol], _, _ => .found symbol (some .localDeclaration)
  | _ :: _ :: _, _, _ => .failed (.ambiguous (some .localDeclaration) declared)
  | [], some symbol, _ => .found symbol (some .importedDeclaration)
  | [], none, [] => .failed .unresolved
  | [], none, [symbol] => .found symbol (some .importedModule)
  | [], none, _ :: _ :: _ => .failed (.ambiguous (some .importedModule) shown)

/-- What a name means in a unit. The locals that answer come before everything
else. After them comes the single-declaration import that is written last among
those that answer, and then what the other imports show. -/
def precedence (registry : Registry) (unit : Text) (options : Options)
    (imports : List Import) (locals : Locals) (name : Text) (context : Context) :
    Outcome Located :=
  let single := (imports.filterMap (·.singleSymbol? registry unit)).filter
    (·.answers name context)
  let shown := ((importedScopes registry unit options imports).flatMap (·.symbols)).filter
    (·.answers name context)
  .ofTiers (locals.located.filter (·.answers name context)) single.getLast? (distinct shown)

namespace Resolver

variable {registry : Registry} {unit : Text} {options : Options} {imports : List Import}

theorem placed_of_opened (h : registry.Sound) (locals : Locals) :
    ∀ located ∈ opened registry unit options imports, located.Placed registry locals := by
  intro located hlocated
  obtain ⟨declaration, -, hexposed⟩ := List.mem_flatMap.mp hlocated
  obtain ⟨scope, hscope, hsymbol⟩ := List.mem_flatMap.mp hexposed
  obtain ⟨-, root, path, hroot, hpath⟩ :=
    Import.openedScope?_eq_some options (Option.mem_toList.mp hscope)
  obtain ⟨below, inner, hinner, hmember⟩ := Scope.leads_of_exposed hsymbol
  exact (((h.placed hroot).leads hpath).leads hinner).symbols hmember

/-- What the scopes of the imports hold is what their bindings contribute. -/
theorem symbols_importedScopes :
    (importedScopes registry unit options imports).flatMap (·.symbols) =
      opened registry unit options imports := by
  simp only [importedScopes, opened, Import.exposedSymbols,
    List.filterMap_eq_flatMap_toList, List.flatMap_assoc, Scope.exposed_eq_visible]

/-- Over a built table the search by tiers is a choice between three lists. -/
theorem unqualified_build {resolver : Resolver}
    (h : resolver.imports = (ImportTable.build registry unit options imports).1)
    (name : Text) (context : Context) :
    resolver.unqualified name context =
      .ofTiers (resolver.locals.named name context)
        (lastSingle? registry unit imports name context)
        (shownUnder registry unit options imports name context) := by
  simp only [unqualified, search?, allTiers, declarationTiers, List.cons_append,
    List.nil_append, List.findSome?_cons, List.findSome?_nil, candidates,
    importedDeclarations_build h, importedModuleSymbols_build h]
  generalize resolver.locals.named name context = declared
  generalize lastSingle? registry unit imports name context = single
  generalize shownUnder registry unit options imports name context = shown
  cases declared with
  | cons first others => cases others <;> rfl
  | nil =>
      cases single with
      | some symbol => rfl
      | none =>
          cases shown with
          | nil => rfl
          | cons first others => cases others <;> rfl

/-- In a registry reached by registering and freezing, and for the table that the
imports of a unit build, resolving one name is what the precedence of the tiers
makes of it. -/
theorem resolve_eq_precedence (registry : Registry) (hreach : registry.Reachable)
    (unit : Text) (options atUse : Options) (imports : List Import) (locals : Locals)
    (name : Text) (hname : name ≠ []) (context : Context) (span : Span) :
    (Resolver.mk registry (ImportTable.build registry unit options imports).1 locals
        atUse).resolve ⟨[name], context, span⟩ =
      precedence registry unit options imports locals name context := by
  have hplaced : ∀ located ∈ (opened registry unit options imports).filter
      (·.answers name context), located.Placed registry locals := by
    intro located hlocated
    exact placed_of_opened hreach.sound locals located (List.mem_of_mem_filter hlocated)
  rw [resolve_singleton hname, unqualified_build rfl, shownUnder,
    eraseDups_eq_distinct hplaced, ← symbols_importedScopes]
  rfl

/-- `swim` comes with both modules and is imported singly from each; the last of the
single imports decides. -/
theorem resolve_swim_eq_precedence :
    let imports : List Import :=
      [⟨"Triathlon", .everything, {}⟩, ⟨"Triathlon", .symbol .function "swim", {}⟩,
        ⟨"Pentathlon", .symbol .function "swim", {}⟩, ⟨"Pentathlon", .everything, {}⟩]
    let resolver : Resolver :=
      ⟨.sports, (ImportTable.build .sports "Meet" {} imports).1, { unit := "Meet" }, {}⟩
    Registry.sports.Reachable ∧ ("swim" : Text) ≠ [] ∧
      resolver.resolve ⟨["swim"], .value, {}⟩ =
        precedence .sports "Meet" {} imports { unit := "Meet" } "swim" .value ∧
      (resolver.resolve ⟨["swim"], .value, {}⟩).map (·.symbol.describe) =
        .found "func Pentathlon.swim" (some .importedDeclaration) := by
  intro imports resolver
  have hname : ("swim" : Text) ≠ [] := by decide
  exact ⟨Registry.sports_reachable, hname,
    resolve_eq_precedence .sports Registry.sports_reachable "Meet" {} {} imports
      { unit := "Meet" } "swim" hname .value {}, by decide⟩

end Resolver

end NameBinding
