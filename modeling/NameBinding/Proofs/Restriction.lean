import NameBinding.Proofs.Collision
import NameBinding.Proofs.Requirement

/-!
What it changes to require imports. A dotted path is refused if its head is a module of
which no import succeeded and no declaration of the head supplies the rest. Every other
reference keeps its meaning, and without the requirement nothing is refused.
-/

namespace NameBinding

namespace Import

variable {declaration : Import} {registry : Registry} {unit : Text} {options : Options}

/-- What the declaration names is there: its module and, for the two other forms, the
submodule or the symbol in it. -/
def Finds (declaration : Import) (registry : Registry) : Prop :=
  ∃ scope, registry.lookup? declaration.module = some scope ∧
    match declaration.target with
    | .everything => True
    | .submodule path => ∃ inner, scope.findSubmodule? path = some inner
    | .symbol kind name => ∃ symbol, scope.findDeclared? kind name = some symbol

theorem resolved_iff :
    (declaration.contribution registry unit options).status = .resolved ↔
      declaration.isSelf unit = false ∧ declaration.Finds registry := by
  unfold contribution Finds
  cases hself : declaration.isSelf unit with
  | true => simp [Contribution.status, ImportFault.status]
  | false =>
      rw [if_neg Bool.false_ne_true]
      cases registry.lookup? declaration.module with
      | none => simp [Contribution.status, ImportFault.status]
      | some scope =>
          cases declaration.target with
          | everything => simp [Contribution.status]
          | submodule path =>
              cases hinner : scope.findSubmodule? path <;>
                simp [hinner, Contribution.status, ImportFault.status]
          | symbol kind name =>
              cases hdeclared : scope.findDeclared? kind name <;>
                simp [hdeclared, Contribution.status, ImportFault.status]

end Import

theorem Outcome.status_eq_moduleNotImported_iff {σ : Type} {outcome : Outcome σ} :
    outcome.status = .moduleNotImported ↔ outcome = .failed .moduleNotImported := by
  cases outcome with
  | found symbol tier => simp [status]
  | failed failure => cases failure <;> simp [status, Failure.status]

namespace Resolver

/-- The same unit, with or without the requirement. -/
def requiring (resolver : Resolver) (requireImport : Bool) : Resolver :=
  { resolver with options := { resolver.options with requireImport } }

/-- The reference wants for an import: it goes on below a module of which no import
succeeded, and no declaration that the head means supplies the rest of the path. -/
structure LacksImport (resolver : Resolver) (reference : Reference) : Prop where
  dotted : reference.isDotted = true
  registered : reference.head ∈ resolver.registry.names
  unimported : resolver.imports.importsModule reference.head = false
  unsupplied : ¬ ∃ tier symbol target, resolver.Prefers reference.head tier symbol ∧
    Picks reference.context symbol.members reference.path.tail target

variable {resolver : Resolver} {reference : Reference}

theorem supplied?_eq_none_iff (hindexed : resolver.imports.Indexed)
    (hdotted : reference.isDotted = true) :
    resolver.supplied? reference = none ↔
      ¬ ∃ tier symbol target, resolver.Prefers reference.head tier symbol ∧
        Picks reference.context symbol.members reference.path.tail target := by
  obtain ⟨path, context, span⟩ := reference
  match path with
  | [] => cases hdotted
  | [_] => cases hdotted
  | head :: name :: rest =>
      rw [Option.eq_none_iff_forall_ne_some]
      constructor
      · rintro hnothing ⟨tier, symbol, target, hprefers, hpicks⟩
        exact hnothing (target, tier)
          ((preferredMember?_eq_some_iff hindexed).mpr ⟨symbol, hprefers, hpicks⟩)
      · rintro hnothing ⟨target, tier⟩ hsupplied
        obtain ⟨symbol, hprefers, hpicks⟩ :=
          (preferredMember?_eq_some_iff hindexed).mp hsupplied
        exact hnothing ⟨tier, symbol, target, hprefers, hpicks⟩

/-- A reference is refused exactly if imports are required and it wants for one. -/
theorem refused_iff (hreach : resolver.registry.Reachable)
    (hindexed : resolver.imports.Indexed) :
    resolver.resolve reference = .failed .moduleNotImported ↔
      resolver.options.requireImport = true ∧ resolver.LacksImport reference := by
  rw [resolve_eq_moduleNotImported_iff]
  constructor
  · rintro ⟨-, hdotted, hsupplied, hrequire, scope, hscope, hmissing⟩
    have hname : scope.module.name = reference.head := (hreach.sound.lookup? hscope).2.2.1
    rw [hname] at hmissing
    exact ⟨hrequire, hdotted, hreach.sound.exists_lookup?_iff.mp ⟨scope, hscope⟩, hmissing,
      (supplied?_eq_none_iff hindexed hdotted).mp hsupplied⟩
  · rintro ⟨hrequire, h⟩
    obtain ⟨scope, hscope⟩ := hreach.sound.exists_lookup?_iff.mpr h.registered
    obtain ⟨hnonempty, -, hname, -⟩ := hreach.sound.lookup? hscope
    refine ⟨hnonempty, h.dotted, (supplied?_eq_none_iff hindexed h.dotted).mpr h.unsupplied,
      hrequire, scope, hscope, ?_⟩
    rw [hname]
    exact h.unimported

/-- Declarations are looked for in the same way with the requirement and without. -/
theorem lacksImport_requiring_iff (requireImport : Bool) :
    (resolver.requiring requireImport).LacksImport reference ↔ resolver.LacksImport reference := by
  have hprefers (name : Text) (tier : Tier) (symbol : Located) :
      (resolver.requiring requireImport).Prefers name tier symbol ↔
        resolver.Prefers name tier symbol :=
    ⟨fun h => ⟨h.first, h.sole⟩, fun h => ⟨h.first, h.sole⟩⟩
  constructor
  · rintro ⟨hdotted, hregistered, hunimported, hunsupplied⟩
    simp only [hprefers] at hunsupplied
    exact ⟨hdotted, hregistered, hunimported, hunsupplied⟩
  · rintro ⟨hdotted, hregistered, hunimported, hunsupplied⟩
    simp only [← hprefers] at hunsupplied
    exact ⟨hdotted, hregistered, hunimported, hunsupplied⟩

/-- A reference that wants for no import may go without one. -/
theorem resolve_requiring_of_not_lacks (hreach : resolver.registry.Reachable)
    (hindexed : resolver.imports.Indexed) (h : ¬ resolver.LacksImport reference) :
    (resolver.requiring true).resolve reference =
      (resolver.requiring false).resolve reference := by
  refine resolve_congr (by rfl) (fun _ _ _ _ => rfl) ?_
  intro name rest hpath hpreferred
  have hdotted : reference.isDotted = true := by simp [Reference.isDotted, hpath]
  have hsupplied : resolver.supplied? reference = none := by
    rw [supplied?, hpath]
    exact hpreferred
  unfold throughModule?
  cases hscope : resolver.registry.lookup? reference.head with
  | none => simp [requiring, hscope]
  | some scope =>
      have hname : scope.module.name = reference.head := (hreach.sound.lookup? hscope).2.2.1
      have himported : resolver.imports.importsModule scope.module.name = true := by
        by_contra hmissing
        rw [hname, Bool.not_eq_true] at hmissing
        exact h ⟨hdotted, hreach.sound.exists_lookup?_iff.mp ⟨scope, hscope⟩, hmissing,
          (supplied?_eq_none_iff hindexed hdotted).mp hsupplied⟩
      have hallowed : (resolver.requiring true).options.requireImport = true →
          (resolver.requiring true).imports.importsModule scope.module.name = true :=
        fun _ => himported
      have hfree : (resolver.requiring false).options.requireImport = true →
          (resolver.requiring false).imports.importsModule scope.module.name = true := by
        intro hrequire
        cases hrequire
      rw [show (resolver.requiring true).registry.lookup? reference.head = some scope from hscope,
        show (resolver.requiring false).registry.lookup? reference.head = some scope from hscope]
      exact congrArg some
        (qualified_congr_of_allowed (by rfl) hallowed hfree name rest reference.context)

theorem LacksImport.refused (h : resolver.LacksImport reference)
    (hreach : resolver.registry.Reachable) (hindexed : resolver.imports.Indexed) :
    (resolver.requiring true).resolve reference = .failed .moduleNotImported := by
  have hregistry : (resolver.requiring true).registry.Reachable := hreach
  exact (refused_iff hregistry hindexed).mpr ⟨rfl, (lacksImport_requiring_iff true).mpr h⟩

theorem resolve_requiring_false_ne (hreach : resolver.registry.Reachable)
    (hindexed : resolver.imports.Indexed) (reference : Reference) :
    (resolver.requiring false).resolve reference ≠ .failed .moduleNotImported := by
  intro hrefused
  have hregistry : (resolver.requiring false).registry.Reachable := hreach
  have hrequire := ((refused_iff hregistry hindexed).mp hrefused).1
  cases hrequire

/-- The requirement refuses the references that want for an import, it leaves all others
what they are, and nothing is refused without it. An import counts if it finds what it
names, whatever its form. -/
theorem resolve_requiring (registry : Registry) (hreach : registry.Reachable)
    (table : ImportTable) (htable : table.Reachable) (locals : Locals) (options : Options)
    (reference : Reference) :
    let resolver : Resolver := ⟨registry, table, locals, options⟩
    let free := (resolver.requiring false).resolve reference
    let bound := (resolver.requiring true).resolve reference
    free.status ≠ .moduleNotImported ∧
      (bound ≠ free ↔ resolver.LacksImport reference) ∧
      (resolver.LacksImport reference → bound.status = .moduleNotImported ∧
        bound.symbol? = none ∧ bound.tier? = none ∧ bound.candidates = []) ∧
      ∀ unit atBuild imports module,
        (ImportTable.build registry unit atBuild imports).1.importsModule module = true ↔
          ∃ declaration ∈ imports, declaration.module = module ∧
            declaration.isSelf unit = false ∧ declaration.Finds registry := by
  intro resolver free bound
  have hindexed : resolver.imports.Indexed := htable.indexed
  have hfree : free ≠ .failed .moduleNotImported :=
    resolve_requiring_false_ne hreach hindexed reference
  refine ⟨fun h => hfree (Outcome.status_eq_moduleNotImported_iff.mp h), ?_, ?_, ?_⟩
  · constructor
    · intro hchanged
      by_contra hnot
      exact hchanged (resolve_requiring_of_not_lacks hreach hindexed hnot)
    · intro hlacks hsame
      exact hfree (hsame.symm.trans (hlacks.refused hreach hindexed))
  · intro hlacks
    have hrefused : bound = .failed .moduleNotImported := hlacks.refused hreach hindexed
    rw [hrefused]
    exact ⟨rfl, rfl, rfl, rfl⟩
  · intro unit atBuild imports module
    simp only [ImportTable.importsModule_build_iff, Import.resolved_iff]
    exact exists_congr fun declaration => and_congr_right fun _ => and_comm

/-- The import finds no function of the name, so it does not count, and a path below the
module is refused. -/
theorem resolve_requiring_triathlon :
    let imports : List Import := [⟨"Triathlon", .symbol .function "dive", {}⟩]
    let table := (ImportTable.build .sports "Meet" {} imports).1
    let locals := Locals.ofList "Meet" []
    let resolver : Resolver := ⟨.sports, table, locals, {}⟩
    let swim : Reference := ⟨["Triathlon", "swim"], .any, {}⟩
    Registry.sports.Reachable ∧ table.Reachable ∧ resolver.LacksImport swim ∧
      ((resolver.requiring false).resolve swim).isFound = true ∧
      (resolver.requiring true).resolve swim ≠ (resolver.requiring false).resolve swim ∧
      ((resolver.requiring true).resolve swim).status = .moduleNotImported := by
  intro imports table locals resolver swim
  have htable : table.Reachable := ImportTable.after_reachable .sports "Meet" {} imports
  obtain ⟨-, hchanged, hrefused, -⟩ :=
    resolve_requiring .sports Registry.sports_reachable table htable locals {} swim
  have hlacks : resolver.LacksImport swim :=
    { dotted := rfl
      registered := by decide
      unimported := by decide +kernel
      unsupplied := (supplied?_eq_none_iff htable.indexed rfl).mp (by decide) }
  exact ⟨Registry.sports_reachable, htable, hlacks, by decide +kernel, hchanged.mpr hlacks,
    (hrefused hlacks).1⟩

end Resolver

end NameBinding
