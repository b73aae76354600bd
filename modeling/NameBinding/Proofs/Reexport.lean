import NameBinding.Proofs.Shown
import Mathlib.Data.List.Perm.Subperm

/-!
What it changes to pass submodules on. Imports then show more and qualifying looks
further down, but what was found is still there: it is found again, or it has become one
of several candidates that imports of modules show.
-/

namespace NameBinding

namespace Scope

/-- What comes with submodules comes after the scope's own symbols. -/
theorem exposed_prefix (scope : Scope) : scope.exposed false <+: scope.exposed true := by
  obtain ⟨place, name, symbols, submodules, span⟩ := scope
  refine ⟨exposedByAll true place 0 submodules, ?_⟩
  simp [exposed, exposedBy]

theorem search?_reexport {scope : Scope} {name : Text} {context : Context} {found : Located}
    (h : scope.search? false name context = some found) :
    scope.search? true name context = some found := by
  rw [search?_eq_find?] at h ⊢
  obtain ⟨below, hbelow⟩ := scope.exposed_prefix
  rw [← hbelow, List.find?_append, h, Option.some_or]

end Scope

/-- Whether an import succeeds does not depend on what comes with it. -/
theorem Import.status_contribution (declaration : Import) (registry : Registry) (unit : Text)
    (options : Options) (reexport : Bool) :
    (declaration.contribution registry unit { options with reexport }).status =
      (declaration.contribution registry unit options).status := by
  unfold contribution
  split
  · rfl
  · cases registry.lookup? declaration.module with
    | none => rfl
    | some scope =>
        cases declaration.target with
        | everything => rfl
        | symbol kind name => rfl
        | submodule path =>
            cases hinner : scope.findSubmodule? path <;> simp [hinner, Contribution.status]

namespace Outcome

/-- A single name means the one symbol that is shown under it. -/
theorem ofShown_single {reference : Reference} (h : reference.isDotted = false)
    (symbol : Located) : ofShown [symbol] reference = .found symbol (some .importedModule) := by
  obtain ⟨path, context, span⟩ := reference
  match path with
  | [] | [_] => rfl
  | _ :: _ :: _ => cases h

theorem ofShown_ne_ambiguous {shown : List Located} (h : shown.length ≤ 1)
    (reference : Reference) (tier : Option Tier) (candidates : List Located) :
    ofShown shown reference ≠ .failed (.ambiguous tier candidates) := by
  match shown with
  | [] =>
      unfold ofShown
      cases reference.isDotted <;> simp
  | [symbol] =>
      unfold ofShown Match.outcome
      simp only [Match.follow?]
      cases symbol.follow? reference.context reference.path.tail <;> simp [Match.undecided]
  | _ :: _ :: _ => simp at h

/-- Where more is shown, a symbol that a path went through alone is found again or is one
of several. -/
theorem found_of_ofShown_subset {left right : List Located} (h : left ⊆ right)
    {reference : Reference} {symbol : Located} {tier : Option Tier}
    (hfound : ofShown left reference = .found symbol tier) :
    ofShown right reference = .found symbol tier ∨
      ∃ head, left = [head] ∧ head ∈ right ∧
        ofShown right reference = .failed (.ambiguous (some .importedModule) right) := by
  match left, right with
  | [], _ => cases hfound
  | _ :: _ :: _, _ =>
      rw [ofShown_several] at hfound
      cases hfound
  | [head], [] => exact absurd (h (List.mem_singleton_self head)) (List.not_mem_nil)
  | [head], [other] =>
      obtain rfl : head = other := List.mem_singleton.mp (h (List.mem_singleton_self head))
      exact .inl hfound
  | [head], first :: second :: others =>
      exact .inr ⟨head, rfl, h (List.mem_singleton_self head), ofShown_several _ _ _ _⟩

theorem ambiguous_of_ofShown_subset {left right : List Located} (h : left ⊆ right)
    (hnodup : left.Nodup) {reference : Reference} {tier : Option Tier}
    {candidates : List Located}
    (hambiguous : ofShown left reference = .failed (.ambiguous tier candidates)) :
    ofShown right reference = .failed (.ambiguous tier right) ∧ candidates ⊆ right := by
  have hmore : left.length ≤ right.length := (hnodup.subperm h).length_le
  match left, right with
  | [], _ | [_], _ =>
      exact absurd hambiguous (ofShown_ne_ambiguous (by simp) reference tier candidates)
  | _ :: _ :: _, [] | _ :: _ :: _, [_] => simp at hmore
  | first :: second :: others, first' :: second' :: others' =>
      rw [ofShown_several] at hambiguous ⊢
      obtain ⟨rfl, rfl⟩ := Failure.ambiguous.inj (Outcome.failed.inj hambiguous)
      exact ⟨rfl, h⟩

end Outcome

namespace Resolver

/-- The resolver of a unit whose imports are read, and whose paths are qualified, under
one policy on submodules. -/
def under (reexport : Bool) (registry : Registry) (unit : Text) (options : Options)
    (imports : List Import) (locals : Locals) : Resolver :=
  let options := { options with reexport }
  ⟨registry, (ImportTable.build registry unit options imports).1, locals, options⟩

/-- Qualifying finds what the scope that it goes down to holds for the path. -/
theorem qualified_eq_found_iff {resolver : Resolver} {scope : Scope} {name : Text}
    {rest : List Text} {context : Context} {symbol : Located} {tier : Option Tier} :
    resolver.qualified scope name rest context = .found symbol tier ↔
      tier = none ∧
      (resolver.options.requireImport = true →
        resolver.imports.importsModule scope.module.name = true) ∧
      ∃ head,
        (descend scope name rest).1.search? resolver.options.reexport (descend scope name rest).2.1
          (if (descend scope name rest).2.2.isEmpty then context else .any) = some head ∧
        head.follow? context (descend scope name rest).2.2 = some symbol := by
  unfold qualified
  generalize descend scope name rest = reached
  obtain ⟨inner, last, members⟩ := reached
  dsimp only
  cases hrefused : resolver.options.requireImport &&
      !resolver.imports.importsModule scope.module.name with
  | true =>
      simp only [Bool.and_eq_true, Bool.not_eq_true'] at hrefused
      simp [hrefused]
  | false =>
      have hallowed : resolver.options.requireImport = true →
          resolver.imports.importsModule scope.module.name = true := by
        simpa using hrefused
      rw [if_neg Bool.false_ne_true]
      cases inner.search? resolver.options.reexport last
          (if members.isEmpty then context else .any) with
      | none => simp
      | some head =>
          dsimp only
          cases hfollow : head.follow? context members with
          | none => simp [hfollow]
          | some target =>
              constructor
              · intro h
                obtain ⟨rfl, rfl⟩ := Outcome.found.inj h
                exact ⟨rfl, hallowed, head, rfl, hfollow⟩
              · rintro ⟨rfl, -, _, hhead, htarget⟩
                cases hhead
                cases hfollow.symm.trans htarget
                rfl

/-- The head of a path alone means the one symbol that is shown under it. -/
theorem LeftToShown.resolve_head {resolver : Resolver} {reference : Reference}
    (h : resolver.LeftToShown reference) (hdotted : reference.isDotted = true)
    {head : Located}
    (hshown : resolver.importedModuleSymbols reference.head reference.headContext = [head]) :
    resolver.resolve ⟨[reference.head], .any, reference.span⟩ =
      .found head (some .importedModule) := by
  have hcontext : reference.headContext = .any := by simp [Reference.headContext, hdotted]
  rw [hcontext] at hshown
  have halone : resolver.LeftToShown ⟨[reference.head], .any, reference.span⟩ :=
    ⟨h.named, hcontext ▸ h.undeclared, nofun, nofun⟩
  rw [halone.resolve]
  show Outcome.ofShown (resolver.importedModuleSymbols reference.head .any) _ = _
  rw [hshown, Outcome.ofShown_single rfl]

theorem resolve_ne_ambiguous_of_registered {resolver : Resolver} {reference : Reference}
    {scope : Scope} (hdotted : reference.isDotted = true)
    (hscope : resolver.registry.lookup? reference.head = some scope) (tier : Option Tier)
    (candidates : List Located) :
    resolver.resolve reference ≠ .failed (.ambiguous tier candidates) := by
  obtain ⟨path, context, span⟩ := reference
  match path with
  | [] | [_] => cases hdotted
  | [] :: _ :: _ => nofun
  | (byte :: bytes) :: name :: rest =>
      have hknown : resolver.registry.lookup? (byte :: bytes) = some scope := hscope
      have hstatus := status_of_registered name rest context hknown
      rw [resolve_dotted (List.cons_ne_nil byte bytes)]
      intro h
      rw [h] at hstatus
      simp [Outcome.status, Failure.status] at hstatus

section Policies

variable (registry : Registry) (unit : Text) (options : Options) (imports : List Import)
  (locals : Locals)

theorem importedDeclarations_under (reexport : Bool) (name : Text) (context : Context) :
    (under reexport registry unit options imports locals).importedDeclarations name context =
      (lastSingle? registry unit imports name context).toList :=
  importedDeclarations_build rfl name context

theorem search?_under (name : Text) (context : Context) :
    (under true registry unit options imports locals).search? name context declarationTiers =
      (under false registry unit options imports locals).search? name context
        declarationTiers := by
  refine search?_declarationTiers_congr ?_ ?_
  · rfl
  · rw [importedDeclarations_under, importedDeclarations_under]

theorem importsModule_under (reexport : Bool) (module : Text) :
    (under reexport registry unit options imports locals).imports.importsModule module =
      (ImportTable.build registry unit options imports).1.importsModule module := by
  show (ImportTable.build registry unit { options with reexport } imports).1.importsModule
    module = _
  simp only [ImportTable.importsModule_build, Import.status_contribution]

/-- What is shown without submodules is shown with them. -/
theorem importedModuleSymbols_under (name : Text) (context : Context) :
    (under false registry unit options imports locals).importedModuleSymbols name context ⊆
      (under true registry unit options imports locals).importedModuleSymbols name context := by
  rw [importedModuleSymbols_build rfl, importedModuleSymbols_build rfl]
  intro located hlocated
  rw [shownUnder, List.mem_eraseDups, List.mem_filter, opened, List.mem_flatMap] at hlocated ⊢
  obtain ⟨⟨declaration, hdeclaration, hexposed⟩, hanswers⟩ := hlocated
  refine ⟨⟨declaration, hdeclaration, ?_⟩, hanswers⟩
  obtain ⟨scope, hscope, hlocated⟩ := List.mem_flatMap.mp hexposed
  exact List.mem_flatMap.mpr ⟨scope, hscope, scope.exposed_prefix.subset hlocated⟩

/-- Qualifying goes down by the same submodules, and finds a symbol before it looks
below the scope reached. -/
theorem qualified_under {scope : Scope} {name : Text} {rest : List Text} {context : Context}
    {symbol : Located} {tier : Option Tier}
    (h : (under false registry unit options imports locals).qualified scope name rest context =
      .found symbol tier) :
    (under true registry unit options imports locals).qualified scope name rest context =
      .found symbol tier := by
  rw [qualified_eq_found_iff] at h ⊢
  obtain ⟨htier, hallowed, head, hhead, hfollow⟩ := h
  refine ⟨htier, ?_, head, Scope.search?_reexport hhead, hfollow⟩
  rw [importsModule_under] at hallowed ⊢
  exact hallowed

/-- A reference that is left to what imports show: where more is shown, the head of its
path may have become one of several candidates. -/
theorem resolve_under_of_left {reference : Reference}
    (hleft : (under false registry unit options imports locals).LeftToShown reference) :
    let explicit := under false registry unit options imports locals
    let umbrella := under true registry unit options imports locals
    (∀ symbol tier, explicit.resolve reference = .found symbol tier →
      umbrella.resolve reference = .found symbol tier ∨
        ∃ head candidates,
          explicit.importedModuleSymbols reference.head reference.headContext = [head] ∧
          head ∈ candidates ∧
          umbrella.resolve reference = .failed (.ambiguous (some .importedModule) candidates)) ∧
    (∀ tier candidates, explicit.resolve reference = .failed (.ambiguous tier candidates) →
      ∃ more, umbrella.resolve reference = .failed (.ambiguous tier more) ∧
        candidates ⊆ more) := by
  intro explicit umbrella
  have hright : umbrella.LeftToShown reference := by
    refine hleft.congr rfl rfl ?_
    intro context
    rw [importedDeclarations_under, importedDeclarations_under]
  have hsubset := importedModuleSymbols_under registry unit options imports locals
    reference.head reference.headContext
  rw [hleft.resolve, hright.resolve]
  constructor
  · intro symbol tier hfound
    rcases Outcome.found_of_ofShown_subset hsubset hfound with hsame | ⟨head, hhead, hmore⟩
    · exact .inl hsame
    · exact .inr ⟨head, _, hhead, hmore⟩
  · intro tier candidates hambiguous
    exact ⟨_, Outcome.ambiguous_of_ofShown_subset hsubset (nodup_eraseDups _) hambiguous⟩

/-- What a path means whose head is a registered module stays where it is: declarations of
the head are the same, and qualifying finds no less. -/
theorem resolve_under_of_registered {reference : Reference} {scope : Scope}
    (hdotted : reference.isDotted = true)
    (hscope : registry.lookup? reference.head = some scope) {symbol : Located}
    {tier : Option Tier}
    (h : (under false registry unit options imports locals).resolve reference =
      .found symbol tier) :
    (under true registry unit options imports locals).resolve reference =
      .found symbol tier := by
  obtain ⟨path, context, span⟩ := reference
  match path with
  | [] | [_] => cases hdotted
  | [] :: _ :: _ => cases h
  | (byte :: bytes) :: name :: rest =>
      have hhead : byte :: bytes ≠ [] := List.cons_ne_nil byte bytes
      have hpreferred :
          (under true registry unit options imports locals).preferredMember? (byte :: bytes) name
              rest context =
            (under false registry unit options imports locals).preferredMember? (byte :: bytes)
              name rest context := by
        unfold preferredMember?
        rw [search?_under]
      rw [resolve_dotted hhead] at h ⊢
      cases hmember : (under false registry unit options imports locals).preferredMember?
          (byte :: bytes) name rest context with
      | some member =>
          rw [dotted_eq, hmember] at h
          rw [dotted_eq, hpreferred, hmember]
          exact h
      | none =>
          rw [dotted_of_lookup hmember hscope] at h
          rw [dotted_of_lookup (hpreferred.trans hmember) hscope]
          exact qualified_under registry unit options imports locals h

/-- Other references do not see what imports show, and look at no module. -/
theorem resolve_under_of_settled {reference : Reference}
    (hleft : ¬ (under false registry unit options imports locals).LeftToShown reference)
    (hmodule : reference.isDotted = true → registry.lookup? reference.head = none) :
    (under false registry unit options imports locals).resolve reference =
      (under true registry unit options imports locals).resolve reference := by
  refine resolve_congr_of_not_left hleft rfl ?_ ?_
  · intro context
    rw [importedDeclarations_under, importedDeclarations_under]
  · intro name rest hpath
    have hnone : registry.lookup? reference.head = none :=
      hmodule (by simp [Reference.isDotted, hpath])
    simp [throughModule?, under, hnone]

end Policies

/-- Passing submodules on takes nothing away. A symbol that was found is found again, or it
comes from modules and now is one of several candidates; for a path that no registered
module qualifies, the symbol that the head meant is one of these. Candidates of an ambiguity
stay candidates of an ambiguity at the same tier. -/
theorem resolve_reexport (registry : Registry) (hreach : registry.Reachable) (unit : Text)
    (options : Options) (imports : List Import) (locals : Locals) (reference : Reference) :
    let explicit := under false registry unit options imports locals
    let umbrella := under true registry unit options imports locals
    (∀ symbol tier, explicit.resolve reference = .found symbol tier →
      umbrella.resolve reference = .found symbol tier ∨
      ∃ candidates,
        umbrella.resolve reference = .failed (.ambiguous (some .importedModule) candidates) ∧
        (reference.isDotted = false ∧ symbol ∈ candidates ∨
          reference.isDotted = true ∧ reference.head ∉ registry.names ∧
            ∃ head, explicit.resolve ⟨[reference.head], .any, reference.span⟩ =
                .found head (some .importedModule) ∧ head ∈ candidates)) ∧
    (∀ tier candidates, explicit.resolve reference = .failed (.ambiguous tier candidates) →
      ∃ more, umbrella.resolve reference = .failed (.ambiguous tier more) ∧
        candidates ⊆ more) := by
  intro explicit umbrella
  by_cases hleft : explicit.LeftToShown reference
  · obtain ⟨hfound, hambiguous⟩ :=
      resolve_under_of_left registry unit options imports locals hleft
    refine ⟨?_, hambiguous⟩
    intro symbol tier h
    rcases hfound symbol tier h with hsame | ⟨head, candidates, hhead, hcandidate, hmore⟩
    · exact .inl hsame
    · refine .inr ⟨candidates, hmore, ?_⟩
      cases hdotted : reference.isDotted with
      | false =>
          rw [hleft.resolve, hhead, Outcome.ofShown_single hdotted] at h
          obtain ⟨rfl, -⟩ := Outcome.found.inj h
          exact .inl ⟨rfl, hcandidate⟩
      | true =>
          have hunregistered := hreach.sound.lookup?_eq_none_iff.mp (hleft.unregistered hdotted)
          exact .inr ⟨rfl, hunregistered, head, hleft.resolve_head hdotted hhead, hcandidate⟩
  · by_cases hmodule : reference.isDotted = true → registry.lookup? reference.head = none
    · have hsame : explicit.resolve reference = umbrella.resolve reference :=
        resolve_under_of_settled registry unit options imports locals hleft hmodule
      rw [← hsame]
      exact ⟨fun _ _ h => .inl h, fun _ candidates h => ⟨candidates, h, List.Subset.refl _⟩⟩
    · obtain ⟨hdotted, hknown⟩ := Classical.not_imp.mp hmodule
      obtain ⟨scope, hscope⟩ := Option.ne_none_iff_exists'.mp hknown
      constructor
      · intro symbol tier h
        exact .inl (resolve_under_of_registered registry unit options imports locals hdotted
          hscope h)
      · intro tier candidates h
        exact absurd h (resolve_ne_ambiguous_of_registered hdotted hscope tier candidates)

/-- A club and the relay inside it have a baton each, and both swim. With the relay passed
on, the path below the baton becomes ambiguous, and swimming has one more candidate. -/
theorem resolve_baton_reexport :
    let baton : Symbol := { name := "Baton", kind := .enumType, members := [{ name := "pass" }] }
    let club : Module :=
      { name := "Club"
        symbols := [{ name := "swim" }, baton]
        submodules := [{ name := "Relay", symbols := [{ name := "swim" }, baton] }] }
    let registry := (({} : Registry).register club).register Registry.pentathlon
    let imports : List Import := [⟨"Club", .everything, {}⟩, ⟨"Pentathlon", .everything, {}⟩]
    let explicit := under false registry "Meet" {} imports {}
    let umbrella := under true registry "Meet" {} imports {}
    let pass : Reference := ⟨["Baton", "pass"], .value, {}⟩
    let swim : Reference := ⟨["swim"], .value, {}⟩
    let described (outcome : Outcome Located) : Outcome Text := outcome.map (·.symbol.describe)
    registry.Reachable ∧
      described (explicit.resolve pass) = .found "func Club.pass" (some .importedModule) ∧
      (∃ head candidates,
        umbrella.resolve pass = .failed (.ambiguous (some .importedModule) candidates) ∧
        explicit.resolve ⟨["Baton"], .any, {}⟩ = .found head (some .importedModule) ∧
        head ∈ candidates) ∧
      described (umbrella.resolve pass) =
        .failed (.ambiguous (some .importedModule) ["enum Club.Baton", "enum Club.Relay.Baton"]) ∧
      (∃ more, umbrella.resolve swim = .failed (.ambiguous (some .importedModule) more) ∧
        (explicit.resolve swim).candidates ⊆ more) ∧
      described (explicit.resolve swim) =
        .failed (.ambiguous (some .importedModule) ["func Club.swim", "func Pentathlon.swim"]) ∧
      described (umbrella.resolve swim) =
        .failed (.ambiguous (some .importedModule)
          ["func Club.swim", "func Club.Relay.swim", "func Pentathlon.swim"]) := by
  intro baton club registry imports explicit umbrella pass swim described
  have hreach : registry.Reachable := .register _ (.register _ .empty)
  let target : Located :=
    ⟨.member (.exported (.root "Club") 1) 0, { name := "pass", owner := "Club" }⟩
  have hpass : explicit.resolve pass = .found target (some .importedModule) := by decide
  have hlost : umbrella.resolve pass ≠ .found target (some .importedModule) := by decide
  have hswim : explicit.resolve swim =
      .failed (.ambiguous (some .importedModule) (explicit.resolve swim).candidates) := by decide
  have hhead : ∃ head candidates,
      umbrella.resolve pass = .failed (.ambiguous (some .importedModule) candidates) ∧
      explicit.resolve ⟨["Baton"], .any, {}⟩ = .found head (some .importedModule) ∧
      head ∈ candidates := by
    rcases (resolve_reexport registry hreach "Meet" {} imports {} pass).1 _ _ hpass with
      hsame | ⟨candidates, hmore, ⟨hsingle, -⟩ | ⟨-, -, head, hmeans, hcandidate⟩⟩
    · exact absurd hsame hlost
    · cases hsingle
    · exact ⟨head, candidates, hmore, hmeans, hcandidate⟩
  exact ⟨hreach, by decide, hhead, by decide,
    (resolve_reexport registry hreach "Meet" {} imports {} swim).2 _ _ hswim, by decide,
    by decide⟩

end Resolver

end NameBinding
