import NameBinding.Resolver

/-!
What a resolver reads. An answer comes from the locals, from what is found under
the head of the path and from the module that is spelled like the head, so
resolvers that agree in these give the same answer.
-/

namespace NameBinding

namespace Resolver

/-- The member that a path leads to below a declaration of its head, with the
tier of the declaration. A module spelled like the head comes after it. -/
def preferredMember? (resolver : Resolver) (head name : Text) (rest : List Text)
    (context : Context) : Option (Located × Tier) :=
  (resolver.search? head .any declarationTiers).bind fun found =>
    (found.follow? context (name :: rest)).map fun target => (target, found.tier)

/-- What qualifying through the module spelled like the head gives, where there
is such a module. -/
def throughModule? (resolver : Resolver) (head name : Text) (rest : List Text)
    (context : Context) : Option (Outcome Located) :=
  (resolver.registry.lookup? head).map (resolver.qualified · name rest context)

theorem dotted_eq (resolver : Resolver) (head name : Text) (rest : List Text)
    (context : Context) :
    resolver.dotted head name rest context =
      match resolver.preferredMember? head name rest context with
      | some (target, tier) => .found target (some tier)
      | none =>
        match resolver.throughModule? head name rest context with
        | some outcome => outcome
        | none =>
          match resolver.search? head .any declarationTiers with
          | some found => .failed found.undecided
          | none => resolver.unregistered head name rest context := by
  unfold dotted preferredMember? throughModule?
  cases resolver.search? head .any declarationTiers with
  | none => cases resolver.registry.lookup? head <;> rfl
  | some found =>
      simp only [Option.bind_some]
      cases found.follow? context (name :: rest) with
      | none => cases resolver.registry.lookup? head <;> rfl
      | some target => rfl

theorem dotted_of_lookup {resolver : Resolver} {head name : Text} {rest : List Text}
    {context : Context} {scope : Scope}
    (hpreferred : resolver.preferredMember? head name rest context = none)
    (hscope : resolver.registry.lookup? head = some scope) :
    resolver.dotted head name rest context = resolver.qualified scope name rest context := by
  rw [dotted_eq, hpreferred, throughModule?, hscope]
  rfl

theorem resolve_singleton {resolver : Resolver} {name : Text} (h : name ≠ [])
    (context : Context) (span : Span) :
    resolver.resolve ⟨[name], context, span⟩ = resolver.unqualified name context := by
  obtain ⟨byte, bytes, rfl⟩ := List.exists_cons_of_ne_nil h
  rfl

theorem resolve_dotted {resolver : Resolver} {head : Text} (h : head ≠ []) (name : Text)
    (rest : List Text) (context : Context) (span : Span) :
    resolver.resolve ⟨head :: name :: rest, context, span⟩ =
      resolver.dotted head name rest context := by
  obtain ⟨byte, bytes, rfl⟩ := List.exists_cons_of_ne_nil h
  rfl

theorem search?_cons (resolver : Resolver) (name : Text) (context : Context) (tier : Tier)
    (tiers : List Tier) :
    resolver.search? name context (tier :: tiers) =
      match resolver.candidates name context tier with
      | [] => resolver.search? name context tiers
      | first :: others => some ⟨tier, first, others⟩ := by
  unfold search?
  rw [List.findSome?_cons]
  cases resolver.candidates name context tier <;> rfl

/-- Both resolvers find the same under a name, whichever tiers are asked. -/
def SearchAlike (left right : Resolver) (name : Text) : Prop :=
  ∀ context, ∀ tiers ∈ [declarationTiers, allTiers],
    left.search? name context tiers = right.search? name context tiers

variable {left right : Resolver}

theorem search?_declarationTiers_congr {name : Text} {context : Context}
    (hlocals : left.locals = right.locals)
    (hsingle : left.importedDeclarations name context =
      right.importedDeclarations name context) :
    left.search? name context declarationTiers =
      right.search? name context declarationTiers := by
  simp only [search?, declarationTiers, List.findSome?_cons, List.findSome?_nil, candidates,
    hlocals, hsingle]

/-- What comes with modules counts only where nothing is singly imported. -/
theorem searchAlike_of_candidates {name : Text} (hlocals : left.locals = right.locals)
    (hsingle : ∀ context,
      left.importedDeclarations name context = right.importedDeclarations name context)
    (hshown : ∀ context, left.importedDeclarations name context = [] →
      left.importedModuleSymbols name context = right.importedModuleSymbols name context) :
    left.SearchAlike right name := by
  intro context tiers htiers
  have hsame := hsingle context
  have hmodules := hshown context
  simp only [List.mem_cons, List.not_mem_nil, or_false] at htiers
  rcases htiers with rfl | rfl
  · exact search?_declarationTiers_congr hlocals hsame
  · simp only [search?, allTiers, declarationTiers, List.cons_append, List.nil_append,
      List.findSome?_cons, List.findSome?_nil, candidates, hlocals, ← hsame]
    cases hfound : left.importedDeclarations name context with
    | nil => rw [hmodules hfound]
    | cons first others => rfl

theorem preferredMember?_congr {head : Text} (hsearch : left.SearchAlike right head)
    (name : Text) (rest : List Text) (context : Context) :
    left.preferredMember? head name rest context =
      right.preferredMember? head name rest context := by
  unfold preferredMember?
  rw [hsearch .any declarationTiers (by simp)]

theorem unregistered_congr {head : Text} (hlocals : left.locals = right.locals)
    (hsearch : left.SearchAlike right head) (name : Text) (rest : List Text)
    (context : Context) :
    left.unregistered head name rest context =
      right.unregistered head name rest context := by
  unfold unregistered throughUnit
  rw [hlocals, hsearch .any allTiers (by simp)]

/-- Qualifying reads the options, the module and whether it is imported. -/
theorem qualified_congr {scope : Scope} (hoptions : left.options = right.options)
    (himports : left.options.requireImport = true →
      left.imports.importsModule scope.module.name =
        right.imports.importsModule scope.module.name)
    (name : Text) (rest : List Text) (context : Context) :
    left.qualified scope name rest context = right.qualified scope name rest context := by
  unfold qualified
  rw [← hoptions]
  cases hrequire : left.options.requireImport with
  | false => rfl
  | true => rw [himports hrequire]

theorem throughModule?_congr {head : Text} (hoptions : left.options = right.options)
    (hlookup : left.registry.lookup? head = right.registry.lookup? head)
    (himports : left.options.requireImport = true → ∀ module,
      left.imports.importsModule module = right.imports.importsModule module)
    (name : Text) (rest : List Text) (context : Context) :
    left.throughModule? head name rest context =
      right.throughModule? head name rest context := by
  unfold throughModule?
  rw [hlookup]
  congr 1
  funext scope
  exact qualified_congr hoptions (fun hrequire => himports hrequire _) name rest context

theorem dotted_congr {head name : Text} {rest : List Text} {context : Context}
    (hlocals : left.locals = right.locals) (hsearch : left.SearchAlike right head)
    (hmodule : left.preferredMember? head name rest context = none →
      left.throughModule? head name rest context =
        right.throughModule? head name rest context) :
    left.dotted head name rest context = right.dotted head name rest context := by
  rw [dotted_eq, dotted_eq, ← preferredMember?_congr hsearch name rest context,
    hsearch .any declarationTiers (by simp),
    unregistered_congr hlocals hsearch name rest context]
  cases hpreferred : left.preferredMember? head name rest context with
  | some member => rfl
  | none => rw [hmodule hpreferred]

/-- A module is asked only for what no declaration of the head supplies. -/
theorem resolve_congr {reference : Reference} (hlocals : left.locals = right.locals)
    (hsearch : reference.head ≠ [] → left.SearchAlike right reference.head)
    (hmodule : ∀ name rest, reference.path = reference.head :: name :: rest →
      left.preferredMember? reference.head name rest reference.context = none →
        left.throughModule? reference.head name rest reference.context =
          right.throughModule? reference.head name rest reference.context) :
    left.resolve reference = right.resolve reference := by
  obtain ⟨path, context, span⟩ := reference
  match path with
  | [] => rfl
  | [] :: rest => rfl
  | (byte :: bytes) :: rest =>
      have hhead : byte :: bytes ≠ [] := List.cons_ne_nil byte bytes
      have halike : left.SearchAlike right (byte :: bytes) := hsearch hhead
      cases rest with
      | nil =>
          rw [resolve_singleton hhead, resolve_singleton hhead, unqualified, unqualified,
            halike context allTiers (by simp)]
      | cons name rest =>
          rw [resolve_dotted hhead, resolve_dotted hhead]
          exact dotted_congr hlocals halike (hmodule name rest rfl)

end Resolver

end NameBinding
