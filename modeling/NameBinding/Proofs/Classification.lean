import NameBinding.Proofs.Qualification
import NameBinding.Proofs.Registration

/-!
What can come of a dotted path. Its head decides: a registered module, a declaration of
the unit, the unit itself or a name that comes with an imported module, asked in this
order. Only a head that is none of these is no module, and only a declaration or what an
imported module shows can leave a path ambiguous or unresolved.
-/

namespace NameBinding

/-- What becomes of a path below the candidates of its head. -/
def Match.outcome (found : Match) (context : Context) (path : List Text) : Outcome Located :=
  match found.follow? context path with
  | some target => .found target (some found.tier)
  | none => .failed found.undecided

theorem Match.status_outcome (found : Match) (context : Context) (path : List Text) :
    (found.outcome context path).status ∈ [.resolved, .ambiguous, .unresolved] := by
  unfold outcome
  cases found.follow? context path with
  | some target => simp [Outcome.status]
  | none =>
      obtain ⟨tier, first, others⟩ := found
      cases others <;> simp [undecided, Outcome.status, Failure.status]

namespace Resolver

variable {resolver : Resolver}

/-- Qualifying finds a symbol, or says which part of the path is missing or that the
module is not imported. -/
theorem status_qualified (scope : Scope) (name : Text) (rest : List Text)
    (context : Context) :
    (resolver.qualified scope name rest context).status ∈
      [.resolved, .symbolNotFound, .submoduleNotFound, .moduleNotImported] := by
  unfold qualified
  split
  · simp [Outcome.status, Failure.status]
  · generalize descend scope name rest = reached
    obtain ⟨inner, symbolName, members⟩ := reached
    dsimp only
    split
    · split <;> simp [Outcome.status, Failure.status]
    · split <;> simp [Outcome.status, Failure.status]

/-- Below the unit's own name a path means a local, and it is ambiguous if several locals
have the name. -/
theorem throughUnit_cases (name : Text) (rest : List Text) (context : Context) :
    let outcome := resolver.throughUnit name rest context
    outcome.status = .resolved ∧ outcome.tier? = some .localDeclaration ∨
      outcome.status = .symbolNotFound ∨
      outcome.status = .ambiguous ∧ outcome.tier? = some .localDeclaration := by
  dsimp only
  unfold throughUnit
  split
  · exact .inr (.inl rfl)
  · split
    · exact .inl ⟨rfl, rfl⟩
    · exact .inr (.inl rfl)
  · exact .inr (.inr ⟨rfl, rfl⟩)

section Dotted

variable {head : Text} (name : Text) (rest : List Text) (context : Context)

/-- A path whose head names a module means a member of a declaration or is qualified. -/
theorem status_of_registered {scope : Scope}
    (h : resolver.registry.lookup? head = some scope) :
    (resolver.dotted head name rest context).status ∈
      [.resolved, .symbolNotFound, .submoduleNotFound, .moduleNotImported] := by
  rw [dotted_eq]
  cases resolver.preferredMember? head name rest context with
  | some member => simp [Outcome.status]
  | none =>
      rw [throughModule?, h]
      exact status_qualified scope name rest context

variable (hmodule : resolver.registry.lookup? head = none)

include hmodule

/-- Where no module is spelled like the head, its declarations have the say. -/
theorem dotted_of_declared {found : Match}
    (h : resolver.search? head .any declarationTiers = some found) :
    resolver.dotted head name rest context = found.outcome context (name :: rest) := by
  rw [dotted_eq, throughModule?, hmodule, preferredMember?, h, Match.outcome]
  simp only [Option.bind_some]
  cases found.follow? context (name :: rest) <;> rfl

theorem dotted_of_undeclared (h : resolver.search? head .any declarationTiers = none) :
    resolver.dotted head name rest context =
      resolver.unregistered head name rest context := by
  rw [dotted_eq, throughModule?, hmodule, preferredMember?, h]
  rfl

theorem dotted_own (hhead : head ≠ []) (hown : head = resolver.locals.unit)
    (h : resolver.search? head .any declarationTiers = none) :
    resolver.dotted head name rest context = resolver.throughUnit name rest context := by
  rw [dotted_of_undeclared name rest context hmodule h, unregistered, ← hown]
  simp [hhead]

theorem dotted_other (hother : head ≠ resolver.locals.unit)
    (h : resolver.search? head .any declarationTiers = none) :
    resolver.dotted head name rest context =
      match resolver.search? head .any allTiers with
      | none => .failed .moduleNotFound
      | some found => found.outcome context (name :: rest) := by
  rw [dotted_of_undeclared name rest context hmodule h, unregistered,
    beq_eq_false_iff_ne.mpr hother, Bool.and_false]
  rfl

end Dotted

/-- The kinds of heads, in the order in which they are asked for, each with what can come
of a path. -/
inductive Settles (resolver : Resolver) (head : Text) (outcome : Outcome Located) : Prop where
  | registered {scope : Scope} :
      resolver.registry.lookup? head = some scope →
        outcome.status ∈
          [.resolved, .symbolNotFound, .submoduleNotFound, .moduleNotImported] →
          Settles resolver head outcome
  | declared :
      resolver.registry.lookup? head = none → resolver.Declares head →
        outcome.status ∈ [.resolved, .ambiguous, .unresolved] →
          Settles resolver head outcome
  | own :
      resolver.registry.lookup? head = none → ¬ resolver.Declares head →
        head = resolver.locals.unit →
          (outcome.status = .resolved ∧ outcome.tier? = some .localDeclaration ∨
            outcome.status = .symbolNotFound ∨
            outcome.status = .ambiguous ∧ outcome.tier? = some .localDeclaration) →
          Settles resolver head outcome
  | shown :
      resolver.registry.lookup? head = none → ¬ resolver.Declares head →
        head ≠ resolver.locals.unit → resolver.BoundAt head .any .importedModule →
          outcome.status ∈ [.resolved, .ambiguous, .unresolved] →
          Settles resolver head outcome
  | nothing :
      resolver.registry.lookup? head = none → ¬ resolver.Declares head →
        head ≠ resolver.locals.unit → ¬ resolver.BoundAt head .any .importedModule →
          outcome.status = .moduleNotFound →
          Settles resolver head outcome

namespace Settles

variable {head : Text} {outcome : Outcome Located} (h : resolver.Settles head outcome)

include h

theorem status_registered (hknown : resolver.registry.lookup? head ≠ none) :
    outcome.status ∈ [.resolved, .symbolNotFound, .submoduleNotFound, .moduleNotImported] := by
  cases h with
  | registered _ hstatus => exact hstatus
  | declared hnone | own hnone | shown hnone | nothing hnone => exact absurd hnone hknown

/-- Only a head of the last kind is no module. -/
theorem status_eq_moduleNotFound_iff :
    outcome.status = .moduleNotFound ↔
      resolver.registry.lookup? head = none ∧ head ≠ resolver.locals.unit ∧
        ¬ resolver.Declares head ∧ ¬ resolver.BoundAt head .any .importedModule := by
  cases h with
  | registered hscope hstatus =>
      refine iff_of_false ?_ fun hnothing => by simp [hscope] at hnothing
      intro hmissing
      simp [hmissing] at hstatus
  | declared _ hdeclares hstatus =>
      refine iff_of_false ?_ fun hnothing => hnothing.2.2.1 hdeclares
      intro hmissing
      simp [hmissing] at hstatus
  | own _ _ hown houtcome =>
      refine iff_of_false ?_ fun hnothing => hnothing.2.1 hown
      intro hmissing
      simp [hmissing] at houtcome
  | shown _ _ _ hshown hstatus =>
      refine iff_of_false ?_ fun hnothing => hnothing.2.2.2 hshown
      intro hmissing
      simp [hmissing] at hstatus
  | nothing hnone hundeclared hother hunshown hstatus =>
      exact iff_of_true hstatus ⟨hnone, hother, hundeclared, hunshown⟩

variable (hmodule : resolver.registry.lookup? head = none)

include hmodule

theorem status_declared (hdeclares : resolver.Declares head) :
    outcome.status ∈ [.resolved, .ambiguous, .unresolved] := by
  cases h with
  | registered hscope => simp [hscope] at hmodule
  | declared _ _ hstatus => exact hstatus
  | own _ hundeclared | shown _ hundeclared | nothing _ hundeclared =>
      exact absurd hdeclares hundeclared

variable (hundeclared : ¬ resolver.Declares head)

include hundeclared

theorem outcome_own (hown : head = resolver.locals.unit) :
    outcome.status = .resolved ∧ outcome.tier? = some .localDeclaration ∨
      outcome.status = .symbolNotFound ∨
      outcome.status = .ambiguous ∧ outcome.tier? = some .localDeclaration := by
  cases h with
  | registered hscope => simp [hscope] at hmodule
  | declared _ hdeclares => exact absurd hdeclares hundeclared
  | own _ _ _ houtcome => exact houtcome
  | shown _ _ hother | nothing _ _ hother => exact absurd hown hother

theorem status_shown (hother : head ≠ resolver.locals.unit)
    (hshown : resolver.BoundAt head .any .importedModule) :
    outcome.status ∈ [.resolved, .ambiguous, .unresolved] := by
  cases h with
  | registered hscope => simp [hscope] at hmodule
  | declared _ hdeclares => exact absurd hdeclares hundeclared
  | own _ _ hown => exact absurd hown hother
  | shown _ _ _ _ hstatus => exact hstatus
  | nothing _ _ _ hunshown => exact absurd hshown hunshown

end Settles

/-- A name is bound nowhere if it is neither declared nor shown by imports of modules. -/
theorem not_boundAt_iff {name : Text} :
    (∀ tier context, ¬ resolver.BoundAt name context tier) ↔
      ¬ resolver.Declares name ∧ ¬ resolver.BoundAt name .any .importedModule := by
  rw [declares_iff]
  constructor
  · intro h
    exact ⟨fun ⟨tier, _, hbound⟩ => h tier .any hbound, h .importedModule .any⟩
  · rintro ⟨hundeclared, hunshown⟩ tier context hbound
    cases tier with
    | importedModule => exact hunshown (boundAt_any hbound)
    | localDeclaration | importedDeclaration =>
        exact hundeclared ⟨_, by decide, boundAt_any hbound⟩

section Head

variable {head : Text} (hhead : head ≠ []) (hindexed : resolver.imports.Indexed)

include hindexed

theorem search?_declarationTiers_eq_none_iff :
    resolver.search? head .any declarationTiers = none ↔ ¬ resolver.Declares head := by
  rw [search?_eq_none_iff hindexed, declares_iff]
  simp only [not_exists, not_and]

theorem search?_allTiers_eq_none_iff (hundeclared : ¬ resolver.Declares head) :
    resolver.search? head .any allTiers = none ↔
      ¬ resolver.BoundAt head .any .importedModule := by
  rw [← search?_declarationTiers_eq_none_iff hindexed, search?_eq_none_iff hindexed] at hundeclared
  rw [search?_eq_none_iff hindexed, allTiers, List.forall_mem_append, and_iff_right hundeclared]
  simp only [List.forall_mem_singleton]

include hhead

/-- Each path has a head of one of the five kinds. -/
theorem settles_dotted (name : Text) (rest : List Text) (context : Context) :
    resolver.Settles head (resolver.dotted head name rest context) := by
  cases hmodule : resolver.registry.lookup? head with
  | some scope => exact .registered hmodule (status_of_registered name rest context hmodule)
  | none =>
      cases hsearch : resolver.search? head .any declarationTiers with
      | some found =>
          rw [dotted_of_declared name rest context hmodule hsearch]
          refine .declared hmodule ?_ (found.status_outcome context (name :: rest))
          by_contra hundeclared
          rw [(search?_declarationTiers_eq_none_iff hindexed).mpr hundeclared] at hsearch
          cases hsearch
      | none =>
          have hundeclared := (search?_declarationTiers_eq_none_iff hindexed).mp hsearch
          by_cases hown : head = resolver.locals.unit
          · rw [dotted_own name rest context hmodule hhead hown hsearch]
            exact .own hmodule hundeclared hown (throughUnit_cases name rest context)
          · rw [dotted_other name rest context hmodule hown hsearch]
            have hall := search?_allTiers_eq_none_iff hindexed hundeclared
            cases hshown : resolver.search? head .any allTiers with
            | none => exact .nothing hmodule hundeclared hown (hall.mp hshown) rfl
            | some found =>
                refine .shown hmodule hundeclared hown ?_
                  (found.status_outcome context (name :: rest))
                by_contra hunshown
                rw [hall.mpr hunshown] at hshown
                cases hshown

end Head

/-- The status of a dotted path is settled by its head. A registered module gives a
symbol, or tells which part is missing or that it is not imported. Any other head that is
declared gives a member or is ambiguous or unresolved; then the unit's own name gives a
local, and then what imports of modules show is treated like a declaration. What is left
is no module. -/
theorem status_dotted (registry : Registry) (hreach : registry.Reachable)
    (table : ImportTable) (htable : table.Reachable) (locals : Locals) (options : Options)
    (reference : Reference) (hdotted : reference.isDotted = true)
    (hhead : reference.head ≠ []) :
    let resolver : Resolver := ⟨registry, table, locals, options⟩
    let outcome := resolver.resolve reference
    (reference.head ∈ registry.names →
      outcome.status ∈
        [.resolved, .symbolNotFound, .submoduleNotFound, .moduleNotImported]) ∧
    (outcome.status = .moduleNotFound ↔
      reference.head ∉ registry.names ∧ reference.head ≠ locals.unit ∧
        ∀ tier context, ¬ resolver.BoundAt reference.head context tier) ∧
    (reference.head ∉ registry.names →
      (resolver.Declares reference.head →
        outcome.status ∈ [.resolved, .ambiguous, .unresolved]) ∧
      (¬ resolver.Declares reference.head → reference.head = locals.unit →
        outcome.status = .resolved ∧ outcome.tier? = some .localDeclaration ∨
          outcome.status = .symbolNotFound ∨
          outcome.status = .ambiguous ∧ outcome.tier? = some .localDeclaration) ∧
      (¬ resolver.Declares reference.head → reference.head ≠ locals.unit →
        (∃ context, resolver.BoundAt reference.head context .importedModule) →
          outcome.status ∈ [.resolved, .ambiguous, .unresolved])) := by
  obtain ⟨path, context, span⟩ := reference
  match path with
  | [] => cases hdotted
  | [_] => cases hdotted
  | head :: name :: rest =>
      intro resolver outcome
      have hnonempty : head ≠ [] := hhead
      have hindexed : resolver.imports.Indexed := htable.indexed
      have hunknown : resolver.registry.lookup? head = none ↔ head ∉ registry.names := by
        rw [← hreach.sound.exists_lookup?_iff, not_exists, Option.eq_none_iff_forall_ne_some]
      have hsettles : resolver.Settles head outcome := by
        show resolver.Settles head (resolver.resolve ⟨head :: name :: rest, context, span⟩)
        rw [resolve_dotted hnonempty]
        exact settles_dotted hnonempty hindexed name rest context
      simp only [Reference.head, List.headD_cons, ← hunknown, not_boundAt_iff]
      refine ⟨?_, hsettles.status_eq_moduleNotFound_iff, ?_⟩
      · intro hknown
        exact hsettles.status_registered fun hnone => hunknown.mp hnone hknown
      · intro hnone
        refine ⟨hsettles.status_declared hnone, hsettles.outcome_own hnone, ?_⟩
        rintro hundeclared hother ⟨_, hshown⟩
        exact hsettles.status_shown hnone hundeclared hother (boundAt_any hshown)

/-- Two bindings that were written at one place leave `Baton` ambiguous. That a path
below `Golf` ends at no module shows that nothing has this name. -/
theorem status_dotted_meet :
    let baton (index : Nat) : Binding :=
      ⟨"Baton", ⟨.exported (.root "Relay") index, { name := "Baton", kind := .enumType }⟩,
        .importedDeclaration, 0⟩
    let table := (({} : ImportTable).addBinding (baton 0)).addBinding (baton 1)
    let locals := Locals.ofList "Meet" [{ name := "swim" }]
    let resolver : Resolver := ⟨.sports, table, locals, {}⟩
    let path (head : Text) : Reference := ⟨[head, "swim"], .value, {}⟩
    let status (head : Text) : Status := (resolver.resolve (path head)).status
    Registry.sports.Reachable ∧ table.Reachable ∧
      (∀ head, (path head).isDotted = true ∧ (path head).head = head) ∧
      ("Triathlon" : Text) ∈ Registry.sports.names ∧
      status "Triathlon" ∈
        [.resolved, .symbolNotFound, .submoduleNotFound, .moduleNotImported] ∧
      ("Baton" : Text) ∉ Registry.sports.names ∧ resolver.Declares "Baton" ∧
      status "Baton" = .ambiguous ∧
      ¬ resolver.Declares "Meet" ∧ status "Meet" = .resolved ∧
      status "Golf" = .moduleNotFound ∧
      ∀ tier context, ¬ resolver.BoundAt "Golf" context tier := by
  intro baton table locals resolver path status
  have htable : table.Reachable := .addBinding _ (.addBinding _ .empty)
  have hpath (head : Text) : (path head).isDotted = true ∧ (path head).head = head :=
    ⟨rfl, rfl⟩
  have hsettled (head : Text) (hhead : head ≠ []) :=
    status_dotted .sports Registry.sports_reachable table htable locals {} (path head) rfl hhead
  have hknown : ("Triathlon" : Text) ∈ Registry.sports.names := by decide
  obtain ⟨hregistered, -⟩ := hsettled "Triathlon" (by decide)
  obtain ⟨-, hgolf, -⟩ := hsettled "Golf" (by decide)
  have hnothing : status "Golf" = .moduleNotFound := by decide
  exact ⟨Registry.sports_reachable, htable, hpath, hknown, hregistered hknown, by decide,
    by decide, by decide, by decide, by decide, hnothing, (hgolf.mp hnothing).2.2⟩

end Resolver

end NameBinding
