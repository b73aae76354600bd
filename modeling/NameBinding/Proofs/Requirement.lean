import NameBinding.Proofs.Qualification

/-!
Where an import is required to qualify. It is missed by a path that is left to a
registered module of which no import succeeded, and by nothing else; where it is not
missed, the requirement makes no difference.
-/

namespace NameBinding

theorem Match.undecided_ne_moduleNotImported (found : Match) :
    found.undecided ≠ .moduleNotImported := by
  obtain ⟨tier, first, others⟩ := found
  cases others <;> simp [Match.undecided]

namespace Resolver

variable {resolver : Resolver}

theorem unqualified_eq_failed {name : Text} {context : Context} {failure : Failure Located}
    (h : resolver.unqualified name context = .failed failure) :
    failure = .unresolved ∨ ∃ tier candidates, failure = .ambiguous tier candidates := by
  unfold unqualified at h
  cases hsearch : resolver.search? name context allTiers with
  | none =>
      rw [hsearch] at h
      exact .inl (Outcome.failed.inj h).symm
  | some found =>
      obtain ⟨tier, first, others⟩ := found
      rw [hsearch] at h
      cases others with
      | nil => cases h
      | cons second more => exact .inr ⟨_, _, (Outcome.failed.inj h).symm⟩

theorem unregistered_ne_moduleNotImported (head name : Text) (rest : List Text)
    (context : Context) :
    resolver.unregistered head name rest context ≠ .failed .moduleNotImported := by
  unfold unregistered
  split
  · unfold throughUnit
    split
    · simp
    · split <;> simp
    · simp
  · split
    · simp
    · split
      · simp
      · simpa using Match.undecided_ne_moduleNotImported _

/-- An import is missed by a path that no declaration supplies, where imports are
required and none of the module named by the head succeeded. -/
theorem resolve_eq_moduleNotImported_iff {reference : Reference} :
    resolver.resolve reference = .failed .moduleNotImported ↔
      reference.head ≠ [] ∧ reference.isDotted = true ∧ resolver.supplied? reference = none ∧
        resolver.options.requireImport = true ∧
          ∃ scope, resolver.registry.lookup? reference.head = some scope ∧
            resolver.imports.importsModule scope.module.name = false := by
  obtain ⟨path, context, span⟩ := reference
  match path with
  | [] => simp [resolve, Reference.head]
  | [] :: rest => simp [resolve, Reference.head]
  | [byte :: bytes] =>
      have hhead : byte :: bytes ≠ [] := List.cons_ne_nil byte bytes
      rw [resolve_singleton hhead]
      constructor
      · intro h
        rcases unqualified_eq_failed h with h | ⟨tier, candidates, h⟩ <;> cases h
      · rintro ⟨-, hdotted, -⟩
        simp [Reference.isDotted] at hdotted
  | (byte :: bytes) :: name :: rest =>
      have hhead : byte :: bytes ≠ [] := List.cons_ne_nil byte bytes
      rw [resolve_dotted hhead, dotted_eq, supplied?]
      cases hpreferred : resolver.preferredMember? (byte :: bytes) name rest context with
      | some member => simp [hpreferred]
      | none =>
          unfold throughModule?
          cases hscope : resolver.registry.lookup? (byte :: bytes) with
          | some scope =>
              simp [Reference.head, Reference.isDotted, hpreferred, hscope,
                qualified_eq_moduleNotImported_iff]
          | none =>
              cases resolver.search? (byte :: bytes) .any declarationTiers with
              | some found =>
                  simp [Reference.head, hscope, Match.undecided_ne_moduleNotImported]
              | none =>
                  simp [Reference.head, hscope, unregistered_ne_moduleNotImported]

/-- Past the question of imports, qualifying depends on the module and on whether
submodules are passed on. -/
theorem qualified_congr_of_allowed {left right : Resolver} {scope : Scope}
    (hreexport : left.options.reexport = right.options.reexport)
    (hleft : left.options.requireImport = true →
      left.imports.importsModule scope.module.name = true)
    (hright : right.options.requireImport = true →
      right.imports.importsModule scope.module.name = true)
    (name : Text) (rest : List Text) (context : Context) :
    left.qualified scope name rest context = right.qualified scope name rest context := by
  unfold qualified
  rw [not_refused hleft, not_refused hright, hreexport]

theorem resolve_congr_of_allowed {left right : Resolver} {reference : Reference}
    {scope : Scope} (hhead : reference.head ≠ []) (hdotted : reference.isDotted = true)
    (hscope : left.registry.lookup? reference.head = some scope)
    (hregistry : left.registry = right.registry)
    (hreexport : left.options.reexport = right.options.reexport)
    (hleft : left.supplied? reference = none) (hright : right.supplied? reference = none)
    (hallowedLeft : left.options.requireImport = true →
      left.imports.importsModule scope.module.name = true)
    (hallowedRight : right.options.requireImport = true →
      right.imports.importsModule scope.module.name = true) :
    left.resolve reference = right.resolve reference := by
  obtain ⟨path, context, span⟩ := reference
  match path with
  | [] => cases hdotted
  | [_] => cases hdotted
  | head :: name :: rest =>
      have hnonempty : head ≠ [] := hhead
      rw [resolve_dotted hnonempty, resolve_dotted hnonempty, dotted_of_lookup hleft hscope,
        dotted_of_lookup hright (hregistry ▸ hscope)]
      exact qualified_congr_of_allowed hreexport hallowedLeft hallowedRight name rest context

end Resolver

end NameBinding
