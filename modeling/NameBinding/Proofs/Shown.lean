import NameBinding.Proofs.Classification

/-!
References that are left to what imports of modules show. Such a reference is answered
from the symbols shown under its head alone, and any other reference takes no notice of
them.
-/

namespace NameBinding

/-- The context in which the head of a path is looked for. The context of the use is that
of the last name. -/
def Reference.headContext (reference : Reference) : Context :=
  if reference.isDotted then .any else reference.context

/-- What a reference means by the symbols that imports of modules show under its head. -/
def Outcome.ofShown (shown : List Located) (reference : Reference) : Outcome Located :=
  match shown with
  | [] => .failed (if reference.isDotted then .moduleNotFound else .unresolved)
  | first :: others =>
    (⟨.importedModule, first, others⟩ : Match).outcome reference.context reference.path.tail

/-- Of several symbols under its head a reference picks none. -/
theorem Outcome.ofShown_several (first second : Located) (others : List Located)
    (reference : Reference) :
    ofShown (first :: second :: others) reference =
      .failed (.ambiguous (some .importedModule) (first :: second :: others)) := rfl

namespace Resolver

/-- No declaration has the name of the head and, where a path goes on below it, neither a
registered module nor the unit has it. -/
structure LeftToShown (resolver : Resolver) (reference : Reference) : Prop where
  named : reference.head ≠ []
  undeclared :
    resolver.search? reference.head reference.headContext declarationTiers = none
  unregistered :
    reference.isDotted = true → resolver.registry.lookup? reference.head = none
  foreign : reference.isDotted = true → reference.head ≠ resolver.locals.unit

section Search

variable {resolver : Resolver} {name : Text} {context : Context}

theorem search?_allTiers_of_some {found : Match}
    (h : resolver.search? name context declarationTiers = some found) :
    resolver.search? name context allTiers = some found := by
  unfold search? at h ⊢
  rw [allTiers, List.findSome?_append, h, Option.some_or]

/-- A name that no declaration has is looked for among what imports of modules show. -/
theorem search?_allTiers_of_none
    (h : resolver.search? name context declarationTiers = none) :
    resolver.search? name context allTiers =
      match resolver.importedModuleSymbols name context with
      | [] => none
      | first :: others => some ⟨.importedModule, first, others⟩ := by
  unfold search? at h ⊢
  rw [allTiers, List.findSome?_append, h, Option.none_or, List.findSome?_singleton]
  rfl

theorem unqualified_eq :
    resolver.unqualified name context =
      match resolver.search? name context allTiers with
      | none => .failed .unresolved
      | some found => found.outcome context [] := by
  unfold unqualified
  cases resolver.search? name context allTiers with
  | none => rfl
  | some found =>
      obtain ⟨tier, first, others⟩ := found
      cases others <;> rfl

end Search

theorem LeftToShown.resolve {resolver : Resolver} {reference : Reference}
    (h : resolver.LeftToShown reference) :
    resolver.resolve reference =
      .ofShown (resolver.importedModuleSymbols reference.head reference.headContext)
        reference := by
  obtain ⟨path, context, span⟩ := reference
  match path with
  | [] => exact absurd rfl h.named
  | [name] =>
      have hname : name ≠ [] := h.named
      have hundeclared : resolver.search? name context declarationTiers = none := h.undeclared
      rw [resolve_singleton hname, unqualified_eq, search?_allTiers_of_none hundeclared]
      show _ = Outcome.ofShown (resolver.importedModuleSymbols name context) _
      cases resolver.importedModuleSymbols name context <;> rfl
  | head :: name :: rest =>
      have hhead : head ≠ [] := h.named
      have hundeclared : resolver.search? head .any declarationTiers = none := h.undeclared
      have hmodule : resolver.registry.lookup? head = none := h.unregistered rfl
      have hother : head ≠ resolver.locals.unit := h.foreign rfl
      rw [resolve_dotted hhead, dotted_other name rest context hmodule hother hundeclared,
        search?_allTiers_of_none hundeclared]
      show _ = Outcome.ofShown (resolver.importedModuleSymbols head .any) _
      cases resolver.importedModuleSymbols head .any <;> rfl

section Congruence

variable {left right : Resolver} {reference : Reference}

theorem LeftToShown.congr (h : left.LeftToShown reference)
    (hlocals : left.locals = right.locals) (hregistry : left.registry = right.registry)
    (hsingle : ∀ context, left.importedDeclarations reference.head context =
      right.importedDeclarations reference.head context) :
    right.LeftToShown reference where
  named := h.named
  undeclared := by
    rw [← search?_declarationTiers_congr hlocals (hsingle reference.headContext)]
    exact h.undeclared
  unregistered := by
    rw [← hregistry]
    exact h.unregistered
  foreign := by
    rw [← hlocals]
    exact h.foreign

/-- What imports of modules show makes a difference only to what is left to it. -/
theorem resolve_congr_of_not_left (h : ¬ left.LeftToShown reference)
    (hlocals : left.locals = right.locals)
    (hsingle : ∀ context, left.importedDeclarations reference.head context =
      right.importedDeclarations reference.head context)
    (hmodule : ∀ name rest, reference.path = reference.head :: name :: rest →
      left.throughModule? reference.head name rest reference.context =
        right.throughModule? reference.head name rest reference.context) :
    left.resolve reference = right.resolve reference := by
  obtain ⟨path, context, span⟩ := reference
  match path with
  | [] => rfl
  | [] :: rest => rfl
  | [byte :: bytes] =>
      have hname : byte :: bytes ≠ [] := List.cons_ne_nil byte bytes
      have hsame : left.search? (byte :: bytes) context declarationTiers =
          right.search? (byte :: bytes) context declarationTiers :=
        search?_declarationTiers_congr hlocals (hsingle context)
      cases hsearch : left.search? (byte :: bytes) context declarationTiers with
      | none => exact absurd ⟨hname, hsearch, nofun, nofun⟩ h
      | some found =>
          have hother := hsame.symm.trans hsearch
          rw [resolve_singleton hname, resolve_singleton hname, unqualified_eq, unqualified_eq,
            search?_allTiers_of_some hsearch, search?_allTiers_of_some hother]
  | (byte :: bytes) :: name :: rest =>
      have hhead : byte :: bytes ≠ [] := List.cons_ne_nil byte bytes
      have hsame : left.search? (byte :: bytes) .any declarationTiers =
          right.search? (byte :: bytes) .any declarationTiers :=
        search?_declarationTiers_congr hlocals (hsingle .any)
      have hthrough : left.throughModule? (byte :: bytes) name rest context =
          right.throughModule? (byte :: bytes) name rest context := hmodule name rest rfl
      rw [resolve_dotted hhead, resolve_dotted hhead, dotted_eq, dotted_eq, ← hthrough,
        preferredMember?, preferredMember?, ← hsame]
      cases hsearch : left.search? (byte :: bytes) .any declarationTiers with
      | some found => rfl
      | none =>
          cases hscope : left.registry.lookup? (byte :: bytes) with
          | some scope => simp [throughModule?, hscope]
          | none =>
              -- All that is left is the unit's own name, below which only locals are found.
              have hown : byte :: bytes = left.locals.unit := by
                by_contra hother
                exact h ⟨hhead, hsearch, fun _ => hscope, fun _ => hother⟩
              simp [throughModule?, hscope, unregistered, throughUnit, ← hlocals, ← hown]

end Congruence

end Resolver

end NameBinding
