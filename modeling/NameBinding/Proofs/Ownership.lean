import NameBinding.Module

/-!
Handing a tree of symbols or modules to its owners. Ownership is decided by the
place in the tree alone: the owners that were there before leave no trace, and
nothing but the owners changes.
-/

namespace NameBinding

namespace Symbol

theorem allOwnedBy_eq_map (owner : Text) (symbols : List Symbol) :
    allOwnedBy owner symbols = symbols.map (·.ownedBy owner) := by
  induction symbols with
  | nil => rfl
  | cons first rest ih => simp [allOwnedBy, ih]

@[simp] theorem name_ownedBy (owner : Text) (symbol : Symbol) :
    (symbol.ownedBy owner).name = symbol.name := by
  cases symbol
  rfl

@[simp] theorem kind_ownedBy (owner : Text) (symbol : Symbol) :
    (symbol.ownedBy owner).kind = symbol.kind := by
  cases symbol
  rfl

@[simp] theorem owner_ownedBy (owner : Text) (symbol : Symbol) :
    (symbol.ownedBy owner).owner = owner := by
  cases symbol
  rfl

@[simp] theorem members_ownedBy (owner : Text) (symbol : Symbol) :
    (symbol.ownedBy owner).members = symbol.members.map (·.ownedBy owner) := by
  cases symbol
  exact allOwnedBy_eq_map owner _

mutual

@[simp] theorem ownedBy_ownedBy (earlier owner : Text) :
    (symbol : Symbol) → (symbol.ownedBy earlier).ownedBy owner = symbol.ownedBy owner
  | ⟨_, _, _, _, members, _⟩ => by
    simp only [ownedBy, allOwnedBy_allOwnedBy earlier owner members]

theorem allOwnedBy_allOwnedBy (earlier owner : Text) :
    (symbols : List Symbol) →
      allOwnedBy owner (allOwnedBy earlier symbols) = allOwnedBy owner symbols
  | [] => rfl
  | first :: rest => by
    simp only [allOwnedBy, ownedBy_ownedBy earlier owner first,
      allOwnedBy_allOwnedBy earlier owner rest]

end

/-- A symbol that handing to `owner` leaves alone belongs to `owner`, and so
does each of its members in the same way. -/
theorem members_of_ownedBy_eq {owner : Text} {symbol : Symbol}
    (h : symbol.ownedBy owner = symbol) :
    ∀ member ∈ symbol.members, member.ownedBy owner = member := by
  intro member hmember
  rw [← h, members_ownedBy] at hmember
  obtain ⟨raw, -, rfl⟩ := List.mem_map.mp hmember
  exact ownedBy_ownedBy owner owner raw

end Symbol

namespace Module

theorem allOwned_eq_map (path : Text) (modules : List Module) :
    allOwned path modules =
      modules.map fun module => module.owned (path ++ "." ++ module.name) := by
  induction modules with
  | nil => rfl
  | cons first rest ih => simp [allOwned, ih]

@[simp] theorem name_owned (path : Text) (module : Module) :
    (module.owned path).name = module.name := by
  cases module
  rfl

@[simp] theorem symbols_owned (path : Text) (module : Module) :
    (module.owned path).symbols = module.symbols.map (·.ownedBy path) := by
  cases module
  rfl

@[simp] theorem submodules_owned (path : Text) (module : Module) :
    (module.owned path).submodules =
      module.submodules.map fun inner => inner.owned (path ++ "." ++ inner.name) := by
  cases module
  exact allOwned_eq_map path _

mutual

@[simp] theorem owned_owned (earlier path : Text) :
    (module : Module) → (module.owned earlier).owned path = module.owned path
  | ⟨_, symbols, submodules, _⟩ => by
    simp only [owned, allOwned_allOwned earlier path submodules, List.map_map,
      Function.comp_def, Symbol.ownedBy_ownedBy]

theorem allOwned_allOwned (earlier path : Text) :
    (modules : List Module) →
      allOwned path (allOwned earlier modules) = allOwned path modules
  | [] => rfl
  | first :: rest => by
    simp only [allOwned, name_owned, owned_owned, allOwned_allOwned earlier path rest]

end

theorem symbols_of_owned_eq {path : Text} {module : Module}
    (h : module.owned path = module) :
    ∀ symbol ∈ module.symbols, symbol.ownedBy path = symbol := by
  intro symbol hsymbol
  rw [← h, symbols_owned] at hsymbol
  obtain ⟨raw, -, rfl⟩ := List.mem_map.mp hsymbol
  exact Symbol.ownedBy_ownedBy path path raw

theorem submodules_of_owned_eq {path : Text} {module : Module}
    (h : module.owned path = module) :
    ∀ inner ∈ module.submodules, inner.owned (path ++ "." ++ inner.name) = inner := by
  intro inner hinner
  rw [← h, submodules_owned] at hinner
  obtain ⟨raw, -, rfl⟩ := List.mem_map.mp hinner
  rw [name_owned]
  exact owned_owned _ _ raw

end Module

end NameBinding
