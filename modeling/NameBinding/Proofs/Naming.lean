import NameBinding.Proofs.Place
import Mathlib.Data.List.Nodup
import Mathlib.Tactic.Tauto

/-!
What names tell apart in a registry. A module is refused if two symbols of a scope
share kind and name or if submodules side by side are not told apart by their names, at
any depth; so names alone lead to one module, to one scope inside it and to one symbol
of each kind there.
-/

namespace NameBinding

namespace Module

/-- No two symbols of the module share kind and name, and each of its own submodules
has a name that no other of them has. -/
structure WellNamed (module : Module) : Prop where
  symbols : (module.symbols.map fun symbol => (symbol.kind, symbol.name)).Nodup
  named (inner : Module) : inner ∈ module.submodules → inner.name ≠ []
  submodules : (module.submodules.map (·.name)).Nodup

/-- A scan that notes the keys it has seen goes past the first element if its key is
new, and then has one key more to keep clear of. -/
theorem nodup_map_cons_iff {α β : Type} (key : α → β) (seen : List β) (first : α)
    (rest : List α) :
    ((first :: rest).map key).Nodup ∧ (∀ a ∈ first :: rest, key a ∉ seen) ↔
      key first ∉ seen ∧ (rest.map key).Nodup ∧ ∀ a ∈ rest, key a ∉ key first :: seen := by
  rw [List.map_cons, List.nodup_cons, List.forall_mem_cons]
  constructor
  · rintro ⟨⟨hnew, hnodup⟩, hfirst, hrest⟩
    refine ⟨hfirst, hnodup, ?_⟩
    intro a ha hseen
    rcases List.mem_cons.mp hseen with hsame | hold
    · exact hnew (List.mem_map.mpr ⟨a, ha, hsame⟩)
    · exact hrest a ha hold
  · rintro ⟨hfirst, hnodup, hrest⟩
    refine ⟨⟨?_, hnodup⟩, hfirst, fun a ha hold => hrest a ha (List.mem_cons_of_mem _ hold)⟩
    intro hrepeated
    obtain ⟨a, ha, hsame⟩ := List.mem_map.mp hrepeated
    exact hrest a ha (hsame ▸ List.mem_cons_self)

theorem findRepeated?_eq_none_iff (seen : List (Kind × Text)) (symbols : List Symbol) :
    findRepeated? seen symbols = none ↔
      (symbols.map fun symbol => (symbol.kind, symbol.name)).Nodup ∧
        ∀ symbol ∈ symbols, (symbol.kind, symbol.name) ∉ seen := by
  induction symbols generalizing seen with
  | nil => simp [findRepeated?]
  | cons first rest ih =>
      rw [nodup_map_cons_iff, ← ih, findRepeated?]
      by_cases hfirst : (first.kind, first.name) ∈ seen <;> simp [hfirst]

theorem faultAmong?_eq_none_iff (path : Text) (seen : List Text) (modules : List Module) :
    faultAmong? path seen modules = none ↔
      ((modules.map (·.name)).Nodup ∧ ∀ inner ∈ modules, inner.name ∉ seen) ∧
        ∀ inner ∈ modules,
          inner.name ≠ [] ∧ inner.fault? (path ++ "." ++ inner.name) = none := by
  induction modules generalizing seen with
  | nil => simp [faultAmong?]
  | cons first rest ih =>
      have hstep : faultAmong? path seen (first :: rest) = none ↔
          first.name ≠ [] ∧ first.name ∉ seen ∧
            first.fault? (path ++ "." ++ first.name) = none ∧
              faultAmong? path (first.name :: seen) rest = none := by
        rw [faultAmong?]
        by_cases hname : first.name = [] <;> by_cases hseen : first.name ∈ seen <;>
          cases first.fault? (path ++ "." ++ first.name) <;> simp [hname, hseen]
      rw [hstep, ih, nodup_map_cons_iff, List.forall_mem_cons]
      tauto

/-- A module has no fault exactly if its own names are as they should be and the same
holds of each submodule. -/
theorem fault?_eq_none_iff (path : Text) (module : Module) :
    module.fault? path = none ↔
      module.WellNamed ∧
        ∀ inner ∈ module.submodules, inner.fault? (path ++ "." ++ inner.name) = none := by
  obtain ⟨name, symbols, submodules, span⟩ := module
  have hsplit : fault? path ⟨name, symbols, submodules, span⟩ = none ↔
      findRepeated? [] symbols = none ∧ faultAmong? path [] submodules = none := by
    unfold fault?
    cases findRepeated? [] symbols <;> simp
  rw [hsplit, findRepeated?_eq_none_iff, faultAmong?_eq_none_iff]
  constructor
  · rintro ⟨⟨hsymbols, -⟩, ⟨hnodup, -⟩, hinner⟩
    exact ⟨⟨hsymbols, fun inner hmember => (hinner inner hmember).1, hnodup⟩,
      fun inner hmember => (hinner inner hmember).2⟩
  · rintro ⟨hnamed, hfaultless⟩
    refine ⟨⟨hnamed.symbols, by simp⟩, ⟨hnamed.submodules, by simp⟩, ?_⟩
    exact fun inner hmember => ⟨hnamed.named inner hmember, hfaultless inner hmember⟩

theorem findRepeated?_map_ownedBy (owner : Text) (seen : List (Kind × Text))
    (symbols : List Symbol) :
    findRepeated? seen (symbols.map (·.ownedBy owner)) =
      (findRepeated? seen symbols).map (·.ownedBy owner) := by
  induction symbols generalizing seen with
  | nil => rfl
  | cons first rest ih =>
      simp only [List.map_cons, findRepeated?, Symbol.kind_ownedBy, Symbol.name_ownedBy, ih]
      split <;> rfl

@[simp] theorem span_owned (owner : Text) (module : Module) :
    (module.owned owner).span = module.span := by
  cases module
  rfl

mutual

/-- Owners play no part in a refusal. -/
theorem fault?_owned (owner path : Text) :
    (module : Module) → (module.owned owner).fault? path = module.fault? path
  | ⟨name, symbols, submodules, span⟩ => by
    simp only [owned, fault?, findRepeated?_map_ownedBy,
      faultAmong?_allOwned owner path [] submodules]
    cases findRepeated? [] symbols with
    | none => rfl
    | some symbol =>
        cases symbol
        rfl

theorem faultAmong?_allOwned (owner path : Text) (seen : List Text) :
    (modules : List Module) →
      faultAmong? path seen (allOwned owner modules) = faultAmong? path seen modules
  | [] => rfl
  | first :: rest => by
    simp only [allOwned, faultAmong?, name_owned, span_owned, fault?_owned _ _ first,
      faultAmong?_allOwned owner path _ rest]

end

end Module

namespace Scope

/-- Every scope from this one down has names that tell its declarations apart. -/
def WellNamed (scope : Scope) : Prop :=
  ∀ path inner, scope.Leads path inner → inner.module.WellNamed

theorem WellNamed.inner {outer inner : Scope} (h : outer.WellNamed) {path : List Text}
    (hinner : outer.Leads path inner) : inner.WellNamed := by
  intro below deeper hdeeper
  exact h _ deeper (hinner.trans hdeeper)

theorem wellNamed_of_fault? {scope : Scope} {path : Text}
    (h : scope.module.fault? path = none) : scope.WellNamed := by
  intro names inner hinner
  -- A refusal spells its own path, which grows on the way down; hence the generalization.
  induction hinner generalizing path with
  | here => exact ((Module.fault?_eq_none_iff _ _).mp h).1
  | down hstep _ ih =>
      obtain ⟨index, hindex, -⟩ := mem_submodules hstep
      exact ih (((Module.fault?_eq_none_iff _ _).mp h).2 _ (List.mem_of_getElem? hindex))

end Scope

namespace Registry

def Faultless (registry : Registry) : Prop :=
  ∀ module ∈ registry.modules, module.fault? module.name = none

theorem Faultless.register {registry : Registry} (h : registry.Faultless) (module : Module) :
    (registry.register module).Faultless := by
  cases hrefusal : registry.refusal? module with
  | some refusal =>
      rw [register_of_refused hrefusal]
      exact h
  | none =>
      rw [register_of_accepted hrefusal]
      intro found hfound
      rcases Array.mem_push.mp hfound with hold | rfl
      · exact h found hold
      · rw [Module.name_owned, Module.fault?_owned]
        exact ((refusal?_eq_none_iff registry module).mp hrefusal).2.2.2

theorem Reachable.faultless {registry : Registry} (h : registry.Reachable) :
    registry.Faultless := by
  induction h with
  | empty =>
      intro module hmodule
      simp at hmodule
  | register module _ ih => exact ih.register module
  | freeze _ ih => exact ih

theorem Sound.index_iff_names {registry : Registry} (h : registry.Sound) (name : Text)
    (position : Nat) :
    registry.index[name]? = some position ↔ registry.names[position]? = some name := by
  rw [h.index_iff, names, List.getElem?_map, Array.getElem?_toList, Option.map_eq_some_iff]

/-- Two positions of one name would both be what the index leads to. -/
theorem Sound.nodup_names {registry : Registry} (h : registry.Sound) :
    registry.names.Nodup := by
  rw [List.nodup_iff_getElem?_ne_getElem?]
  intro earlier later hless hbound hsame
  obtain ⟨name, hlater⟩ : ∃ name, registry.names[later]? = some name :=
    ⟨_, List.getElem?_eq_getElem hbound⟩
  rw [hlater] at hsame
  have hindex := (h.index_iff_names name later).mpr hlater
  rw [(h.index_iff_names name earlier).mpr hsame] at hindex
  have hposition := Option.some.inj hindex
  omega

/-- What names tell in a registry: which module is meant, by way of the index or
without it, which scope inside a module, and who owns what is declared there. -/
structure Orderly (registry : Registry) : Prop where
  named (name : Text) : name ∈ registry.names → name ≠ []
  distinct : registry.names.Nodup
  index_iff (name : Text) (position : Nat) :
    registry.index[name]? = some position ↔ registry.names[position]? = some name
  scopes (module : Module) : module ∈ registry.modules → (Scope.ofModule module).WellNamed
  owners (module : Module) (path : List Text) (target : Located) :
    module ∈ registry.modules → (Scope.ofModule module).Holds path target →
      target.symbol.owner = Text.dotted (module.name :: path)

theorem refusal?_owned (registry : Registry) (owner : Text) (module : Module) :
    registry.refusal? (module.owned owner) = registry.refusal? module := by
  unfold refusal?
  rw [Module.name_owned, Module.span_owned, Module.fault?_owned]

theorem register_owned (registry : Registry) (owner : Text) (module : Module) :
    registry.register (module.owned owner) = registry.register module := by
  cases hrefusal : registry.refusal? module with
  | some refusal =>
      rw [register_of_refused hrefusal,
        register_of_refused (by rw [refusal?_owned]; exact hrefusal)]
  | none =>
      rw [register_of_accepted hrefusal,
        register_of_accepted (by rw [refusal?_owned]; exact hrefusal), Module.name_owned,
        Module.owned_owned]

/-- Every registry that registering and freezing lead to is orderly. The owners that a
module carries when it is registered do not matter for that: modules that only differ
in owners are registered alike. -/
theorem reachable_orderly (registry : Registry) (h : registry.Reachable) :
    registry.Orderly ∧
      ∀ left right : Module, left.owned [] = right.owned [] →
        registry.register left = registry.register right := by
  constructor
  · refine ⟨?_, h.sound.nodup_names, h.sound.index_iff_names, ?_, ?_⟩
    · intro name hname
      obtain ⟨module, hmodule, rfl⟩ := List.mem_map.mp hname
      exact h.sound.named module (Array.mem_toList_iff.mp hmodule)
    · intro module hmodule
      exact Scope.wellNamed_of_fault? (h.faultless module hmodule)
    · intro module path target hmodule htarget
      exact htarget.owner (h.sound.owned module hmodule)
  · intro left right hsame
    rw [← register_owned registry [] left, hsame, register_owned]

/-- After modules that come with owners of their own, with a refusal between them and
one after the registry is frozen. -/
theorem sports_orderly :
    let claimed : Module := triathlon.owned "Decathlon"
    let registry : Registry :=
      ((((({} : Registry).register claimed).register triathlon).register
        pentathlon).freeze).register { name := "Decathlon" }
    registry.Reachable ∧ registry.Orderly ∧ registry.names = ["Triathlon", "Pentathlon"] ∧
      registry.register claimed = registry.register triathlon := by
  intro claimed registry
  have hreach : registry.Reachable :=
    .register _ (.freeze (.register _ (.register _ (.register _ .empty))))
  obtain ⟨horderly, howners⟩ := reachable_orderly registry hreach
  exact ⟨hreach, horderly, by decide, howners claimed triathlon (Module.owned_owned _ _ _)⟩

end Registry

end NameBinding
