import NameBinding.Registry
import NameBinding.Proofs.Ownership
import Std.Data.TreeMap.Lemmas

/-!
The registries that registering and freezing lead to. In each of them a look-up
by name finds the module so named, at the root of its own places, with every
symbol in the hands of its scope.
-/

namespace NameBinding

namespace Registry

inductive Reachable : Registry → Prop where
  | empty : Reachable {}
  | register {registry : Registry} (module : Module) :
      Reachable registry → Reachable (registry.register module)
  | freeze {registry : Registry} : Reachable registry → Reachable registry.freeze

/-- What registering keeps: the index leads from a name to the position of the
module so named and nowhere else, and every module has a name and is owned all the
way down. -/
structure Sound (registry : Registry) : Prop where
  index_iff (name : Text) (position : Nat) :
    registry.index[name]? = some position ↔
      ∃ module, registry.modules[position]? = some module ∧ module.name = name
  named (module : Module) : module ∈ registry.modules → module.name ≠ []
  owned (module : Module) :
    module ∈ registry.modules → module.owned module.name = module

theorem refusal?_eq_none_iff (registry : Registry) (module : Module) :
    registry.refusal? module = none ↔
      registry.frozen = false ∧ module.name ≠ [] ∧ registry.contains module.name = false ∧
        module.fault? module.name = none := by
  unfold refusal?
  cases hfrozen : registry.frozen <;> cases hknown : registry.contains module.name <;>
    cases hname : module.name <;> simp

theorem register_of_refused {registry : Registry} {module : Module} {refusal : Refusal}
    (h : registry.refusal? module = some refusal) :
    registry.register module =
      { registry with diagnostics := registry.diagnostics ++ [refusal.diagnostic] } := by
  simp [register, h]

theorem register_of_accepted {registry : Registry} {module : Module}
    (h : registry.refusal? module = none) :
    registry.register module =
      { registry with
        modules := registry.modules.push (module.owned module.name)
        index := registry.index.insert module.name registry.modules.size } := by
  simp [register, h]

theorem sound_empty : Sound {} := by
  constructor
  · intro name position
    simp
  · intro module hmodule
    simp at hmodule
  · intro module hmodule
    simp at hmodule

/-- A name is new when a module is taken, so that its position is the only one
the index leads to from that name. -/
theorem Sound.register {registry : Registry} (h : registry.Sound) (module : Module) :
    (registry.register module).Sound := by
  cases hrefusal : registry.refusal? module with
  | some refusal =>
      rw [register_of_refused hrefusal]
      exact ⟨h.index_iff, h.named, h.owned⟩
  | none =>
      rw [register_of_accepted hrefusal]
      obtain ⟨-, hnonempty, hcontains, -⟩ := (refusal?_eq_none_iff registry module).mp hrefusal
      have hnew : registry.index[module.name]? = none := by
        rw [contains, Std.TreeMap.contains_eq_isSome_getElem?] at hcontains
        exact Option.not_isSome_iff_eq_none.mp (by rw [hcontains]; decide)
      constructor
      · intro name position
        simp only [Std.TreeMap.getElem?_insert, Std.LawfulEqCmp.compare_eq_iff_eq,
          Array.getElem?_push]
        by_cases hname : module.name = name
        · subst hname
          have hother : ∀ found, registry.modules[position]? = some found →
              found.name ≠ module.name := by
            intro found hfound hsame
            have hindex := (h.index_iff module.name position).mpr ⟨found, hfound, hsame⟩
            rw [hnew] at hindex
            cases hindex
          by_cases hposition : position = registry.modules.size
          · simp [hposition]
          · have hback : registry.modules.size ≠ position := Ne.symm hposition
            simp only [if_true, hposition, if_false, Option.some.injEq, hback, false_iff]
            rintro ⟨found, hfound, hsame⟩
            exact hother found hfound hsame
        · rw [if_neg hname, h.index_iff]
          by_cases hposition : position = registry.modules.size
          · simp [hposition, hname]
          · simp [hposition]
      · intro found hfound
        rcases Array.mem_push.mp hfound with hold | hlast
        · exact h.named found hold
        · subst hlast
          simpa using hnonempty
      · intro found hfound
        rcases Array.mem_push.mp hfound with hold | hlast
        · exact h.owned found hold
        · subst hlast
          simp

theorem Reachable.sound {registry : Registry} (h : registry.Reachable) :
    registry.Sound := by
  induction h with
  | empty => exact sound_empty
  | register module _ ih => exact ih.register module
  | freeze _ ih => exact ⟨ih.index_iff, ih.named, ih.owned⟩

theorem contains_eq_isSome_lookup? {registry : Registry} (h : registry.Sound)
    (name : Text) : registry.contains name = (registry.lookup? name).isSome := by
  rw [contains, Std.TreeMap.contains_eq_isSome_getElem?]
  cases hindex : registry.index[name]? with
  | none => simp [lookup?, hindex]
  | some position =>
      obtain ⟨module, hmodule, -⟩ := (h.index_iff name position).mp hindex
      simp [lookup?, hindex, hmodule]

/-- A look-up finds the module of that name, placed at its own root. -/
theorem Sound.lookup? {registry : Registry} (h : registry.Sound) {name : Text}
    {scope : Scope} (hfound : registry.lookup? name = some scope) :
    name ≠ [] ∧ scope.place = .root name ∧ scope.module.name = name ∧
      scope.module.owned name = scope.module := by
  unfold Registry.lookup? at hfound
  simp only [Option.bind_eq_bind, Option.pure_def, Option.bind_eq_some_iff,
    Option.some.injEq] at hfound
  obtain ⟨position, hindex, module, hmodule, rfl⟩ := hfound
  obtain ⟨found, hposition, hname⟩ := (h.index_iff name position).mp hindex
  have hsame : found = module := Option.some.inj (hposition.symm.trans hmodule)
  subst hsame
  subst hname
  have hmember : found ∈ registry.modules := Array.mem_of_getElem? hposition
  exact ⟨h.named found hmember, rfl, rfl, h.owned found hmember⟩

/-- Every module is what a look-up of its name finds. -/
theorem Sound.lookup?_of_mem {registry : Registry} (h : registry.Sound) {module : Module}
    (hmodule : module ∈ registry.modules) :
    registry.lookup? module.name = some (.ofModule module) := by
  obtain ⟨position, hposition⟩ := Array.getElem?_of_mem hmodule
  have hindex := (h.index_iff module.name position).mpr ⟨module, hposition, rfl⟩
  simp [Registry.lookup?, hindex, hposition]

theorem lookup_eq_ok_iff {registry : Registry} {name : Text} {scope : Scope} :
    registry.lookup name = .ok scope ↔ registry.lookup? name = some scope := by
  unfold lookup
  cases registry.lookup? name <;> simp

/-- Taking a module adds its own name to what a look-up finds. -/
theorem lookup?_register {registry : Registry} (h : registry.Sound) {module : Module}
    (haccepted : registry.refusal? module = none) (name : Text) :
    (registry.register module).lookup? name =
      if module.name = name then some (.ofModule (module.owned module.name))
      else registry.lookup? name := by
  rw [register_of_accepted haccepted]
  unfold Registry.lookup?
  simp only [Std.TreeMap.getElem?_insert, Std.LawfulEqCmp.compare_eq_iff_eq]
  by_cases hname : module.name = name
  · simp [hname]
  · rw [if_neg hname, if_neg hname]
    cases hindex : registry.index[name]? with
    | none => rfl
    | some position =>
        obtain ⟨found, hposition, -⟩ := (h.index_iff name position).mp hindex
        obtain ⟨hbound, -⟩ := Array.getElem?_eq_some_iff.mp hposition
        have hinside : position ≠ registry.modules.size := by omega
        simp [Array.getElem?_push, hinside]

theorem lookup?_eq_none_of_contains {registry : Registry} (h : registry.Sound)
    {name : Text} (hunknown : registry.contains name = false) :
    registry.lookup? name = none := by
  rw [contains_eq_isSome_lookup? h] at hunknown
  exact Option.not_isSome_iff_eq_none.mp (by rw [hunknown]; decide)

theorem contains_register {registry : Registry} (h : registry.Sound) {module : Module}
    (haccepted : registry.refusal? module = none) (name : Text) :
    (registry.register module).contains name =
      (decide (module.name = name) || registry.contains name) := by
  rw [contains_eq_isSome_lookup? (h.register module), lookup?_register h haccepted,
    contains_eq_isSome_lookup? h]
  by_cases hname : module.name = name <;> simp [hname]

theorem frozen_register (registry : Registry) (module : Module) :
    (registry.register module).frozen = registry.frozen := by
  unfold register
  cases registry.refusal? module <;> rfl

/-- Refusal looks at the module, at the names that are taken and at nothing else. -/
theorem refusal?_congr {left right : Registry} (hfrozen : left.frozen = right.frozen)
    {module : Module}
    (hcontains : left.contains module.name = right.contains module.name) :
    left.refusal? module = right.refusal? module := by
  unfold refusal?
  rw [hfrozen, hcontains]

/-- Two sports whose functions are spelled alike. A relay lies inside the first,
with a type that has members. -/
def triathlon : Module :=
  { name := "Triathlon"
    symbols := [{ name := "swim" }, { name := "run" }]
    submodules :=
      [{ name := "Relay"
         symbols := [{ name := "Baton", kind := .enumType, members := [{ name := "pass" }] }] }] }

def pentathlon : Module :=
  { name := "Pentathlon", symbols := [{ name := "swim" }, { name := "run" }] }

def sports : Registry := ((({} : Registry).register triathlon).register pentathlon).freeze

theorem sports_reachable : sports.Reachable :=
  .freeze (.register pentathlon (.register triathlon .empty))

end Registry

end NameBinding
