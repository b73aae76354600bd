import NameBinding.Proofs.ScopePath

/-!
Registering one module after another. A module is taken exactly if the registry is open,
its name is new and the names inside it tell its declarations apart at every depth; a
module that is refused leaves nothing but one diagnostic behind. What a look-up finds it
finds ever after, and a frozen registry stays as it is.
-/

namespace NameBinding

/-- The code under which a refusal is reported. -/
def RegistrationStatus.code? : RegistrationStatus → Option Text
  | .registered => none
  | .duplicateModule => some "SIGIL-E2001"
  | .duplicateSymbol => some "SIGIL-E2002"
  | .duplicateSubmodule => some "SIGIL-E2003"
  | .registryFrozen => some "SIGIL-E2004"
  | .invalidModuleName => some "SIGIL-E2005"

theorem RefusalCause.code?_status (cause : RefusalCause) :
    cause.status.code? = some cause.code := by
  cases cause <;> rfl

theorem RefusalCause.status_ne_registered (cause : RefusalCause) :
    cause.status ≠ .registered := by
  cases cause <;> simp [RefusalCause.status]

/-- A scan that goes through all scopes finds no fault in a module whose scopes have
none. -/
theorem Module.fault?_of_wellNamed (place : ScopePlace) (path : Text) :
    (module : Module) → (Scope.mk place module).WellNamed → module.fault? path = none
  | ⟨name, symbols, submodules, span⟩, h => by
    rw [fault?_eq_none_iff]
    refine ⟨h [] _ (.here _), ?_⟩
    intro inner hinner
    obtain ⟨index, hindex, hget⟩ := List.getElem_of_mem hinner
    have hmember : Scope.mk (.inside place index) inner ∈
        (Scope.mk place ⟨name, symbols, submodules, span⟩).submodules :=
      List.mem_mapIdx.mpr ⟨index, hindex, by simp [hget]⟩
    exact fault?_of_wellNamed _ _ inner (h.inner (Scope.leads_of_mem hmember))
termination_by module => module
decreasing_by
  have hsize : sizeOf inner < sizeOf submodules := List.sizeOf_lt_of_mem hinner
  simp only [Module.mk.sizeOf_spec]
  omega

theorem Scope.wellNamed_iff (scope : Scope) (path : Text) :
    scope.WellNamed ↔ scope.module.fault? path = none :=
  ⟨Module.fault?_of_wellNamed scope.place path scope.module, wellNamed_of_fault?⟩

namespace Registry

/-- What can be done to a registry. Look-ups leave it as it is. -/
inductive Operation where
  | register (module : Module)
  | freeze

def perform (registry : Registry) : Operation → Registry
  | .register module => registry.register module
  | .freeze => registry.freeze

def run (registry : Registry) (operations : List Operation) : Registry :=
  operations.foldl perform registry

variable {registry : Registry}

theorem Reachable.perform (h : registry.Reachable) (operation : Operation) :
    (registry.perform operation).Reachable := by
  cases operation with
  | register module => exact .register module h
  | freeze => exact .freeze h

theorem Sound.mem_names_iff (h : registry.Sound) (name : Text) :
    name ∈ registry.names ↔ registry.contains name = true := by
  rw [contains, Std.TreeMap.contains_eq_isSome_getElem?, Option.isSome_iff_exists,
    List.mem_iff_getElem?]
  exact exists_congr fun position => (h.index_iff_names name position).symm

theorem Sound.exists_lookup?_iff (h : registry.Sound) {name : Text} :
    (∃ scope, registry.lookup? name = some scope) ↔ name ∈ registry.names := by
  rw [h.mem_names_iff, contains_eq_isSome_lookup? h, Option.isSome_iff_exists]

theorem Sound.lookup?_eq_none_iff (h : registry.Sound) {name : Text} :
    registry.lookup? name = none ↔ name ∉ registry.names := by
  rw [← h.exists_lookup?_iff, ← Option.isSome_iff_exists, Bool.not_eq_true,
    Option.isSome_eq_false_iff, Option.isNone_iff_eq_none]

theorem status_of_accepted {module : Module} (h : registry.refusal? module = none) :
    registry.status module = .registered := by
  simp [status, h]

theorem status_of_refused {module : Module} {refusal : Refusal}
    (h : registry.refusal? module = some refusal) :
    registry.status module = refusal.cause.status := by
  simp [status, h]

theorem status_eq_registered_iff {module : Module} :
    registry.status module = .registered ↔ registry.refusal? module = none := by
  cases hrefusal : registry.refusal? module with
  | none => simp [status_of_accepted hrefusal]
  | some refusal =>
      simp [status_of_refused hrefusal, RefusalCause.status_ne_registered refusal.cause]

/-- A frozen registry refuses every module before it looks at it. -/
theorem refusal?_of_frozen (h : registry.frozen = true) (module : Module) :
    registry.refusal? module = some ⟨.frozen module.name, module.span⟩ := by
  simp [refusal?, h]

theorem accepted_iff (h : registry.Sound) (module : Module) :
    registry.refusal? module = none ↔
      registry.frozen = false ∧ module.name ≠ [] ∧ module.name ∉ registry.names ∧
        (Scope.ofModule module).WellNamed := by
  rw [refusal?_eq_none_iff, h.mem_names_iff, Bool.not_eq_true,
    Scope.wellNamed_iff (Scope.ofModule module) module.name]
  rfl

/-- One more operation does not take away what a look-up finds. -/
theorem lookup?_perform (h : registry.Sound) {name : Text} {scope : Scope}
    (hfound : registry.lookup? name = some scope) (operation : Operation) :
    (registry.perform operation).lookup? name = some scope := by
  cases operation with
  | freeze => exact hfound
  | register module =>
      show (registry.register module).lookup? name = some scope
      cases hrefusal : registry.refusal? module with
      | some refusal =>
          rw [register_of_refused hrefusal]
          exact hfound
      | none =>
          obtain ⟨-, -, hnew, -⟩ := (refusal?_eq_none_iff registry module).mp hrefusal
          have hother : module.name ≠ name := by
            rintro rfl
            rw [lookup?_eq_none_of_contains h hnew] at hfound
            cases hfound
          rw [lookup?_register h hrefusal, if_neg hother]
          exact hfound

theorem lookup?_run (h : registry.Reachable) {name : Text} {scope : Scope}
    (hfound : registry.lookup? name = some scope) (operations : List Operation) :
    (registry.run operations).lookup? name = some scope := by
  induction operations generalizing registry with
  | nil => exact hfound
  | cons first rest ih => exact ih (h.perform first) (lookup?_perform h.sound hfound first)

theorem perform_of_frozen (h : registry.frozen = true) (operation : Operation) :
    let after := registry.perform operation
    after.frozen = true ∧ after.modules = registry.modules ∧ after.index = registry.index := by
  intro after
  cases operation with
  | freeze => exact ⟨rfl, rfl, rfl⟩
  | register module =>
      have hafter : after = _ := register_of_refused (refusal?_of_frozen h module)
      rw [hafter]
      exact ⟨h, rfl, rfl⟩

theorem run_of_frozen (h : registry.frozen = true) (operations : List Operation) :
    let after := registry.run operations
    after.frozen = true ∧ after.modules = registry.modules ∧ after.index = registry.index := by
  induction operations generalizing registry with
  | nil => exact ⟨h, rfl, rfl⟩
  | cons first rest ih =>
      obtain ⟨hfrozen, hmodules, hindex⟩ := perform_of_frozen h first
      obtain ⟨hfrozen', hmodules', hindex'⟩ := ih hfrozen
      exact ⟨hfrozen', hmodules'.trans hmodules, hindex'.trans hindex⟩

/-- Registering answers that a module is taken exactly if it may be; then the module,
owned by its scopes, is the one thing that is new. Otherwise one error is new, with the
code of the answer. Whatever is done later, a look-up that has found a module finds the
same, and nothing comes to a frozen registry. -/
theorem register_exact (registry : Registry) (h : registry.Reachable) (module : Module) :
    let status := registry.status module
    let after := registry.register module
    (status = .registered ↔
      registry.frozen = false ∧ module.name ≠ [] ∧ module.name ∉ registry.names ∧
        (Scope.ofModule module).WellNamed) ∧
    (status = .registered →
      after.modules = registry.modules.push (module.owned module.name) ∧
        after.lookup module.name = .ok (.ofModule (module.owned module.name)) ∧
        after.frozen = registry.frozen ∧ after.diagnostics = registry.diagnostics) ∧
    (status ≠ .registered →
      after.modules = registry.modules ∧ after.index = registry.index ∧
        after.frozen = registry.frozen ∧
        ∃ diagnostic, after.diagnostics = registry.diagnostics ++ [diagnostic] ∧
          diagnostic.severity = .error ∧ status.code? = some diagnostic.code) ∧
    (∀ name scope, registry.lookup name = .ok scope →
      ∀ operations, (registry.run operations).lookup name = .ok scope) ∧
    ∀ operations,
      let later := registry.freeze.run operations
      later.modules = registry.modules ∧ later.index = registry.index ∧
        later.status module = .registryFrozen := by
  intro status after
  refine ⟨?_, ?_, ?_, ?_, ?_⟩
  · rw [status_eq_registered_iff, accepted_iff h.sound]
  · intro hregistered
    have haccepted := status_eq_registered_iff.mp hregistered
    have hlookup : after.lookup? module.name = some (.ofModule (module.owned module.name)) := by
      rw [lookup?_register h.sound haccepted, if_pos rfl]
    have hafter : after = _ := register_of_accepted haccepted
    exact ⟨by rw [hafter], lookup_eq_ok_iff.mpr hlookup, by rw [hafter], by rw [hafter]⟩
  · intro hrefused
    obtain ⟨refusal, hrefusal⟩ := Option.ne_none_iff_exists'.mp
      fun haccepted => hrefused (status_eq_registered_iff.mpr haccepted)
    have hafter : after = _ := register_of_refused hrefusal
    rw [hafter]
    refine ⟨rfl, rfl, rfl, refusal.diagnostic, rfl, rfl, ?_⟩
    have hstatus : status = refusal.cause.status := status_of_refused hrefusal
    rw [hstatus, RefusalCause.code?_status]
    rfl
  · intro name scope hfound operations
    exact lookup_eq_ok_iff.mpr (lookup?_run h (lookup_eq_ok_iff.mp hfound) operations)
  · intro operations later
    have hfreeze : registry.freeze.frozen = true := rfl
    obtain ⟨hfrozen, hmodules, hindex⟩ := run_of_frozen hfreeze operations
    exact ⟨hmodules, hindex, status_of_refused (refusal?_of_frozen hfrozen module)⟩

/-- A second sport is taken; one whose relay names a leg twice is refused from the depth
of that relay. The first sport stays what it was through all of this and a freeze. -/
theorem register_second_sport :
    let registry := ({} : Registry).register triathlon
    let repeating : Module :=
      { name := "Decathlon"
        submodules :=
          [{ name := "Relay"
             submodules := [{ name := "Leg", symbols := [{ name := "pass" }, { name := "pass" }] }] }] }
    let operations : List Operation :=
      [.register repeating, .register pentathlon, .freeze, .register { name := "Biathlon" }]
    registry.Reachable ∧ (registry.run operations).names = ["Triathlon", "Pentathlon"] ∧
      registry.status pentathlon = .registered ∧ (Scope.ofModule pentathlon).WellNamed ∧
      (registry.register pentathlon).diagnostics = [] ∧
      registry.status repeating = .duplicateSymbol ∧
      ¬ (Scope.ofModule repeating).WellNamed ∧
      (∃ diagnostic, (registry.register repeating).diagnostics = [diagnostic] ∧
        RegistrationStatus.duplicateSymbol.code? = some diagnostic.code) ∧
      (registry.run operations).lookup "Triathlon" =
        .ok (.ofModule (triathlon.owned "Triathlon")) ∧
      (registry.freeze.run operations).modules = registry.modules := by
  intro registry repeating operations
  have hreach : registry.Reachable := .register _ .empty
  have hregistered : registry.status pentathlon = .registered := by decide +kernel
  have hrefused : registry.status repeating = .duplicateSymbol := by decide +kernel
  obtain ⟨hexact, htaken, -, hstable, hfrozen⟩ := register_exact registry hreach pentathlon
  obtain ⟨hexact', -, hatomic, -, -⟩ := register_exact registry hreach repeating
  obtain ⟨-, -, -, hwell⟩ := hexact.mp hregistered
  obtain ⟨-, -, -, diagnostic, hdiagnostics, -, hcode⟩ := hatomic (by rw [hrefused]; decide)
  refine ⟨hreach, by decide +kernel, hregistered, hwell, (htaken hregistered).2.2.2, hrefused, ?_,
    ⟨diagnostic, hdiagnostics, by rw [← hrefused]; exact hcode⟩,
    hstable "Triathlon" _ rfl operations, (hfrozen operations).1⟩
  intro hrepeating
  have hstatus := hexact'.mpr ⟨rfl, by decide, by decide +kernel, hrepeating⟩
  rw [hrefused] at hstatus
  cases hstatus

end Registry

end NameBinding
