import NameBinding.Proofs.Place

/-!
What a scope shows to those who import it or qualify through it: its own symbols
and, where submodules are passed on, those of every scope inside it. Qualifying
finds the first of these that answers, so it sees what an import sees.
-/

namespace NameBinding

namespace Scope

mutual

/-- The scope at `place` and the scopes inside it, each before its own. -/
def nestedIn (place : ScopePlace) : Module → List Scope
  | ⟨name, symbols, submodules, span⟩ =>
    ⟨place, ⟨name, symbols, submodules, span⟩⟩ :: nestedInAll place 0 submodules

def nestedInAll (outer : ScopePlace) (index : Nat) : List Module → List Scope
  | [] => []
  | first :: rest =>
    nestedIn (.inside outer index) first ++ nestedInAll outer (index + 1) rest

end

/-- The scopes whose symbols come with a scope. -/
def visible (scope : Scope) (reexport : Bool) : List Scope :=
  if reexport then nestedIn scope.place scope.module else [scope]

mutual

theorem exposedBy_eq (place : ScopePlace) :
    (module : Module) →
      exposedBy true place module = (nestedIn place module).flatMap (·.symbols)
  | ⟨_, _, submodules, _⟩ => by
    simp [exposedBy, nestedIn, exposedByAll_eq place 0 submodules, Scope.symbols]

theorem exposedByAll_eq (outer : ScopePlace) (index : Nat) :
    (modules : List Module) →
      exposedByAll true outer index modules =
        (nestedInAll outer index modules).flatMap (·.symbols)
  | [] => rfl
  | first :: rest => by
    simp only [exposedByAll, nestedInAll, List.flatMap_append,
      exposedBy_eq (.inside outer index) first, exposedByAll_eq outer (index + 1) rest]

end

theorem exposed_eq_visible (scope : Scope) (reexport : Bool) :
    scope.exposed reexport = (scope.visible reexport).flatMap (·.symbols) := by
  cases reexport with
  | true => exact exposedBy_eq scope.place scope.module
  | false =>
      obtain ⟨place, name, own, submodules, span⟩ := scope
      simp [exposed, exposedBy, visible, symbols]

mutual

theorem leads_of_nestedIn (place : ScopePlace) :
    (module : Module) → ∀ inner ∈ nestedIn place module,
      ∃ path, Leads ⟨place, module⟩ path inner
  | ⟨name, symbols, submodules, span⟩ => by
    intro inner hinner
    rcases List.mem_cons.mp hinner with rfl | hbelow
    · exact ⟨[], .here _⟩
    · obtain ⟨offset, module, hmodule, path, hpath⟩ :=
        leads_of_nestedInAll place 0 submodules inner hbelow
      refine ⟨module.name :: path, .down ?_ hpath⟩
      refine List.mem_mapIdx.mpr ⟨offset, ?_, ?_⟩
      · exact (List.getElem?_eq_some_iff.mp hmodule).1
      · have hget := (List.getElem?_eq_some_iff.mp hmodule).2
        simp [hget]

/-- A scope inside a list of siblings is led to from one of them. The places of
the siblings count on from `index`. -/
theorem leads_of_nestedInAll (outer : ScopePlace) (index : Nat) :
    (modules : List Module) → ∀ inner ∈ nestedInAll outer index modules,
      ∃ (offset : Nat) (module : Module), modules[offset]? = some module ∧
        ∃ path, Leads ⟨.inside outer (index + offset), module⟩ path inner
  | [] => by
    intro inner hinner
    simp [nestedInAll] at hinner
  | first :: rest => by
    intro inner hinner
    rcases List.mem_append.mp hinner with hfirst | hrest
    · obtain ⟨path, hpath⟩ := leads_of_nestedIn (.inside outer index) first inner hfirst
      exact ⟨0, first, rfl, path, hpath⟩
    · obtain ⟨offset, module, hmodule, path, hpath⟩ :=
        leads_of_nestedInAll outer (index + 1) rest inner hrest
      refine ⟨offset + 1, module, hmodule, path, ?_⟩
      have hindex : index + 1 + offset = index + (offset + 1) := by omega
      rw [← hindex]
      exact hpath

end

theorem mem_nestedInAll {outer : ScopePlace} {modules : List Module} {offset : Nat}
    {module : Module} (hmodule : modules[offset]? = some module) {index : Nat} {inner : Scope}
    (h : inner ∈ nestedIn (.inside outer (index + offset)) module) :
    inner ∈ nestedInAll outer index modules := by
  induction modules generalizing offset index with
  | nil => cases hmodule
  | cons first rest ih =>
      unfold nestedInAll
      cases offset with
      | zero =>
          obtain rfl : first = module := Option.some.inj hmodule
          exact List.mem_append_left _ h
      | succ offset =>
          apply List.mem_append_right
          apply ih hmodule
          have hindex : index + 1 + offset = index + (offset + 1) := by omega
          rw [hindex]
          exact h

/-- The scopes listed are those led to. -/
theorem mem_nestedIn_iff {scope inner : Scope} :
    inner ∈ nestedIn scope.place scope.module ↔ ∃ path, scope.Leads path inner := by
  constructor
  · exact leads_of_nestedIn scope.place scope.module inner
  · rintro ⟨path, hpath⟩
    induction hpath with
    | here scope =>
        obtain ⟨place, module⟩ := scope
        cases module
        exact List.mem_cons_self
    | @down outer child target path hchild _ ih =>
        obtain ⟨index, hindex, hplace⟩ := mem_submodules hchild
        rw [hplace, ← Nat.zero_add index] at ih
        obtain ⟨place, module⟩ := outer
        cases module
        exact List.mem_cons_of_mem _ (mem_nestedInAll hindex ih)

theorem leads_of_visible {scope inner : Scope} {reexport : Bool}
    (h : inner ∈ scope.visible reexport) : ∃ path, scope.Leads path inner := by
  cases reexport with
  | true => exact leads_of_nestedIn scope.place scope.module inner h
  | false =>
      obtain rfl : inner = scope := by simpa [visible] using h
      exact ⟨[], .here inner⟩

/-- Whatever comes with a scope is a symbol of a scope it leads to. -/
theorem leads_of_exposed {scope : Scope} {reexport : Bool} {located : Located}
    (h : located ∈ scope.exposed reexport) :
    ∃ path inner, scope.Leads path inner ∧ located ∈ inner.symbols := by
  rw [exposed_eq_visible] at h
  obtain ⟨inner, hinner, hlocated⟩ := List.mem_flatMap.mp h
  obtain ⟨path, hpath⟩ := leads_of_visible hinner
  exact ⟨path, inner, hpath, hlocated⟩

mutual

theorem searchIn_eq_find? (reexport : Bool) (name : Text) (context : Context)
    (place : ScopePlace) :
    (module : Module) →
      searchIn reexport name context place module =
        (exposedBy reexport place module).find? (·.answers name context)
  | ⟨_, symbols, submodules, _⟩ => by
    simp only [searchIn, exposedBy, List.find?_append]
    cases (locate place symbols).find? (·.answers name context) with
    | some found => rfl
    | none =>
        cases reexport with
        | false => rfl
        | true => simp [searchInAll_eq_find? true name context place 0 submodules]

theorem searchInAll_eq_find? (reexport : Bool) (name : Text) (context : Context)
    (outer : ScopePlace) (index : Nat) :
    (modules : List Module) →
      searchInAll reexport name context outer index modules =
        (exposedByAll reexport outer index modules).find? (·.answers name context)
  | [] => rfl
  | first :: rest => by
    simp only [searchInAll, exposedByAll, List.find?_append,
      searchIn_eq_find? reexport name context (.inside outer index) first,
      searchInAll_eq_find? reexport name context outer (index + 1) rest]
    cases (exposedBy reexport (.inside outer index) first).find?
      (·.answers name context) <;> rfl

end

/-- The walk that qualifies a name and the walk that fills an import agree. -/
theorem search?_eq_find? (scope : Scope) (reexport : Bool) (name : Text)
    (context : Context) :
    scope.search? reexport name context =
      (scope.exposed reexport).find? (·.answers name context) :=
  searchIn_eq_find? reexport name context scope.place scope.module

end Scope

end NameBinding
