import NameBinding.Locals
import NameBinding.Proofs.Registry

/-!
Where declarations stand. Scopes lead down to the scopes inside them, and
symbols to their members. In a registry and the locals of a unit a place holds
one symbol at most, so two located symbols of one place are the same.
-/

namespace NameBinding

namespace Text

@[simp] theorem dotted_singleton (name : Text) : dotted [name] = name := by
  simp [dotted, List.intercalate]

theorem dotted_append_singleton {names : List Text} (h : names ≠ []) (name : Text) :
    dotted (names ++ [name]) = dotted names ++ "." ++ name := by
  have hdot : ([dot] : Text) = "." := by decide
  induction names with
  | nil => exact absurd rfl h
  | cons first rest ih =>
      cases rest with
      | nil => simp [dotted, List.intercalate, hdot]
      | cons second others =>
          have hrest := ih (by simp)
          simp only [dotted, List.intercalate, List.cons_append, List.intersperse_cons_cons,
            List.flatten_cons, List.append_assoc] at hrest ⊢
          rw [hrest]

end Text

namespace Located

/-- The symbol itself, or one reached from it through members. -/
inductive Leads : Located → Located → Prop where
  | here (located : Located) : Leads located located
  | down {located member target : Located} :
      member ∈ located.members → Leads member target → Leads located target

theorem mem_members {located member : Located} (h : member ∈ located.members) :
    ∃ index, located.symbol.members[index]? = some member.symbol ∧
      member.place = .member located.place index := by
  obtain ⟨index, hindex, rfl⟩ := List.mem_mapIdx.mp h
  exact ⟨index, List.getElem?_eq_getElem hindex, rfl⟩

theorem Leads.ownedBy {owner : Text} {located target : Located} (h : located.Leads target)
    (howned : located.symbol.ownedBy owner = located.symbol) :
    target.symbol.ownedBy owner = target.symbol := by
  induction h with
  | here => exact howned
  | down hmember _ ih =>
      obtain ⟨index, hindex, -⟩ := mem_members hmember
      exact ih (Symbol.members_of_ownedBy_eq howned _ (List.mem_of_getElem? hindex))

/-- A path that is followed through members ends below its start. -/
theorem leads_of_follow? {located target : Located} {context : Context}
    {path : List Text} (h : located.follow? context path = some target) :
    located.Leads target := by
  induction path generalizing located with
  | nil =>
      obtain rfl : located = target := Option.some.inj h
      exact .here located
  | cons name rest ih =>
      cases rest with
      | nil => exact .down (List.mem_of_find?_eq_some h) (.here target)
      | cons next others =>
          obtain ⟨member, hmember, hrest⟩ := Option.bind_eq_some_iff.mp h
          exact .down (List.mem_of_find?_eq_some hmember) (ih hrest)

end Located

theorem Locals.ofList_eq (unit : Text) (symbols : List Symbol) :
    ofList unit symbols = ⟨unit, symbols.map (·.ownedBy unit)⟩ := by
  have hfold (locals : Locals) : symbols.foldl declare locals =
      ⟨locals.unit, locals.symbols ++ symbols.map (·.ownedBy locals.unit)⟩ := by
    induction symbols generalizing locals with
    | nil => simp
    | cons first rest ih => simp [ih, declare]
  exact hfold { unit }

namespace Scope

/-- Going down from one scope through submodules of these names ends at
another. -/
inductive Leads : Scope → List Text → Scope → Prop where
  | here (scope : Scope) : Leads scope [] scope
  | down {outer inner target : Scope} {path : List Text} :
      inner ∈ outer.submodules → Leads inner path target →
        Leads outer (inner.module.name :: path) target

/-- A symbol of the scope that `path` leads to, or a member below one. -/
def Holds (scope : Scope) (path : List Text) (target : Located) : Prop :=
  ∃ inner, scope.Leads path inner ∧ ∃ root ∈ inner.symbols, root.Leads target

theorem mem_submodules {scope inner : Scope} (h : inner ∈ scope.submodules) :
    ∃ index, scope.module.submodules[index]? = some inner.module ∧
      inner.place = .inside scope.place index := by
  obtain ⟨index, hindex, rfl⟩ := List.mem_mapIdx.mp h
  exact ⟨index, List.getElem?_eq_getElem hindex, rfl⟩

theorem mem_symbols {scope : Scope} {located : Located} (h : located ∈ scope.symbols) :
    ∃ index, scope.module.symbols[index]? = some located.symbol ∧
      located.place = .exported scope.place index := by
  obtain ⟨index, hindex, rfl⟩ := List.mem_mapIdx.mp h
  exact ⟨index, List.getElem?_eq_getElem hindex, rfl⟩

theorem Leads.trans {outer middle inner : Scope} {path rest : List Text}
    (h : outer.Leads path middle) (hrest : middle.Leads rest inner) :
    outer.Leads (path ++ rest) inner := by
  induction h with
  | here => exact hrest
  | down hinner _ ih => exact .down hinner (ih hrest)

/-- A dotted path goes down by one child for each of its parts. -/
theorem leads_of_findSubmodule? {scope inner : Scope} {path : Text}
    (h : scope.findSubmodule? path = some inner) : scope.Leads path.parts inner := by
  unfold findSubmodule? at h
  generalize path.parts = names at h ⊢
  induction names generalizing scope with
  | nil =>
      obtain rfl : scope = inner := Option.some.inj h
      exact .here scope
  | cons name rest ih =>
      rw [List.foldlM_cons] at h
      obtain ⟨child, hchild, hrest⟩ := Option.bind_eq_some_iff.mp h
      have hname : child.module.name = name := by
        simpa using List.find?_some hchild
      rw [← hname]
      exact .down (List.mem_of_find?_eq_some hchild) (ih hrest)

/-- Each name on the way down adds one part to the owner. -/
theorem Leads.owned {outer inner : Scope} {path names : List Text}
    (h : outer.Leads path inner) (hnames : names ≠ [])
    (howned : outer.module.owned (Text.dotted names) = outer.module) :
    inner.module.owned (Text.dotted (names ++ path)) = inner.module := by
  induction h generalizing names with
  | here => simpa using howned
  | @down outer inner target path hinner _ ih =>
      obtain ⟨index, hindex, -⟩ := mem_submodules hinner
      have hstep := Module.submodules_of_owned_eq howned _ (List.mem_of_getElem? hindex)
      rw [← Text.dotted_append_singleton hnames] at hstep
      have hpath : names ++ inner.module.name :: path =
          (names ++ [inner.module.name]) ++ path := by simp
      rw [hpath]
      exact ih (by simp) hstep

theorem Holds.owner {scope : Scope} {path : List Text} {target : Located} {name : Text}
    (h : scope.Holds path target) (howned : scope.module.owned name = scope.module) :
    target.symbol.owner = Text.dotted (name :: path) := by
  obtain ⟨inner, hinner, root, hroot, htarget⟩ := h
  have hparts : ([name] : List Text) ≠ [] := by simp
  have hscope := hinner.owned hparts (by rw [Text.dotted_singleton]; exact howned)
  obtain ⟨index, hindex, -⟩ := mem_symbols hroot
  have hsymbol := Module.symbols_of_owned_eq hscope _ (List.mem_of_getElem? hindex)
  have hfinal := htarget.ownedBy hsymbol
  rw [← hfinal, Symbol.owner_ownedBy]
  rfl

end Scope

namespace Registry

/-- The module or submodule that stands at a place. -/
def moduleAt? (registry : Registry) : ScopePlace → Option Module
  | .root name => (registry.lookup? name).map (·.module)
  | .inside outer index => (registry.moduleAt? outer).bind (·.submodules[index]?)

/-- The symbol that stands at a place of the registry or of a unit's locals. -/
def symbolAt? (registry : Registry) (locals : Locals) : Place → Option Symbol
  | .declared index => locals.symbols[index]?
  | .exported scope index => (registry.moduleAt? scope).bind (·.symbols[index]?)
  | .member owner index => (registry.symbolAt? locals owner).bind (·.members[index]?)

end Registry

section Placed

variable {registry : Registry} {locals : Locals}

def Scope.Placed (registry : Registry) (scope : Scope) : Prop :=
  registry.moduleAt? scope.place = some scope.module

def Located.Placed (registry : Registry) (locals : Locals) (located : Located) : Prop :=
  registry.symbolAt? locals located.place = some located.symbol

/-- Identity is the place: no two symbols share one. -/
theorem Located.Placed.eq_of_place {left right : Located}
    (hleft : left.Placed registry locals) (hright : right.Placed registry locals)
    (h : left.place = right.place) : left = right := by
  unfold Located.Placed at hleft hright
  rw [h, hright] at hleft
  cases left
  cases right
  cases h
  cases hleft
  rfl

theorem Registry.Sound.placed (h : registry.Sound) {name : Text} {scope : Scope}
    (hfound : registry.lookup? name = some scope) : scope.Placed registry := by
  obtain ⟨-, hplace, -, -⟩ := h.lookup? hfound
  simp [Scope.Placed, hplace, Registry.moduleAt?, hfound]

theorem Scope.Placed.leads {outer inner : Scope} {path : List Text}
    (h : outer.Placed registry) (hinner : outer.Leads path inner) :
    inner.Placed registry := by
  induction hinner with
  | here => exact h
  | down hstep _ ih =>
      obtain ⟨index, hindex, hplace⟩ := mem_submodules hstep
      unfold Scope.Placed at h
      apply ih
      simp [Scope.Placed, hplace, Registry.moduleAt?, h, hindex]

theorem Scope.Placed.symbols {scope : Scope} (h : scope.Placed registry)
    {located : Located} (hlocated : located ∈ scope.symbols) :
    located.Placed registry locals := by
  obtain ⟨index, hindex, hplace⟩ := mem_symbols hlocated
  unfold Scope.Placed at h
  simp [Located.Placed, hplace, Registry.symbolAt?, h, hindex]

end Placed

end NameBinding
