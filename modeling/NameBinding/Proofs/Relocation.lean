import NameBinding.Proofs.Agreement
import NameBinding.Proofs.Contribution

/-!
Locals that move. What comes from modules stays in its place, and whatever is reached from a
local moves along with it. So a reference keeps its meaning if the locals that it names have
merely moved to other positions.
-/

namespace NameBinding

namespace Place

/-- The place after the locals of the unit have moved. -/
def relocated (move : Nat → Nat) : Place → Place
  | .declared index => .declared (move index)
  | .exported scope index => .exported scope index
  | .member owner index => .member (owner.relocated move) index

/-- Declarations that move to different positions stay apart, with all their members. -/
theorem relocated_injective {move : Nat → Nat} (h : Function.Injective move) :
    Function.Injective (relocated move) := by
  intro left
  induction left with
  | declared index =>
      intro right hsame
      cases right with
      | declared other => rw [h (Place.declared.inj hsame)]
      | exported scope other => cases hsame
      | member owner other => cases hsame
  | exported scope index =>
      intro right hsame
      cases right with
      | declared other => cases hsame
      | exported scope' other => exact hsame
      | member owner other => cases hsame
  | member owner index ih =>
      intro right hsame
      cases right with
      | declared other => cases hsame
      | exported scope other => cases hsame
      | member owner' other =>
          obtain ⟨howner, rfl⟩ := Place.member.inj hsame
          rw [ih howner]

end Place

namespace Outcome

variable {σ τ : Type} (f : σ → τ) (outcome : Outcome σ)

@[simp] theorem status_map : (outcome.map f).status = outcome.status := by
  cases outcome with
  | found symbol tier => rfl
  | failed failure => cases failure <;> rfl

@[simp] theorem tier?_map : (outcome.map f).tier? = outcome.tier? := by
  cases outcome with
  | found symbol tier => rfl
  | failed failure => cases failure <;> rfl

@[simp] theorem symbol?_map : (outcome.map f).symbol? = outcome.symbol?.map f := by
  cases outcome <;> rfl

@[simp] theorem candidates_map : (outcome.map f).candidates = outcome.candidates.map f := by
  cases outcome with
  | found symbol tier => rfl
  | failed failure => cases failure <;> rfl

end Outcome

namespace Located

variable (move : Nat → Nat) (located : Located)

def relocated (located : Located) : Located :=
  { located with place := located.place.relocated move }

theorem relocated_injective {move : Nat → Nat} (h : Function.Injective move) :
    Function.Injective (relocated move) := by
  rintro ⟨place, symbol⟩ ⟨place', symbol'⟩ hsame
  obtain ⟨hplace, hsymbol⟩ := Located.mk.inj hsame
  exact congrArg₂ Located.mk (Place.relocated_injective h hplace) hsymbol

@[simp] theorem answers_relocated (name : Text) (context : Context) :
    (located.relocated move).answers name context = located.answers name context := rfl

theorem members_relocated :
    (located.relocated move).members = located.members.map (relocated move) := by
  refine List.ext_getElem? fun index => ?_
  simp only [members, List.getElem?_map, List.getElem?_mapIdx, Option.map_map]
  rfl

theorem findMember?_relocated (name : Text) (context : Context) :
    (located.relocated move).findMember? name context =
      (located.findMember? name context).map (relocated move) := by
  rw [findMember?, members_relocated, List.find?_map]
  rfl

theorem follow?_cons_cons (context : Context) (name next : Text) (rest : List Text) :
    located.follow? context (name :: next :: rest) =
      (located.findMember? name .any).bind (·.follow? context (next :: rest)) := rfl

theorem follow?_relocated (context : Context) (path : List Text) :
    (located.relocated move).follow? context path =
      (located.follow? context path).map (relocated move) := by
  induction path generalizing located with
  | nil => rfl
  | cons name rest ih =>
      cases rest with
      | nil => exact findMember?_relocated move located name context
      | cons next others =>
          rw [follow?_cons_cons, follow?_cons_cons, findMember?_relocated]
          cases located.findMember? name .any with
          | none => rfl
          | some member => exact ih member

variable {located}

/-- A symbol of a module stands where it stood. -/
theorem relocated_of_mem_symbols {scope : Scope} (h : located ∈ scope.symbols) :
    located.relocated move = located := by
  obtain ⟨index, hindex, rfl⟩ := List.mem_mapIdx.mp h
  rfl

end Located

/-- Every binding is to a symbol that some module declares. -/
def ImportTable.FromModules (table : ImportTable) : Prop :=
  ∀ binding ∈ table.bindings, ∃ scope : Scope, binding.symbol ∈ scope.symbols

theorem ImportTable.fromModules_build (registry : Registry) (unit : Text) (options : Options)
    (imports : List Import) : (build registry unit options imports).1.FromModules := by
  intro binding hbinding
  rw [build_eq_after, ← Array.mem_toList_iff, after_bindings] at hbinding
  obtain ⟨⟨declaration, order⟩, -, hcontributed⟩ := List.mem_flatMap.mp hbinding
  rw [Import.bindings_contribution] at hcontributed
  rcases List.mem_append.mp hcontributed with hsingle | hexposed
  · obtain ⟨located, hlocated, rfl⟩ := List.mem_map.mp hsingle
    obtain ⟨-, root, -, hmember⟩ :=
      Import.singleSymbol?_eq_some options (Option.mem_toList.mp hlocated)
    exact ⟨root, hmember⟩
  · obtain ⟨located, hlocated, rfl⟩ := List.mem_map.mp hexposed
    obtain ⟨scope, -, hscope⟩ := List.mem_flatMap.mp hlocated
    obtain ⟨-, inner, -, hmember⟩ := Scope.leads_of_exposed hscope
    exact ⟨inner, hmember⟩

def Match.relocated (move : Nat → Nat) (found : Match) : Match :=
  ⟨found.tier, found.first.relocated move, found.others.map (Located.relocated move)⟩

theorem Match.follow?_relocated (move : Nat → Nat) (found : Match) (context : Context)
    (path : List Text) :
    (found.relocated move).follow? context path =
      (found.follow? context path).map (Located.relocated move) := by
  obtain ⟨tier, first, others⟩ := found
  cases others with
  | nil => exact Located.follow?_relocated move first context path
  | cons second more => rfl

theorem Match.undecided_relocated (move : Nat → Nat) (found : Match) :
    (found.relocated move).undecided = found.undecided.map (Located.relocated move) := by
  obtain ⟨tier, first, others⟩ := found
  cases others <;> rfl

/-- What the name means among the locals has moved, and it means nothing else. -/
def Locals.Moves (locals moved : Locals) (move : Nat → Nat) (name : Text) : Prop :=
  ∀ context, moved.named name context =
    (locals.named name context).map (Located.relocated move)

namespace Resolver

variable {resolver : Resolver} {locals : Locals} {move : Nat → Nat}

/-- Qualifying ends at a symbol of a module or at a member of one. -/
theorem qualified_relocated (resolver : Resolver) (move : Nat → Nat) (scope : Scope)
    (name : Text) (rest : List Text) (context : Context) :
    (resolver.qualified scope name rest context).map (Located.relocated move) =
      resolver.qualified scope name rest context := by
  unfold qualified
  split
  · rfl
  · generalize descend scope name rest = reached
    obtain ⟨inner, last, members⟩ := reached
    dsimp only
    rw [Scope.search?_eq_find?]
    cases hsymbol : (inner.exposed resolver.options.reexport).find?
        (·.answers last (if members.isEmpty then context else .any)) with
    | none => cases members <;> rfl
    | some symbol =>
        obtain ⟨-, below, -, hbelow⟩ := Scope.leads_of_exposed (List.mem_of_find?_eq_some hsymbol)
        have hfollow := Located.follow?_relocated move symbol context members
        rw [Located.relocated_of_mem_symbols move hbelow] at hfollow
        dsimp only
        cases htarget : symbol.follow? context members with
        | none => rfl
        | some target =>
            rw [htarget] at hfollow
            have hfixed : target = target.relocated move := Option.some.inj hfollow
            simp only [Outcome.map, ← hfixed]

/-- A path below the unit's own name asks for the local that comes right after it. -/
theorem throughUnit_relocated {name : Text}
    (hnamed : resolver.locals.Moves locals move name)
    (rest : List Text) (context : Context) :
    { resolver with locals }.throughUnit name rest context =
      (resolver.throughUnit name rest context).map (Located.relocated move) := by
  unfold throughUnit
  dsimp only
  rw [hnamed]
  match resolver.locals.named name (if rest.isEmpty then context else .any) with
  | [] => rfl
  | [symbol] =>
      simp only [List.map_cons, List.map_nil, Located.follow?_relocated]
      cases symbol.follow? context rest <;> rfl
  | first :: second :: more => rfl

section Moved

variable (hmodules : resolver.imports.FromModules)

include hmodules

theorem relocated_of_mem_bindingsNamed {name : Text} {tier : Tier} {binding : Binding}
    (h : binding ∈ resolver.imports.bindingsNamed name tier) :
    binding.symbol.relocated move = binding.symbol := by
  obtain ⟨position, -, hposition⟩ := List.mem_filterMap.mp (List.mem_of_mem_filter h)
  obtain ⟨scope, hscope⟩ := hmodules binding (Array.mem_of_getElem? hposition)
  exact Located.relocated_of_mem_symbols move hscope

/-- Under a name whose locals have moved there are the same candidates, moved alike. -/
theorem candidates_relocated {name : Text}
    (hnamed : resolver.locals.Moves locals move name)
    (context : Context) (tier : Tier) :
    { resolver with locals }.candidates name context tier =
      (resolver.candidates name context tier).map (Located.relocated move) := by
  have hfixed (bindings : List Binding) (h : ∀ binding ∈ bindings, ∃ tier,
        binding ∈ resolver.imports.bindingsNamed name tier) :
      ((bindings.map (·.symbol)).eraseDups).map (Located.relocated move) =
        (bindings.map (·.symbol)).eraseDups := by
    refine (List.map_congr_left fun located hlocated => ?_).trans (List.map_id _)
    obtain ⟨binding, hbinding, rfl⟩ := List.mem_map.mp (List.mem_eraseDups.mp hlocated)
    obtain ⟨tier, hnamed⟩ := h binding hbinding
    exact relocated_of_mem_bindingsNamed hmodules hnamed
  cases tier with
  | localDeclaration => exact hnamed context
  | importedDeclaration =>
      refine (hfixed _ fun binding hbinding => ⟨.importedDeclaration, ?_⟩).symm
      exact List.mem_of_mem_filter (List.mem_of_mem_filter hbinding)
  | importedModule =>
      refine (hfixed _ fun binding hbinding => ⟨.importedModule, ?_⟩).symm
      exact List.mem_of_mem_filter hbinding

theorem search?_relocated {name : Text}
    (hnamed : resolver.locals.Moves locals move name)
    (context : Context) (tiers : List Tier) :
    { resolver with locals }.search? name context tiers =
      (resolver.search? name context tiers).map (Match.relocated move) := by
  induction tiers with
  | nil => rfl
  | cons tier tiers ih =>
      rw [search?_cons, search?_cons, candidates_relocated hmodules hnamed]
      cases resolver.candidates name context tier with
      | nil => exact ih
      | cons first others => rfl

/-- A path that no module qualifies goes through the unit's own name or follows its head. -/
theorem unregistered_relocated (hunit : locals.unit = resolver.locals.unit) {head name : Text}
    (hhead : resolver.locals.Moves locals move head)
    (hbelow : head = resolver.locals.unit → resolver.locals.Moves locals move name)
    (rest : List Text) (context : Context) :
    { resolver with locals }.unregistered head name rest context =
      (resolver.unregistered head name rest context).map (Located.relocated move) := by
  unfold unregistered
  dsimp only
  rw [hunit]
  split
  · next hown =>
    simp only [Bool.and_eq_true, beq_iff_eq] at hown
    exact throughUnit_relocated (hbelow hown.2) rest context
  · rw [search?_relocated hmodules hhead]
    cases resolver.search? head .any allTiers with
    | none => rfl
    | some found =>
        dsimp only [Option.map_some]
        rw [Match.follow?_relocated]
        cases found.follow? context (name :: rest) with
        | none => exact congrArg Outcome.failed (Match.undecided_relocated move found)
        | some target => rfl

theorem preferredMember?_relocated {head : Text}
    (hhead : resolver.locals.Moves locals move head)
    (name : Text) (rest : List Text) (context : Context) :
    { resolver with locals }.preferredMember? head name rest context =
      (resolver.preferredMember? head name rest context).map
        (Prod.map (Located.relocated move) id) := by
  unfold preferredMember?
  rw [search?_relocated hmodules hhead]
  cases resolver.search? head .any declarationTiers with
  | none => rfl
  | some found =>
      dsimp only [Option.map_some, Option.bind_some]
      rw [Match.follow?_relocated]
      cases found.follow? context (name :: rest) <;> rfl

theorem dotted_relocated (hunit : locals.unit = resolver.locals.unit) {head name : Text}
    (hhead : resolver.locals.Moves locals move head)
    (hbelow : head = resolver.locals.unit → resolver.locals.Moves locals move name)
    (rest : List Text) (context : Context) :
    { resolver with locals }.dotted head name rest context =
      (resolver.dotted head name rest context).map (Located.relocated move) := by
  rw [dotted_eq, dotted_eq, preferredMember?_relocated hmodules hhead]
  cases resolver.preferredMember? head name rest context with
  | some member => rfl
  | none =>
      dsimp only [Option.map_none]
      have hmodule : { resolver with locals }.throughModule? head name rest context =
          resolver.throughModule? head name rest context := rfl
      rw [hmodule]
      cases hthrough : resolver.throughModule? head name rest context with
      | some outcome =>
          obtain ⟨scope, -, rfl⟩ := Option.map_eq_some_iff.mp hthrough
          exact (qualified_relocated resolver move scope name rest context).symm
      | none =>
          dsimp only
          rw [search?_relocated hmodules hhead]
          cases resolver.search? head .any declarationTiers with
          | some found => exact congrArg Outcome.failed (Match.undecided_relocated move found)
          | none => exact unregistered_relocated hmodules hunit hhead hbelow rest context

/-- A reference means what it meant if the locals that its head and, below the unit's own
name, its second name may mean have only moved. -/
theorem resolve_relocated (hunit : locals.unit = resolver.locals.unit) {reference : Reference}
    (hhead : ∀ head, reference.path.head? = some head → resolver.locals.Moves locals move head)
    (hbelow : ∀ name rest, reference.path = resolver.locals.unit :: name :: rest →
      resolver.locals.Moves locals move name) :
    { resolver with locals }.resolve reference =
      (resolver.resolve reference).map (Located.relocated move) := by
  obtain ⟨path, context, span⟩ := reference
  match path with
  | [] => rfl
  | [] :: rest => rfl
  | (byte :: bytes) :: rest =>
      have hnonempty : byte :: bytes ≠ [] := List.cons_ne_nil byte bytes
      have hnamed := hhead (byte :: bytes) rfl
      cases rest with
      | nil =>
          rw [resolve_singleton hnonempty, resolve_singleton hnonempty, unqualified, unqualified,
            search?_relocated hmodules hnamed]
          cases resolver.search? (byte :: bytes) context allTiers with
          | none => rfl
          | some found =>
              obtain ⟨tier, first, others⟩ := found
              cases others <;> rfl
      | cons name rest =>
          rw [resolve_dotted hnonempty, resolve_dotted hnonempty]
          refine dotted_relocated hmodules hunit hnamed (fun hown => ?_) rest context
          exact hbelow name rest (by rw [← hown])

end Moved

end Resolver

end NameBinding
