import NameBinding.Proofs.Bindings

/-!
The index of a table against a scan of its bindings. Whatever is added to an empty table, in
whichever order, the index holds under each name the positions of its bindings: all of them, each
once and in the order of adding, and none out of range. A look-up by name and tier reads what a
scan of all bindings finds.
-/

namespace NameBinding

/-- What is added to a table in one go: a binding, or how an import declaration fared. -/
inductive Addition where
  | binding (added : Binding)
  | entry (added : ImportEntry)
deriving DecidableEq, Repr

namespace Addition

def binding? : Addition → Option Binding
  | .binding added => some added
  | .entry _ => none

def entry? : Addition → Option ImportEntry
  | .binding _ => none
  | .entry added => some added

end Addition

namespace ImportTable

def add (table : ImportTable) : Addition → ImportTable
  | .binding added => table.addBinding added
  | .entry added => table.addEntry added

/-- The table that additions to the empty one lead to. -/
def ofAdditions (additions : List Addition) : ImportTable := additions.foldl add {}

theorem ofAdditions_append_singleton (additions : List Addition) (last : Addition) :
    ofAdditions (additions ++ [last]) = (ofAdditions additions).add last := by
  rw [ofAdditions, List.foldl_concat]
  rfl

/-- Bindings and entries stay in the order in which they were added. -/
theorem contents_ofAdditions (additions : List Addition) :
    (ofAdditions additions).bindings.toList = additions.filterMap Addition.binding? ∧
      (ofAdditions additions).entries.toList = additions.filterMap Addition.entry? := by
  induction additions using List.reverseRecOn with
  | nil => exact ⟨rfl, rfl⟩
  | append_singleton additions last ih =>
      obtain ⟨hbindings, hentries⟩ := ih
      rw [ofAdditions_append_singleton, List.filterMap_append, List.filterMap_append,
        ← hbindings, ← hentries]
      cases last with
      | binding binding =>
          simp [add, addBinding, Addition.binding?, Addition.entry?]
      | entry entry =>
          simp [add, addEntry, Addition.binding?, Addition.entry?]

/-- The tables that are reached are those that some sequence of additions leads to. -/
theorem reachable_iff {table : ImportTable} :
    table.Reachable ↔ ∃ additions, table = ofAdditions additions := by
  constructor
  · intro h
    induction h with
    | empty => exact ⟨[], rfl⟩
    | addBinding binding _ ih =>
        obtain ⟨additions, rfl⟩ := ih
        exact ⟨_, (ofAdditions_append_singleton additions (.binding binding)).symm⟩
    | addEntry entry _ ih =>
        obtain ⟨additions, rfl⟩ := ih
        exact ⟨_, (ofAdditions_append_singleton additions (.entry entry)).symm⟩
  · rintro ⟨additions, rfl⟩
    induction additions using List.reverseRecOn with
    | nil => exact .empty
    | append_singleton additions last ih =>
        rw [ofAdditions_append_singleton]
        cases last with
        | binding binding => exact .addBinding binding ih
        | entry entry => exact .addEntry entry ih

/-- The positions at which a look-up of `name` at `tier` finds a binding. -/
def positionsNamed (table : ImportTable) (name : Text) (tier : Tier) : List Nat :=
  (table.positions name).filter fun position => (table.bindings[position]?).any (·.tier == tier)

/-- Positions that lead to the bindings with a property: to all of them and to no other, to each
once and in the order in which they were added. -/
structure LeadTo (table : ImportTable) (property : Binding → Bool) (positions : List Nat) :
    Prop where
  increasing : positions.Pairwise (· < ·)
  inRange : ∀ position ∈ positions, position < table.bindings.size
  mem_iff (position : Nat) (h : position < table.bindings.size) :
    position ∈ positions ↔ property table.bindings[position] = true

section Scan

variable (table : ImportTable) (property : Binding → Bool)

theorem leadTo_scan : table.LeadTo property (table.scan property) := by
  constructor
  · exact List.pairwise_lt_range.filter _
  · intro position hposition
    obtain ⟨hrange, -⟩ := (table.mem_scan_iff property).mp hposition
    exact hrange
  · intro position hrange
    rw [mem_scan_iff]
    exact exists_prop_of_true hrange

theorem filter_scan (other : Binding → Bool) :
    (table.scan property).filter
        (fun position => (table.bindings[position]?).any other) =
      table.scan fun binding => property binding && other binding := by
  rw [scan, scan, List.filter_filter]
  apply List.filter_congr
  intro position _
  cases table.bindings[position]? with
  | none => rfl
  | some binding => exact Bool.and_comm _ _

end Scan

namespace Reachable

variable {table : ImportTable}

/-- The index has a list for the names of bindings and for no other. -/
theorem mem_index_iff (h : table.Reachable) (name : Text) :
    name ∈ table.index ↔ ∃ binding ∈ table.bindings, binding.name = name := by
  induction h with
  | empty => simp
  | addBinding binding _ ih =>
      simp only [ImportTable.addBinding, Std.TreeMap.mem_insert,
        Std.LawfulEqCmp.compare_eq_iff_eq, ih, Array.mem_push]
      constructor
      · rintro (hname | ⟨earlier, hearlier, hname⟩)
        · exact ⟨binding, .inr rfl, hname⟩
        · exact ⟨earlier, .inl hearlier, hname⟩
      · rintro ⟨other, hearlier | rfl, hname⟩
        · exact .inr ⟨other, hearlier, hname⟩
        · exact .inl hname
  | addEntry entry _ ih => exact ih

theorem positionsNamed_eq_scan (h : table.Reachable) (name : Text) (tier : Tier) :
    table.positionsNamed name tier =
      table.scan fun binding => binding.name == name && binding.tier == tier := by
  rw [positionsNamed, h.positions_eq_scan, filter_scan]

end Reachable

/-- The index agrees with a scan, whatever bindings and entries are added to an empty table. It
has a list for every name that is bound, of positions that lead to the bindings of the name. A
look-up by name and tier yields the bindings of both, as they stand among all bindings, each
read at a position of its own. -/
theorem bindingsNamed_ofAdditions (additions : List Addition) :
    let table := ofAdditions additions
    table.bindings.toList = additions.filterMap Addition.binding? ∧
      table.entries.toList = additions.filterMap Addition.entry? ∧
      ∀ name,
        (name ∈ table.index ↔ ∃ binding ∈ table.bindings, binding.name = name) ∧
        table.LeadTo (·.name == name) (table.positions name) ∧
        ∀ tier,
          let sought (binding : Binding) : Bool := binding.name == name && binding.tier == tier
          table.bindingsNamed name tier = table.bindings.toList.filter sought ∧
            table.LeadTo sought (table.positionsNamed name tier) ∧
            (table.positionsNamed name tier).map (table.bindings[·]?) =
              (table.bindingsNamed name tier).map some := by
  intro table
  have hreach : table.Reachable := reachable_iff.mpr ⟨additions, rfl⟩
  obtain ⟨hbindings, hentries⟩ := contents_ofAdditions additions
  refine ⟨hbindings, hentries, ?_⟩
  intro name
  refine ⟨hreach.mem_index_iff name, ?_, ?_⟩
  · rw [hreach.positions_eq_scan]
    exact leadTo_scan table _
  · intro tier sought
    have hnamed : table.bindingsNamed name tier = table.bindings.toList.filter sought := by
      rw [bindingsNamed_eq_filter hreach.indexed]
      simp only [sought, Bool.and_comm]
    refine ⟨hnamed, ?_, ?_⟩
    · rw [hreach.positionsNamed_eq_scan]
      exact leadTo_scan table sought
    · rw [hreach.positionsNamed_eq_scan, hnamed]
      exact map_scan table sought

/-- Equal bindings are found one by one, whatever is added between them. -/
example :
    let swim : Binding := ⟨"swim", ⟨.declared 0, { name := "swim" }⟩, .importedModule, 7⟩
    let run : Binding := ⟨"run", ⟨.declared 1, { name := "run" }⟩, .importedModule, 3⟩
    let table := ofAdditions [.binding swim, .binding run, .entry {}, .binding swim]
    table.positionsNamed "swim" .importedModule = [0, 2] ∧
      table.bindingsNamed "swim" .importedModule = [swim, swim] := by
  decide +kernel

end ImportTable

end NameBinding
