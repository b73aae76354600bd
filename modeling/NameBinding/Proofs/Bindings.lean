import NameBinding.ImportTable.Build
import Mathlib.Data.List.Basic
import Mathlib.Data.List.Induction
import Std.Data.TreeMap.Lemmas

/-!
The table that a list of imports builds. Its index is kept in step with a scan of
the bindings, so it reads off the bindings of a name, in order and each once. Its
bindings and entries are those of the declarations one after the other.
-/

namespace NameBinding

namespace ImportTable

def positions (table : ImportTable) (name : Text) : List Nat := (table.index[name]?).getD []

/-- What look-ups rely on: the index of a name stays in range and reads off exactly
the bindings of that name, in order. -/
structure Indexed (table : ImportTable) : Prop where
  inRange (name : Text) :
    ∀ position ∈ table.positions name, position < table.bindings.size
  reads (name : Text) :
    (table.positions name).filterMap (table.bindings[·]?) =
      table.bindings.toList.filter (·.name == name)

theorem bindingsNamed_eq_filter {table : ImportTable} (h : table.Indexed) (name : Text)
    (tier : Tier) :
    table.bindingsNamed name tier =
      table.bindings.toList.filter fun binding =>
        binding.tier == tier && binding.name == name := by
  have hreads := h.reads name
  unfold positions at hreads
  rw [bindingsNamed, hreads, List.filter_filter]

theorem positions_addBinding (table : ImportTable) (binding : Binding) (name : Text) :
    (table.addBinding binding).positions name =
      if binding.name = name then table.positions name ++ [table.bindings.size]
      else table.positions name := by
  unfold positions addBinding
  simp only [Std.TreeMap.getElem?_insert, Std.LawfulEqCmp.compare_eq_iff_eq]
  by_cases hname : binding.name = name
  · simp [hname]
  · simp [hname]

/-- The positions of the bindings with a property, found by going through all of them. -/
def scan (table : ImportTable) (property : Binding → Bool) : List Nat :=
  (List.range table.bindings.size).filter fun position =>
    (table.bindings[position]?).any property

section Scan

variable (table : ImportTable) (property : Binding → Bool)

theorem mem_scan_iff {position : Nat} :
    position ∈ table.scan property ↔
      ∃ h : position < table.bindings.size, property table.bindings[position] = true := by
  rw [scan, List.mem_filter, List.mem_range, ← exists_prop]
  apply exists_congr
  intro hrange
  rw [Array.getElem?_eq_getElem hrange, Option.any_some]

/-- Reading at the positions of a scan succeeds, and yields the bindings themselves. -/
theorem map_scan :
    (table.scan property).map (table.bindings[·]?) =
      (table.bindings.toList.filter property).map some := by
  have hall : (List.range table.bindings.size).map (table.bindings[·]?) =
      table.bindings.toList.map some := by
    apply List.ext_getElem
    · simp
    · intro position hleft _
      have hrange : position < table.bindings.size := by simpa using hleft
      simp [hrange]
  calc
    (table.scan property).map (table.bindings[·]?) =
        ((List.range table.bindings.size).map (table.bindings[·]?)).filter
          (Option.any property) := by
            rw [List.filter_map]
            rfl
    _ = (table.bindings.toList.map some).filter (Option.any property) := by rw [hall]
    _ = (table.bindings.toList.filter property).map some := by
            rw [List.filter_map]
            rfl

/-- A scan after one more binding finds what it found before, and the new one if it has the
property. -/
theorem scan_addBinding (binding : Binding) :
    (table.addBinding binding).scan property =
      if property binding then table.scan property ++ [table.bindings.size]
      else table.scan property := by
  have hbindings : (table.addBinding binding).bindings = table.bindings.push binding := rfl
  have hearlier : (List.range table.bindings.size).filter
      (fun position => ((table.bindings.push binding)[position]?).any property) =
        table.scan property := by
    apply List.filter_congr
    intro position hposition
    have hrange : position < table.bindings.size := List.mem_range.mp hposition
    have hbefore : position ≠ table.bindings.size := by omega
    rw [Array.getElem?_push, if_neg hbefore]
  rw [scan, hbindings, Array.size_push, List.range_succ, List.filter_append, hearlier,
    List.filter_singleton, Array.getElem?_push_size, Option.any_some]
  cases property binding <;> simp

end Scan

/-- The tables that adding bindings and entries leads to, in whichever order. -/
inductive Reachable : ImportTable → Prop where
  | empty : Reachable {}
  | addBinding {table : ImportTable} (binding : Binding) :
      Reachable table → Reachable (table.addBinding binding)
  | addEntry {table : ImportTable} (entry : ImportEntry) :
      Reachable table → Reachable (table.addEntry entry)

/-- The index of a name is kept in step with a scan for the name. -/
theorem Reachable.positions_eq_scan {table : ImportTable} (h : table.Reachable) (name : Text) :
    table.positions name = table.scan (·.name == name) := by
  induction h with
  | empty => simp [positions, scan]
  | addBinding binding _ ih =>
      -- Both sides gain the new position if the new binding has the name, and nothing else.
      rw [positions_addBinding, scan_addBinding, ih]
      simp only [beq_iff_eq]
  | addEntry entry _ ih => exact ih

theorem Reachable.indexed {table : ImportTable} (h : table.Reachable) : table.Indexed := by
  constructor
  · intro name position hposition
    rw [h.positions_eq_scan] at hposition
    obtain ⟨hrange, -⟩ := (table.mem_scan_iff _).mp hposition
    exact hrange
  · intro name
    have hreads := congrArg (List.filterMap id) (table.map_scan (·.name == name))
    rw [h.positions_eq_scan]
    simpa [List.filterMap_map] using hreads

/-- The bindings added one by one. -/
def addBindings (table : ImportTable) (bindings : List Binding) : ImportTable :=
  bindings.foldl addBinding table

/-- The count that is kept while bindings are added is that of the bindings. -/
theorem addCounted_eq (table : ImportTable) (bindings : List Binding) :
    table.addCounted bindings = (table.addBindings bindings, bindings.length) := by
  have hcounted (count : Nat) :
      bindings.foldl (fun added binding => (added.1.addBinding binding, added.2 + 1))
        (table, count) = (table.addBindings bindings, count + bindings.length) := by
    induction bindings generalizing table count with
    | nil => rfl
    | cons first rest ih =>
        rw [List.foldl_cons, ih, List.length_cons, Nat.add_assoc, Nat.add_comm 1]
        rfl
  rw [addCounted, hcounted, Nat.zero_add]

theorem Reachable.addBindings {table : ImportTable} (h : table.Reachable)
    (bindings : List Binding) : (table.addBindings bindings).Reachable := by
  induction bindings generalizing table with
  | nil => exact h
  | cons first rest ih => exact ih (.addBinding first h)

theorem bindings_addBindings (table : ImportTable) (bindings : List Binding) :
    (table.addBindings bindings).bindings.toList = table.bindings.toList ++ bindings := by
  induction bindings generalizing table with
  | nil => simp [addBindings]
  | cons first rest ih =>
      have hstep := ih (table.addBinding first)
      unfold addBindings at hstep ⊢
      rw [List.foldl_cons, hstep]
      simp [addBinding]

theorem entries_addBindings (table : ImportTable) (bindings : List Binding) :
    (table.addBindings bindings).entries = table.entries := by
  induction bindings generalizing table with
  | nil => rfl
  | cons first rest ih => exact ih (table.addBinding first)

variable (registry : Registry) (unit : Text) (options : Options)

/-- The state that building a list of imports ends in. -/
def after (imports : List Import) : Build :=
  imports.zipIdx.foldl
    (fun built (declaration, order) => built.add registry unit options declaration order) {}

theorem build_eq_after (imports : List Import) :
    build registry unit options imports =
      ((after registry unit options imports).table,
        (after registry unit options imports).diagnostics) := rfl

/-- What a declaration does to the table: its bindings, and then the entry that counts them. -/
theorem table_add (built : Build) (declaration : Import) (order : Nat) :
    (built.add registry unit options declaration order).table =
      (built.table.addBindings (declaration.bindings order
        (declaration.contribution registry unit options))).addEntry
        (declaration.entry (declaration.contribution registry unit options)
          (declaration.contribution registry unit options).symbols.length) := by
  simp only [Build.add, addCounted_eq, Import.bindings, List.length_map]

theorem after_append_singleton (imports : List Import) (last : Import) :
    after registry unit options (imports ++ [last]) =
      (after registry unit options imports).add registry unit options last
        imports.length := by
  simp [after, List.zipIdx_append]

theorem after_reachable (imports : List Import) :
    (after registry unit options imports).table.Reachable := by
  induction imports using List.reverseRecOn with
  | nil => exact .empty
  | append_singleton imports last ih =>
      rw [after_append_singleton, table_add]
      exact .addEntry _ (ih.addBindings _)

theorem after_indexed (imports : List Import) :
    (after registry unit options imports).table.Indexed :=
  (after_reachable registry unit options imports).indexed

theorem after_bindings (imports : List Import) :
    (after registry unit options imports).table.bindings.toList =
      imports.zipIdx.flatMap fun entry =>
        entry.1.bindings entry.2 (entry.1.contribution registry unit options) := by
  induction imports using List.reverseRecOn with
  | nil => rfl
  | append_singleton imports last ih =>
      rw [after_append_singleton, table_add]
      simp [addEntry, bindings_addBindings, ih, List.zipIdx_append]

theorem after_entries (imports : List Import) :
    (after registry unit options imports).table.entries.toList =
      imports.map fun declaration =>
        declaration.entry (declaration.contribution registry unit options)
          (declaration.contribution registry unit options).symbols.length := by
  induction imports using List.reverseRecOn with
  | nil => rfl
  | append_singleton imports last ih =>
      rw [after_append_singleton, table_add]
      simp [addEntry, entries_addBindings, ih]

/-- What counts as written before: everything but the self imports. -/
theorem after_seen (imports : List Import) (text : Text) :
    text ∈ (after registry unit options imports).seen ↔
      ∃ declaration ∈ imports,
        declaration.isSelf unit = false ∧ declaration.describe = text := by
  induction imports using List.reverseRecOn with
  | nil => simp [after]
  | append_singleton imports last ih =>
      rw [after_append_singleton]
      simp only [Build.add, List.mem_append, List.mem_singleton]
      cases hself : last.isSelf unit with
      | true =>
          rw [if_pos rfl, ih]
          constructor
          · rintro ⟨declaration, hmember, hdeclaration⟩
            exact ⟨declaration, .inl hmember, hdeclaration⟩
          · rintro ⟨declaration, hmember | rfl, hother, htext⟩
            · exact ⟨declaration, hmember, hother, htext⟩
            · rw [hself] at hother
              cases hother
      | false =>
          rw [if_neg Bool.false_ne_true, List.mem_cons, ih]
          constructor
          · rintro (htext | ⟨declaration, hmember, hdeclaration⟩)
            · exact ⟨last, .inr rfl, hself, htext.symm⟩
            · exact ⟨declaration, .inl hmember, hdeclaration⟩
          · rintro ⟨declaration, hmember | rfl, hother, htext⟩
            · exact .inr ⟨declaration, hmember, hother, htext⟩
            · exact .inl htext.symm

theorem importsModule_build (imports : List Import) (module : Text) :
    (build registry unit options imports).1.importsModule module =
      imports.any fun declaration =>
        (declaration.contribution registry unit options).status == .resolved &&
          declaration.module == module := by
  rw [build_eq_after, importsModule, ← Array.any_toList, after_entries, List.any_map]
  rfl

theorem dependsOn_build (imports : List Import) (module : Text) :
    (build registry unit options imports).1.dependsOn module =
      imports.any (·.module == module) := by
  rw [build_eq_after, dependsOn, ← Array.any_toList, after_entries, List.any_map]
  rfl

end ImportTable

end NameBinding
