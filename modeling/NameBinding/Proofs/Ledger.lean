import NameBinding.Proofs.Accounting

/-!
The ledger of a table. Every import has one entry and one share of the bindings, both come
of that import alone, and every import that fails has one error. The one who builds tables
serves list after list, and of the lists before nothing is left in a table.
-/

namespace NameBinding

/-- Builds the tables of a unit, one after another. What was said about a list is kept
until the next one comes. -/
structure Builder where
  unit : Text := []
  options : Options := {}
  diagnostics : List Diagnostic := []

/-- What was said about the list before is dropped first. -/
def Builder.build (builder : Builder) (registry : Registry) (imports : List Import) :
    ImportTable × Builder :=
  let cleared : Builder := { builder with diagnostics := [] }
  let built := imports.zipIdx.foldl
    (fun built (declaration, order) =>
      built.add registry cleared.unit cleared.options declaration order)
    ({ diagnostics := cleared.diagnostics } : ImportTable.Build)
  (built.table, { cleared with diagnostics := built.diagnostics })

/-- A table comes out as if it were the first one. -/
theorem Builder.build_eq (builder : Builder) (registry : Registry) (imports : List Import) :
    builder.build registry imports =
      ((ImportTable.build registry builder.unit builder.options imports).1,
        { builder with
          diagnostics :=
            (ImportTable.build registry builder.unit builder.options imports).2 }) := rfl

/-- The code of the error that goes with a status. -/
def ImportStatus.code? : ImportStatus → Option Text
  | .resolved => none
  | .moduleNotFound => some "SIGIL-E2101"
  | .submoduleNotFound => some "SIGIL-E2102"
  | .symbolNotFound => some "SIGIL-E2103"
  | .selfImport => some "SIGIL-E2104"

theorem ImportFault.code?_status (fault : ImportFault) :
    fault.status.code? = some fault.code := by
  cases fault <;> rfl

theorem ImportFault.status_ne_resolved (fault : ImportFault) : fault.status ≠ .resolved := by
  cases fault <;> simp [status]

theorem Contribution.symbols_of_failed {contribution : Contribution}
    (h : contribution.status ≠ .resolved) : contribution.symbols = [] := by
  cases contribution with
  | ok symbols => exact absurd rfl h
  | error fault => rfl

namespace Import

variable (declaration : Import) (position : Nat) (contribution : Contribution)

theorem symbols_bindings :
    (declaration.bindings position contribution).map (·.symbol) = contribution.symbols := by
  rw [bindings, List.map_map]
  exact List.map_id _

theorem length_bindings :
    (declaration.bindings position contribution).length = contribution.symbols.length :=
  List.length_map _

theorem of_mem_bindings {binding : Binding}
    (h : binding ∈ declaration.bindings position contribution) :
    binding.order = position ∧ binding.tier = declaration.tier ∧
      binding.name = binding.symbol.symbol.name := by
  obtain ⟨located, -, rfl⟩ := List.mem_map.mp h
  exact ⟨rfl, rfl, rfl⟩

theorem filter_bindings (order : Nat) :
    (declaration.bindings position contribution).filter (·.order == order) =
      if position = order then declaration.bindings position contribution else [] := by
  split
  · rename_i hsame
    rw [List.filter_eq_self]
    intro binding hbinding
    obtain ⟨horder, -⟩ := declaration.of_mem_bindings position contribution hbinding
    simp [horder, hsame]
  · rename_i hother
    rw [List.filter_eq_nil_iff]
    intro binding hbinding
    obtain ⟨horder, -⟩ := declaration.of_mem_bindings position contribution hbinding
    simp [horder, hother]

end Import

namespace ImportTable

/-- The bindings that the declaration at this position made. -/
def share (table : ImportTable) (order : Nat) : List Binding :=
  table.bindings.toList.filter (·.order == order)

section Shares

variable (registry : Registry) (unit : Text) (options : Options)

theorem bindings_append_singleton (imports : List Import) (last : Import) :
    (after registry unit options (imports ++ [last])).table.bindings.toList =
      (after registry unit options imports).table.bindings.toList ++
        last.bindings imports.length (last.contribution registry unit options) := by
  rw [after_bindings, after_bindings, List.zipIdx_append]
  simp

/-- One more declaration adds to the share of its own position and to no other. -/
theorem share_append_singleton (imports : List Import) (last : Import) (order : Nat) :
    (after registry unit options (imports ++ [last])).table.share order =
      (after registry unit options imports).table.share order ++
        if imports.length = order then
          last.bindings imports.length (last.contribution registry unit options)
        else [] := by
  rw [share, bindings_append_singleton, List.filter_append, Import.filter_bindings]
  rfl

theorem share_of_length_le {imports : List Import} {order : Nat} (h : imports.length ≤ order) :
    (after registry unit options imports).table.share order = [] := by
  induction imports using List.reverseRecOn with
  | nil => rfl
  | append_singleton imports last ih =>
      rw [List.length_append, List.length_singleton] at h
      have hother : imports.length ≠ order := by omega
      rw [share_append_singleton, ih (by omega), if_neg hother]
      rfl

theorem share_after {imports : List Import} {order : Nat} {declaration : Import}
    (h : imports[order]? = some declaration) :
    (after registry unit options imports).table.share order =
      declaration.bindings order (declaration.contribution registry unit options) := by
  induction imports using List.reverseRecOn with
  | nil => cases h
  | append_singleton imports last ih =>
      rw [share_append_singleton]
      by_cases hlast : imports.length = order
      · subst hlast
        obtain rfl : last = declaration := by simpa using h
        rw [share_of_length_le registry unit options (Nat.le_refl _), if_pos rfl]
        rfl
      · have hearlier : imports[order]? = some declaration := by
          obtain ⟨hbound, -⟩ := List.getElem?_eq_some_iff.mp h
          rw [List.length_append, List.length_singleton] at hbound
          rwa [List.getElem?_append_left (by omega)] at h
        rw [ih hearlier, if_neg hlast, List.append_nil]

/-- The shares, one after the other, are all bindings. -/
theorem bindings_eq_shares (imports : List Import) :
    (after registry unit options imports).table.bindings.toList =
      (List.range imports.length).flatMap (after registry unit options imports).table.share := by
  induction imports using List.reverseRecOn with
  | nil => rfl
  | append_singleton imports last ih =>
      have hearlier : ∀ order ∈ List.range imports.length,
          (after registry unit options (imports ++ [last])).table.share order =
            (after registry unit options imports).table.share order := by
        intro order horder
        have hother : imports.length ≠ order := by
          have hbound := List.mem_range.mp horder
          omega
        rw [share_append_singleton, if_neg hother, List.append_nil]
      rw [bindings_append_singleton, List.length_append, List.length_singleton,
        List.range_succ, List.flatMap_append, List.flatMap_singleton,
        List.flatMap_congr hearlier, ← ih, share_append_singleton, if_pos rfl,
        share_of_length_le registry unit options (Nat.le_refl _), List.nil_append]

/-- Errors and failed entries are paired off in their order. -/
theorem errors_of_entries (imports : List Import) :
    List.Forall₂
      (fun (error : Diagnostic) (entry : ImportEntry) =>
        error.span = entry.span ∧ entry.status.code? = some error.code)
      ((build registry unit options imports).2.filter (·.isError))
      ((build registry unit options imports).1.entries.toList.filter
        (·.status != .resolved)) := by
  rw [errors_build, entries_build]
  induction imports with
  | nil => exact .nil
  | cons first rest ih =>
      rw [List.flatMap_cons, List.map_cons]
      cases hfirst : first.contribution registry unit options with
      | ok symbols =>
          rw [List.filter_cons_of_neg (by simp [Import.entry, Contribution.status])]
          exact ih
      | error fault =>
          rw [List.filter_cons_of_pos
            (by simp [Import.entry, Contribution.status, fault.status_ne_resolved])]
          exact .cons ⟨rfl, fault.code?_status⟩ ih

end Shares

/-- What a declaration has in a table: an entry that tells what it says and how it fared,
and the bindings it made. A contribution is what comes of a declaration by itself. -/
structure Row (declaration : Import) (contribution : Contribution) (entry : ImportEntry)
    (share : List Binding) : Prop where
  description : entry.description = declaration.describe
  module : entry.module = declaration.module
  span : entry.span = declaration.span
  status : entry.status = contribution.status
  counted : entry.bindingCount = share.length
  symbols : share.map (·.symbol) = contribution.symbols
  bound : ∀ binding ∈ share,
    binding.tier = declaration.tier ∧ binding.name = binding.symbol.symbol.name
  failed : entry.status ≠ .resolved → share = []

/-- One declaration with one contribution has one row. -/
theorem Row.unique {declaration : Import} {contribution : Contribution}
    {entry entry' : ImportEntry} {share share' : List Binding}
    (h : Row declaration contribution entry share)
    (h' : Row declaration contribution entry' share') :
    entry = entry' ∧ share.map (·.symbol) = share'.map (·.symbol) := by
  have hsymbols : share.map (·.symbol) = share'.map (·.symbol) :=
    h.symbols.trans h'.symbols.symm
  have hlength : share.length = share'.length := by
    simpa using congrArg List.length hsymbols
  refine ⟨?_, hsymbols⟩
  obtain ⟨description, module, status, bindingCount, span⟩ := entry
  obtain ⟨description', module', status', bindingCount', span'⟩ := entry'
  rw [ImportEntry.mk.injEq]
  exact ⟨h.description.trans h'.description.symm, h.module.trans h'.module.symm,
    h.status.trans h'.status.symm, h.counted.trans (hlength.trans h'.counted.symm),
    h.span.trans h'.span.symm⟩

/-- What a table and the diagnostics that came with it owe to the list they come from. -/
structure Ledger (registry : Registry) (unit : Text) (options : Options)
    (imports : List Import) (table : ImportTable) (diagnostics : List Diagnostic) : Prop where
  size : table.entries.size = imports.length
  bindings : table.bindings.toList = (List.range imports.length).flatMap table.share
  row (order : Nat) (declaration : Import) : imports[order]? = some declaration →
    ∃ entry, table.entries[order]? = some entry ∧
      Row declaration (declaration.contribution registry unit options) entry
        (table.share order)
  errors : List.Forall₂
    (fun (error : Diagnostic) (entry : ImportEntry) =>
      error.span = entry.span ∧ entry.status.code? = some error.code)
    (diagnostics.filter (·.isError)) (table.entries.toList.filter (·.status != .resolved))

theorem ledger_build (registry : Registry) (unit : Text) (options : Options)
    (imports : List Import) :
    Ledger registry unit options imports (build registry unit options imports).1
      (build registry unit options imports).2 := by
  have hentries := entries_build registry unit options imports
  constructor
  · rw [← Array.length_toList, hentries, List.length_map]
  · exact bindings_eq_shares registry unit options imports
  · intro order declaration hdeclaration
    have hshare : (build registry unit options imports).1.share order =
        declaration.bindings order (declaration.contribution registry unit options) :=
      share_after registry unit options hdeclaration
    refine ⟨declaration.entry (declaration.contribution registry unit options)
      (declaration.contribution registry unit options).symbols.length, ?_, ?_⟩
    · rw [← Array.getElem?_toList, hentries, List.getElem?_map, hdeclaration]
      rfl
    · rw [hshare]
      exact
        { description := rfl
          module := rfl
          span := rfl
          status := rfl
          counted := (Import.length_bindings declaration order _).symm
          symbols := Import.symbols_bindings declaration order _
          bound := fun binding hbinding => (Import.of_mem_bindings declaration order _ hbinding).2
          failed := fun hstatus => by
            rw [Import.bindings, Contribution.symbols_of_failed hstatus, List.map_nil] }
  · exact errors_of_entries registry unit options imports

end ImportTable

namespace Builder

/-- Every table has its ledger, whatever its builder was given before. An import has the
same entry and the same symbols in every list, wherever it stands and whatever is written
around it. -/
theorem build_ledger (builder : Builder) (registry : Registry) (imports : List Import) :
    let first := builder.build registry imports
    ImportTable.Ledger registry builder.unit builder.options imports first.1
      first.2.diagnostics ∧
    ∀ others : List Import,
      let second := first.2.build registry others
      ImportTable.Ledger registry builder.unit builder.options others second.1
        second.2.diagnostics ∧
      ∀ order order' declaration, imports[order]? = some declaration →
        others[order']? = some declaration →
          first.1.entries[order]? = second.1.entries[order']? ∧
            (first.1.share order).map (·.symbol) =
              (second.1.share order').map (·.symbol) := by
  intro first
  have hfirst : ImportTable.Ledger registry builder.unit builder.options imports first.1
      first.2.diagnostics := by
    rw [show first = _ from builder.build_eq registry imports]
    exact ImportTable.ledger_build registry builder.unit builder.options imports
  refine ⟨hfirst, ?_⟩
  intro others second
  have hsecond : ImportTable.Ledger registry builder.unit builder.options others second.1
      second.2.diagnostics := by
    rw [show second = _ from first.2.build_eq registry others]
    exact ImportTable.ledger_build registry builder.unit builder.options others
  refine ⟨hsecond, ?_⟩
  intro order order' declaration hwritten hwritten'
  obtain ⟨entry, hentry, hrow⟩ := hfirst.row order declaration hwritten
  obtain ⟨entry', hentry', hrow'⟩ := hsecond.row order' declaration hwritten'
  obtain ⟨rfl, hsymbols⟩ := hrow.unique hrow'
  exact ⟨hentry.trans hentry'.symm, hsymbols⟩

/-- A repeated import, one of a missing sport, one of the unit itself and one of a missing
submodule stand between imports that succeed. The function is imported alike by a second
list, in which the error left over from the first is gone. -/
theorem build_ledger_meet :
    let whole (name : Text) (line : UInt32) : Import :=
      ⟨name, .everything, ⟨⟨line, 3⟩, ⟨line, 9⟩⟩⟩
    let swim : Import := ⟨"Triathlon", .symbol .function "swim", ⟨⟨7, 3⟩, ⟨7, 9⟩⟩⟩
    let sprint : Import := ⟨"Triathlon", .submodule "Sprint", ⟨⟨8, 3⟩, ⟨8, 9⟩⟩⟩
    let imports : List Import :=
      [whole "Triathlon" 3, whole "Golf" 4, whole "Triathlon" 5, whole "Meet" 6, swim, sprint]
    let others : List Import := [sprint, whole "Triathlon" 4, swim]
    let builder : Builder := { unit := "Meet" }
    let first := builder.build .sports imports
    let second := first.2.build .sports others
    imports[4]? = some swim ∧ others[2]? = some swim ∧
      first.1.entries.toList.map (fun entry => (entry.status, entry.bindingCount)) =
        [(.resolved, 2), (.moduleNotFound, 0), (.resolved, 2), (.selfImport, 0),
          (.resolved, 1), (.submoduleNotFound, 0)] ∧
      (first.2.diagnostics.filter (·.isError)).length = 3 ∧
      first.1.share 3 = [] ∧ (first.1.share 2).length = 2 ∧
      second.2.diagnostics.map (·.span.start.line) = [8] ∧
      first.1.entries[4]? = second.1.entries[2]? ∧
      (first.1.share 4).map (·.symbol) = (second.1.share 2).map (·.symbol) := by
  intro whole swim sprint imports others builder first second
  obtain ⟨hledger, hothers⟩ := build_ledger builder .sports imports
  obtain ⟨-, hsame⟩ := hothers others
  have hstatuses : first.1.entries.toList.map
      (fun entry => (entry.status, entry.bindingCount)) =
        [(.resolved, 2), (.moduleNotFound, 0), (.resolved, 2), (.selfImport, 0),
          (.resolved, 1), (.submoduleNotFound, 0)] := by decide +kernel
  obtain ⟨self, -, hselfRow⟩ := hledger.row 3 (whole "Meet" 6) rfl
  obtain ⟨again, -, hagainRow⟩ := hledger.row 2 (whole "Triathlon" 5) rfl
  have herrors : (first.2.diagnostics.filter (·.isError)).length = 3 :=
    hledger.errors.length_eq.trans (by decide +kernel)
  have hfailed : self.status ≠ .resolved := by
    rw [hselfRow.status]
    decide
  have hcounted : again.bindingCount = 2 := by
    rw [hagainRow.counted, ← List.length_map (·.symbol), hagainRow.symbols]
    decide +kernel
  exact ⟨rfl, rfl, hstatuses, herrors, hselfRow.failed hfailed,
    hagainRow.counted.symm.trans hcounted, by decide +kernel, hsame 4 2 swim rfl rfl⟩

end Builder

end NameBinding
