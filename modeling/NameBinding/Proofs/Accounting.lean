import NameBinding.Proofs.ImportLog
import NameBinding.SourceUnit
import Mathlib.Data.List.Forall2

/-!
The books of a unit. Its log holds what the imports gave rise to and then one error for
each reference that failed, so the errors and warnings of the log are counted by how the
imports and the references fared.
-/

namespace NameBinding

namespace Import

/-- Whether the declaration says what one of `earlier` says. Self imports say nothing. -/
def repeats (declaration : Import) (unit : Text) (earlier : List Import) : Bool :=
  !declaration.isSelf unit &&
    earlier.any fun other => !other.isSelf unit && other.describe == declaration.describe

/-- Each declaration with those written above it. -/
def withEarlier (imports : List Import) : List (Import × List Import) :=
  imports.zipIdx.map fun entry => (entry.1, imports.take entry.2)

/-- How many declarations repeat one above them. -/
def repetitions (unit : Text) (imports : List Import) : Nat :=
  (withEarlier imports).countP fun entry => entry.1.repeats unit entry.2

/-- What is said about a declaration that stands below `earlier`. -/
def remarks (declaration : Import) (registry : Registry) (unit : Text) (options : Options)
    (earlier : List Import) : List Diagnostic :=
  (if options.reportRedundant && declaration.repeats unit earlier then
    [declaration.redundant] else []) ++
    (declaration.contribution registry unit options).diagnostics declaration

theorem withEarlier_append_singleton (imports : List Import) (last : Import) :
    withEarlier (imports ++ [last]) = withEarlier imports ++ [(last, imports)] := by
  unfold withEarlier
  rw [List.zipIdx_append, List.map_append]
  congr 1
  · refine List.map_congr_left ?_
    rintro ⟨declaration, position⟩ hmember
    obtain ⟨-, hposition, -⟩ := List.mem_zipIdx hmember
    have hinside : position ≤ imports.length := by omega
    rw [List.take_append_of_le_length hinside]
  · simp

theorem repeats_eq (declaration : Import) (unit : Text) (earlier : List Import) :
    declaration.repeats unit earlier =
      (!declaration.isSelf unit && (texts unit earlier).contains declaration.describe) := by
  rw [repeats, texts, List.contains_eq_any_beq, List.any_map, List.any_filter]
  simp only [Function.comp_def, BEq.comm (a := declaration.describe)]

end Import

namespace ImportTable

variable (registry : Registry) (unit : Text) (options : Options)

theorem added_eq_remarks (earlier : List Import) (declaration : Import) :
    added registry unit options earlier declaration =
      declaration.remarks registry unit options earlier := by
  rw [added_eq, Import.remarks, Build.warnings, contains_seen, Import.repeats_eq, Bool.and_comm]

/-- The diagnostics come declaration by declaration, in the order of writing. -/
theorem diagnostics_build (imports : List Import) :
    (build registry unit options imports).2 =
      (Import.withEarlier imports).flatMap fun entry =>
        entry.1.remarks registry unit options entry.2 := by
  induction imports using List.reverseRecOn with
  | nil => rfl
  | append_singleton imports last ih =>
      rw [diagnostics_append_singleton, ih, added_eq_remarks,
        Import.withEarlier_append_singleton, List.flatMap_append, List.flatMap_singleton]

theorem warnings_build_eq_repetitions (imports : List Import) :
    (build registry unit options imports).2.countP (!·.isError) =
      if options.reportRedundant then Import.repetitions unit imports else 0 := by
  induction imports using List.reverseRecOn with
  | nil => simp [build, Import.repetitions, Import.withEarlier]
  | append_singleton imports last ih =>
      rw [diagnostics_append_singleton, List.countP_append, ih, countP_added, Import.repetitions,
        Import.repetitions, Import.withEarlier_append_singleton, List.countP_append,
        List.countP_singleton, Import.repeats_eq]
      cases options.reportRedundant <;> simp

theorem entries_build (imports : List Import) :
    (build registry unit options imports).1.entries.toList =
      imports.map fun declaration =>
        declaration.entry (declaration.contribution registry unit options)
          (declaration.contribution registry unit options).symbols.length := by
  rw [build_eq_after, after_entries]

/-- An import that fails is an error, and one that succeeds is none. -/
theorem errors_build_eq_failed (imports : List Import) :
    (build registry unit options imports).2.countP (·.isError) =
      (build registry unit options imports).1.entries.countP (·.status != .resolved) := by
  rw [List.countP_eq_length_filter, errors_build, ← Array.countP_toList, entries_build,
    List.countP_map]
  induction imports with
  | nil => rfl
  | cons first rest ih =>
      rw [List.flatMap_cons, List.length_append, ih, List.countP_cons, Nat.add_comm]
      congr 1
      cases hfirst : first.contribution registry unit options with
      | ok symbols => simp [Import.entry, Contribution.diagnostics, Contribution.status, hfirst]
      | error fault =>
          cases fault <;>
            simp [Import.entry, Contribution.diagnostics, Contribution.status,
              ImportFault.status, hfirst]

end ImportTable

namespace ResolvedReference

/-- What there is to say about the reference. -/
def diagnostic? (resolved : ResolvedReference) : Option Diagnostic :=
  (resolved.outcome.map (·.symbol)).diagnostic? resolved.reference

def failed (resolved : ResolvedReference) : Bool := resolved.outcome.status != .resolved

theorem isFound_eq (resolved : ResolvedReference) :
    resolved.outcome.isFound = !resolved.failed := by
  unfold failed
  cases resolved.outcome with
  | found symbol tier => rfl
  | failed failure => cases failure <;> rfl

/-- A failure of any kind is an error at the place of the reference. -/
theorem exists_diagnostic? {resolved : ResolvedReference} (h : resolved.failed = true) :
    ∃ error, resolved.diagnostic? = some error ∧ error.isError = true ∧
      error.span = resolved.reference.span := by
  unfold diagnostic?
  cases houtcome : resolved.outcome with
  | found symbol tier => simp [failed, houtcome, Outcome.status] at h
  | failed failure => exact ⟨_, rfl, rfl, rfl⟩

theorem diagnostic?_eq_none {resolved : ResolvedReference} (h : resolved.failed = false) :
    resolved.diagnostic? = none := by
  unfold diagnostic?
  cases houtcome : resolved.outcome with
  | found symbol tier => rfl
  | failed failure => cases failure <;> simp [failed, houtcome, Outcome.status, Failure.status] at h

/-- The references that failed and their errors are paired off in their order. -/
theorem errors_of_failed (references : List ResolvedReference) :
    List.Forall₂
      (fun error (resolved : ResolvedReference) => resolved.diagnostic? = some error ∧
        error.isError = true ∧ error.span = resolved.reference.span)
      (references.filterMap (·.diagnostic?)) (references.filter (·.failed)) := by
  induction references with
  | nil => exact .nil
  | cons first rest ih =>
      cases hfirst : first.failed with
      | true =>
          obtain ⟨error, hsome, herror⟩ := exists_diagnostic? hfirst
          rw [List.filterMap_cons_some hsome, List.filter_cons_of_pos hfirst]
          exact .cons ⟨hsome, herror⟩ ih
      | false =>
          rw [List.filterMap_cons_none (diagnostic?_eq_none hfirst),
            List.filter_cons_of_neg (by simp [hfirst])]
          exact ih

theorem isError_of_mem {references : List ResolvedReference} {error : Diagnostic}
    (h : error ∈ references.filterMap (·.diagnostic?)) : error.isError = true := by
  obtain ⟨resolved, -, hsome⟩ := List.mem_filterMap.mp h
  cases hfailed : resolved.failed with
  | true =>
      obtain ⟨error', hsome', herror, -⟩ := exists_diagnostic? hfailed
      rw [hsome'] at hsome
      exact Option.some.inj hsome ▸ herror
  | false =>
      rw [diagnostic?_eq_none hfailed] at hsome
      cases hsome

theorem countP_errors (references : List ResolvedReference) :
    (references.filterMap (·.diagnostic?)).countP (·.isError) =
      references.countP (·.failed) := by
  rw [List.countP_eq_length.mpr fun _ => isError_of_mem, (errors_of_failed references).length_eq,
    List.countP_eq_length_filter]

theorem countP_warnings (references : List ResolvedReference) :
    (references.filterMap (·.diagnostic?)).countP (!·.isError) = 0 := by
  rw [List.countP_eq_zero]
  intro error hmember
  simp [isError_of_mem hmember]

theorem foldl_report (log : Log) (references : List ResolvedReference) :
    (references.foldl report log).entries =
      log.entries ++ references.filterMap (·.diagnostic?) := by
  induction references generalizing log with
  | nil => simp
  | cons first rest ih =>
      have hfirst : (first.report log).entries = log.entries ++ first.diagnostic?.toList :=
        Log.entries_append log _
      rw [List.foldl_cons, ih, hfirst, List.append_assoc, List.filterMap_cons]
      cases first.diagnostic? <;> rfl

end ResolvedReference

namespace SourceUnit

variable (registry : Registry) (options : Options) (unit : SourceUnit)

theorem entries_log :
    (unit.resolve registry options).log.entries =
      (ImportTable.build registry unit.module options unit.imports).2 ++
        (unit.resolve registry options).references.filterMap (·.diagnostic?) := by
  have hlog := ResolvedReference.foldl_report
    (Log.empty.append (ImportTable.build registry unit.module options unit.imports).2)
    (unit.resolve registry options).references
  rwa [Log.entries_append] at hlog

theorem countP_failed :
    (unit.resolve registry options).references.countP (·.failed) +
        (unit.resolve registry options).resolvedCount =
      unit.references.length := by
  have hlength : (unit.resolve registry options).references.length = unit.references.length := by
    simp [resolve]
  rw [← hlength, ResolvedUnit.resolvedCount, List.length_eq_countP_add_countP (·.failed)]
  simp only [ResolvedReference.isFound_eq, Bool.not_eq_true, Bool.decide_eq_false]

/-- The account of a unit. Each reference has its entry. The log holds what was said
about the imports, declaration by declaration, and then one error for each reference that
failed, at its place. So errors are as many as imports and references that failed,
warnings as many as declarations that repeat one above them, where these are reported, and
there is no error exactly if everything resolved. -/
theorem resolve_accounts (registry : Registry) (options : Options) (unit : SourceUnit) :
    let built := ImportTable.build registry unit.module options unit.imports
    let resolved := unit.resolve registry options
    resolved.references.map (·.reference) = unit.references ∧
    built.2 = ((Import.withEarlier unit.imports).flatMap fun entry =>
      entry.1.remarks registry unit.module options entry.2) ∧
    (∃ errors, resolved.log.entries = built.2 ++ errors ∧
      List.Forall₂
        (fun error (reference : ResolvedReference) => reference.diagnostic? = some error ∧
          error.isError = true ∧ error.span = reference.reference.span)
        errors (resolved.references.filter (·.failed))) ∧
    resolved.log.errorCount =
      resolved.imports.entries.countP (·.status != .resolved) + unit.references.length -
        resolved.resolvedCount ∧
    resolved.log.warningCount =
      (if options.reportRedundant then Import.repetitions unit.module unit.imports else 0) ∧
    (resolved.log.hasErrors = false ↔
      (∀ entry ∈ resolved.imports.entries, entry.status = .resolved) ∧
        ∀ reference ∈ resolved.references, reference.outcome.status = .resolved) := by
  intro built resolved
  have himports : resolved.imports = built.1 := rfl
  have hlog : resolved.log.entries = built.2 ++ resolved.references.filterMap (·.diagnostic?) :=
    entries_log registry options unit
  have hpairs := ResolvedReference.errors_of_failed resolved.references
  have hcount : resolved.references.countP (·.failed) + resolved.resolvedCount =
      unit.references.length := countP_failed registry options unit
  have herrors : resolved.log.errorCount =
      resolved.imports.entries.countP (·.status != .resolved) +
        resolved.references.countP (·.failed) := by
    rw [Log.errors_counted, hlog, List.countP_append, ImportTable.errors_build_eq_failed,
      ResolvedReference.countP_errors]
    rfl
  refine ⟨?_, ImportTable.diagnostics_build registry unit.module options unit.imports,
    ⟨_, hlog, hpairs⟩, ?_, ?_, ?_⟩
  · simp [resolved, resolve, Function.comp_def]
  · omega
  · rw [Log.warnings_counted, hlog, List.countP_append, ResolvedReference.countP_warnings,
      ImportTable.warnings_build_eq_repetitions, Nat.add_zero]
  · rw [Log.hasErrors, herrors]
    simp [ResolvedReference.failed]

/-- The repeated import is warned about. The unit's imports of itself, though they are of
one text, and the import of a missing sport are errors, as is the name that nothing bears.
Once these are gone the repetition is all there is to say. -/
theorem resolve_accounts_meet :
    let sport (name : Text) : Import := ⟨name, .everything, {}⟩
    let tidy : SourceUnit :=
      { module := "Meet"
        imports := [sport "Triathlon", sport "Triathlon"]
        references := [⟨["run"], .value, {}⟩] }
    let meet : SourceUnit :=
      { tidy with
        imports := tidy.imports ++ [sport "Meet", sport "Golf", sport "Meet"]
        references := ⟨["dive"], .any, ⟨⟨9, 3⟩, ⟨9, 7⟩⟩⟩ :: tidy.references }
    let log (unit : SourceUnit) : Log := (unit.resolve .sports {}).log
    (log meet).errorCount = 4 ∧ (log meet).warningCount = 1 ∧
      (log meet).entries.map (·.span.start.line) = [1, 1, 1, 1, 9] ∧
      (log tidy).warningCount = 1 ∧ (log tidy).hasErrors = false := by
  intro sport tidy meet log
  obtain ⟨-, -, -, herrors, hwarnings, -⟩ := resolve_accounts .sports {} meet
  obtain ⟨-, -, -, -, hrepeated, hclean⟩ := resolve_accounts .sports {} tidy
  refine ⟨herrors.trans (by decide), hwarnings.trans (by decide), by decide,
    hrepeated.trans (by decide), hclean.mpr ⟨?_, ?_⟩⟩
  · decide
  · decide

end SourceUnit

end NameBinding
