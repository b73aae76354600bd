import NameBinding.Proofs.ImportLog
import NameBinding.Proofs.Shown

/-!
The order of imports. It matters among single-declaration imports only, of which the last
one of a name decides. All other imports stand side by side, so that moving them around
changes in what order an ambiguity names its candidates and in what order diagnostics
come, and nothing else.
-/

namespace NameBinding

/-- The same imports in another order, in which those of single declarations follow one
another as before. -/
structure Import.Rearranged (left right : List Import) : Prop where
  perm : left.Perm right
  singles : left.filter (·.tier == .importedDeclaration) =
    right.filter (·.tier == .importedDeclaration)

namespace Outcome

/-- The same answer but for the order in which candidates are named. -/
structure SameButOrder (left right : Outcome Located) : Prop where
  status : left.status = right.status
  tier : left.tier? = right.tier?
  symbol : left.symbol? = right.symbol?
  candidates : left.candidates.Perm right.candidates

theorem SameButOrder.refl (outcome : Outcome Located) : outcome.SameButOrder outcome :=
  ⟨rfl, rfl, rfl, .refl _⟩

/-- In whichever order symbols are shown, the same of them is found or all are candidates. -/
theorem ofShown_perm {left right : List Located} (h : left.Perm right)
    (reference : Reference) :
    (ofShown left reference).SameButOrder (ofShown right reference) := by
  match left, right with
  | [], right =>
      obtain rfl := h.nil_eq
      exact .refl _
  | [symbol], right =>
      obtain rfl := h.singleton_eq
      exact .refl _
  | first :: second :: others, [] => exact absurd h.length_eq (by simp)
  | first :: second :: others, [symbol] => exact absurd h.length_eq (by simp)
  | first :: second :: others, first' :: second' :: others' =>
      rw [ofShown_several, ofShown_several]
      exact ⟨rfl, rfl, rfl, h⟩

end Outcome

namespace Import.Rearranged

variable {left right : List Import} (h : Rearranged left right) (registry : Registry)
  (unit : Text) (options : Options)

theorem filterMap_singleSymbol? (imports : List Import) :
    (imports.filter (·.tier == .importedDeclaration)).filterMap
        (·.singleSymbol? registry unit) =
      Resolver.singles registry unit imports := by
  rw [List.filterMap_filter, Resolver.singles]
  congr 1
  funext declaration
  unfold tier singleSymbol?
  cases declaration.target <;> rfl

include h

theorem lastSingle? (name : Text) (context : Context) :
    Resolver.lastSingle? registry unit left name context =
      Resolver.lastSingle? registry unit right name context := by
  rw [Resolver.lastSingle?, Resolver.lastSingle?, ← filterMap_singleSymbol?,
    ← filterMap_singleSymbol?, h.singles]

theorem shownUnder (name : Text) (context : Context) :
    (Resolver.shownUnder registry unit options left name context).Perm
      (Resolver.shownUnder registry unit options right name context) :=
  perm_eraseDups ((h.perm.flatMap_right _).filter _)

theorem importsModule (module : Text) :
    (ImportTable.build registry unit options left).1.importsModule module =
      (ImportTable.build registry unit options right).1.importsModule module := by
  rw [ImportTable.importsModule_build, ImportTable.importsModule_build, h.perm.any_eq]

theorem errorCount :
    (ImportTable.build registry unit options left).2.countP (·.isError) =
      (ImportTable.build registry unit options right).2.countP (·.isError) := by
  rw [List.countP_eq_length_filter, List.countP_eq_length_filter, ImportTable.errors_build,
    ImportTable.errors_build]
  exact (h.perm.flatMap_right _).length_eq

theorem warningCount :
    (ImportTable.build registry unit options left).2.countP (!·.isError) =
      (ImportTable.build registry unit options right).2.countP (!·.isError) := by
  cases hreport : options.reportRedundant with
  | false =>
      rw [ImportTable.warnings_build_silent registry unit options hreport,
        ImportTable.warnings_build_silent registry unit options hreport]
  | true =>
      have htexts : (texts unit left).Perm (texts unit right) := (h.perm.filter _).map _
      have hdifferent := (perm_eraseDups htexts).length_eq
      have hleft := ImportTable.warnings_build registry unit options hreport left
      have hright := ImportTable.warnings_build registry unit options hreport right
      have hlength := htexts.length_eq
      omega

end Import.Rearranged

/-- A reference that is left to what imports show sees the same symbols in another order,
and any other reference does not see them. -/
theorem Import.Rearranged.resolve {left right : List Import} (h : Rearranged left right)
    (registry : Registry) (unit : Text) (options atUse : Options) (locals : Locals)
    (reference : Reference) :
    ((Resolver.mk registry (ImportTable.build registry unit options left).1 locals
        atUse).resolve reference).SameButOrder
      ((Resolver.mk registry (ImportTable.build registry unit options right).1 locals
        atUse).resolve reference) := by
  let before : Resolver :=
    ⟨registry, (ImportTable.build registry unit options left).1, locals, atUse⟩
  let after : Resolver :=
    ⟨registry, (ImportTable.build registry unit options right).1, locals, atUse⟩
  show (before.resolve reference).SameButOrder (after.resolve reference)
  have hsingle (context : Context) : before.importedDeclarations reference.head context =
      after.importedDeclarations reference.head context := by
    rw [Resolver.importedDeclarations_build rfl, Resolver.importedDeclarations_build rfl,
      h.lastSingle?]
  by_cases hleft : before.LeftToShown reference
  · have hright : after.LeftToShown reference := hleft.congr rfl rfl hsingle
    rw [hleft.resolve, hright.resolve, Resolver.importedModuleSymbols_build rfl,
      Resolver.importedModuleSymbols_build rfl]
    exact Outcome.ofShown_perm (h.shownUnder registry unit options _ _) reference
  · have hsame : before.resolve reference = after.resolve reference := by
      refine Resolver.resolve_congr_of_not_left hleft rfl hsingle ?_
      intro name rest _
      have hoptions : before.options = after.options := rfl
      have hlookup : before.registry.lookup? reference.head =
          after.registry.lookup? reference.head := rfl
      refine Resolver.throughModule?_congr hoptions hlookup ?_ name rest reference.context
      intro _ module
      exact h.importsModule registry unit options module
    rw [hsame]
    exact .refl _

namespace Resolver

/-- Imports that are moved around, without a change of order among those of single
declarations, give every reference the same answer but for the order of candidates, and
as many errors and warnings as before. -/
theorem resolve_rearranged (registry : Registry) (unit : Text) (options atUse : Options)
    (left right : List Import) (h : Import.Rearranged left right) (locals : Locals) :
    (∀ reference : Reference,
      ((Resolver.mk registry (ImportTable.build registry unit options left).1 locals
          atUse).resolve reference).SameButOrder
        ((Resolver.mk registry (ImportTable.build registry unit options right).1 locals
          atUse).resolve reference)) ∧
    (ImportTable.build registry unit options left).2.countP (·.isError) =
      (ImportTable.build registry unit options right).2.countP (·.isError) ∧
    (ImportTable.build registry unit options left).2.countP (!·.isError) =
      (ImportTable.build registry unit options right).2.countP (!·.isError) := by
  refine ⟨?_, h.errorCount registry unit options, h.warningCount registry unit options⟩
  exact h.resolve registry unit options atUse locals

/-- Swimming stays ambiguous between the two sports, which are named in the other order.
One repeated import is warned about, and one that fails is an error, as before. -/
theorem resolve_meet_rearranged :
    let triathlon : Import := ⟨"Triathlon", .everything, {}⟩
    let pentathlon : Import := ⟨"Pentathlon", .everything, {}⟩
    let run : Import := ⟨"Triathlon", .symbol .function "run", {}⟩
    let row : Import := ⟨"Pentathlon", .symbol .function "row", {}⟩
    let left := [triathlon, run, pentathlon, row, triathlon]
    let right := [pentathlon, run, triathlon, triathlon, row]
    let built (imports : List Import) := ImportTable.build .sports "Meet" {} imports
    let resolver (imports : List Import) : Resolver := ⟨.sports, (built imports).1, {}, {}⟩
    let swim : Reference := ⟨["swim"], .value, {}⟩
    Import.Rearranged left right ∧
      (∀ reference, ((resolver left).resolve reference).SameButOrder
        ((resolver right).resolve reference)) ∧
      (built left).2.countP (·.isError) = (built right).2.countP (·.isError) ∧
      (built left).2.countP (!·.isError) = (built right).2.countP (!·.isError) ∧
      (built right).2.map (·.code) = ["SIGIL-W2105", "SIGIL-E2103"] ∧
      ((resolver left).resolve swim).candidates.map (·.symbol.describe) =
        ["func Triathlon.swim", "func Pentathlon.swim"] ∧
      ((resolver right).resolve swim).candidates.map (·.symbol.describe) =
        ["func Pentathlon.swim", "func Triathlon.swim"] := by
  intro triathlon pentathlon run row left right built resolver swim
  have hrearranged : Import.Rearranged left right := ⟨by decide, by decide⟩
  obtain ⟨houtcomes, herrors, hwarnings⟩ :=
    resolve_rearranged .sports "Meet" {} {} left right hrearranged {}
  exact ⟨hrearranged, houtcomes, herrors, hwarnings, by decide, by decide, by decide⟩

end Resolver

end NameBinding
