import NameBinding.Proofs.Distinct
import NameBinding.Proofs.Redundancy

/-!
What building a table reports. Errors come from the imports one by one. Warnings are as
many as the texts of the imports, self imports left out, are more than the different
ones among them.
-/

namespace NameBinding

/-- What imports say, in the order of writing. Self imports count for nothing. -/
def Import.texts (unit : Text) (imports : List Import) : List Text :=
  (imports.filter (!·.isSelf unit)).map (·.describe)

theorem Contribution.filter_isError (contribution : Contribution) (declaration : Import) :
    (contribution.diagnostics declaration).filter (·.isError) =
      contribution.diagnostics declaration := by
  cases contribution <;> rfl

namespace ImportTable

variable (registry : Registry) (unit : Text) (options : Options)

theorem Build.filter_isError_warnings (build : Build) (declaration : Import) :
    (build.warnings unit options declaration).filter (·.isError) = [] := by
  unfold warnings
  split <;> rfl

theorem errors_build (imports : List Import) :
    (build registry unit options imports).2.filter (·.isError) =
      imports.flatMap fun declaration =>
        (declaration.contribution registry unit options).diagnostics declaration := by
  induction imports using List.reverseRecOn with
  | nil => rfl
  | append_singleton imports last ih =>
      rw [diagnostics_append_singleton, added_eq, List.filter_append, List.filter_append, ih,
        Build.filter_isError_warnings, Contribution.filter_isError, List.flatMap_append]
      simp

theorem contains_seen (imports : List Import) (text : Text) :
    (after registry unit options imports).seen.contains text =
      (Import.texts unit imports).contains text := by
  rw [Bool.eq_iff_iff, List.contains_iff_mem, List.contains_iff_mem, after_seen, Import.texts,
    List.mem_map]
  simp only [List.mem_filter, Bool.not_eq_true', and_assoc]

/-- The warnings that one more import gives rise to. -/
theorem countP_added (imports : List Import) (last : Import) :
    (added registry unit options imports last).countP (!·.isError) =
      if !last.isSelf unit && (Import.texts unit imports).contains last.describe &&
        options.reportRedundant then 1 else 0 := by
  have herrors : ((last.contribution registry unit options).diagnostics last).countP
      (!·.isError) = 0 := by
    cases last.contribution registry unit options <;> rfl
  rw [added_eq, List.countP_append, herrors, Build.warnings, contains_seen]
  split <;> rfl

/-- Each text is warned about as often as it stands, but for once. -/
theorem warnings_build (hreport : options.reportRedundant = true) (imports : List Import) :
    (build registry unit options imports).2.countP (!·.isError) +
        (Import.texts unit imports).eraseDups.length =
      (Import.texts unit imports).length := by
  induction imports using List.reverseRecOn with
  | nil => rfl
  | append_singleton imports last ih =>
      have htexts : Import.texts unit (imports ++ [last]) =
          Import.texts unit imports ++ if last.isSelf unit then [] else [last.describe] := by
        unfold Import.texts
        cases hself : last.isSelf unit <;> simp [hself]
      rw [diagnostics_append_singleton, List.countP_append, countP_added, htexts, hreport]
      cases last.isSelf unit with
      | true => simpa using ih
      | false =>
          rw [if_neg Bool.false_ne_true, eraseDups_append_singleton]
          cases (Import.texts unit imports).contains last.describe <;> simp <;> omega

theorem warnings_build_silent (hreport : options.reportRedundant = false)
    (imports : List Import) :
    (build registry unit options imports).2.countP (!·.isError) = 0 := by
  induction imports using List.reverseRecOn with
  | nil => rfl
  | append_singleton imports last ih =>
      rw [diagnostics_append_singleton, List.countP_append, countP_added, ih, hreport,
        Bool.and_false]
      rfl

end ImportTable

end NameBinding
