import NameBinding.Tool.Message
import NameBinding.Manifest.Reader
import NameBinding.Proofs.Accounting

/-!
Codes. The letter before the number of a code tells errors from warnings, in all that is said
about manifests, modules, imports and references and in the messages of the command itself.
-/

namespace NameBinding

/-- A text that starts with the code of an error, or with that of a warning. -/
def Text.Coded (text : Text) (isError : Bool) : Prop :=
  (if isError then "SIGIL-E" else "SIGIL-W" : Text) <+: text

instance (text : Text) (isError : Bool) : Decidable (text.Coded isError) :=
  inferInstanceAs (Decidable (_ <+: _))

namespace Text

variable {text : Text} {isError : Bool}

theorem coded_of_isPrefixOf
    (h : List.isPrefixOf (if isError then "SIGIL-E" else "SIGIL-W" : Text) text = true) :
    text.Coded isError :=
  List.isPrefixOf_iff_prefix.mp h

theorem Coded.append (h : text.Coded isError) (rest : Text) : (text ++ rest).Coded isError :=
  h.trans (List.prefix_append text rest)

theorem Coded.isError_iff (h : text.Coded isError) :
    isError = true ↔ ("SIGIL-E" : Text) <+: text := by
  cases isError with
  | true => exact ⟨fun _ => h, fun _ => rfl⟩
  | false =>
      refine ⟨nofun, fun herror => ?_⟩
      have hboth : ("SIGIL-E" : Text) <+: ("SIGIL-W" : Text) :=
        List.prefix_of_prefix_length_le herror h (by decide)
      exact absurd hboth (by decide)

end Text

def Diagnostic.Coded (told : Diagnostic) : Prop := told.code.Coded told.isError

theorem Diagnostic.Coded.format {told : Diagnostic} (h : told.Coded) (path : Text) :
    (told.format path).Coded told.isError := by
  have hfirst : told.format path = told.headline path ++ ([Text.newline] ++
      ((told.lines path).drop 1).flatMap (· ++ [Text.newline])) := by
    rw [← List.append_assoc]
    rfl
  rw [hfirst, headline, List.append_assoc, List.append_assoc, List.append_assoc,
    List.append_assoc]
  exact h.append _

theorem Complaint.coded_diagnostic (complaint : Complaint) : complaint.diagnostic.Coded := by
  obtain ⟨fault, span⟩ := complaint
  cases fault <;> exact Text.coded_of_isPrefixOf rfl

theorem Refusal.coded_diagnostic (refusal : Refusal) : refusal.diagnostic.Coded := by
  obtain ⟨cause, span⟩ := refusal
  cases cause <;> exact Text.coded_of_isPrefixOf rfl

theorem Failure.coded_diagnostic (reference : Reference) (failure : Failure Symbol) :
    (failure.diagnostic reference).Coded := by
  cases failure <;> exact Text.coded_of_isPrefixOf rfl

theorem Import.coded_remarks (declaration : Import) (registry : Registry) (unit : Text)
    (options : Options) (earlier : List Import) :
    ∀ told ∈ declaration.remarks registry unit options earlier, told.Coded := by
  refine List.forall_mem_append.mpr ⟨?_, ?_⟩
  · split
    · exact List.forall_mem_singleton.mpr (Text.coded_of_isPrefixOf rfl)
    · exact nofun
  · cases declaration.contribution registry unit options with
    | ok symbols => exact nofun
    | error fault =>
        refine List.forall_mem_singleton.mpr ?_
        cases fault <;> exact Text.coded_of_isPrefixOf rfl

theorem SourceUnit.coded_log (registry : Registry) (options : Options) (unit : SourceUnit) :
    ∀ told ∈ (unit.resolve registry options).log.entries, told.Coded := by
  rw [entries_log, ImportTable.diagnostics_build]
  refine List.forall_mem_append.mpr ⟨?_, ?_⟩
  · intro told htold
    obtain ⟨entry, -, hremark⟩ := List.mem_flatMap.mp htold
    exact Import.coded_remarks _ _ _ _ _ told hremark
  · intro told htold
    obtain ⟨resolved, -, hsome⟩ := List.mem_filterMap.mp htold
    unfold ResolvedReference.diagnostic? at hsome
    cases houtcome : resolved.outcome.map (·.symbol) with
    | found symbol tier =>
        rw [houtcome] at hsome
        cases hsome
    | failed failure =>
        rw [houtcome] at hsome
        obtain rfl := Option.some.inj hsome
        exact failure.coded_diagnostic resolved.reference

/-- The messages of the command are coded in the same way. -/
theorem Message.coded_format {message : Message}
    (hdiagnostic : ∀ path told, message = .diagnostic path told → told.Coded) :
    message.format.Coded message.isError := by
  cases message with
  | usage fault => cases fault <;> exact Text.coded_of_isPrefixOf rfl
  | diagnostic path told => exact (hdiagnostic path told rfl).format path
  | unreadable path => exact Text.coded_of_isPrefixOf rfl
  | badRoot issue => exact Text.coded_of_isPrefixOf rfl
  | unwritten path fault => exact Text.coded_of_isPrefixOf rfl
  | finishedWithErrors => exact Text.coded_of_isPrefixOf rfl

end NameBinding
