import NameBinding.Diagnosis
import NameBinding.Proofs.CheckedReads
import NameBinding.Proofs.Relocation

/-!
Diagnosing with checked reads. What is said about an answer may name the last part of the
path and the first candidate. Resolving gives no answer for which one of them is missing,
though an answer made by hand may ask for the last part of a path that has none.
-/

namespace NameBinding

theorem Reference.readLast_of_ne_nil {reference : Reference} (h : reference.path ≠ []) :
    reference.readLast = .ok reference.last := by
  obtain ⟨path, context, span⟩ := reference
  cases path with
  | nil => exact absurd rfl h
  | cons first rest =>
      rw [readLast, last, List.getLast?_cons, List.getLastD_cons, List.getLastD_eq_getLast?]

theorem Reference.readLast_eq_error_iff {reference : Reference} {lapse : Lapse} :
    reference.readLast = .error lapse ↔ lapse = .lastPart ∧ reference.path = [] := by
  by_cases hpath : reference.path = []
  · rw [readLast, hpath]
    simp [eq_comm]
  · rw [readLast_of_ne_nil hpath]
    simp [hpath]

/-- Whether the owner of the first candidate has a name and owns no other candidate. -/
def Symbol.readDistinct (candidates : List Symbol) : Except Lapse Bool := do
  if candidates.isEmpty then
    return false
  else
    let first ← readFirst candidates
    return !first.owner.isEmpty && !(candidates.drop 1).any (·.owner == first.owner)

theorem Symbol.readDistinct_eq (candidates : List Symbol) :
    readDistinct candidates = .ok (distinctlyOwned? candidates).isSome := by
  cases candidates with
  | nil => rfl
  | cons first others =>
      simp only [readDistinct, distinctlyOwned?, readFirst, Lapse.ok_bind, List.isEmpty_cons,
        List.drop_one, List.tail_cons]
      cases first.owner.isEmpty <;> cases others.any (·.owner == first.owner) <;> rfl

namespace Answer

def map {σ τ : Type} (f : σ → τ) (answer : Answer σ) : Answer τ :=
  { answer with symbol := answer.symbol.map f, candidates := answer.candidates.map f }

/-- The suggestion for an ambiguity. -/
def readHint (answer : Answer Symbol) (reference : Reference) : Except Lapse (Option Text) := do
  if reference.isDotted || answer.tier == some .localDeclaration then
    return none
  else if ← Symbol.readDistinct answer.candidates then
    let candidate ← readFirst answer.candidates
    let last ← reference.readLast
    return some
      ("qualify the reference, e.g. " ++ (candidate.owner ++ "." ++ last : Text).quoted : Text)
  else
    return none

/-- What is said about an answer, with every read checked. -/
def diagnose (answer : Answer Symbol) (reference : Reference) :
    Except Lapse (Option Diagnostic) := do
  match answer.status with
  | .resolved => return none
  | .unresolved => return some (Failure.unresolved.diagnostic reference)
  | .moduleNotFound => return some (Failure.moduleNotFound.diagnostic reference)
  | .submoduleNotFound => return some (Failure.submoduleNotFound.diagnostic reference)
  | .moduleNotImported => return some (Failure.moduleNotImported.diagnostic reference)
  | .symbolNotFound =>
    let last ← reference.readLast
    return some
      { code := "SIGIL-E2205"
        message := "Module " ++ reference.head.quoted ++ " has no member " ++ last.quoted ++
          " (" ++ reference.text.quoted ++ ")."
        span := reference.span }
  | .ambiguous =>
    let hint ← answer.readHint reference
    return some
      { code := "SIGIL-E2202"
        message := "Ambiguous use of " ++ reference.text.quoted ++ "."
        span := reference.span
        notes := answer.candidates.map (·.candidateNote)
        fixIt := hint }

theorem readHint_of_ne_nil {reference : Reference} (h : reference.path ≠ [])
    (answer : Answer Symbol) :
    answer.readHint reference =
      .ok ((Failure.ambiguous answer.tier answer.candidates).fixIt? reference) := by
  rw [readHint, Failure.fixIt?, Failure.spelling?]
  split
  · rfl
  · rw [Symbol.readDistinct_eq, Lapse.ok_bind]
    cases hcandidates : answer.candidates with
    | nil => rfl
    | cons first others =>
        simp only [Symbol.distinctlyOwned?]
        split
        · rfl
        · simp only [Option.isSome_some, if_true, readFirst, Lapse.ok_bind,
            Reference.readLast_of_ne_nil h]
          rfl

/-- Where a path has a part, what is said about an answer is said without a lapse. -/
theorem diagnose_of_ne_nil {reference : Reference} (h : reference.path ≠ [])
    (outcome : Outcome Symbol) :
    outcome.answer.diagnose reference = .ok (outcome.diagnostic? reference) := by
  cases outcome with
  | found symbol tier => rfl
  | failed failure =>
      cases failure with
      | ambiguous tier candidates =>
          have hhint : (Outcome.failed (.ambiguous tier candidates)).answer.readHint reference =
              .ok ((Failure.ambiguous tier candidates).fixIt? reference) :=
            readHint_of_ne_nil h _
          show ((Outcome.failed (.ambiguous tier candidates)).answer.readHint reference >>= _) = _
          rw [hhint]
          rfl
      | symbolNotFound =>
          show (reference.readLast >>= _) = _
          rw [Reference.readLast_of_ne_nil h]
          rfl
      | unresolved | moduleNotFound | submoduleNotFound | moduleNotImported => rfl

theorem readHint_eq_error_iff {answer : Answer Symbol} {reference : Reference} {lapse : Lapse} :
    answer.readHint reference = .error lapse ↔
      lapse = .lastPart ∧ reference.path = [] ∧ answer.tier ≠ some .localDeclaration ∧
        (Symbol.distinctlyOwned? answer.candidates).isSome = true := by
  by_cases hpath : reference.path = []
  · have hlast : reference.readLast = .error .lastPart :=
      Reference.readLast_eq_error_iff.mpr ⟨rfl, hpath⟩
    have hplain : reference.isDotted = false := by simp [Reference.isDotted, hpath]
    rw [readHint, hplain, Bool.false_or, Symbol.readDistinct_eq, Lapse.ok_bind]
    by_cases htier : answer.tier = some .localDeclaration
    · simp [htier, pure, Except.pure]
    · cases hcandidates : answer.candidates with
      | nil => simp [htier, Symbol.distinctlyOwned?, pure, Except.pure]
      | cons first others =>
          simp only [beq_eq_false_iff_ne.mpr htier, Bool.false_eq_true, if_false, readFirst,
            Lapse.ok_bind, hlast]
          cases Symbol.distinctlyOwned? (first :: others) with
          | none => simp [pure, Except.pure]
          | some candidate =>
              simp only [Option.isSome_some, if_true, Lapse.error_bind, Except.error.injEq,
                hpath, htier, ne_eq, not_false_eq_true, and_self, and_true]
              exact eq_comm
  · rw [readHint_of_ne_nil hpath]
    simp [hpath]

/-- An answer made by hand is read too far for an empty path only: where it misses a member
or has a candidate to suggest. -/
theorem diagnose_eq_error_iff {answer : Answer Symbol} {reference : Reference} {lapse : Lapse} :
    answer.diagnose reference = .error lapse ↔
      lapse = .lastPart ∧ reference.path = [] ∧
        (answer.status = .symbolNotFound ∨
          answer.status = .ambiguous ∧ answer.tier ≠ some .localDeclaration ∧
            (Symbol.distinctlyOwned? answer.candidates).isSome = true) := by
  unfold diagnose
  cases hstatus : answer.status with
  | symbolNotFound =>
      simp [Lapse.map_eq_error_iff, Reference.readLast_eq_error_iff]
  | ambiguous =>
      simp [Lapse.map_eq_error_iff, readHint_eq_error_iff]
  | _ => simp [pure, Except.pure]

example : diagnose (.failed .symbolNotFound) {} = .error .lastPart := rfl

end Answer

namespace Outcome

theorem answer_map {σ τ : Type} (outcome : Outcome σ) (f : σ → τ) :
    (outcome.map f).answer = outcome.answer.map f := by
  simp [answer, Answer.map]

variable {outcome : Outcome Symbol} {reference : Reference}

theorem diagnostic?_eq_none_iff :
    outcome.diagnostic? reference = none ↔ outcome.status = .resolved := by
  cases outcome with
  | found symbol tier => simp [diagnostic?, status]
  | failed failure => cases failure <;> simp [diagnostic?, status, Failure.status]

/-- A fix is offered for a missing import and for an ambiguity that qualifying settles. -/
theorem exists_fixIt_iff :
    (∃ diagnostic, outcome.diagnostic? reference = some diagnostic ∧ diagnostic.fixIt ≠ none) ↔
      outcome.status = .moduleNotImported ∨
        outcome.status = .ambiguous ∧ reference.isDotted = false ∧
          outcome.tier? ≠ some .localDeclaration ∧
            Symbol.distinctlyOwned? outcome.candidates ≠ none := by
  cases outcome with
  | found symbol tier => simp [diagnostic?, status]
  | failed failure =>
      cases failure <;>
        simp [diagnostic?, Failure.diagnostic, Failure.fixIt?, Failure.spelling?, status,
          Failure.status, tier?, candidates]

end Outcome

namespace Resolver

/-- Resolving a reference and diagnosing the answer read nothing that is not there. There is
no diagnostic exactly for what is resolved. A fix is offered for a missing import, and for a
single name that is ambiguous between other declarations than the unit's, the first of which
has its owner to itself. -/
theorem resolve_in_bounds (resolver : Resolver) (reference : Reference) :
    let outcome := resolver.resolve reference
    let said? := (outcome.map (·.symbol)).diagnostic? reference
    (do let answer ← resolver.read reference
        return (answer, ← (answer.map Located.symbol).diagnose reference)) =
      .ok (outcome.answer, said?) ∧
    (said? = none ↔ outcome.status = .resolved) ∧
    ((∃ diagnostic, said? = some diagnostic ∧ diagnostic.fixIt ≠ none) ↔
      outcome.status = .moduleNotImported ∨
        outcome.status = .ambiguous ∧ reference.path.length = 1 ∧
          outcome.tier? ≠ some .localDeclaration ∧
            Symbol.distinctlyOwned? (outcome.candidates.map (·.symbol)) ≠ none) := by
  intro outcome said?
  have hempty : reference.path = [] → outcome = .failed .unresolved := by
    intro hpath
    show resolver.resolve reference = _
    rw [resolve, hpath]
  have hsaid : (outcome.answer.map Located.symbol).diagnose reference = .ok said? := by
    rw [← Outcome.answer_map]
    by_cases hpath : reference.path = []
    · show (Outcome.map Located.symbol outcome).answer.diagnose reference =
        .ok ((Outcome.map Located.symbol outcome).diagnostic? reference)
      rw [hempty hpath]
      rfl
    · exact Answer.diagnose_of_ne_nil hpath _
  have hlength (hambiguous : outcome.status = .ambiguous) :
      reference.isDotted = false ↔ reference.path.length = 1 := by
    have hpath : reference.path ≠ [] := by
      intro hpath
      rw [hempty hpath] at hambiguous
      cases hambiguous
    have hpositive := List.length_pos_iff.mpr hpath
    simp only [Reference.isDotted, decide_eq_false_iff_not]
    omega
  refine ⟨?_, ?_, ?_⟩
  · rw [read_eq, Lapse.ok_bind, hsaid]
    rfl
  · rw [← Outcome.status_map Located.symbol outcome]
    exact Outcome.diagnostic?_eq_none_iff
  · rw [Outcome.exists_fixIt_iff, Outcome.status_map, Outcome.tier?_map, Outcome.candidates_map]
    apply or_congr_right
    apply and_congr_right
    intro hambiguous
    rw [hlength hambiguous]

end Resolver

end NameBinding
