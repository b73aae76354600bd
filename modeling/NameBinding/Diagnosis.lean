import NameBinding.Diagnostic
import NameBinding.Outcome
import NameBinding.Reference

/-!
What is said about a reference that did not resolve. Every failure is an error
with a code of its own, and two of them suggest a fix: an ambiguity that the
first candidate's module would settle, and a module that is not imported.
-/

namespace NameBinding

def Symbol.candidateNote (symbol : Symbol) : Text :=
  let home : Text := if symbol.owner.isEmpty then []
    else " (module " ++ symbol.owner.quoted ++ ")"
  "candidate: " ++ symbol.describe ++ home

/-- The first candidate, if its owner has a name and owns no other candidate,
so that qualifying by the owner singles it out. -/
def Symbol.distinctlyOwned? : (candidates : List Symbol) → Option Symbol
  | [] => none
  | first :: others =>
    if first.owner.isEmpty || others.any (·.owner == first.owner) then none
    else some first

namespace Failure

def code : Failure Symbol → Text
  | .unresolved => "SIGIL-E2201"
  | .ambiguous .. => "SIGIL-E2202"
  | .moduleNotFound => "SIGIL-E2203"
  | .submoduleNotFound => "SIGIL-E2204"
  | .symbolNotFound => "SIGIL-E2205"
  | .moduleNotImported => "SIGIL-E2206"

def message (reference : Reference) : Failure Symbol → Text
  | .unresolved => "Cannot find " ++ reference.text.quoted ++ " in scope."
  | .ambiguous .. => "Ambiguous use of " ++ reference.text.quoted ++ "."
  | .moduleNotFound => "No module named " ++ reference.head.quoted ++ "."
  | .submoduleNotFound =>
    "Module " ++ reference.head.quoted ++ " has no submodule or declaration matching " ++
      reference.text.quoted ++ "."
  | .symbolNotFound =>
    "Module " ++ reference.head.quoted ++ " has no member " ++ reference.last.quoted ++
      " (" ++ reference.text.quoted ++ ")."
  | .moduleNotImported =>
    "Module " ++ reference.head.quoted ++ " is not imported; cannot qualify " ++
      reference.text.quoted ++ " through it."

def notes : Failure Symbol → List Text
  | .ambiguous _ candidates => candidates.map (·.candidateNote)
  | _ => []

/-- The spelling that settles an ambiguity. Qualifying cannot tell local
declarations apart, and a dotted reference is qualified already. -/
def spelling? (reference : Reference) : Failure Symbol → Option Text
  | .ambiguous tier candidates =>
    if reference.isDotted || tier == some .localDeclaration then none
    else
      (Symbol.distinctlyOwned? candidates).map fun candidate =>
        candidate.owner ++ "." ++ reference.last
  | _ => none

def fixIt? (reference : Reference) (failure : Failure Symbol) : Option Text :=
  match failure with
  | .ambiguous .. =>
    (failure.spelling? reference).map fun spelling =>
      ("qualify the reference, e.g. " ++ spelling.quoted : Text)
  | .moduleNotImported =>
    some ("add " ++ ("import " ++ reference.head : Text).quoted : Text)
  | _ => none

def diagnostic (reference : Reference) (failure : Failure Symbol) : Diagnostic :=
  { code := failure.code
    message := failure.message reference
    span := reference.span
    notes := failure.notes
    fixIt := failure.fixIt? reference }

end Failure

def Outcome.diagnostic? (reference : Reference) : Outcome Symbol → Option Diagnostic
  | .found .. => none
  | .failed failure => some (failure.diagnostic reference)

/-- Adds what there is to say about the outcome of a reference. -/
def Log.report (log : Log) (reference : Reference) (outcome : Outcome Symbol) : Log :=
  log.append (outcome.diagnostic? reference).toList

end NameBinding
