import NameBinding.Diagnostic
import NameBinding.Manifest.Word

/-!
What can be wrong with a manifest.
-/

namespace NameBinding

inductive ManifestFault where
  | unclosedUnit (name : Text)
  | unclosedModule (name : Text)
  | unitInInterface
  | strayLine (word : Text)
  | blockInModule (word module : Text)
  | strayInUnit (word unit : Text)
  | wordAfterEnd (word : Text)
  | nothingToEnd
  | nameExpected (after : Text)
  | wordAfterName (word block : Text)
  | malformedImportPath (path : Text)
  | malformedSymbolImport (kind path : Text)
  | malformedImport
  | referenceForm
  | unknownContext (word : Text)
  | malformedReference (text : Text)
  | kindExpected
  | unknownKind (word : Text)
  | invalidName (name : Text)
  | membersUnopened (word : Text)
  | invalidMember (name : Text)
deriving DecidableEq, Repr

namespace ManifestFault

def code : ManifestFault → Text
  | .unknownKind _ => "SIGIL-E3002"
  | _ => "SIGIL-E3001"

def message : ManifestFault → Text
  | .unclosedUnit name => "Unit " ++ name.quoted ++ " is missing its closing 'end'."
  | .unclosedModule name => "Module " ++ name.quoted ++ " is missing its closing 'end'."
  | .unitInInterface => "Module interface files may only declare modules."
  | .strayLine word => "Expected 'module' or 'unit' but found " ++ word.quoted ++ "."
  | .blockInModule word module =>
    word.quoted ++ " cannot appear inside module " ++ module.quoted ++
      "; use 'submodule' or close the block with 'end'."
  | .strayInUnit word unit =>
    "Expected 'import', 'declare', 'reference' or 'end' in unit " ++ unit.quoted ++
      " but found " ++ word.quoted ++ "."
  | .wordAfterEnd word => "Unexpected " ++ word.quoted ++ " after 'end'."
  | .nothingToEnd => "'end' does not close any module or unit."
  | .nameExpected after => "Expected a name after " ++ after.quoted ++ "."
  | .wordAfterName word block =>
    "Unexpected " ++ word.quoted ++ " after " ++ block ++ " name."
  | .malformedImportPath path => "Malformed import path " ++ path.quoted ++ "."
  | .malformedSymbolImport kind path =>
    "Expected '<Module>.<name>' after " ++ ("import " ++ kind : Text).quoted ++
      " but found " ++ path.quoted ++ "."
  | .malformedImport => "Malformed import declaration."
  | .referenceForm => "Expected 'reference [value|type] <name>'."
  | .unknownContext word =>
    "Unknown reference position " ++ word.quoted ++
      "; expected 'value', 'type' or 'any'."
  | .malformedReference text => "Malformed reference " ++ text.quoted ++ "."
  | .kindExpected => "Expected a declaration kind."
  | .unknownKind word =>
    "Unknown declaration kind " ++ word.quoted ++
      "; expected struct, class, enum, protocol, typealias, func, let or var."
  | .invalidName name => name.quoted ++ " is not a valid declaration name."
  | .membersUnopened word =>
    "Expected ':' before members but found " ++ word.quoted ++ "."
  | .invalidMember name => name.quoted ++ " is not a valid member name."

end ManifestFault

/-- A fault at a place in the source. -/
structure Complaint where
  fault : ManifestFault
  span : Span
deriving DecidableEq, Repr

def Complaint.diagnostic (complaint : Complaint) : Diagnostic :=
  { code := complaint.fault.code
    message := complaint.fault.message
    span := complaint.span }

def Word.complain (word : Word) (fault : ManifestFault) : Complaint := ⟨fault, word.span⟩

end NameBinding
