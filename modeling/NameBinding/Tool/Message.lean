import NameBinding.CommandLine
import NameBinding.Diagnostic
import NameBinding.Discovery

/-!
What the command prints on its error stream, message by message.
-/

namespace NameBinding

inductive Message where
  | usage (fault : UsageFault)
  | diagnostic (path : Text) (told : Diagnostic)
  | unreadable (path : Text)
  | badRoot (issue : RootIssue)
  | unwritten (path : Text) (fault : WriteFault)
  | finishedWithErrors
deriving DecidableEq, Repr

namespace Message

/-- Only a diagnostic can be a mere warning, and the closing message repeats
that there were errors. -/
def isError : Message → Bool
  | .diagnostic _ told => told.isError
  | .finishedWithErrors => false
  | .usage _ | .unreadable _ | .badRoot _ | .unwritten .. => true

def writeFault (path : Text) : WriteFault → Text
  | .folders fault =>
    "failed to create directories for " ++ path.quoted ++ ": " ++ fault.message
  | .unopened => "unable to open " ++ path.quoted ++ " for writing."

/-- The printed form, with the newline that ends it. -/
def format : Message → Text
  | .usage fault => fault.message ++ "\n"
  | .diagnostic path told => told.format path
  | .unreadable path =>
    "SIGIL-E3000 InputReadFailed: unable to open " ++ path.quoted ++ ".\n"
  | .badRoot issue =>
    "SIGIL-E3004 ModuleLocatorImportRoot: " ++ issue.fault.message ++ " -> " ++
      issue.root.toText.quoted ++ "\n"
  | .unwritten path fault =>
    "SIGIL-E3003 ReportWriteFailed: " ++ writeFault path fault ++ "\n"
  | .finishedWithErrors => "SIGIL-W3001 Resolution finished with errors.\n"

end Message

end NameBinding
