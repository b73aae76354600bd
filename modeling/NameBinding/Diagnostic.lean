import NameBinding.Text
import NameBinding.Span

/-!
Diagnostics and their printed form: one line that starts with the code, then an
indented line for each note and one for the fix-it.
-/

namespace NameBinding

inductive Severity where
  | error
  | warning
deriving DecidableEq, Repr, Inhabited

structure Diagnostic where
  code : Text := []
  message : Text := []
  span : Span := {}
  severity : Severity := .error
  notes : List Text := []
  fixIt : Option Text := none
deriving DecidableEq, Repr, Inhabited

namespace Diagnostic

def isError (diagnostic : Diagnostic) : Bool := diagnostic.severity == .error

/-- `L4:C9`, after the path and a colon where there is a path. -/
def position (diagnostic : Diagnostic) (path : Text) : Text :=
  let file : Text := if path.isEmpty then [] else path ++ ":"
  let start := diagnostic.span.start
  file ++ "L" ++ Text.decimal start.line.toNat ++ ":C" ++ Text.decimal start.column.toNat

def headline (diagnostic : Diagnostic) (path : Text) : Text :=
  diagnostic.code ++ " " ++ diagnostic.position path ++ " -> " ++ diagnostic.message

/-- The lines of the printed form, without their newlines. -/
def lines (diagnostic : Diagnostic) (path : Text) : List Text :=
  diagnostic.headline path ::
    (diagnostic.notes.map fun (note : Text) => ("    note: " ++ note : Text)) ++
      diagnostic.fixIt.toList.map fun (hint : Text) => ("    fix-it: " ++ hint : Text)

def format (diagnostic : Diagnostic) (path : Text) : Text :=
  (diagnostic.lines path).flatMap (· ++ [Text.newline])

end Diagnostic

/-- The diagnostics of one pass, in the order they arose. How many are errors and
how many are warnings is kept as they are added. -/
structure Log where
  entries : List Diagnostic
  errorCount : Nat
  warningCount : Nat
  errors_counted : errorCount = entries.countP (·.isError)
  warnings_counted : warningCount = entries.countP (!·.isError)
deriving DecidableEq, Repr

namespace Log

def empty : Log := ⟨[], 0, 0, rfl, rfl⟩

instance : EmptyCollection Log := ⟨empty⟩

instance : Inhabited Log := ⟨empty⟩

def add (log : Log) (diagnostic : Diagnostic) : Log where
  entries := log.entries ++ [diagnostic]
  errorCount := if diagnostic.isError then log.errorCount + 1 else log.errorCount
  warningCount := if diagnostic.isError then log.warningCount else log.warningCount + 1
  errors_counted := by
    rw [List.countP_append, List.countP_singleton, ← log.errors_counted]
    split <;> rfl
  warnings_counted := by
    rw [List.countP_append, List.countP_singleton, ← log.warnings_counted]
    cases diagnostic.isError <;> rfl

def append (log : Log) (diagnostics : List Diagnostic) : Log := diagnostics.foldl add log

@[simp] theorem entries_append (log : Log) (diagnostics : List Diagnostic) :
    (log.append diagnostics).entries = log.entries ++ diagnostics := by
  induction diagnostics generalizing log with
  | nil => exact (List.append_nil _).symm
  | cons first rest ih =>
      calc ((log.add first).append rest).entries
        _ = (log.entries ++ [first]) ++ rest := ih _
        _ = log.entries ++ first :: rest := by rw [List.append_assoc, List.singleton_append]

def size (log : Log) : Nat := log.entries.length

def hasErrors (log : Log) : Bool := log.errorCount > 0

def format (log : Log) (path : Text) : Text := log.entries.flatMap (·.format path)

end Log

end NameBinding
