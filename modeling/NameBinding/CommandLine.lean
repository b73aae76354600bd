import NameBinding.Options
import NameBinding.Text

/-!
The arguments of the command. They are scanned from left to right, and a later
one overrides an earlier one; a request for help or for the version ends the
scan at once.
-/

namespace NameBinding

inductive Purpose where
  | resolve
  | help
  | version
deriving DecidableEq, Repr, Inhabited

structure CommandLine where
  inputs : List Text := []
  importRoots : List Text := []
  options : Options := {}
  jobs : Nat := 1
  purpose : Purpose := .resolve
  quiet : Bool := false
  report : Option Text := none
deriving DecidableEq, Repr, Inhabited

inductive UsageFault where
  | missingReportPath
  | unknownOption (argument : Text)
  | missingInput
  | missingImportRoot
  | invalidJobCount (count : Text)
deriving DecidableEq, Repr

def UsageFault.message : UsageFault → Text
  | .missingReportPath =>
    "SIGIL-E1000 MissingReportPath: expected path after --emit-report option."
  | .unknownOption argument =>
    "SIGIL-E1001 UnknownOption: unrecognised option " ++ argument.quoted ++ "."
  | .missingInput => "SIGIL-E1002 MissingInput: at least one manifest is required."
  | .missingImportRoot =>
    "SIGIL-E1003 MissingImportRoot: expected path after --import-root option."
  | .invalidJobCount count =>
    "SIGIL-E1004 InvalidJobCount: " ++ count.quoted ++ " is not a positive thread count."

/-- What one argument asks for. The value of an option comes after an equals
sign, or in the argument that follows. -/
inductive Argument where
  | help
  | version
  | quiet
  | submodules (reexport : Bool)
  | requireImport
  | jobs (count : Text)
  | importRoot (path : Text)
  | importRootFollows
  | report (path : Text)
  | reportFollows
  | unknown (argument : Text)
  | input (path : Text)
deriving DecidableEq, Repr

def Argument.ofText (argument : Text) : Argument :=
  if argument == "--help" then .help
  else if argument == "--version" then .version
  else if argument == "--quiet" then .quiet
  else if argument == "--reexport-submodules" then .submodules true
  else if argument == "--explicit-submodules" then .submodules false
  else if argument == "--require-qualified-imports" then .requireImport
  else if argument == "--import-root" then .importRootFollows
  else if argument == "--emit-report" then .reportFollows
  else if let some count := List.isPrefixOf? ("--jobs=" : Text) argument then .jobs count
  else if let some path := List.isPrefixOf? ("--import-root=" : Text) argument then
    .importRoot path
  else if let some path := List.isPrefixOf? ("--emit-report=" : Text) argument then
    .report path
  else if List.isPrefixOf ("-" : Text) argument then .unknown argument
  else .input argument

namespace CommandLine

/-- A count from 1 to 9999, written in at most four digits. -/
def jobCount? (text : Text) : Option Nat :=
  if text.isEmpty || text.length > 4 || !text.all Text.isDigit then none
  else
    match text.foldl (fun count digit => 10 * count + (digit - 48).toNat) 0 with
    | 0 => none
    | count => some count

def scan (line : CommandLine) : List Text → Except UsageFault CommandLine
  | [] => .ok line
  | argument :: rest =>
    match Argument.ofText argument with
    | .help => .ok { line with purpose := .help }
    | .version => .ok { line with purpose := .version }
    | .quiet => scan { line with quiet := true } rest
    | .submodules reexport =>
      scan { line with options := { line.options with reexport } } rest
    | .requireImport =>
      scan { line with options := { line.options with requireImport := true } } rest
    | .jobs count =>
      match jobCount? count with
      | some jobs => scan { line with jobs } rest
      | none => .error (.invalidJobCount count)
    | .importRoot path => scan { line with importRoots := line.importRoots ++ [path] } rest
    | .importRootFollows =>
      match rest with
      | [] => .error .missingImportRoot
      | path :: rest => scan { line with importRoots := line.importRoots ++ [path] } rest
    | .report path => scan { line with report := some path } rest
    | .reportFollows =>
      match rest with
      | [] => .error .missingReportPath
      | path :: rest => scan { line with report := some path } rest
    | .unknown argument => .error (.unknownOption argument)
    | .input path => scan { line with inputs := line.inputs ++ [path] } rest

def parse (arguments : List Text) : Except UsageFault CommandLine := do
  let line ← scan {} arguments
  if line.purpose == .resolve && line.inputs.isEmpty then .error .missingInput
  else return line

end CommandLine

end NameBinding
