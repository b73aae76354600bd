import NameBinding.Manifest.Reader
import NameBinding.Report
import NameBinding.Tool.Message
import NameBinding.Workers

/-!
The command itself, as a function of the disk and the arguments. Interfaces are
read before the manifests that are named, all modules are registered before the
first unit is resolved, and no fault keeps the rest from being processed. What
prints progress asks for itself whether the run is quiet; the error stream never
does.
-/

namespace NameBinding

/-- What a run leaves behind: the lines on its output and the messages on its
error stream. `exit` is 0 for success and 1 otherwise, and `report` is the text
of the report if one was written. -/
structure Completion where
  exit : Nat := 0
  lines : List Text := []
  messages : List Message := []
  disk : Disk
  report : Option Text := none
deriving Repr

def Completion.out (completion : Completion) : Text :=
  completion.lines.flatMap (· ++ [Text.newline])

def Completion.err (completion : Completion) : Text :=
  completion.messages.flatMap (·.format)

/-- A run under way: what is registered, the units to resolve with the paths of
their manifests, and what is printed so far. -/
structure Run where
  registry : Registry := {}
  units : List (Text × SourceUnit) := []
  lines : List Text := []
  messages : List Message := []
  failed : Bool := false

namespace Run

def say (run : Run) (line : Text) : Run := { run with lines := run.lines ++ [line] }

def fail (run : Run) (message : Message) : Run :=
  { run with messages := run.messages ++ [message], failed := true }

/-- Prints diagnostics about a file. Errors fail the run, warnings do not. -/
def diagnose (run : Run) (path : Text) (diagnostics : List Diagnostic) : Run :=
  { run with
    messages := run.messages ++ diagnostics.map (.diagnostic path)
    failed := run.failed || diagnostics.any (·.isError) }

def register (run : Run) (path : Text) (modules : List Module) : Run :=
  let registry := run.registry.registerAll modules
  let fresh := registry.diagnostics.drop run.registry.diagnostics.length
  { run with registry }.diagnose path fresh

/-- Takes in the modules of an interface file. -/
def loadInterface (disk : Disk) (run : Run) (file : Path) : Run :=
  let path := file.toText
  match disk.read? path with
  | none => run.fail (.unreadable path)
  | some source =>
    let (manifest, diagnostics) := Manifest.read .interface source
    (run.diagnose path diagnostics).register path manifest.modules

def announce (run : Run) (quiet : Bool) (path : Text) (manifest : Manifest) : Run :=
  if quiet then run
  else run.say ("[notice] Read " ++ path.quoted ++ " (modules: " ++
    Text.decimal manifest.modules.length ++ ", units: " ++
    Text.decimal manifest.units.length ++ ").")

/-- Takes in the modules and the units of a manifest. -/
def loadManifest (disk : Disk) (quiet : Bool) (run : Run) (path : Text) : Run :=
  match disk.read? path with
  | none => run.fail (.unreadable path)
  | some source =>
    let (manifest, diagnostics) := Manifest.read .workspace source
    let run := ((run.diagnose path diagnostics).announce quiet path manifest).register path
      manifest.modules
    { run with units := run.units ++ manifest.units.map fun unit => (path, unit) }

def loadInterfaces (disk : Disk) (quiet : Bool) (run : Run) (roots : List Text) : Run :=
  let discovery := Discovery.run disk (Discovery.searchRoots (roots.map Path.ofText))
  let run := discovery.issues.foldl (fun run issue => run.fail (.badRoot issue)) run
  let run := if quiet || discovery.files.isEmpty then run
    else run.say ("[notice] Module locator discovered " ++
      Text.decimal discovery.files.length ++ " interface file(s) from import roots.")
  discovery.files.foldl (loadInterface disk) run

def greet (run : Run) (line : CommandLine) : Run :=
  if line.quiet then run
  else
    let submodules : Text := if line.options.reexport then "reexport" else "explicit"
    let run := ((run.say "[information] Starting sigil-resolve.").say
      ("  submodules: " ++ submodules)).say ("  jobs: " ++ Text.decimal line.jobs)
    line.inputs.foldl (fun run path => run.say ("  input: " ++ path)) run

/-- A reference that means a symbol; the tier is told where there is one. -/
def tellReference (run : Run) (resolved : ResolvedReference) : Run :=
  match resolved.outcome with
  | .failed _ => run
  | .found located tier =>
    let place : Text := match tier with
      | some tier => " (" ++ tier.word ++ ")"
      | none => []
    run.say ("[debug]   " ++ resolved.reference.text ++ " -> " ++
      located.symbol.describe ++ place)

/-- The count of what is resolved, and then each reference that is. -/
def tellResolved (run : Run) (unit : ResolvedUnit) : Run :=
  unit.references.foldl tellReference (run.say ("[notice] Unit " ++ unit.module ++ ": " ++
    Text.decimal unit.resolvedCount ++ "/" ++ Text.decimal unit.references.length ++
    " reference(s) resolved, " ++ Text.decimal unit.log.errorCount ++ " error(s), " ++
    Text.decimal unit.log.warningCount ++ " warning(s)."))

def tellUnit (run : Run) (quiet : Bool) (path : Text) (unit : ResolvedUnit) : Run :=
  let run := run.diagnose path unit.log.entries
  if quiet then run else run.tellResolved unit

def freeze (run : Run) (quiet : Bool) : Run :=
  let run := { run with registry := run.registry.freeze }
  if quiet then run
  else run.say ("[notice] Registry frozen with " ++ Text.decimal run.registry.size ++
    " module(s).")

def writeReport (run : Run) (quiet : Bool) (disk : Disk) (path content : Text) :
    Run × Disk × Option Text :=
  match disk.write path content with
  | (disk, .ok ()) =>
    let run := if quiet then run
      else run.say ("[notice] Resolution report written to " ++ path)
    (run, disk, some content)
  | (disk, .error fault) => (run.fail (.unwritten path fault), disk, none)

/-- The last line, or the last message, says whether all went well. -/
def finish (run : Run) (quiet : Bool) (disk : Disk) (report : Option Text) : Completion :=
  let run := if run.failed then run.fail .finishedWithErrors
    else if quiet then run
    else run.say "[notice] All references resolved."
  { exit := if run.failed then 1 else 0
    lines := run.lines
    messages := run.messages
    disk
    report }

end Run

namespace Tool

def help : List Text := [
  "sigil-resolve - import-aware symbol binding checker",
  "Usage: sigil-resolve [options] <manifest>...",
  "",
  "Options:",
  "  --help                     Show this help text and exit.",
  "  --version                  Show version information and exit.",
  "  --import-root <path>       Add a directory searched for *.sigilmod interfaces (repeatable).",
  "  --import-root=<path>       Add a directory searched for *.sigilmod interfaces (shorthand).",
  "  --explicit-submodules      Submodule symbols need an explicit submodule import (default).",
  "  --reexport-submodules      Importing a module also imports its submodules.",
  "  --require-qualified-imports Only imported modules may qualify a reference.",
  "  --jobs=<n>                 Resolve compilation units on up to n threads.",
  "  --emit-report=<path>       Write a JSON resolution report to the given path.",
  "  --quiet                    Suppress progress output."]

def version : List Text := ["sigil-resolve (build profile: local)"]

/-- Everything before the report: interfaces, manifests, then the units. -/
def resolveAll (disk : Disk) (line : CommandLine) : Run × List ResolvedUnit :=
  let run := (({} : Run).greet line).loadInterfaces disk line.quiet line.importRoots
  let run := (line.inputs.foldl (Run.loadManifest disk line.quiet) run).freeze line.quiet
  let (paths, units) := run.units.unzip
  let resolved := SourceUnit.resolveAll run.registry line.options line.jobs units
  let run := (paths.zip resolved).foldl
    (fun run (path, unit) => run.tellUnit line.quiet path unit) run
  (run, resolved)

def resolve (disk : Disk) (line : CommandLine) : Completion :=
  let (run, resolved) := resolveAll disk line
  match line.report with
  | none => run.finish line.quiet disk none
  | some path =>
    let (run, disk, report) := run.writeReport line.quiet disk path (renderReport resolved)
    run.finish line.quiet disk report

/-- The whole command. Arguments that make no sense are told and nothing else is
done. -/
def run (disk : Disk) (arguments : List Text) : Completion :=
  match CommandLine.parse arguments with
  | .error fault => { exit := 1, messages := [.usage fault], disk }
  | .ok line =>
    match line.purpose with
    | .help => { lines := help, disk }
    | .version => { lines := version, disk }
    | .resolve => resolve disk line

end Tool

end NameBinding
