import NameBinding.CommandLine
import Mathlib.Data.List.Basic

/-!
What a list of arguments asks for, whatever stands on the line already: changes in the order in
which they are scanned, and the way in which the scan ends. A scan makes these changes and then
ends in this way. Arguments that are scanned to their end, with no value left to come, can be
taken off the front.
-/

namespace NameBinding

/-- What an argument, with its value if it has one, changes on the line. -/
inductive Change where
  | quiet
  | submodules (reexport : Bool)
  | requireImport
  | jobs (count : Nat)
  | importRoot (path : Text)
  | report (path : Text)
  | input (path : Text)
deriving DecidableEq, Repr

/-- How a scan ends: all arguments are scanned, one of them asks to stop, or one makes no sense. -/
inductive Ending where
  | complete
  | stopped (purpose : Purpose)
  | refused (fault : UsageFault)
deriving DecidableEq, Repr

structure Asked where
  changes : List Change := []
  ending : Ending := .complete
deriving DecidableEq, Repr

theorem Argument.ofText_jobs (count : Text) : ofText ("--jobs=" ++ count) = .jobs count := rfl

namespace CommandLine

def make (line : CommandLine) : Change → CommandLine
  | .quiet => { line with quiet := true }
  | .submodules reexport => { line with options := { line.options with reexport } }
  | .requireImport => { line with options := { line.options with requireImport := true } }
  | .jobs jobs => { line with jobs }
  | .importRoot path => { line with importRoots := line.importRoots ++ [path] }
  | .report path => { line with report := some path }
  | .input path => { line with inputs := line.inputs ++ [path] }

def makeAll (line : CommandLine) (changes : List Change) : CommandLine := changes.foldl make line

def close (line : CommandLine) : Ending → Except UsageFault CommandLine
  | .complete => .ok line
  | .stopped purpose => .ok { line with purpose }
  | .refused fault => .error fault

end CommandLine

/-- More is asked for after a change. -/
def Change.before (change : Change) (asked : Asked) : Asked :=
  { asked with changes := change :: asked.changes }

/-- What the arguments ask for. -/
def Asked.of : List Text → Asked
  | [] => {}
  | argument :: rest =>
    match Argument.ofText argument with
    | .help => { ending := .stopped .help }
    | .version => { ending := .stopped .version }
    | .quiet => Change.quiet.before (of rest)
    | .submodules reexport => (Change.submodules reexport).before (of rest)
    | .requireImport => Change.requireImport.before (of rest)
    | .jobs count =>
      match CommandLine.jobCount? count with
      | some jobs => (Change.jobs jobs).before (of rest)
      | none => { ending := .refused (.invalidJobCount count) }
    | .importRoot path => (Change.importRoot path).before (of rest)
    | .importRootFollows =>
      match rest with
      | [] => { ending := .refused .missingImportRoot }
      | path :: rest => (Change.importRoot path).before (of rest)
    | .report path => (Change.report path).before (of rest)
    | .reportFollows =>
      match rest with
      | [] => { ending := .refused .missingReportPath }
      | path :: rest => (Change.report path).before (of rest)
    | .unknown argument => { ending := .refused (.unknownOption argument) }
    | .input path => (Change.input path).before (of rest)

namespace CommandLine

/-- A scan makes the changes that are asked for, and ends as they do. -/
theorem scan_eq (line : CommandLine) (arguments : List Text) :
    line.scan arguments =
      (line.makeAll (Asked.of arguments).changes).close (Asked.of arguments).ending := by
  fun_induction scan line arguments
  case case1 => rfl
  all_goals
    rw [Asked.of.eq_def]
    simp only [*]
    rfl

/-- Nothing takes back that a run is quiet. -/
theorem makeAll_quiet (line : CommandLine) (changes : List Change) :
    { line with quiet := true }.makeAll changes = { line.makeAll changes with quiet := true } := by
  refine List.foldl_hom (fun line : CommandLine => { line with quiet := true }) ?_
  intro line change
  cases change <;> rfl

/-- A job count stays until there is another. -/
theorem makeAll_jobs (line : CommandLine) (jobs : Nat) (changes : List Change) :
    { line with jobs }.makeAll changes = line.makeAll changes ∨
      { line with jobs }.makeAll changes = { line.makeAll changes with jobs } := by
  induction changes generalizing line with
  | nil => exact .inr rfl
  | cons change rest ih =>
      cases change with
      | jobs other => exact .inl rfl
      | quiet => exact ih (line.make .quiet)
      | submodules reexport => exact ih (line.make (.submodules reexport))
      | requireImport => exact ih (line.make .requireImport)
      | importRoot path => exact ih (line.make (.importRoot path))
      | report path => exact ih (line.make (.report path))
      | input path => exact ih (line.make (.input path))

theorem scan_quiet (line : CommandLine) (arguments : List Text) :
    { line with quiet := true }.scan arguments =
      (line.scan arguments).map fun last => { last with quiet := true } := by
  rw [scan_eq, scan_eq, makeAll_quiet]
  cases (Asked.of arguments).ending <;> rfl

theorem scan_jobs (line : CommandLine) (jobs : Nat) (arguments : List Text) :
    { line with jobs }.scan arguments = line.scan arguments ∨
      { line with jobs }.scan arguments =
        (line.scan arguments).map fun last => { last with jobs } := by
  rw [scan_eq, scan_eq]
  rcases makeAll_jobs line jobs (Asked.of arguments).changes with hsame | hother
  · exact .inl (by rw [hsame])
  · refine .inr ?_
    rw [hother]
    cases (Asked.of arguments).ending <;> rfl

end CommandLine

namespace Asked

theorem stopped_ne_resolve (arguments : List Text) :
    (of arguments).ending ≠ .stopped .resolve := by
  fun_induction of arguments
  case case1 | case2 | case3 | case8 | case10 | case13 | case15 => nofun
  all_goals assumption

/-- What is asked for first, and then more. -/
def join (asked more : Asked) : Asked := ⟨asked.changes ++ more.changes, more.ending⟩

/-- Arguments that are scanned to their end leave those after them as they are. -/
theorem of_append {before : List Text} (h : (of before).ending = .complete)
    (after : List Text) : of (before ++ after) = (of before).join (of after) := by
  fun_induction of before
  case case1 => rfl
  -- The scan ends at an argument of these kinds.
  case case2 | case3 | case8 | case10 | case13 | case15 => cases h
  all_goals
    next ih =>
    rw [List.cons_append, of.eq_def]
    simp only [*, List.cons_append]
    exact congrArg (Change.before _) (ih h)

end Asked

namespace CommandLine

theorem makeAll_append (line : CommandLine) (changes more : List Change) :
    line.makeAll (changes ++ more) = (line.makeAll changes).makeAll more :=
  List.foldl_append

/-- Arguments that are scanned to their end are scanned before those after them. -/
theorem scan_append {before : List Text} (h : (Asked.of before).ending = .complete)
    (line : CommandLine) (after : List Text) :
    line.scan (before ++ after) = (line.makeAll (Asked.of before).changes).scan after := by
  rw [scan_eq, scan_eq, Asked.of_append h, Asked.join, makeAll_append]

/-- A scan that still has to resolve comes to the end of its arguments. -/
theorem ending_of_scan {arguments : List Text} {line : CommandLine}
    (hscan : scan {} arguments = .ok line) (hpurpose : line.purpose = .resolve) :
    (Asked.of arguments).ending = .complete := by
  rw [scan_eq] at hscan
  cases hending : (Asked.of arguments).ending with
  | complete => rfl
  | refused fault => rw [hending] at hscan; cases hscan
  | stopped purpose =>
      rw [hending] at hscan
      cases hscan
      subst hpurpose
      exact absurd hending (Asked.stopped_ne_resolve arguments)

/-- A parse is complete as its scan is, whatever the presentation. -/
theorem parse_of_scan {arguments others : List Text} {change : CommandLine → CommandLine}
    (hpurpose : ∀ line, (change line).purpose = line.purpose)
    (hinputs : ∀ line, (change line).inputs = line.inputs)
    (h : scan {} others = (scan {} arguments).map change) :
    parse others = (parse arguments).map change := by
  unfold parse
  rw [h]
  cases scan {} arguments with
  | error fault => rfl
  | ok line =>
      simp only [Except.map, bind, Except.bind, hpurpose, hinputs]
      split <;> rfl

theorem parse_quiet (arguments : List Text) :
    parse ("--quiet" :: arguments) =
      (parse arguments).map fun line => { line with quiet := true } :=
  parse_of_scan (fun _ => rfl) (fun _ => rfl) (scan_quiet {} arguments)

/-- With another count in its place an option for jobs means the same, but for the count. -/
theorem parse_jobs {before : List Text} (h : (Asked.of before).ending = .complete)
    {first second : Text} {count other : Nat} (hfirst : jobCount? first = some count)
    (hsecond : jobCount? second = some other) (after : List Text) :
    parse (before ++ ("--jobs=" ++ second) :: after) =
        parse (before ++ ("--jobs=" ++ first) :: after) ∨
      parse (before ++ ("--jobs=" ++ second) :: after) =
        (parse (before ++ ("--jobs=" ++ first) :: after)).map fun line =>
          { line with jobs := other } := by
  let reached := makeAll {} (Asked.of before).changes
  have hscan {text : Text} {jobs : Nat} (hjobs : jobCount? text = some jobs) :
      scan {} (before ++ ("--jobs=" ++ text) :: after) = { reached with jobs }.scan after := by
    rw [scan_append h, scan.eq_def]
    simp only [Argument.ofText_jobs, hjobs, reached]
  rcases scan_jobs { reached with jobs := count } other after with hsame | hother
  · refine .inl ?_
    unfold parse
    rw [hscan hfirst, hscan hsecond, ← hsame]
  · refine .inr (parse_of_scan (fun _ => rfl) (fun _ => rfl) ?_)
    rw [hscan hfirst, hscan hsecond, ← hother]

end CommandLine

end NameBinding
