import NameBinding.Proofs.RunAccount
import NameBinding.Proofs.Scanning

/-!
What a run shows of itself. Whatever prints progress asks whether the run is quiet, so each act
of a run is looked at by itself: to be quiet takes its lines away and nothing else, and to have
printed before puts its lines below the others. From the acts this goes over to the whole run.
It starts with a greeting that names its settings, and all that it does and prints after the
greeting depends on the files, the import roots, the options and the report only. So a quiet run
does the same in silence, and another job count is seen in the greeting alone.
-/

namespace NameBinding

namespace Run

/-- The run as it shows itself: in silence, or below the lines that were printed earlier. -/
def shown (run : Run) (quiet : Bool) (earlier : List Text) : Run :=
  { run with lines := if quiet then [] else earlier ++ run.lines }

/-- An act that does the same whether the run is quiet or not, and whatever was printed before it:
only what is shown of it differs. -/
def Discreet (act : Bool → Run → Run) : Prop :=
  ∀ (quiet : Bool) (earlier : List Text) (run : Run),
    act quiet (run.shown quiet earlier) = (act false run).shown quiet earlier

theorem Discreet.comp {first second : Bool → Run → Run} (hfirst : Discreet first)
    (hsecond : Discreet second) : Discreet fun quiet run => second quiet (first quiet run) := by
  intro quiet earlier run
  calc second quiet (first quiet (run.shown quiet earlier))
    _ = second quiet ((first false run).shown quiet earlier) := by rw [hfirst]
    _ = (second false (first false run)).shown quiet earlier := hsecond _ _ _

/-- What holds of each act holds of many of them. -/
theorem Discreet.foldl {α : Type} {act : Bool → Run → α → Run}
    (h : ∀ item, Discreet fun quiet run => act quiet run item) (items : List α) :
    Discreet fun quiet run => items.foldl (act quiet) run :=
  fun quiet earlier _ => List.foldl_hom (shown · quiet earlier) fun run item =>
    h item quiet earlier run

/-- What only prints may be left out where the run is quiet. -/
theorem OnlyPrints.discreet {print : Run → Run} (h : OnlyPrints print) :
    Discreet fun quiet run => if quiet then run else print run := by
  intro quiet earlier run
  dsimp only
  rw [if_neg Bool.false_ne_true, h run]
  cases quiet with
  | true => rfl
  | false =>
      rw [if_neg Bool.false_ne_true, h (run.shown false earlier)]
      simp [shown]

theorem discreet_fail (message : Message) : Discreet fun _ run => run.fail message :=
  fun _ _ _ => rfl

theorem discreet_diagnose (path : Text) (diagnostics : List Diagnostic) :
    Discreet fun _ run => run.diagnose path diagnostics :=
  fun _ _ _ => rfl

theorem discreet_register (path : Text) (modules : List Module) :
    Discreet fun _ run => run.register path modules :=
  fun _ _ _ => rfl

theorem discreet_queue (units : List (Text × SourceUnit)) :
    Discreet fun _ run => { run with units := run.units ++ units } :=
  fun _ _ _ => rfl

theorem discreet_loadInterface (disk : Disk) (file : Path) :
    Discreet fun _ run => run.loadInterface disk file := by
  unfold loadInterface
  dsimp only
  cases disk.read? file.toText with
  | none => exact discreet_fail _
  | some source => exact (discreet_diagnose _ _).comp (discreet_register _ _)

theorem discreet_announce (path : Text) (manifest : Manifest) :
    Discreet fun quiet run => run.announce quiet path manifest :=
  (onlyPrints_say _).discreet

theorem discreet_loadManifest (disk : Disk) (path : Text) :
    Discreet fun quiet run => run.loadManifest disk quiet path := by
  unfold loadManifest
  cases disk.read? path with
  | none => exact discreet_fail _
  | some source =>
      have hannounced := (discreet_diagnose path (Manifest.read .workspace source).2).comp
        (discreet_announce path (Manifest.read .workspace source).1)
      exact (hannounced.comp (discreet_register path _)).comp (discreet_queue _)

theorem discreet_loadInterfaces (disk : Disk) (roots : List Text) :
    Discreet fun quiet run => run.loadInterfaces disk quiet roots := by
  let discovery := Discovery.run disk (Discovery.searchRoots (roots.map Path.ofText))
  let count := "[notice] Module locator discovered " ++
    Text.decimal discovery.files.length ++ " interface file(s) from import roots."
  have hissues := Discreet.foldl (fun issue => discreet_fail (.badRoot issue)) discovery.issues
  have hfiles := Discreet.foldl (fun file => discreet_loadInterface disk file) discovery.files
  have hcount : Discreet fun quiet run =>
      if quiet || discovery.files.isEmpty then run else run.say count := by
    cases discovery.files.isEmpty with
    | true =>
        intro quiet earlier run
        simp only [Bool.or_true, if_true]
    | false =>
        simp only [Bool.or_false]
        exact (onlyPrints_say count).discreet
  exact (hissues.comp hcount).comp hfiles

theorem discreet_tellUnit (path : Text) (unit : ResolvedUnit) :
    Discreet fun quiet run => run.tellUnit quiet path unit :=
  (discreet_diagnose path unit.log.entries).comp (onlyPrints_tellResolved unit).discreet

theorem discreet_freeze : Discreet fun quiet run => run.freeze quiet := by
  intro quiet earlier run
  exact (onlyPrints_say _).discreet quiet earlier { run with registry := run.registry.freeze }

section Shown

variable (run : Run) (quiet : Bool) (earlier : List Text)

theorem writeReport_shown (disk : Disk) (path content : Text) :
    (run.shown quiet earlier).writeReport quiet disk path content =
      ((run.writeReport false disk path content).1.shown quiet earlier,
        (run.writeReport false disk path content).2) := by
  unfold writeReport
  obtain ⟨left, outcome⟩ := disk.write path content
  cases outcome with
  | ok done =>
      exact congrArg (·, left, some content)
        ((onlyPrints_say _).discreet quiet earlier run)
  | error fault => rfl

theorem finish_shown (disk : Disk) (report : Option Text) :
    (run.shown quiet earlier).finish quiet disk report =
      { run.finish false disk report with
        lines := if quiet then [] else earlier ++ (run.finish false disk report).lines } := by
  have hfailed : (run.shown quiet earlier).failed = run.failed := rfl
  unfold finish
  rw [hfailed]
  cases run.failed with
  | true => rfl
  | false =>
      have hlast := (onlyPrints_say "[notice] All references resolved.").discreet quiet earlier run
      dsimp only at hlast ⊢
      rw [if_neg Bool.false_ne_true, if_neg Bool.false_ne_true, hlast]
      rfl

end Shown

end Run

/-- The lines that a run begins with. -/
def CommandLine.greeting (line : CommandLine) : List Text :=
  let submodules : Text := if line.options.reexport then "reexport" else "explicit"
  "[information] Starting sigil-resolve." :: ("  submodules: " ++ submodules) ::
    ("  jobs: " ++ Text.decimal line.jobs) :: line.inputs.map fun path => "  input: " ++ path

theorem Run.foldl_say (run : Run) (lines : List Text) :
    lines.foldl Run.say run = { run with lines := run.lines ++ lines } := by
  induction lines generalizing run with
  | nil => simp
  | cons line lines ih => rw [List.foldl_cons, ih]; simp [Run.say]

theorem Run.greet_eq (line : CommandLine) :
    ({} : Run).greet line = ({} : Run).shown line.quiet line.greeting := by
  have hprinted : line.greeting.foldl Run.say {} = ({} : Run).shown false line.greeting := by
    rw [Run.foldl_say, Run.shown, List.nil_append, if_neg Bool.false_ne_true, List.append_nil]
  unfold Run.greet
  cases line.quiet with
  | true => rfl
  | false =>
      rw [if_neg Bool.false_ne_true, ← hprinted]
      simp only [CommandLine.greeting, List.foldl_cons, List.foldl_map]

namespace Tool

/-- What comes after the greeting and before the report, where all is shown. -/
def proceed (disk : Disk) (importRoots inputs : List Text) (options : Options) :
    Run × List ResolvedUnit :=
  let run := ({} : Run).loadInterfaces disk false importRoots
  let run := (inputs.foldl (Run.loadManifest disk false) run).freeze false
  let (paths, units) := run.units.unzip
  let resolved := units.map (SourceUnit.resolve run.registry options)
  let run := (paths.zip resolved).foldl (fun run (path, unit) => run.tellUnit false path unit) run
  (run, resolved)

/-- The report, if one is asked for, and the last word. -/
def conclude (disk : Disk) (report : Option Text) (done : Run × List ResolvedUnit) : Completion :=
  match report with
  | none => done.1.finish false disk none
  | some path =>
    let (run, disk, content) := done.1.writeReport false disk path (renderReport done.2)
    run.finish false disk content

/-- What becomes of a run, whatever it shows of itself. -/
def settle (disk : Disk) (line : CommandLine) : Completion :=
  conclude disk line.report (proceed disk line.importRoots line.inputs line.options)

/-- Act by act, a run does what the run that shows all does, below its greeting or in silence. -/
theorem resolveAll_eq (disk : Disk) (line : CommandLine) :
    resolveAll disk line =
      ((proceed disk line.importRoots line.inputs line.options).1.shown line.quiet line.greeting,
        (proceed disk line.importRoots line.inputs line.options).2) := by
  have hloaded : Run.Discreet fun quiet run =>
      (line.inputs.foldl (Run.loadManifest disk quiet)
        (run.loadInterfaces disk quiet line.importRoots)).freeze quiet :=
    ((Run.discreet_loadInterfaces disk line.importRoots).comp
      (.foldl (fun path => Run.discreet_loadManifest disk path) line.inputs)).comp
      Run.discreet_freeze
  have htold (units : List (Text × ResolvedUnit)) :
      Run.Discreet fun quiet run =>
        units.foldl (fun run (path, unit) => run.tellUnit quiet path unit) run :=
    .foldl (fun (path, unit) => Run.discreet_tellUnit path unit) units
  have hfrozen := hloaded line.quiet line.greeting {}
  unfold resolveAll proceed
  dsimp only at hfrozen ⊢
  rw [Run.greet_eq, hfrozen]
  simp only [SourceUnit.resolveAll_eq_map]
  exact congrArg (·, _) (htold _ line.quiet line.greeting _)

/-- A run does what it does below its greeting, and a quiet one shows nothing of it. -/
theorem resolve_eq (disk : Disk) (line : CommandLine) :
    resolve disk line =
      { settle disk line with
        lines := if line.quiet then [] else line.greeting ++ (settle disk line).lines } := by
  unfold resolve settle conclude
  rw [resolveAll_eq]
  cases line.report with
  | none => exact Run.finish_shown _ line.quiet line.greeting disk none
  | some path =>
      dsimp only
      rw [Run.writeReport_shown]
      exact Run.finish_shown _ line.quiet line.greeting _ _

theorem settle_eq (disk : Disk) {line changed : CommandLine}
    (hroots : changed.importRoots = line.importRoots) (hinputs : changed.inputs = line.inputs)
    (hoptions : changed.options = line.options) (hreport : changed.report = line.report) :
    settle disk changed = settle disk line := by
  rw [settle, settle, hroots, hinputs, hoptions, hreport]

end Tool

/-- Two runs that leave the same behind but for their output. -/
structure Completion.Alike (left right : Completion) : Prop where
  exit : left.exit = right.exit
  messages : left.messages = right.messages
  disk : left.disk = right.disk
  report : left.report = right.report

theorem Completion.Alike.refl (completion : Completion) : completion.Alike completion :=
  ⟨rfl, rfl, rfl, rfl⟩

/-- The same lines, but for one that tells a job count. -/
def SameButJobs (left right : List Text) : Prop :=
  left = right ∨ ∃ (earlier later : List Text) (count other : Nat),
    left = earlier ++ ("  jobs: " ++ Text.decimal count) :: later ∧
      right = earlier ++ ("  jobs: " ++ Text.decimal other) :: later

namespace Tool

/-- The arguments ask for the help or for the version, and these are all that is then shown. -/
def ShowsItself (arguments : List Text) : Prop :=
  ∃ line, CommandLine.parse arguments = .ok line ∧ line.purpose ≠ .resolve

theorem showsItself_iff {arguments : List Text} {line : CommandLine}
    (h : CommandLine.parse arguments = .ok line) :
    ShowsItself arguments ↔ line.purpose ≠ .resolve := by
  rw [ShowsItself, h]
  constructor
  · rintro ⟨other, hother, hshows⟩
    cases hother
    exact hshows
  · exact fun hshows => ⟨line, rfl, hshows⟩

theorem resolve_quiet (disk : Disk) (line : CommandLine) :
    resolve disk { line with quiet := true } = { resolve disk line with lines := [] } := by
  rw [resolve_eq, resolve_eq, settle_eq disk rfl rfl rfl rfl]
  rfl

theorem resolve_jobs (disk : Disk) (line : CommandLine) (jobs : Nat) :
    (resolve disk line).Alike (resolve disk { line with jobs }) ∧
      SameButJobs (resolve disk line).lines (resolve disk { line with jobs }).lines := by
  have hsettle : settle disk { line with jobs } = settle disk line :=
    settle_eq disk rfl rfl rfl rfl
  rw [resolve_eq disk line, resolve_eq disk { line with jobs }, hsettle]
  refine ⟨⟨rfl, rfl, rfl, rfl⟩, ?_⟩
  cases hquiet : line.quiet with
  | true => exact .inl rfl
  | false => exact .inr ⟨[_, _], _, line.jobs, jobs, rfl, rfl⟩

/-- A quiet run leaves behind what the run would have left, and prints nothing but the help or
the version. -/
theorem run_quiet (disk : Disk) (arguments : List Text) :
    (run disk ("--quiet" :: arguments)).Alike (run disk arguments) ∧
      (ShowsItself arguments →
        (run disk ("--quiet" :: arguments)).lines = (run disk arguments).lines) ∧
      (¬ ShowsItself arguments → (run disk ("--quiet" :: arguments)).lines = []) := by
  unfold run
  rw [CommandLine.parse_quiet]
  cases hparse : CommandLine.parse arguments with
  | error fault => exact ⟨.refl _, fun _ => rfl, fun _ => rfl⟩
  | ok line =>
      rw [showsItself_iff hparse]
      have hquiet := resolve_quiet disk line
      dsimp only [Except.map]
      cases hpurpose : line.purpose with
      | help => exact ⟨.refl _, fun _ => rfl, fun hsilent => (hsilent nofun).elim⟩
      | version => exact ⟨.refl _, fun _ => rfl, fun hsilent => (hsilent nofun).elim⟩
      | resolve =>
          rw [hpurpose] at hquiet
          dsimp only
          rw [hquiet]
          exact ⟨⟨rfl, rfl, rfl, rfl⟩, fun hshows => absurd rfl hshows, fun _ => rfl⟩

/-- A run with another job count leaves the same behind and prints the same, but for one line. -/
theorem run_jobs (disk : Disk) {before : List Text}
    (h : (Asked.of before).ending = .complete) {first second : Text} {count other : Nat}
    (hfirst : CommandLine.jobCount? first = some count)
    (hsecond : CommandLine.jobCount? second = some other) (after : List Text) :
    (run disk (before ++ ("--jobs=" ++ first) :: after)).Alike
        (run disk (before ++ ("--jobs=" ++ second) :: after)) ∧
      SameButJobs (run disk (before ++ ("--jobs=" ++ first) :: after)).lines
        (run disk (before ++ ("--jobs=" ++ second) :: after)).lines := by
  unfold run
  rcases CommandLine.parse_jobs h hfirst hsecond after with hsame | hother
  · rw [hsame]
    exact ⟨.refl _, .inl rfl⟩
  · rw [hother]
    cases CommandLine.parse (before ++ ("--jobs=" ++ first) :: after) with
    | error fault => exact ⟨.refl _, .inl rfl⟩
    | ok line =>
        dsimp only [Except.map]
        cases line.purpose with
        | help => exact ⟨.refl _, .inl rfl⟩
        | version => exact ⟨.refl _, .inl rfl⟩
        | resolve => exact resolve_jobs disk line other

/-- How a run is presented does not change what it does. A quiet run leaves behind what the run
without the option does, in silence unless it shows the help or the version. Where an option for
jobs is reached by the scan, one accepted count does as well as another, and only the line that
tells the count can differ. -/
theorem run_presentation (disk : Disk) :
    (∀ arguments : List Text,
      (run disk ("--quiet" :: arguments)).Alike (run disk arguments) ∧
        (ShowsItself arguments →
          (run disk ("--quiet" :: arguments)).out = (run disk arguments).out) ∧
        (¬ ShowsItself arguments → (run disk ("--quiet" :: arguments)).out = [])) ∧
    ∀ (before after : List Text) (reached : CommandLine) (first second : Text)
      (count other : Nat),
      CommandLine.scan {} before = .ok reached → reached.purpose = .resolve →
      CommandLine.jobCount? first = some count → CommandLine.jobCount? second = some other →
      (run disk (before ++ ("--jobs=" ++ first) :: after)).Alike
          (run disk (before ++ ("--jobs=" ++ second) :: after)) ∧
        SameButJobs (run disk (before ++ ("--jobs=" ++ first) :: after)).lines
          (run disk (before ++ ("--jobs=" ++ second) :: after)).lines := by
  constructor
  · intro arguments
    obtain ⟨halike, hshown, hsilent⟩ := run_quiet disk arguments
    refine ⟨halike, fun hshows => ?_, fun hshows => ?_⟩
    · rw [Completion.out, Completion.out, hshown hshows]
    · rw [Completion.out, hsilent hshows, List.flatMap_nil]
  · intro before after reached first second count other hscan hpurpose hfirst hsecond
    exact run_jobs disk (CommandLine.ending_of_scan hscan hpurpose) hfirst hsecond after

theorem run_presentation_tidy :
    let disk : Disk := { root := .folder [
      ("lib", .folder [("sports.sigilmod", .file "module Triathlon\n  func swim\nend\n")]),
      ("tidy", .file "unit Meet\n  import Triathlon\n  reference swim\nend\n")] }
    let arguments (count : Text) : List Text :=
      (["--import-root=lib"] : List Text) ++ ("--jobs=" ++ count) :: ["--emit-report=out", "tidy"]
    (run disk ("--quiet" :: arguments "2")).report = (run disk (arguments "2")).report ∧
      (run disk (arguments "2")).report.isSome ∧ (run disk (arguments "2")).lines.length = 11 ∧
      ¬ ShowsItself (arguments "2") ∧ (run disk ("--quiet" :: arguments "2")).out = [] ∧
      (run disk (arguments "2")).Alike (run disk (arguments "7")) ∧
      SameButJobs (run disk (arguments "2")).lines (run disk (arguments "7")).lines ∧
      (run disk (arguments "2")).lines ≠ (run disk (arguments "7")).lines := by
  intro disk arguments
  obtain ⟨hquiet, hjobs⟩ := run_presentation disk
  obtain ⟨halike, -, hsilent⟩ := hquiet (arguments "2")
  have hparse : CommandLine.parse (arguments "2") =
      .ok { inputs := ["tidy"], importRoots := ["lib"], jobs := 2, report := some "out" } := rfl
  have hshows : ¬ ShowsItself (arguments "2") := by
    rw [showsItself_iff hparse]
    exact fun hother => hother rfl
  obtain ⟨hsame, hlines⟩ := hjobs ["--import-root=lib"] ["--emit-report=out", "tidy"]
    { importRoots := ["lib"] } "2" "7" 2 7 rfl rfl rfl rfl
  exact ⟨halike.report, by decide +kernel, by decide +kernel, hshows, hsilent hshows, hsame,
    hlines, by decide +kernel⟩

end Tool

end NameBinding
