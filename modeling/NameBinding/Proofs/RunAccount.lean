import NameBinding.Tool
import NameBinding.Proofs.WellFormed
import NameBinding.Proofs.Workers

/-!
The account of a run. Every file that can be opened is read, every module that is read is
registered and every unit is resolved, whatever else goes wrong; the error stream tells of all
of it in that order, and the run has failed just if there is an error on it.
-/

namespace NameBinding

namespace Registry

/-- What is said when modules are registered one after the other. -/
def refusals (registry : Registry) : List Module → List Diagnostic
  | [] => []
  | first :: rest =>
    ((registry.refusal? first).map (·.diagnostic)).toList ++
      (registry.register first).refusals rest

/-- What is answered to those who register them. -/
def statuses (registry : Registry) : List Module → List RegistrationStatus
  | [] => []
  | first :: rest => registry.status first :: (registry.register first).statuses rest

theorem diagnostics_registerAll (registry : Registry) (modules : List Module) :
    (registry.registerAll modules).diagnostics =
      registry.diagnostics ++ registry.refusals modules := by
  induction modules generalizing registry with
  | nil => exact (List.append_nil _).symm
  | cons first rest ih =>
      have hfirst : (registry.register first).diagnostics =
          registry.diagnostics ++ ((registry.refusal? first).map (·.diagnostic)).toList := by
        unfold register
        cases registry.refusal? first with
        | none => exact (List.append_nil _).symm
        | some refusal => rfl
      have hall : registry.registerAll (first :: rest) =
          (registry.register first).registerAll rest := rfl
      rw [hall, ih, hfirst, List.append_assoc, refusals]

theorem registerAll_append (registry : Registry) (modules more : List Module) :
    registry.registerAll (modules ++ more) = (registry.registerAll modules).registerAll more :=
  List.foldl_append

theorem refusals_eq_nil_iff (registry : Registry) (modules : List Module) :
    registry.refusals modules = [] ↔
      ∀ status ∈ registry.statuses modules, status = .registered := by
  induction modules generalizing registry with
  | nil => simp [refusals, statuses]
  | cons first rest ih =>
      rw [refusals, statuses, List.append_eq_nil_iff, List.forall_mem_cons, ih,
        status_eq_registered_iff]
      cases registry.refusal? first <;> simp

end Registry

namespace Run

/-- What a part of a run does: it adds messages to the error stream, modules to the registry and
units to resolve, and it fails the run if one of the messages is an error. -/
structure Adds (run : Run) (told : List Message) (taken : List Module)
    (queued : List (Text × SourceUnit)) (next : Run) : Prop where
  messages : next.messages = run.messages ++ told
  registry : next.registry = run.registry.registerAll taken
  units : next.units = run.units ++ queued
  failed : next.failed = (run.failed || told.any (·.isError))

section Adds

variable {run next last : Run} {told more : List Message} {taken others : List Module}
  {queued rest : List (Text × SourceUnit)}

theorem Adds.trans (h : run.Adds told taken queued next) (hlast : next.Adds more others rest last) :
    run.Adds (told ++ more) (taken ++ others) (queued ++ rest) last where
  messages := by rw [hlast.messages, h.messages, List.append_assoc]
  registry := by rw [hlast.registry, h.registry, Registry.registerAll_append]
  units := by rw [hlast.units, h.units, List.append_assoc]
  failed := by rw [hlast.failed, h.failed, List.any_append, Bool.or_assoc]

/-- Lines on the output are not counted. -/
theorem adds_nil (hmessages : next.messages = run.messages)
    (hregistry : next.registry = run.registry) (hunits : next.units = run.units)
    (hfailed : next.failed = run.failed) : run.Adds [] [] [] next where
  messages := by rw [hmessages, List.append_nil]
  registry := hregistry
  units := by rw [hunits, List.append_nil]
  failed := by rw [hfailed, List.any_nil, Bool.or_false]

theorem adds_fail (run : Run) {message : Message} (h : message.isError = true) :
    run.Adds [message] [] [] (run.fail message) where
  messages := rfl
  registry := rfl
  units := (List.append_nil _).symm
  failed := by rw [List.any_cons, h, Bool.true_or, Bool.or_true]; rfl

theorem adds_diagnose (run : Run) (path : Text) (diagnostics : List Diagnostic) :
    run.Adds (diagnostics.map (.diagnostic path)) [] [] (run.diagnose path diagnostics) where
  messages := rfl
  registry := rfl
  units := (List.append_nil _).symm
  failed := by rw [List.any_map]; rfl

theorem adds_register (run : Run) (path : Text) (modules : List Module) :
    run.Adds ((run.registry.refusals modules).map (.diagnostic path)) modules []
      (run.register path modules) := by
  have hfresh : (run.registry.registerAll modules).diagnostics.drop
      run.registry.diagnostics.length = run.registry.refusals modules := by
    rw [Registry.diagnostics_registerAll, List.drop_left]
  have hdiagnose := adds_diagnose { run with registry := run.registry.registerAll modules } path
    (run.registry.refusals modules)
  unfold register
  simp only [hfresh]
  exact ⟨hdiagnose.messages, rfl, hdiagnose.units, hdiagnose.failed⟩

theorem adds_queue (run : Run) (units : List (Text × SourceUnit)) :
    run.Adds [] [] units { run with units := run.units ++ units } where
  messages := (List.append_nil _).symm
  registry := rfl
  units := rfl
  failed := (Bool.or_false _).symm

theorem Adds.before_nothing (h : run.Adds told taken queued next)
    (hlast : next.Adds [] [] [] last) : run.Adds told taken queued last := by
  simpa using h.trans hlast

theorem Adds.after_nothing (hfirst : run.Adds [] [] [] next)
    (h : next.Adds told taken queued last) : run.Adds told taken queued last := hfirst.trans h

/-- One part after the other. -/
theorem adds_foldl {α : Type} {act : Run → α → Run} {told : α → List Message}
    (h : ∀ (run : Run) (item : α), run.Adds (told item) [] [] (act run item)) (run : Run)
    (items : List α) : run.Adds (items.flatMap told) [] [] (items.foldl act run) := by
  induction items generalizing run with
  | nil => exact adds_nil rfl rfl rfl rfl
  | cons first rest ih => exact (h run first).trans (ih _)

end Adds

section Prints

/-- An act that only prints: any run gains the lines that a new one would. -/
def OnlyPrints (act : Run → Run) : Prop :=
  ∀ run : Run, act run = { run with lines := run.lines ++ (act {}).lines }

theorem onlyPrints_say (line : Text) : OnlyPrints (say · line) := fun _ => rfl

theorem OnlyPrints.comp {first second : Run → Run} (hfirst : OnlyPrints first)
    (hsecond : OnlyPrints second) : OnlyPrints fun run => second (first run) := by
  intro run
  dsimp only
  rw [hsecond (first run), hsecond (first {}), hfirst run, List.append_assoc]

theorem OnlyPrints.foldl {α : Type} {act : Run → α → Run} (h : ∀ item, OnlyPrints (act · item))
    (items : List α) : OnlyPrints fun run => items.foldl act run := by
  induction items with
  | nil =>
      intro run
      simp only [List.foldl_nil, List.append_nil]
  | cons first rest ih => exact (h first).comp ih

theorem onlyPrints_tellReference (resolved : ResolvedReference) :
    OnlyPrints (tellReference · resolved) := by
  unfold tellReference
  cases resolved.outcome with
  | failed failure =>
      intro run
      exact (congrArg (fun lines => { run with lines }) (List.append_nil run.lines)).symm
  | found located tier => exact onlyPrints_say _

theorem onlyPrints_tellResolved (unit : ResolvedUnit) : OnlyPrints (tellResolved · unit) :=
  (onlyPrints_say _).comp (.foldl onlyPrints_tellReference unit.references)

/-- Whether or not the run is quiet, what only prints is not counted. -/
theorem OnlyPrints.adds {print : Run → Run} (h : OnlyPrints print) (quiet : Bool) (run : Run) :
    run.Adds [] [] [] (if quiet then run else print run) := by
  cases quiet with
  | true => exact adds_nil rfl rfl rfl rfl
  | false =>
      rw [if_neg Bool.false_ne_true, h run]
      exact adds_nil rfl rfl rfl rfl

end Prints

end Run

namespace Tool

/-- A file that a run asks for, and how it is read. -/
structure Source where
  mode : ManifestMode
  path : Text

/-- What the file holds, unless it cannot be opened. -/
def Source.reading? (disk : Disk) (source : Source) : Option (Manifest × List Diagnostic) :=
  (disk.read? source.path).map (Manifest.read source.mode)

/-- What can be opened, with the paths. -/
def opened (disk : Disk) (sources : List Source) : List (Text × Manifest) :=
  sources.filterMap fun source => (source.reading? disk).map fun reading => (source.path, reading.1)

def modulesOf (opened : List (Text × Manifest)) : List Module := opened.flatMap (·.2.modules)

def unitsOf (opened : List (Text × Manifest)) : List (Text × SourceUnit) :=
  opened.flatMap fun (path, manifest) => manifest.units.map fun unit => (path, unit)

/-- What is told while the sources are taken in: what is wrong with each, and then what is wrong
with its modules in the registry that those before it have filled. -/
def remarks (disk : Disk) (registry : Registry) : List Source → List Message
  | [] => []
  | source :: rest =>
    match source.reading? disk with
    | none => .unreadable source.path :: remarks disk registry rest
    | some (manifest, diagnostics) =>
      (diagnostics ++ registry.refusals manifest.modules).map (.diagnostic source.path) ++
        remarks disk (registry.registerAll manifest.modules) rest

section Sources

variable {disk : Disk} {source : Source}

theorem opened_append (disk : Disk) (sources more : List Source) :
    opened disk (sources ++ more) = opened disk sources ++ opened disk more :=
  List.filterMap_append

theorem modulesOf_append (earlier later : List (Text × Manifest)) :
    modulesOf (earlier ++ later) = modulesOf earlier ++ modulesOf later := List.flatMap_append

theorem unitsOf_append (earlier later : List (Text × Manifest)) :
    unitsOf (earlier ++ later) = unitsOf earlier ++ unitsOf later := List.flatMap_append

theorem opened_of_missing (h : disk.read? source.path = none) : opened disk [source] = [] := by
  simp [opened, Source.reading?, h]

theorem opened_of_read {content : Text} (h : disk.read? source.path = some content) :
    opened disk [source] = [(source.path, (Manifest.read source.mode content).1)] := by
  simp [opened, Source.reading?, h]

theorem remarks_of_missing (h : disk.read? source.path = none) (registry : Registry)
    (rest : List Source) :
    remarks disk registry (source :: rest) =
      .unreadable source.path :: remarks disk registry rest := by
  simp [remarks, Source.reading?, h]

theorem remarks_of_read {content : Text} (h : disk.read? source.path = some content)
    (registry : Registry) (rest : List Source) :
    remarks disk registry (source :: rest) =
      ((Manifest.read source.mode content).2 ++
          registry.refusals (Manifest.read source.mode content).1.modules).map
        (.diagnostic source.path) ++
      remarks disk (registry.registerAll (Manifest.read source.mode content).1.modules) rest := by
  simp [remarks, Source.reading?, h]

theorem remarks_cons (registry : Registry) (rest : List Source) :
    remarks disk registry (source :: rest) =
      remarks disk registry [source] ++
        remarks disk (registry.registerAll (modulesOf (opened disk [source]))) rest := by
  cases hread : disk.read? source.path with
  | none =>
      rw [remarks_of_missing hread, remarks_of_missing hread, opened_of_missing hread]
      rfl
  | some content =>
      rw [remarks_of_read hread, remarks_of_read hread, opened_of_read hread]
      simp [modulesOf, remarks]

theorem remarks_append (registry : Registry) (sources more : List Source) :
    remarks disk registry (sources ++ more) =
      remarks disk registry sources ++
        remarks disk (registry.registerAll (modulesOf (opened disk sources))) more := by
  induction sources generalizing registry with
  | nil => rfl
  | cons first rest ih =>
      have hmodules : modulesOf (opened disk (first :: rest)) =
          modulesOf (opened disk [first]) ++ modulesOf (opened disk rest) := by
        rw [← modulesOf_append, ← opened_append, List.singleton_append]
      rw [List.cons_append, remarks_cons, ih, remarks_cons registry rest, hmodules,
        Registry.registerAll_append, List.append_assoc]

end Sources

end Tool

namespace Run

variable {disk : Disk} {run next last : Run} {source : Tool.Source}

/-- The part of a run that takes in sources. -/
def TakesIn (disk : Disk) (run : Run) (sources : List Tool.Source) (next : Run) : Prop :=
  run.Adds (Tool.remarks disk run.registry sources)
    (Tool.modulesOf (Tool.opened disk sources)) (Tool.unitsOf (Tool.opened disk sources)) next

theorem takesIn_missing (h : disk.read? source.path = none) :
    run.TakesIn disk [source] (run.fail (.unreadable source.path)) := by
  unfold TakesIn
  rw [Tool.remarks_of_missing h, Tool.opened_of_missing h]
  exact run.adds_fail rfl

theorem takesIn_read {content : Text} (h : disk.read? source.path = some content)
    (hnext : run.Adds
      (((Manifest.read source.mode content).2 ++
          run.registry.refusals (Manifest.read source.mode content).1.modules).map
        (.diagnostic source.path))
      (Manifest.read source.mode content).1.modules
      ((Manifest.read source.mode content).1.units.map fun unit => (source.path, unit)) next) :
    run.TakesIn disk [source] next := by
  unfold TakesIn
  rw [Tool.remarks_of_read h, Tool.opened_of_read h, Tool.remarks, List.append_nil]
  simpa [Tool.modulesOf, Tool.unitsOf] using hnext

theorem takesIn_loadInterface (run : Run) (file : Path) :
    run.TakesIn disk [⟨.interface, file.toText⟩] (run.loadInterface disk file) := by
  cases hread : disk.read? file.toText with
  | none =>
      have hload : run.loadInterface disk file = run.fail (.unreadable file.toText) := by
        simp only [loadInterface, hread]
      rw [hload]
      exact takesIn_missing hread
  | some content =>
      have hload : run.loadInterface disk file =
          (run.diagnose file.toText (Manifest.read .interface content).2).register file.toText
            (Manifest.read .interface content).1.modules := by
        simp only [loadInterface, hread]
      have hunits : (Manifest.read .interface content).1.units = [] :=
        (Manifest.wellFormed_read .interface content).unitless rfl
      rw [hload]
      refine takesIn_read hread ?_
      rw [hunits, List.map_append]
      exact (run.adds_diagnose _ _).trans (adds_register _ _ _)

theorem takesIn_loadManifest (quiet : Bool) (run : Run) (path : Text) :
    run.TakesIn disk [⟨.workspace, path⟩] (run.loadManifest disk quiet path) := by
  cases hread : disk.read? path with
  | none =>
      have hload : run.loadManifest disk quiet path = run.fail (.unreadable path) := by
        simp only [loadManifest, hread]
      rw [hload]
      exact takesIn_missing hread
  | some content =>
      let diagnosed := run.diagnose path (Manifest.read .workspace content).2
      let announced := diagnosed.announce quiet path (Manifest.read .workspace content).1
      let registered := announced.register path (Manifest.read .workspace content).1.modules
      have hload : run.loadManifest disk quiet path =
          { registered with
            units := registered.units ++
              (Manifest.read .workspace content).1.units.map fun unit => (path, unit) } := by
        simp only [loadManifest, hread]
        rfl
      have hnotice : diagnosed.Adds [] [] [] announced := (onlyPrints_say _).adds quiet diagnosed
      have hannounced := (run.adds_diagnose path (Manifest.read .workspace content).2).trans hnotice
      have hqueued := (hannounced.trans (adds_register announced path _)).trans
        (adds_queue registered
          ((Manifest.read .workspace content).1.units.map fun unit => (path, unit)))
      have hregistry : announced.registry = run.registry := hnotice.registry
      rw [hregistry] at hqueued
      rw [hload]
      refine takesIn_read hread ?_
      simpa using hqueued

theorem TakesIn.trans {sources more : List Tool.Source} (h : run.TakesIn disk sources next)
    (hmore : next.TakesIn disk more last) : run.TakesIn disk (sources ++ more) last := by
  have hboth := Adds.trans h hmore
  rw [h.registry, ← Tool.remarks_append, ← Tool.modulesOf_append, ← Tool.unitsOf_append,
    ← Tool.opened_append] at hboth
  exact hboth

theorem takesIn_foldl {α : Type} {act : Run → α → Run} {source : α → Tool.Source}
    (h : ∀ (run : Run) (item : α), run.TakesIn disk [source item] (act run item)) (run : Run)
    (items : List α) : run.TakesIn disk (items.map source) (items.foldl act run) := by
  induction items generalizing run with
  | nil => exact adds_nil rfl rfl rfl rfl
  | cons first rest ih => exact (h run first).trans (ih _)

end Run

namespace Tool

variable (disk : Disk) (line : CommandLine)

/-- The folders that are searched for interfaces. -/
def roots : List Path := Discovery.searchRoots (line.importRoots.map Path.ofText)

/-- The interfaces found below the import roots, and then the manifests that are named. -/
def sources : List Source :=
  ((Discovery.run disk (roots line)).files.map fun file => ⟨.interface, file.toText⟩) ++
    line.inputs.map fun path => ⟨.workspace, path⟩

def modules : List Module := modulesOf (opened disk (sources disk line))

def units : List (Text × SourceUnit) := unitsOf (opened disk (sources disk line))

/-- The registry that the units see: whatever the sources hold is in it. -/
def registry : Registry := (({} : Registry).registerAll (modules disk line)).freeze

/-- Every unit, resolved, with the path of its manifest. -/
def resolved : List (Text × ResolvedUnit) :=
  (units disk line).map fun (path, unit) => (path, unit.resolve (registry disk line) line.options)

/-- What is told of import roots, sources and units. -/
def findings : List Message :=
  (Discovery.run disk (roots line)).issues.map .badRoot ++
    remarks disk {} (sources disk line) ++
    (resolved disk line).flatMap fun (path, unit) => unit.log.entries.map (.diagnostic path)

end Tool

namespace Run

theorem adds_greet (run : Run) (line : CommandLine) : run.Adds [] [] [] (run.greet line) := by
  have hinputs := OnlyPrints.foldl (fun path => onlyPrints_say ("  input: " ++ path)) line.inputs
  have hsettings (first second third : Text) :
      OnlyPrints fun run => ((run.say first).say second).say third :=
    ((onlyPrints_say first).comp (onlyPrints_say second)).comp (onlyPrints_say third)
  exact ((hsettings _ _ _).comp hinputs).adds line.quiet run

theorem adds_tellUnit (run : Run) (quiet : Bool) (path : Text) (unit : ResolvedUnit) :
    run.Adds (unit.log.entries.map (.diagnostic path)) [] [] (run.tellUnit quiet path unit) :=
  (run.adds_diagnose path unit.log.entries).before_nothing
    ((onlyPrints_tellResolved unit).adds quiet _)

/-- The interfaces are taken in after the import roots that are no folders have been told. -/
theorem adds_loadInterfaces (disk : Disk) (quiet : Bool) (run : Run) (texts : List Text) :
    let discovery := Discovery.run disk (Discovery.searchRoots (texts.map Path.ofText))
    let files := discovery.files.map fun file => (⟨.interface, file.toText⟩ : Tool.Source)
    run.Adds (discovery.issues.map .badRoot ++ Tool.remarks disk run.registry files)
      (Tool.modulesOf (Tool.opened disk files)) (Tool.unitsOf (Tool.opened disk files))
      (run.loadInterfaces disk quiet texts) := by
  intro discovery files
  let warned := discovery.issues.foldl (fun run issue => run.fail (.badRoot issue)) run
  let counted := if quiet || discovery.files.isEmpty then warned
    else warned.say ("[notice] Module locator discovered " ++
      Text.decimal discovery.files.length ++ " interface file(s) from import roots.")
  have hwarned : run.Adds (discovery.issues.map .badRoot) [] [] warned := by
    rw [List.map_eq_flatMap]
    exact adds_foldl (fun run issue => run.adds_fail rfl) run discovery.issues
  have hcounted : warned.Adds [] [] [] counted := (onlyPrints_say _).adds _ warned
  have hboth := hwarned.before_nothing hcounted
  have htaken : counted.TakesIn disk files (discovery.files.foldl (loadInterface disk) counted) :=
    takesIn_foldl takesIn_loadInterface counted discovery.files
  have hregistry : counted.registry = run.registry := hboth.registry
  have hload : run.loadInterfaces disk quiet texts =
      discovery.files.foldl (loadInterface disk) counted := rfl
  unfold TakesIn at htaken
  rw [hregistry] at htaken
  have hall := hboth.trans htaken
  rw [List.nil_append, List.nil_append] at hall
  rw [hload]
  exact hall

/-- What is told of the writing of a report. -/
def writingTold (path : Text) : Except WriteFault Unit → List Message
  | .ok () => []
  | .error fault => [.unwritten path fault]

theorem writeReport_spec (run : Run) (quiet : Bool) (disk : Disk) (path content : Text) :
    let writing := disk.write path content
    run.Adds (writingTold path writing.2) [] [] (run.writeReport quiet disk path content).1 ∧
      (run.writeReport quiet disk path content).2 =
        (writing.1, writing.2.toOption.map fun _ => content) := by
  intro writing
  unfold writeReport writing
  obtain ⟨left, outcome⟩ := disk.write path content
  cases outcome with
  | ok done => exact ⟨(onlyPrints_say _).adds quiet run, rfl⟩
  | error fault => exact ⟨run.adds_fail rfl, rfl⟩

/-- The last word on a run, when all that it has told is `said`. -/
theorem finish_spec (run : Run) {said : List Message} (hmessages : run.messages = said)
    (hfailed : run.failed = said.any (·.isError)) (quiet : Bool) (disk : Disk)
    (report : Option Text) :
    let completion := run.finish quiet disk report
    completion.exit = (if said.any (·.isError) then 1 else 0) ∧
      completion.messages =
        said ++ (if said.any (·.isError) then [.finishedWithErrors] else []) ∧
      completion.disk = disk ∧ completion.report = report := by
  rw [← hfailed, ← hmessages]
  unfold finish
  cases hrun : run.failed with
  | true => exact ⟨rfl, rfl, rfl, rfl⟩
  | false =>
      have hlast := (onlyPrints_say "[notice] All references resolved.").adds quiet run
      exact ⟨by simp [hlast.failed, hrun], hlast.messages, rfl, rfl⟩

end Run

namespace Tool

/-- What is in the hands of the run when the registry is frozen. -/
theorem adds_sources (disk : Disk) (line : CommandLine) :
    ({} : Run).Adds
      ((Discovery.run disk (roots line)).issues.map .badRoot ++ remarks disk {} (sources disk line))
      (modules disk line) (units disk line)
      (line.inputs.foldl (Run.loadManifest disk line.quiet)
        ((({} : Run).greet line).loadInterfaces disk line.quiet line.importRoots)) := by
  let greeted := ({} : Run).greet line
  have hgreeted : ({} : Run).Adds [] [] [] greeted := Run.adds_greet {} line
  have hinterfaces := hgreeted.after_nothing
    (Run.adds_loadInterfaces disk line.quiet greeted line.importRoots)
  have hinputs : (greeted.loadInterfaces disk line.quiet line.importRoots).TakesIn disk
      (line.inputs.map fun path => ⟨.workspace, path⟩)
      (line.inputs.foldl (Run.loadManifest disk line.quiet)
        (greeted.loadInterfaces disk line.quiet line.importRoots)) :=
    Run.takesIn_foldl (Run.takesIn_loadManifest line.quiet) _ _
  have hall := hinterfaces.trans hinputs
  have hregistry : greeted.registry = ({} : Run).registry := hgreeted.registry
  rw [hinterfaces.registry, hregistry, List.append_assoc, ← remarks_append, ← modulesOf_append,
    ← unitsOf_append, ← opened_append] at hall
  exact hall

/-- All the units are resolved, over what all the sources hold. -/
theorem resolveAll_spec (disk : Disk) (line : CommandLine) :
    (resolveAll disk line).2 = (resolved disk line).map (·.2) ∧
      (resolveAll disk line).1.registry = registry disk line ∧
      (resolveAll disk line).1.messages = findings disk line ∧
      (resolveAll disk line).1.failed = (findings disk line).any (·.isError) := by
  let loaded := line.inputs.foldl (Run.loadManifest disk line.quiet)
    ((({} : Run).greet line).loadInterfaces disk line.quiet line.importRoots)
  let frozen := loaded.freeze line.quiet
  have hloaded : ({} : Run).Adds _ _ _ loaded := adds_sources disk line
  have hfrozen : { loaded with registry := loaded.registry.freeze }.Adds [] [] [] frozen :=
    (Run.onlyPrints_say _).adds line.quiet _
  have hregistry : frozen.registry = registry disk line := by
    rw [registry, ← hloaded.registry]
    exact hfrozen.registry
  have hunits : frozen.units = units disk line := by
    rw [hfrozen.units, List.append_nil]
    exact hloaded.units
  have hresolved : SourceUnit.resolveAll frozen.registry line.options line.jobs
      frozen.units.unzip.2 = (resolved disk line).map (·.2) := by
    rw [SourceUnit.resolveAll_eq_map, hregistry, hunits, resolved, List.unzip_snd, List.map_map,
      List.map_map]
    rfl
  have hzip : frozen.units.unzip.1.zip ((resolved disk line).map (·.2)) =
      resolved disk line := by
    rw [hunits, resolved, List.unzip_fst, List.map_map, List.zip_map']
    rfl
  have hrun : (resolveAll disk line).1 = (resolved disk line).foldl
      (fun run (path, unit) => run.tellUnit line.quiet path unit) frozen := by
    rw [← hzip, ← hresolved]
    rfl
  have htold := hfrozen.after_nothing (Run.adds_foldl (fun run (item : Text × ResolvedUnit) =>
    run.adds_tellUnit line.quiet item.1 item.2) frozen (resolved disk line))
  refine ⟨hresolved, ?_, ?_, ?_⟩
  · rw [hrun, htold.registry, registry, ← hloaded.registry]
    rfl
  · calc (resolveAll disk line).1.messages
      _ = loaded.messages ++ _ := by rw [hrun, htold.messages]
      _ = findings disk line := by rw [hloaded.messages]; rfl
  · calc (resolveAll disk line).1.failed
      _ = (loaded.failed || _) := by rw [hrun, htold.failed]
      _ = (findings disk line).any (·.isError) := by
          rw [hloaded.failed, Bool.false_or, ← List.any_append]
          rfl

variable (disk : Disk) (line : CommandLine)

/-- The report on all the units, whatever became of them. -/
def reportText : Text := renderReport ((resolved disk line).map (·.2))

/-- The disk that a run leaves, and how the writing of the report went if one was asked for. -/
def written : Disk × Except WriteFault Unit :=
  match line.report with
  | none => (disk, .ok ())
  | some path => disk.write path (reportText disk line)

/-- All that is told, but for the last word. -/
def told : List Message :=
  findings disk line ++
    line.report.toList.flatMap fun path => Run.writingTold path (written disk line).2

def failed : Bool := (told disk line).any (·.isError)

/-- What a run comes to. -/
theorem resolve_spec (disk : Disk) (line : CommandLine) :
    (resolve disk line).exit = (if failed disk line then 1 else 0) ∧
      (resolve disk line).messages =
        told disk line ++ (if failed disk line then [.finishedWithErrors] else []) ∧
      (resolve disk line).disk = (written disk line).1 ∧
      (resolve disk line).report = line.report.bind fun _ =>
        (written disk line).2.toOption.map fun _ => reportText disk line := by
  obtain ⟨hresolved, -, hmessages, hfailed⟩ := resolveAll_spec disk line
  let run := (resolveAll disk line).1
  cases hreport : line.report with
  | none =>
      have htold : told disk line = findings disk line := by
        simp only [told, hreport, Option.toList_none, List.flatMap_nil, List.append_nil]
      have hresolve : resolve disk line = run.finish line.quiet disk none := by
        simp only [resolve, hreport, run]
      have hwritten : written disk line = (disk, .ok ()) := by simp only [written, hreport]
      rw [failed, htold, hresolve, hwritten]
      exact run.finish_spec hmessages hfailed line.quiet disk none
  | some path =>
      have hwritten : written disk line = disk.write path (reportText disk line) := by
        simp only [written, hreport]
      have htold : told disk line =
          findings disk line ++ Run.writingTold path (written disk line).2 := by
        simp only [told, hreport, Option.toList_some, List.flatMap_singleton]
      have hresolve : resolve disk line =
          (run.writeReport line.quiet disk path (reportText disk line)).1.finish line.quiet
            (run.writeReport line.quiet disk path (reportText disk line)).2.1
            (run.writeReport line.quiet disk path (reportText disk line)).2.2 := by
        simp only [resolve, hreport, hresolved, reportText, run]
      obtain ⟨hadds, hleft⟩ := run.writeReport_spec line.quiet disk path (reportText disk line)
      rw [failed, htold, hresolve, hleft, hwritten]
      refine Run.finish_spec _ ?_ ?_ line.quiet _ _
      · rw [hadds.messages, hmessages]
      · rw [hadds.failed, hfailed, List.any_append]

end Tool

end NameBinding
