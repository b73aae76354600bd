import NameBinding.Proofs.Messages
import NameBinding.Proofs.Registration
import NameBinding.Proofs.RunAccount
import NameBinding.Proofs.SearchRoots

/-!
The exit code. A run succeeds just if nothing at all went wrong in it, and it fails just if an
error was told. Import roots are looked up in their normal form, which is lexical: a name that
is not on the disk does no harm if two dots take it away again.
-/

namespace NameBinding

namespace Discovery

theorem issue?_eq_none_iff {disk : Disk} {folder : Path} :
    issue? disk folder = none ↔ ∃ entries, disk.find? folder.toText = some (.folder entries) := by
  unfold issue?
  split <;> simp [*]

theorem issues_eq_nil_iff {disk : Disk} {texts : List Text} :
    (run disk (searchRoots (texts.map Path.ofText))).issues = [] ↔
      ∀ root ∈ texts, root ≠ [] →
        ∃ entries, disk.find? (Path.searched root).toText = some (.folder entries) := by
  have hissues : (run disk (searchRoots (texts.map Path.ofText))).issues =
      (searchRoots (texts.map Path.ofText)).filterMap (issue? disk) := rfl
  rw [hissues, List.filterMap_eq_nil_iff]
  simp only [issue?_eq_none_iff, mem_searchRoots]
  constructor
  · intro h root hroot hnonempty
    exact h _ ⟨root, hroot, hnonempty, rfl⟩
  · rintro h _ ⟨root, hroot, hnonempty, rfl⟩
    exact h root hroot hnonempty

end Discovery

namespace Registry

theorem mem_refusals {registry : Registry} {modules : List Module} {said : Diagnostic}
    (h : said ∈ registry.refusals modules) : ∃ refusal : Refusal, said = refusal.diagnostic := by
  induction modules generalizing registry with
  | nil => cases h
  | cons first rest ih =>
      rcases List.mem_append.mp h with hfirst | hrest
      · obtain ⟨refusal, -, rfl⟩ := Option.map_eq_some_iff.mp (Option.mem_toList.mp hfirst)
        exact ⟨refusal, rfl⟩
      · exact ih hrest

theorem statuses_append (registry : Registry) (modules more : List Module) :
    registry.statuses (modules ++ more) =
      registry.statuses modules ++ (registry.registerAll modules).statuses more := by
  induction modules generalizing registry with
  | nil => rfl
  | cons first rest ih =>
      rw [List.cons_append, statuses, ih]
      rfl

end Registry

/-- Errors and warnings of the log tell how the imports and the references fared. -/
theorem SourceUnit.log_without_errors_iff (registry : Registry) (options : Options)
    (unit : SourceUnit) :
    let resolved := unit.resolve registry options
    (∀ said ∈ resolved.log.entries, said.isError = false) ↔
      (∀ entry ∈ resolved.imports.entries, entry.status = .resolved) ∧
        ∀ reference ∈ resolved.references, reference.outcome.status = .resolved := by
  intro resolved
  have herrors : resolved.log.entries.countP (·.isError) =
      resolved.imports.entries.countP (·.status != .resolved) +
        resolved.references.countP (·.failed) := by
    rw [entries_log, List.countP_append, ImportTable.errors_build_eq_failed,
      ResolvedReference.countP_errors]
    rfl
  calc (∀ said ∈ resolved.log.entries, said.isError = false)
    _ ↔ resolved.log.entries.countP (·.isError) = 0 := by simp
    _ ↔ resolved.imports.entries.countP (·.status != .resolved) = 0 ∧
          resolved.references.countP (·.failed) = 0 := by rw [herrors, Nat.add_eq_zero_iff]
    _ ↔ _ := by simp [ResolvedReference.failed]

namespace Tool

variable {disk : Disk}

/-- What can be told of a source: each is an error. -/
theorem mem_remarks {registry : Registry} {sources : List Source} {message : Message}
    (h : message ∈ remarks disk registry sources) :
    (∃ path, message = .unreadable path) ∨
      (∃ path, ∃ complaint : Complaint, message = .diagnostic path complaint.diagnostic) ∨
      ∃ path, ∃ refusal : Refusal, message = .diagnostic path refusal.diagnostic := by
  induction sources generalizing registry with
  | nil => cases h
  | cons source rest ih =>
      cases hread : disk.read? source.path with
      | none =>
          rw [remarks_of_missing hread, List.mem_cons] at h
          rcases h with rfl | hrest
          · exact .inl ⟨_, rfl⟩
          · exact ih hrest
      | some content =>
          rw [remarks_of_read hread, List.mem_append, List.mem_map] at h
          rcases h with ⟨said, hsaid, rfl⟩ | hrest
          · rcases List.mem_append.mp hsaid with hcomplaint | hrefusal
            · obtain ⟨complaint, -, rfl⟩ := List.mem_map.mp hcomplaint
              exact .inr (.inl ⟨_, complaint, rfl⟩)
            · obtain ⟨refusal, rfl⟩ := Registry.mem_refusals hrefusal
              exact .inr (.inr ⟨_, refusal, rfl⟩)
          · exact ih hrest

theorem isError_of_mem_remarks {registry : Registry} {sources : List Source} {message : Message}
    (h : message ∈ remarks disk registry sources) : message.isError = true := by
  rcases mem_remarks h with ⟨_, rfl⟩ | ⟨_, _, rfl⟩ | ⟨_, _, rfl⟩ <;> rfl

theorem remarks_eq_nil_iff {registry : Registry} {sources : List Source} :
    remarks disk registry sources = [] ↔
      (∀ source ∈ sources, ∃ content, disk.read? source.path = some content ∧
        (Manifest.read source.mode content).2 = []) ∧
      ∀ status ∈ registry.statuses (modulesOf (opened disk sources)), status = .registered := by
  induction sources generalizing registry with
  | nil => exact ⟨fun _ => ⟨nofun, nofun⟩, fun _ => rfl⟩
  | cons source rest ih =>
      cases hread : disk.read? source.path with
      | none =>
          rw [remarks_of_missing hread]
          simp [hread]
      | some content =>
          have hmodules : modulesOf (opened disk (source :: rest)) =
              (Manifest.read source.mode content).1.modules ++ modulesOf (opened disk rest) := by
            rw [← List.singleton_append, opened_append, opened_of_read hread, modulesOf_append]
            simp [modulesOf]
          rw [remarks_of_read hread, hmodules, List.append_eq_nil_iff, List.map_eq_nil_iff,
            List.append_eq_nil_iff, Registry.refusals_eq_nil_iff, ih, Registry.statuses_append,
            List.forall_mem_append, List.forall_mem_cons]
          simp only [hread, Option.some.injEq, exists_eq_left']
          tauto

/-- A run in which nothing goes wrong. Redundant imports do not count. -/
structure Flawless (disk : Disk) (line : CommandLine) : Prop where
  roots : ∀ root ∈ line.importRoots, root ≠ [] →
    ∃ entries, disk.find? (Path.searched root).toText = some (.folder entries)
  sources : ∀ source ∈ sources disk line, ∃ content, disk.read? source.path = some content ∧
    (Manifest.read source.mode content).2 = []
  modules : ∀ status ∈ ({} : Registry).statuses (modules disk line), status = .registered
  imports : ∀ unit ∈ resolved disk line, ∀ entry ∈ unit.2.imports.entries,
    entry.status = .resolved
  references : ∀ unit ∈ resolved disk line, ∀ reference ∈ unit.2.references,
    reference.outcome.status = .resolved
  report : ∀ path, line.report = some path →
    (disk.write path (reportText disk line)).2 = .ok ()

variable {line : CommandLine}

theorem forall_not_isError_iff {messages : List Message}
    (h : ∀ message ∈ messages, message.isError = true) :
    (∀ message ∈ messages, message.isError = false) ↔ messages = [] := by
  cases messages with
  | nil => simp
  | cons first rest => simp [h first List.mem_cons_self]

theorem units_without_errors_iff :
    (∀ message ∈ (resolved disk line).flatMap fun (path, unit) =>
        unit.log.entries.map (Message.diagnostic path), message.isError = false) ↔
      (∀ unit ∈ resolved disk line, ∀ entry ∈ unit.2.imports.entries, entry.status = .resolved) ∧
        ∀ unit ∈ resolved disk line, ∀ reference ∈ unit.2.references,
          reference.outcome.status = .resolved := by
  have hunit : ∀ unit ∈ resolved disk line, (∀ said ∈ unit.2.log.entries, said.isError = false) ↔
      (∀ entry ∈ unit.2.imports.entries, entry.status = .resolved) ∧
        ∀ reference ∈ unit.2.references, reference.outcome.status = .resolved := by
    intro unit hmember
    obtain ⟨⟨path, source⟩, -, rfl⟩ := List.mem_map.mp hmember
    exact source.log_without_errors_iff (registry disk line) line.options
  rw [← forall₂_and, ← forall₂_congr hunit]
  simp only [List.mem_flatMap, List.mem_map]
  constructor
  · intro h unit hmember said hsaid
    exact h (.diagnostic unit.1 said) ⟨unit, hmember, said, hsaid, rfl⟩
  · rintro h _ ⟨unit, hmember, said, hsaid, rfl⟩
    exact h unit hmember said hsaid

theorem writing_without_errors_iff :
    (∀ message ∈ line.report.toList.flatMap fun path =>
        Run.writingTold path (written disk line).2, message.isError = false) ↔
      ∀ path, line.report = some path →
        (disk.write path (reportText disk line)).2 = .ok () := by
  cases hreport : line.report with
  | none => simp
  | some path =>
      have hwritten : written disk line = disk.write path (reportText disk line) := by
        simp only [written, hreport]
      rw [hwritten]
      cases hwrite : (disk.write path (reportText disk line)).2 with
      | ok done => simp [Run.writingTold, hwrite]
      | error fault => simp [Run.writingTold, Message.isError, hwrite]

theorem told_without_errors_iff (disk : Disk) (line : CommandLine) :
    (∀ message ∈ told disk line, message.isError = false) ↔ Flawless disk line := by
  have hroots : ∀ message ∈ (Discovery.run disk (roots line)).issues.map Message.badRoot,
      message.isError = true := by
    intro message hmember
    obtain ⟨issue, -, rfl⟩ := List.mem_map.mp hmember
    rfl
  have hsources : ∀ message ∈ remarks disk {} (sources disk line), message.isError = true :=
    fun message => isError_of_mem_remarks
  rw [told, findings, List.forall_mem_append, List.forall_mem_append, List.forall_mem_append,
    forall_not_isError_iff hroots, forall_not_isError_iff hsources, List.map_eq_nil_iff, roots,
    Discovery.issues_eq_nil_iff, remarks_eq_nil_iff, units_without_errors_iff,
    writing_without_errors_iff]
  constructor
  · rintro ⟨⟨⟨hroots, hsources, hmodules⟩, himports, hreferences⟩, hreport⟩
    exact ⟨hroots, hsources, hmodules, himports, hreferences, hreport⟩
  · intro h
    exact ⟨⟨⟨h.roots, h.sources, h.modules⟩, h.imports, h.references⟩, h.report⟩

/-- Whatever is told before the last word. -/
theorem mem_told {message : Message} (h : message ∈ told disk line) :
    (∃ path said, message = .diagnostic path said ∧ said.Coded) ∨
      (∃ issue, message = .badRoot issue) ∨ (∃ path, message = .unreadable path) ∨
      ∃ path fault, message = .unwritten path fault := by
  rcases List.mem_append.mp h with hfinding | hwriting
  · rcases List.mem_append.mp hfinding with hload | hunit
    · rcases List.mem_append.mp hload with hroot | hsource
      · obtain ⟨issue, -, rfl⟩ := List.mem_map.mp hroot
        exact .inr (.inl ⟨issue, rfl⟩)
      · rcases mem_remarks hsource with ⟨path, rfl⟩ | ⟨path, complaint, rfl⟩ | ⟨path, refusal, rfl⟩
        · exact .inr (.inr (.inl ⟨path, rfl⟩))
        · exact .inl ⟨path, _, rfl, complaint.coded_diagnostic⟩
        · exact .inl ⟨path, _, rfl, refusal.coded_diagnostic⟩
    · obtain ⟨item, hmember, hsaid⟩ := List.mem_flatMap.mp hunit
      obtain ⟨said, hentry, rfl⟩ := List.mem_map.mp hsaid
      obtain ⟨⟨path, unit⟩, -, rfl⟩ := List.mem_map.mp hmember
      exact .inl ⟨path, said, rfl, unit.coded_log _ _ said hentry⟩
  · obtain ⟨path, -, hfault⟩ := List.mem_flatMap.mp hwriting
    cases hwritten : (written disk line).2 with
    | ok done => simp [hwritten, Run.writingTold] at hfault
    | error fault =>
        rw [hwritten] at hfault
        exact .inr (.inr (.inr ⟨path, fault, List.mem_singleton.mp hfault⟩))

theorem coded_told {message : Message} (h : message ∈ told disk line) :
    message.format.Coded message.isError := by
  refine Message.coded_format ?_
  rintro path said rfl
  rcases mem_told h with ⟨_, _, heq, hcoded⟩ | ⟨_, heq⟩ | ⟨_, heq⟩ | ⟨_, _, heq⟩ <;> cases heq
  exact hcoded

theorem finishedWithErrors_not_mem_told (disk : Disk) (line : CommandLine) :
    .finishedWithErrors ∉ told disk line := by
  intro h
  rcases mem_told h with ⟨_, _, heq, -⟩ | ⟨_, heq⟩ | ⟨_, heq⟩ | ⟨_, _, heq⟩ <;> cases heq

theorem failed_eq_false_iff (disk : Disk) (line : CommandLine) :
    failed disk line = false ↔ Flawless disk line := by
  rw [← told_without_errors_iff]
  simp [failed]

/-- A failed run has told why before the last word, which is no error itself. -/
theorem failed_iff_exists_error (disk : Disk) (line : CommandLine) :
    failed disk line = true ↔
      ∃ message ∈ (resolve disk line).messages, ("SIGIL-E" : Text) <+: message.format := by
  obtain ⟨-, hmessages, -⟩ := resolve_spec disk line
  have hlast : ¬ ("SIGIL-E" : Text) <+: Message.finishedWithErrors.format := by decide
  rw [hmessages]
  constructor
  · intro hfailed
    obtain ⟨message, htold, herror⟩ := List.any_eq_true.mp hfailed
    exact ⟨message, List.mem_append_left _ htold, (coded_told htold).isError_iff.mp herror⟩
  · rintro ⟨message, hmember, hprefix⟩
    rcases List.mem_append.mp hmember with htold | hclosing
    · exact List.any_eq_true.mpr ⟨message, htold, (coded_told htold).isError_iff.mpr hprefix⟩
    · split at hclosing
      · assumption
      · cases hclosing

theorem finishedWithErrors_mem_iff (disk : Disk) (line : CommandLine) :
    .finishedWithErrors ∈ (resolve disk line).messages ↔ failed disk line = true := by
  obtain ⟨-, hmessages, -⟩ := resolve_spec disk line
  rw [hmessages, List.mem_append]
  cases failed disk line <;> simp [finishedWithErrors_not_mem_told]

/-- The exit code is 0 just if the arguments make sense and nothing goes wrong, and else it is 1,
which is to say that an error is told. Where the arguments make sense all is processed in any
case: every unit of every source that opens is resolved over every module of them, the report on
all units is written if it is asked for, and a failed run says so at the end. -/
theorem run_exit (disk : Disk) (arguments : List Text)
    (hpurpose : ∀ line, CommandLine.parse arguments = .ok line → line.purpose = .resolve) :
    let completion := run disk arguments
    (completion.exit = 0 ↔
      ∃ line, CommandLine.parse arguments = .ok line ∧ Flawless disk line) ∧
    (completion.exit ≠ 0 → completion.exit = 1) ∧
    (completion.exit = 1 ↔
      ∃ message ∈ completion.messages, ("SIGIL-E" : Text) <+: message.format) ∧
    (.finishedWithErrors ∈ completion.messages ↔
      (∃ line, CommandLine.parse arguments = .ok line) ∧ completion.exit = 1) ∧
    ∀ line, CommandLine.parse arguments = .ok line →
      (resolveAll disk line).1.registry = registry disk line ∧
      (resolveAll disk line).2 = (resolved disk line).map (·.2) ∧
      completion.messages =
        told disk line ++ (if completion.exit = 1 then [.finishedWithErrors] else []) ∧
      completion.disk = (written disk line).1 ∧
      completion.report = line.report.bind fun _ =>
        (written disk line).2.toOption.map fun _ => reportText disk line := by
  intro completion
  cases hparse : CommandLine.parse arguments with
  | error fault =>
      have hcompletion : completion = { exit := 1, messages := [.usage fault], disk } := by
        simp only [completion, run, hparse]
      have hcoded : ("SIGIL-E" : Text) <+: (Message.usage fault).format :=
        (Message.coded_format (by rintro _ _ ⟨⟩)).isError_iff.mp rfl
      rw [hcompletion]
      refine ⟨by simp, by simp, by simpa using hcoded, by simp, nofun⟩
  | ok line =>
      have hcompletion : completion = resolve disk line := by
        simp only [completion, run, hparse, hpurpose line hparse]
      obtain ⟨hexit, hmessages, hdisk, hreport⟩ := resolve_spec disk line
      obtain ⟨hresolved, hregistry, -⟩ := resolveAll_spec disk line
      have hone : (resolve disk line).exit = 1 ↔ failed disk line = true := by
        rw [hexit]
        simp
      have hzero : (resolve disk line).exit = 0 ↔ Flawless disk line := by
        rw [hexit, ← failed_eq_false_iff]
        simp
      rw [hcompletion]
      refine ⟨by simp [hzero], ?_, hone.trans (failed_iff_exists_error disk line), ?_, ?_⟩
      · rw [hexit]
        split <;> simp
      · rw [finishedWithErrors_mem_iff, hone]
        simp
      · rintro _ ⟨⟩
        simp only [hone]
        exact ⟨hregistry, hresolved, hmessages, hdisk, hreport⟩

/-- A redundant import does no harm to the exit code. A reference to a sport that is not imported
does, and the report is still written. -/
theorem run_exit_meet :
    let disk : Disk := { root := .folder [
      ("lib", .folder [("sports.sigilmod", .file "module Triathlon\n  func swim\nend\n")]),
      ("tidy", .file "unit Meet\n  import Triathlon\n  import Triathlon\n  reference swim\nend\n"),
      ("torn", .file "unit Meet\n  reference swim\nend\n")] }
    let arguments (input : Text) : List Text := ["--import-root=lib", "--emit-report=out", input]
    (∃ line, CommandLine.parse (arguments "tidy") = .ok line ∧ Flawless disk line) ∧
      (run disk (arguments "tidy")).messages.length = 1 ∧
      (∃ message ∈ (run disk (arguments "torn")).messages,
        ("SIGIL-E" : Text) <+: message.format) ∧
      .finishedWithErrors ∈ (run disk (arguments "torn")).messages ∧
      (run disk (arguments "torn")).report.isSome := by
  intro disk arguments
  have hparse (input : Text) (h : input = "tidy" ∨ input = "torn") :
      CommandLine.parse (arguments input) =
        .ok { inputs := [input], importRoots := ["lib"], report := some "out" } := by
    rcases h with rfl | rfl <;> rfl
  have hpurpose (input : Text) (h : input = "tidy" ∨ input = "torn") :
      ∀ line, CommandLine.parse (arguments input) = .ok line → line.purpose = .resolve := by
    rintro line hline
    rw [hparse input h] at hline
    cases hline
    rfl
  obtain ⟨hzero, -⟩ := run_exit disk (arguments "tidy") (hpurpose "tidy" (.inl rfl))
  obtain ⟨-, -, hone, hlast, -⟩ := run_exit disk (arguments "torn") (hpurpose "torn" (.inr rfl))
  have hfailed : (run disk (arguments "torn")).exit = 1 := by decide +kernel
  exact ⟨hzero.mp (by decide +kernel), by decide +kernel, hone.mp hfailed,
    hlast.mpr ⟨⟨_, hparse "torn" (.inr rfl)⟩, hfailed⟩, by decide +kernel⟩

/-- It is not the root as it is written that has to be there: `missing/..` is the working folder
whether or not anything is called `missing`. -/
theorem run_exit_missing_root :
    ¬ ∀ (disk : Disk) (arguments : List Text) (line : CommandLine),
      CommandLine.parse arguments = .ok line → line.purpose = .resolve →
        (run disk arguments).exit = 0 → ∀ root ∈ line.importRoots, root ≠ [] →
          ∃ entries, disk.find? root = some (.folder entries) := by
  intro h
  let disk : Disk := { root := .folder [("m", .file "unit U\nend\n")] }
  have hmissing : (disk.find? "missing/..").isNone := by decide +kernel
  obtain ⟨entries, hfound⟩ := h disk ["--import-root", "missing/..", "m"]
    { importRoots := ["missing/.."], inputs := ["m"] } rfl rfl (by decide +kernel) "missing/.."
    (List.mem_singleton_self _) (by decide)
  rw [hfound] at hmissing
  cases hmissing

end Tool

end NameBinding
