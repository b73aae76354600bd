import NameBinding.Proofs.LineSteps

/-!
The manifests that are read without complaint. The lines that lead from one open block to
another are those that the grammar derives, so that a source is accepted just if its words
derive a manifest, and that manifest is what is read.
-/

namespace NameBinding

namespace Manifest

instance : Append Manifest where
  append earlier later := ⟨earlier.modules ++ later.modules, earlier.units ++ later.units⟩

theorem append_eq (earlier later : Manifest) :
    earlier ++ later =
      ⟨earlier.modules ++ later.modules, earlier.units ++ later.units⟩ := rfl

theorem append_empty (manifest : Manifest) : manifest ++ {} = manifest := by
  simp [append_eq]

theorem append_module (earlier later : Manifest) (module : Module) :
    { earlier with modules := earlier.modules ++ [module] } ++ later =
      earlier ++ { later with modules := module :: later.modules } := by
  simp [append_eq]

theorem append_unit (earlier later : Manifest) (unit : SourceUnit) :
    { earlier with units := earlier.units ++ [unit] } ++ later =
      earlier ++ { later with units := unit :: later.units } := by
  simp [append_eq]

end Manifest

namespace Module

def extended (module : Module) (symbols : List Symbol) (submodules : List Module) : Module :=
  { module with
    symbols := module.symbols ++ symbols
    submodules := module.submodules ++ submodules }

variable (module : Module) (symbols : List Symbol) (submodules : List Module)

theorem extended_nil : module.extended [] [] = module := by
  cases module
  simp [extended]

theorem extended_symbol (symbol : Symbol) :
    { module with symbols := module.symbols ++ [symbol] }.extended symbols submodules =
      module.extended (symbol :: symbols) submodules := by
  simp [extended]

theorem extended_submodule (submodule : Module) :
    { module with submodules := module.submodules ++ [submodule] }.extended symbols submodules =
      module.extended symbols (submodule :: submodules) := by
  simp [extended]

end Module

namespace SourceUnit

def extended (unit : SourceUnit) (imports : List Import) (symbols : List Symbol)
    (references : List Reference) : SourceUnit :=
  { unit with
    imports := unit.imports ++ imports
    symbols := unit.symbols ++ symbols
    references := unit.references ++ references }

variable (unit : SourceUnit) (imports : List Import) (symbols : List Symbol)
  (references : List Reference)

theorem extended_nil : unit.extended [] [] [] = unit := by simp [extended]

theorem extended_import (declaration : Import) :
    { unit with imports := unit.imports ++ [declaration] }.extended imports symbols references =
      unit.extended (declaration :: imports) symbols references := by
  simp [extended]

theorem extended_declare (symbol : Symbol) :
    { unit with symbols := unit.symbols ++ [symbol] }.extended imports symbols references =
      unit.extended imports (symbol :: symbols) references := by
  simp [extended]

theorem extended_reference (reference : Reference) :
    { unit with references := unit.references ++ [reference] }.extended
        imports symbols references =
      unit.extended imports symbols (reference :: references) := by
  simp [extended]

end SourceUnit

namespace OpenBlock

variable {mode : ManifestMode} {manifest last : Manifest} {block next : OpenBlock}

theorem Run.append {between : Manifest} {opened : OpenBlock} {earlier later : List (List Text)}
    (h : Run mode manifest block earlier between opened)
    (h' : Run mode between opened later last next) :
    Run mode manifest block (earlier ++ later) last next := by
  induction h with
  | done => exact h'
  | step hstep hrun ih => exact .step hstep (ih h')

/-- The lines of a block, from the one that opens it to the `end` that closes it. -/
theorem run_blockLines {opened filled : OpenBlock} {keyword name : Text}
    {inner : List (List Text)} (hopen : Takes mode block [keyword, name] opened)
    (hinner : Run mode manifest opened inner manifest filled) (hfilled : filled.isOpen)
    (hends : Ends manifest filled last next) :
    Run mode manifest block (blockLines keyword name inner) last next :=
  .step (.take hopen) (hinner.append (.step (.end hfilled hends) .done))

theorem run_of_moduleBody {lines : List (List Text)} {symbols : List Symbol}
    {submodules : List Module} (h : ModuleBody lines symbols submodules) (inner : Module)
    (outer : List Module) :
    Run mode manifest (.inModule inner outer) lines manifest
      (.inModule (inner.extended symbols submodules) outer) := by
  induction h generalizing inner outer with
  | done =>
      rw [Module.extended_nil]
      exact .done
  | symbol hform _ ih =>
      rw [← Module.extended_symbol]
      exact .step (.take (.symbol hform)) (ih _ _)
  | submodule hname _ _ ihInner ih =>
      rw [← Module.extended_submodule]
      exact (run_blockLines (.submodule hname) (ihInner _ _) rfl (.submodule ..)).append (ih _ _)

theorem run_of_unitBody {lines : List (List Text)} {imports : List Import}
    {symbols : List Symbol} {references : List Reference}
    (h : UnitBody lines imports symbols references) (unit : SourceUnit) :
    Run mode manifest (.inUnit unit) lines manifest
      (.inUnit (unit.extended imports symbols references)) := by
  induction h generalizing unit with
  | done =>
      rw [SourceUnit.extended_nil]
      exact .done
  | «import» hform _ ih =>
      rw [← SourceUnit.extended_import]
      exact .step (.take (.import hform)) (ih _)
  | declare hform _ ih =>
      rw [← SourceUnit.extended_declare]
      exact .step (.take (.declare hform)) (ih _)
  | reference hform _ ih =>
      rw [← SourceUnit.extended_reference]
      exact .step (.take (.reference hform)) (ih _)

theorem run_of_manifestForm {lines : List (List Text)} {added : Manifest}
    (h : ManifestForm mode lines added) (manifest : Manifest) :
    Run mode manifest .outside lines (manifest ++ added) .outside := by
  induction h generalizing manifest with
  | done =>
      rw [Manifest.append_empty]
      exact .done
  | module hname hbody _ ih =>
      rw [← Manifest.append_module]
      exact (run_blockLines (.module hname) (run_of_moduleBody hbody _ _) rfl
        (.module ..)).append (ih _)
  | unit hname hbody _ ih =>
      rw [← Manifest.append_unit]
      exact (run_blockLines (.unit rfl hname) (run_of_unitBody hbody _) rfl
        (.unit ..)).append (ih _)

/-- Lines that close all open blocks. The manifest is the one that was read before them, and
in the end the one that is read with them. -/
inductive Closes (mode : ManifestMode) :
    Manifest → OpenBlock → List (List Text) → Manifest → Prop where
  | outside {manifest added : Manifest} {lines : List (List Text)} :
      ManifestForm mode lines added → Closes mode manifest .outside lines (manifest ++ added)
  | module {manifest ended last : Manifest} {inner : Module} {outer : List Module}
      {next : OpenBlock} {body lines : List (List Text)} {symbols : List Symbol}
      {submodules : List Module} :
      ModuleBody body symbols submodules →
      Ends manifest (.inModule (inner.extended symbols submodules) outer) ended next →
      Closes mode ended next lines last →
      Closes mode manifest (.inModule inner outer) (body ++ [("end" : Text)] :: lines) last
  | unit {manifest ended last : Manifest} {unit : SourceUnit} {next : OpenBlock}
      {body lines : List (List Text)} {imports : List Import} {symbols : List Symbol}
      {references : List Reference} :
      UnitBody body imports symbols references →
      Ends manifest (.inUnit (unit.extended imports symbols references)) ended next →
      Closes mode ended next lines last →
      Closes mode manifest (.inUnit unit) (body ++ [("end" : Text)] :: lines) last

theorem Closes.end {ended : Manifest} {lines : List (List Text)} (hopen : block.isOpen)
    (hends : Ends manifest block ended next) (h : Closes mode ended next lines last) :
    Closes mode manifest block ([("end" : Text)] :: lines) last := by
  cases block with
  | outside => cases hopen
  | inModule inner outer =>
      rw [← Module.extended_nil inner] at hends
      exact .module .done hends h
  | inUnit unit =>
      rw [← SourceUnit.extended_nil unit] at hends
      exact .unit .done hends h

/-- One line further back. -/
theorem Closes.take {words : List Text} {lines : List (List Text)}
    (htakes : Takes mode block words next) (h : Closes mode manifest next lines last) :
    Closes mode manifest block (words :: lines) last := by
  cases htakes with
  | module hname =>
      cases h with
      | module hbody hends hcloses =>
          cases hends with
          | module =>
              cases hcloses with
              | outside hform =>
                  rw [Manifest.append_module, ← blockLines_append]
                  exact .outside (.module hname hbody hform)
  | unit hmode hname =>
      subst hmode
      cases h with
      | unit hbody hends hcloses =>
          cases hends with
          | unit =>
              cases hcloses with
              | outside hform =>
                  rw [Manifest.append_unit, ← blockLines_append]
                  exact .outside (.unit hname hbody hform)
  | submodule hname =>
      cases h with
      | module hbody hends hcloses =>
          cases hends with
          | submodule =>
              cases hcloses with
              | module houter hends hcloses =>
                  rw [Module.extended_submodule] at hends
                  rw [← blockLines_append, ← List.append_assoc]
                  exact .module (.submodule hname hbody houter) hends hcloses
  | symbol hform =>
      cases h with
      | module hbody hends hcloses =>
          rw [Module.extended_symbol] at hends
          exact .module (.symbol hform hbody) hends hcloses
  | «import» hform =>
      cases h with
      | unit hbody hends hcloses =>
          rw [SourceUnit.extended_import] at hends
          exact .unit (.import hform hbody) hends hcloses
  | declare hform =>
      cases h with
      | unit hbody hends hcloses =>
          rw [SourceUnit.extended_declare] at hends
          exact .unit (.declare hform hbody) hends hcloses
  | reference hform =>
      cases h with
      | unit hbody hends hcloses =>
          rw [SourceUnit.extended_reference] at hends
          exact .unit (.reference hform hbody) hends hcloses

theorem Closes.step {words : List Text} {lines : List (List Text)} {ended : Manifest}
    (hstep : Step mode manifest block words ended next) (h : Closes mode ended next lines last) :
    Closes mode manifest block (words :: lines) last := by
  cases hstep with
  | take htakes => exact h.take htakes
  | «end» hopen hends => exact h.end hopen hends

/-- By induction from the last line to the first. -/
theorem closes_of_run {lines : List (List Text)}
    (h : Run mode manifest block lines last .outside) : Closes mode manifest block lines last := by
  generalize houtside : OpenBlock.outside = final at h
  induction h with
  | @done manifest block =>
      subst houtside
      have hdone : Closes mode manifest .outside [] (manifest ++ {}) := .outside .done
      rwa [Manifest.append_empty] at hdone
  | step hstep _ ih => exact (ih houtside).step hstep

theorem manifestForm_iff_run {lines : List (List Text)} :
    ManifestForm mode lines manifest ↔ Run mode {} .outside lines manifest .outside := by
  constructor
  · exact fun h => run_of_manifestForm h {}
  · intro h
    cases closes_of_run h with
    | outside hform => exact hform

end OpenBlock

namespace Manifest

variable {mode : ManifestMode} {source : Text}

/-- The words of the lines derive a manifest just if nothing is said about the source and
that manifest is read from it. -/
theorem manifestForm_iff_read {manifest : Manifest} :
    ManifestForm mode source.wordLines manifest ↔
      (read mode source).2 = [] ∧ (read mode source).1.withoutSpans = manifest := by
  have hwords : [] ∉ (Word.ofSource source).filter (!·.isEmpty) := by simp
  have hrun : OpenBlock.Run mode {} .outside source.wordLines manifest .outside ↔
      (({} : Reading).lines mode ((Word.ofSource source).filter (!·.isEmpty))).withoutSpans =
        ⟨manifest, .outside, []⟩ := by
    rw [← Word.texts_nonblank]
    exact Reading.run_iff {} hwords
  rw [OpenBlock.manifestForm_iff_run, hrun, Reading.lines_filter, read, readAll]
  cases ({} : Reading).lines mode (Word.ofSource source) with
  | mk declared block complaints =>
      simp [Reading.withoutSpans, Reading.finish, OpenBlock.unclosed_eq_nil_iff, and_comm,
        and_left_comm]

/-- The reader accepts its grammar and nothing else. -/
theorem read_without_diagnostics_iff (mode : ManifestMode) (source : Text) :
    (read mode source).2 = [] ↔ ∃ manifest, ManifestForm mode source.wordLines manifest := by
  constructor
  · intro h
    exact ⟨_, manifestForm_iff_read.mpr ⟨h, rfl⟩⟩
  · rintro ⟨manifest, h⟩
    exact (manifestForm_iff_read.mp h).1

end Manifest

end NameBinding
