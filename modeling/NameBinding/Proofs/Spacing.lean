import NameBinding.Proofs.Moving

/-!
Layout. Indentation, spacing, comments, carriage returns and blank lines set words and lines
apart and mean nothing else: what is read from a source, and what is said about it, depends on
the words of its lines but for the places.
-/

namespace NameBinding

/-- To one place for all words. Of a span only the length is left. -/
def Move.away : Move where
  line := fun _ => 0
  column := fun _ => 0
  span := fun span => ⟨⟨0, 0⟩, ⟨0, span.stop.column - span.start.column⟩⟩
  spans word := by
    have hlength : UInt32.ofNat (word.column + word.text.length) - UInt32.ofNat word.column =
        UInt32.ofNat word.text.length := by
      rw [UInt32.ofNat_add, UInt32.add_comm, UInt32.add_sub_cancel]
    simp only [Word.span, hlength, Nat.zero_add]
    rfl

theorem Word.moved_away (words : List (List Word)) :
    words.map (·.map (·.moved .away)) =
      (words.map (·.map (·.text))).map (·.map fun text => ⟨text, 0, 0⟩) := by
  simp [Function.comp_def, Word.moved, Move.away]

def Diagnostic.withoutSpan (told : Diagnostic) : Diagnostic := { told with span := {} }

namespace Symbol

mutual

theorem mapSpans_erased : (symbol : Symbol) → symbol.mapSpans (fun _ => {}) = symbol.withoutSpans
  | ⟨_, _, _, _, members, _⟩ => by
    rw [mapSpans, withoutSpans, allMapSpans_erased members]

theorem allMapSpans_erased :
    (symbols : List Symbol) → allMapSpans (fun _ => {}) symbols = allWithoutSpans symbols
  | [] => rfl
  | first :: rest => by
    rw [allMapSpans, allWithoutSpans, mapSpans_erased first, allMapSpans_erased rest]

end

end Symbol

namespace Module

mutual

theorem mapSpans_erased : (module : Module) → module.mapSpans (fun _ => {}) = module.withoutSpans
  | ⟨_, symbols, submodules, _⟩ => by
    simp only [mapSpans, withoutSpans, Symbol.mapSpans_erased, allMapSpans_erased submodules]

theorem allMapSpans_erased :
    (modules : List Module) → allMapSpans (fun _ => {}) modules = allWithoutSpans modules
  | [] => rfl
  | first :: rest => by
    rw [allMapSpans, allWithoutSpans, mapSpans_erased first, allMapSpans_erased rest]

end

end Module

theorem Manifest.mapSpans_erased (manifest : Manifest) :
    manifest.mapSpans (fun _ => {}) = manifest.withoutSpans := by
  simp only [mapSpans, withoutSpans, Module.mapSpans_erased, SourceUnit.mapSpans,
    SourceUnit.withoutSpans, Symbol.mapSpans_erased]
  rfl

namespace Reading

variable (reading : Reading)

/-- Neither the places of the words nor that of the last line is left. -/
theorem finish_erased (f : Span → Span) (count count' : Nat) :
    ((reading.mapSpans f).finish count').mapSpans (fun _ => {}) =
      (reading.finish count).mapSpans (fun _ => {}) := by
  simp [finish, mapSpans, OpenBlock.unclosed_mapSpans, Manifest.mapSpans, Complaint.mapSpan,
    Function.comp_def]

end Reading

namespace Manifest

variable (mode : ManifestMode)

/-- Places aside, a source is read as if all its words stood in one place. -/
theorem readAll_erased (source : Text) :
    (readAll mode source).mapSpans (fun _ => {}) =
      ((({} : Reading).lines mode (source.wordLines.map (·.map fun text => ⟨text, 0, 0⟩))).finish
        0).mapSpans (fun _ => {}) := by
  have hmoved := Reading.lines_moved .away mode {} ((Word.ofSource source).filter (!·.isEmpty))
  rw [Word.moved_away, Word.texts_nonblank, Reading.lines_filter] at hmoved
  have hempty : ({} : Reading).mapSpans Move.away.span = {} := rfl
  rw [hempty] at hmoved
  rw [hmoved, Reading.finish_erased, readAll]

/-- Layout never matters. Two sources whose lines have the same words, lines without words left
out, declare the same, and the same is said about them in the same order, places aside. -/
theorem read_respaced (mode : ManifestMode) {source other : Text}
    (h : source.wordLines = other.wordLines) :
    (read mode source).1.withoutSpans = (read mode other).1.withoutSpans ∧
      (read mode source).2.map (·.withoutSpan) = (read mode other).2.map (·.withoutSpan) := by
  have hsame : (readAll mode source).mapSpans (fun _ => {}) =
      (readAll mode other).mapSpans (fun _ => {}) := by
    rw [readAll_erased, h, ← readAll_erased]
  have herased (source : Text) : (read mode source).2.map (·.withoutSpan) =
      ((readAll mode source).mapSpans fun _ => {}).complaints.map (·.diagnostic) := by
    simp only [read, Reading.mapSpans, List.map_map]
    rfl
  constructor
  · rw [← mapSpans_erased, ← mapSpans_erased]
    exact congrArg (·.manifest) hsame
  · rw [herased, herased, hsame]

/-- Tabs, carriage returns, comments and blank lines between the same words, some of them at
fault. The faults are found again further down. -/
theorem read_respaced_stables :
    let tidy : Text := "module Stables\nstruct Horse : gallop\nmacro trot\nend now\nunit"
    let loose : Text :=
      "\n\tmodule Stables # a barn\r\n\nstruct\tHorse  : gallop\r\n macro trot#\n\n" ++
        "end now \n unit\n"
    let lines (diagnostics : List Diagnostic) : List UInt32 :=
      diagnostics.map (·.span.start.line)
    tidy.wordLines = loose.wordLines ∧
      (read .workspace tidy).1.withoutSpans = (read .workspace loose).1.withoutSpans ∧
      (read .workspace tidy).2.map (·.withoutSpan) =
        (read .workspace loose).2.map (·.withoutSpan) ∧
      lines (read .workspace tidy).2 = [3, 4, 5] ∧ lines (read .workspace loose).2 = [5, 7, 8] := by
  intro tidy loose lines
  have hwords : tidy.wordLines = loose.wordLines := by decide +kernel
  obtain ⟨hmanifest, hsaid⟩ := read_respaced .workspace hwords
  exact ⟨hwords, hmanifest, hsaid, by decide +kernel, by decide +kernel⟩

end Manifest

end NameBinding
