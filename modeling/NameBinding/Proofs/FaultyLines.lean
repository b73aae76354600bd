import NameBinding.Proofs.SourceLines

/-!
Lines with a fault. A line is read whole or not at all, so a fault leaves no trace but its
complaint; only `end` does its work in any case. A source in which the faulty lines are
blanked is read the same, less what was said about them.
-/

namespace NameBinding

namespace OpenBlock

/-- What an `end` makes of the manifest and the blocks: the innermost block is closed and
goes to the block around it, or to the manifest if there is none. -/
inductive Ends : Manifest → OpenBlock → Manifest → OpenBlock → Prop where
  | outside (manifest : Manifest) : Ends manifest .outside manifest .outside
  | unit (manifest : Manifest) (unit : SourceUnit) :
      Ends manifest (.inUnit unit)
        { manifest with units := manifest.units ++ [unit] } .outside
  | module (manifest : Manifest) (inner : Module) :
      Ends manifest (.inModule inner [])
        { manifest with modules := manifest.modules ++ [inner] } .outside
  | submodule (manifest : Manifest) (inner around : Module) (outer : List Module) :
      Ends manifest (.inModule inner (around :: outer)) manifest
        (.inModule { around with submodules := around.submodules ++ [inner] } outer)

def isOpen : OpenBlock → Bool
  | .outside => false
  | _ => true

end OpenBlock

namespace Reading

variable (mode : ManifestMode) (reading : Reading)

/-- What a line adds to the complaints. -/
def heard (words : List Word) : List Complaint :=
  (reading.line mode words).complaints.drop reading.complaints.length

/-- Whether a line is complained about that does not start with `end`. -/
def isFaulty : List Word → Bool
  | [] => false
  | keyword :: rest => keyword.text != "end" && !(reading.heard mode (keyword :: rest)).isEmpty

/-- The reading up to the line at `position`, lines counted from zero. -/
def before (lines : List (List Word)) (position : Nat) : Reading :=
  ({} : Reading).lines mode (lines.take position)

def heardAt (lines : List (List Word)) (position : Nat) : List Complaint :=
  (before mode lines position).heard mode (lines.getD position [])

def isFaultyAt (lines : List (List Word)) (position : Nat) : Bool :=
  (before mode lines position).isFaulty mode (lines.getD position [])

variable {reading}

/-- A line that does not start with `end` is taken or complained about. -/
theorem line_cases (reading : Reading) {keyword : Word} (h : keyword.text ≠ "end")
    (rest : List Word) :
    (∃ block, reading.line mode (keyword :: rest) = { reading with block }) ∨
      ∃ complaint, reading.line mode (keyword :: rest) = reading.complain complaint := by
  rw [line_other mode reading h]
  cases reading.block.extend mode keyword rest with
  | ok block => exact .inl ⟨block, rfl⟩
  | error complaint => exact .inr ⟨complaint, rfl⟩

theorem close_ends (reading : Reading) (keyword : Word) :
    OpenBlock.Ends reading.manifest reading.block (reading.close keyword).manifest
      (reading.close keyword).block := by
  obtain ⟨manifest, block, complaints⟩ := reading
  match block with
  | .outside => exact .outside _
  | .inUnit unit => exact .unit _ _
  | .inModule inner [] => exact .module _ _
  | .inModule inner (around :: outer) => exact .submodule _ _ _ _

theorem close_with (reading : Reading) (complaints : List Complaint) (keyword : Word) :
    ({ reading with complaints } : Reading).close keyword =
      { reading.close keyword with
        complaints := complaints ++
          if reading.block.isOpen then [] else [keyword.complain .nothingToEnd] } := by
  obtain ⟨manifest, block, earlier⟩ := reading
  match block with
  | .outside => rfl
  | .inUnit unit => simp [close, OpenBlock.isOpen]
  | .inModule inner [] => simp [close, OpenBlock.isOpen]
  | .inModule inner (around :: outer) => simp [close, OpenBlock.isOpen]

/-- An `end` does its work, with one complaint if something follows it and one if no block
is open. -/
theorem line_end_ends (reading : Reading) {keyword : Word} (h : keyword.text = "end")
    (rest : List Word) :
    OpenBlock.Ends reading.manifest reading.block (reading.line mode (keyword :: rest)).manifest
        (reading.line mode (keyword :: rest)).block ∧
      ∃ complaints,
        (reading.line mode (keyword :: rest)).complaints = reading.complaints ++ complaints ∧
        complaints.length =
          (if rest = [] then 0 else 1) + if reading.block.isOpen then 0 else 1 := by
  rw [line_end mode reading h]
  cases rest with
  | nil =>
      refine ⟨close_ends reading keyword, _,
        congrArg (·.complaints) (close_with reading reading.complaints keyword), ?_⟩
      cases reading.block.isOpen <;> rfl
  | cons extra more =>
      let complaint := extra.complain (.wordAfterEnd extra.text)
      refine ⟨close_ends (reading.complain complaint) keyword, _,
        (congrArg (·.complaints) (close_with reading (reading.complaints ++ [complaint])
          keyword)).trans (List.append_assoc _ _ _), ?_⟩
      cases reading.block.isOpen <;> rfl

/-- A line does the same whatever was complained about before. -/
theorem line_with (reading : Reading) (words : List Word) :
    ∃ manifest block added, ∀ complaints,
      ({ reading with complaints } : Reading).line mode words =
        ⟨manifest, block, complaints ++ added⟩ := by
  cases words with
  | nil => exact ⟨_, _, [], fun _ => by rw [List.append_nil]; rfl⟩
  | cons keyword rest =>
      by_cases hend : keyword.text = "end"
      · simp only [line_end mode _ hend]
        obtain ⟨manifest, block, added, hclose⟩ : ∃ manifest block added, ∀ complaints,
            ({ reading with complaints } : Reading).close keyword =
              ⟨manifest, block, complaints ++ added⟩ :=
          ⟨_, _, _, fun complaints => close_with reading complaints keyword⟩
        cases rest with
        | nil => exact ⟨manifest, block, added, hclose⟩
        | cons extra more =>
            refine ⟨manifest, block, extra.complain (.wordAfterEnd extra.text) :: added, ?_⟩
            intro complaints
            rw [List.append_cons]
            exact hclose _
      · simp only [line_other mode _ hend]
        cases reading.block.extend mode keyword rest with
        | ok block => exact ⟨_, _, [], fun _ => by rw [List.append_nil]⟩
        | error complaint => exact ⟨_, _, [complaint], fun _ => rfl⟩

theorem line_replace (complaints : List Complaint) (words : List Word) :
    ({ reading with complaints } : Reading).line mode words =
      { reading.line mode words with complaints := complaints ++ reading.heard mode words } := by
  obtain ⟨manifest, block, added, hline⟩ := line_with mode reading words
  have hsame : reading.line mode words = ⟨manifest, block, reading.complaints ++ added⟩ :=
    hline reading.complaints
  rw [hline, heard, hsame, List.drop_left]

theorem complaints_line (words : List Word) :
    (reading.line mode words).complaints = reading.complaints ++ reading.heard mode words :=
  congrArg (·.complaints) (line_replace mode reading.complaints words)

/-- A faulty line is as good as a blank one but for its complaint. -/
theorem line_of_isFaulty {words : List Word} (h : reading.isFaulty mode words = true) :
    reading.line mode words =
      { reading with complaints := reading.complaints ++ reading.heard mode words } := by
  cases words with
  | nil => cases h
  | cons keyword rest =>
      rw [isFaulty, Bool.and_eq_true, bne_iff_ne] at h
      rcases line_cases mode reading h.1 rest with ⟨block, hline⟩ | ⟨complaint, hline⟩
      · rw [heard, hline, List.drop_length] at h
        cases h.2
      · rw [heard, hline, complain, List.drop_left]

section Positions

variable {lines emptied : List (List Word)}

theorem before_succ (lines : List (List Word)) (position : Nat) :
    before mode lines (position + 1) =
      (before mode lines position).line mode (lines.getD position []) := by
  unfold before
  rw [List.take_add_one, lines_append]
  cases hline : lines[position]? with
  | none => simp [hline, line]
  | some words => simp [hline]

theorem complaints_before (lines : List (List Word)) (position : Nat) :
    (before mode lines position).complaints =
      (List.range position).flatMap (heardAt mode lines) := by
  induction position with
  | zero => rfl
  | succ position ih =>
      rw [before_succ, complaints_line, ih, List.range_succ, List.flatMap_append,
        List.flatMap_singleton]
      rfl

/-- Where the faulty lines are emptied, what is left is read in the same way. The
complaints of the other lines stay as they are. -/
theorem before_emptied
    (h : ∀ position, emptied.getD position [] =
      if isFaultyAt mode lines position then [] else lines.getD position [])
    (position : Nat) :
    before mode emptied position =
      { before mode lines position with
        complaints := ((List.range position).filter (!isFaultyAt mode lines ·)).flatMap
          (heardAt mode lines) } := by
  induction position with
  | zero => rfl
  | succ position ih =>
      rw [before_succ, before_succ, ih, h, List.range_succ, List.filter_append,
        List.flatMap_append]
      cases hfaulty : isFaultyAt mode lines position with
      | true =>
          rw [line_of_isFaulty mode hfaulty]
          simp [hfaulty, line]
      | false =>
          rw [if_neg Bool.false_ne_true, line_replace]
          simp [hfaulty, heardAt]

end Positions

end Reading

namespace Manifest

/-- The source in which the faulty lines are overwritten. The newlines stay. -/
def blanked (mode : ManifestMode) (blank : Text → Text) (source : Text) : Text :=
  [Text.newline].intercalate ((source.splitOn Text.newline).zipIdx.map fun entry =>
    if Reading.isFaultyAt mode (Word.ofSource source) entry.2 then blank entry.1 else entry.1)

/-- What is said about the lines at these positions. -/
def saidAt (mode : ManifestMode) (source : Text) (positions : List Nat) : List Diagnostic :=
  (positions.flatMap (Reading.heardAt mode (Word.ofSource source))).map (·.diagnostic)

variable {mode : ManifestMode} {blank : Text → Text}

theorem splitOn_blanked (hblank : ∀ line, Text.newline ∉ blank line) (source : Text) :
    (blanked mode blank source).splitOn Text.newline =
      (source.splitOn Text.newline).zipIdx.map fun entry =>
        if Reading.isFaultyAt mode (Word.ofSource source) entry.2 then blank entry.1
        else entry.1 := by
  refine List.splitOn_intercalate Text.newline ?_ (by simp [List.splitOn_ne_nil])
  intro line hline
  obtain ⟨⟨text, position⟩, hmember, rfl⟩ := List.mem_map.mp hline
  split
  · exact hblank text
  · exact Text.separator_not_mem (List.fst_mem_of_mem_zipIdx hmember)

theorem getD_blanked (mode : ManifestMode)
    (hblank : ∀ line, (blank line).words = [] ∧ Text.newline ∉ blank line)
    (source : Text) (position : Nat) :
    (Word.ofSource (blanked mode blank source)).getD position [] =
      if Reading.isFaultyAt mode (Word.ofSource source) position then []
      else (Word.ofSource source).getD position [] := by
  have hempty (number : Nat) (line : Text) : Word.ofLine number (blank line) = [] := by
    rw [← List.map_eq_nil_iff (f := (·.text)), Word.texts_ofLine, (hblank line).1]
  rw [List.getD_eq_getElem?_getD, List.getD_eq_getElem?_getD, Word.getElem?_ofSource,
    Word.getElem?_ofSource, splitOn_blanked fun line => (hblank line).2, List.getElem?_map,
    List.getElem?_zipIdx]
  cases (source.splitOn Text.newline)[position]? with
  | none => simp
  | some line =>
      simp only [Option.map_some, Nat.zero_add, Option.getD_some]
      split
      · exact hempty _ line
      · rfl

theorem read_eq (source : Text) :
    let count := (Word.ofSource source).length
    let reached := Reading.before mode (Word.ofSource source) count
    let atEnd := (({ reached with complaints := [] } : Reading).finish count).complaints
    read mode source =
      (reached.manifest,
        reached.complaints.map (·.diagnostic) ++ atEnd.map (·.diagnostic)) := by
  simp [read, readAll, Reading.before, Reading.finish]

/-- A line with a fault does nothing but add its complaint. Whatever was read before, a
line that does not start with `end` adds no complaint, or it adds one and leaves all else
as it was; an `end` closes the innermost block that is open, with one complaint if
something follows it and one if there is nothing to close. So a source whose faulty lines
are blanked declares the same, and all that is said about the other lines and about its
end is said again. -/
theorem read_blanked (mode : ManifestMode) :
    (∀ (reading : Reading) (keyword : Word) (rest : List Word), keyword.text ≠ "end" →
      (reading.line mode (keyword :: rest)).complaints = reading.complaints ∨
        ∃ complaint, reading.line mode (keyword :: rest) = reading.complain complaint) ∧
    (∀ (reading : Reading) (keyword : Word) (rest : List Word), keyword.text = "end" →
      let next := reading.line mode (keyword :: rest)
      OpenBlock.Ends reading.manifest reading.block next.manifest next.block ∧
        ∃ complaints, next.complaints = reading.complaints ++ complaints ∧
          complaints.length =
            (if rest = [] then 0 else 1) + if reading.block.isOpen then 0 else 1) ∧
    ∀ (source : Text) (blank : Text → Text),
      (∀ line, (blank line).words = [] ∧ Text.newline ∉ blank line) →
      let positions := List.range (Word.ofSource source).length
      let sound := positions.filter (!Reading.isFaultyAt mode (Word.ofSource source) ·)
      (read mode (blanked mode blank source)).1 = (read mode source).1 ∧
        ∃ atEnd, (read mode source).2 = saidAt mode source positions ++ atEnd ∧
          (read mode (blanked mode blank source)).2 = saidAt mode source sound ++ atEnd := by
  refine ⟨?_, ?_, ?_⟩
  · intro reading keyword rest hother
    rcases Reading.line_cases mode reading hother rest with ⟨block, h⟩ | h
    · exact .inl (by rw [h])
    · exact .inr h
  · intro reading keyword rest hend
    exact Reading.line_end_ends mode reading hend rest
  · intro source blank hblank positions sound
    have hlength : (Word.ofSource (blanked mode blank source)).length =
        (Word.ofSource source).length := by
      rw [Word.length_ofSource, Word.length_ofSource, splitOn_blanked fun line => (hblank line).2,
        List.length_map, List.length_zipIdx]
    have hemptied := Reading.before_emptied mode (getD_blanked mode hblank source)
      (Word.ofSource source).length
    rw [read_eq (blanked mode blank source), read_eq source, hlength, hemptied,
      Reading.complaints_before]
    exact ⟨rfl, _, rfl, rfl⟩

/-- A line of no kind of declaration and a stray word go without a trace. The `end` with a
word after it stays, as does what is said about the module that is open at the end: on the
last line, which is faulty itself. -/
theorem read_blanked_stables :
    let source : Text :=
      "module Stables\n  macro gallop\n  struct Horse\nend now\nmodule Barn\n  stall"
    let cleaned : Text := "module Stables\n\n  struct Horse\nend now\nmodule Barn\n"
    let lines (diagnostics : List Diagnostic) : List UInt32 :=
      diagnostics.map (·.span.start.line)
    blanked .workspace (fun _ => []) source = cleaned ∧
      (read .workspace cleaned).1 = (read .workspace source).1 ∧
      lines (read .workspace source).2 = [2, 4, 6, 6] ∧
      lines (read .workspace cleaned).2 = [4, 6] ∧
      (read .workspace cleaned).1.modules.map (·.symbols.map (·.name)) =
        ([["Horse"]] : List (List Text)) := by
  intro source cleaned lines
  have hcleaned : blanked .workspace (fun _ => []) source = cleaned := by decide
  obtain ⟨-, -, hread⟩ := read_blanked .workspace
  obtain ⟨hsame, -⟩ := hread source (fun _ => []) fun _ => ⟨rfl, by simp⟩
  rw [hcleaned] at hsame
  refine ⟨hcleaned, hsame, by decide, by decide +kernel, by decide +kernel⟩

end Manifest

end NameBinding
