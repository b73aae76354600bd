import NameBinding.Proofs.Lowering

/-!
Sources one below the other. A source that leaves no block open has no effect on what is read
below it but that the lines are counted on. So blocks may be moved about in a source as long
as modules stay in order among modules, and units among units.
-/

namespace NameBinding

namespace Word

theorem ofLine_lowered (lines number : Nat) (text : Text) :
    ofLine (number + lines) text = (ofLine number text).map (·.lowered lines) :=
  ofPieces_lowered lines number 1 _

theorem ofSource_append (above below : Text) :
    ofSource (above ++ Text.newline :: below) =
      ofSource above ++
        (ofSource below).map (·.map (·.lowered (above.count Text.newline + 1))) := by
  have hnumbers : (below.splitOn Text.newline).zipIdx (1 + (above.splitOn Text.newline).length) =
      ((below.splitOn Text.newline).zipIdx 1).map
        (Prod.map id (· + (above.count Text.newline + 1))) := by
    rw [List.map_snd_add_zipIdx_eq_zipIdx, Text.length_splitOn, Nat.add_comm]
  rw [ofSource, List.splitOn_append_cons_self, List.zipIdx_append, List.map_append, hnumbers,
    ofSource, ofSource, List.map_map, List.map_map]
  congr 1
  refine List.map_congr_left ?_
  rintro ⟨text, number⟩ -
  exact ofLine_lowered _ _ text

end Word

/-- A closed block is there to stay. -/
theorem OpenBlock.Ends.grows {manifest ended : Manifest} {block next : OpenBlock}
    (h : Ends manifest block ended next) :
    manifest.modules <+: ended.modules ∧ manifest.units <+: ended.units := by
  cases h with
  | outside => exact ⟨List.prefix_rfl, List.prefix_rfl⟩
  | unit => exact ⟨List.prefix_rfl, List.prefix_append _ _⟩
  | module => exact ⟨List.prefix_append _ _, List.prefix_rfl⟩
  | submodule => exact ⟨List.prefix_rfl, List.prefix_rfl⟩

namespace Reading

/-- What is read in all, where `later` was read as if nothing were before it. -/
instance : Append Reading where
  append earlier later :=
    ⟨earlier.manifest ++ later.manifest, later.block, earlier.complaints ++ later.complaints⟩

theorem append_eq (earlier later : Reading) :
    earlier ++ later =
      ⟨earlier.manifest ++ later.manifest, later.block,
        earlier.complaints ++ later.complaints⟩ := rfl

theorem append_empty {reading : Reading} (h : reading.block.isOpen = false) :
    reading ++ {} = reading := by
  obtain ⟨manifest, block, complaints⟩ := reading
  cases block with
  | outside => simp [append_eq, Manifest.append_empty]
  | _ => cases h

variable (mode : ManifestMode) (earlier later : Reading)

theorem append_complain (complaint : Complaint) :
    (earlier ++ later).complain complaint = earlier ++ later.complain complaint := by
  simp [append_eq, complain]

theorem close_append (keyword : Word) :
    (earlier ++ later).close keyword = earlier ++ later.close keyword := by
  obtain ⟨manifest, block, complaints⟩ := later
  match block with
  | .outside => simp [append_eq, close, complain]
  | .inUnit unit => simp [append_eq, close, Manifest.append_eq]
  | .inModule inner [] => simp [append_eq, close, Manifest.append_eq]
  | .inModule inner (around :: outer) => simp [append_eq, close]

/-- A line does not look at what is read already, but for the blocks that are open. -/
theorem line_below (words : List Word) :
    (earlier ++ later).line mode words = earlier ++ later.line mode words := by
  cases words with
  | nil => rfl
  | cons keyword rest =>
      by_cases hend : keyword.text = "end"
      · rw [line_end mode _ hend, line_end mode _ hend]
        cases rest with
        | nil => exact close_append earlier later keyword
        | cons extra more => rw [endLine, endLine, append_complain, close_append]
      · rw [line_other mode _ hend, line_other mode _ hend]
        have hblock : (earlier ++ later).block = later.block := rfl
        rw [hblock]
        cases later.block.extend mode keyword rest with
        | ok block => rfl
        | error complaint => exact append_complain earlier later complaint

theorem lines_below (words : List (List Word)) :
    (earlier ++ later).lines mode words = earlier ++ later.lines mode words := by
  induction words generalizing later with
  | nil => rfl
  | cons first rest ih => rw [lines_cons, lines_cons, line_below, ih]

theorem finish_append (count : Nat) :
    (earlier ++ later).finish count = earlier ++ later.finish count := by
  simp [append_eq, finish]

theorem finish_of_closed {reading : Reading} (h : reading.block.isOpen = false) (count : Nat) :
    reading.finish count = reading := by
  obtain ⟨manifest, block, complaints⟩ := reading
  cases block with
  | outside => simp [finish, OpenBlock.unclosed]
  | _ => cases h

theorem line_grows (reading : Reading) (words : List Word) :
    reading.manifest.modules <+: (reading.line mode words).manifest.modules ∧
      reading.manifest.units <+: (reading.line mode words).manifest.units := by
  cases words with
  | nil => exact ⟨List.prefix_rfl, List.prefix_rfl⟩
  | cons keyword rest =>
      by_cases hend : keyword.text = "end"
      · exact (line_end_ends mode reading hend rest).1.grows
      · rcases line_cases mode reading hend rest with ⟨block, h⟩ | ⟨complaint, h⟩ <;>
          (rw [h]; exact ⟨List.prefix_rfl, List.prefix_rfl⟩)

theorem lines_grow (reading : Reading) (words : List (List Word)) :
    reading.manifest.modules <+: (reading.lines mode words).manifest.modules ∧
      reading.manifest.units <+: (reading.lines mode words).manifest.units := by
  induction words generalizing reading with
  | nil => exact ⟨List.prefix_rfl, List.prefix_rfl⟩
  | cons first rest ih =>
      obtain ⟨hmodules, hunits⟩ := line_grows mode reading first
      obtain ⟨hmodules', hunits'⟩ := ih (reading.line mode first)
      exact ⟨hmodules.trans hmodules', hunits.trans hunits'⟩

end Reading

namespace Manifest

/-- Whether a block is still open when the source ends. -/
def leavesOpen (mode : ManifestMode) (source : Text) : Bool :=
  (({} : Reading).lines mode (Word.ofSource source)).block.isOpen

def declaresModules (mode : ManifestMode) (source : Text) : Bool :=
  !(read mode source).1.modules.isEmpty

def declaresUnits (mode : ManifestMode) (source : Text) : Bool :=
  !(read mode source).1.units.isEmpty

/-- Sources one below the other, each on lines of its own. -/
def joined (sources : List Text) : Text := [Text.newline].intercalate sources

def withoutLines (manifest : Manifest) : Manifest := manifest.mapSpans Span.withoutLines

theorem withoutLines_append (earlier later : Manifest) :
    (earlier ++ later).withoutLines = earlier.withoutLines ++ later.withoutLines := by
  simp [withoutLines, mapSpans, append_eq]

theorem withoutLines_lowered (lines : Nat) (manifest : Manifest) :
    (manifest.mapSpans (Span.lowered lines)).withoutLines = manifest.withoutLines := by
  have hspans : Span.withoutLines ∘ Span.lowered lines = Span.withoutLines := rfl
  simp [withoutLines, mapSpans, hspans]

variable {mode : ManifestMode}

theorem readAll_append {above : Text} (h : leavesOpen mode above = false) (below : Text) :
    readAll mode (above ++ Text.newline :: below) =
      readAll mode above ++
        (readAll mode below).mapSpans (Span.lowered (above.count Text.newline + 1)) := by
  let lines := above.count Text.newline + 1
  let reached : Reading := ({} : Reading).lines mode (Word.ofSource above)
  have hreached : reached.block.isOpen = false := h
  have hcount : (Word.ofSource (above ++ Text.newline :: below)).length =
      (Word.ofSource below).length + lines := by
    rw [Word.ofSource_append, List.length_append, List.length_map, Word.length_ofSource above,
      Text.length_splitOn, Nat.add_comm]
  have hlowered : reached.lines mode ((Word.ofSource below).map (·.map (·.lowered lines))) =
      reached ++ (({} : Reading).lines mode (Word.ofSource below)).mapSpans
        (Span.lowered lines) := by
    conv_lhs => rw [← Reading.append_empty hreached]
    rw [Reading.lines_below, ← Reading.lines_lowered]
    rfl
  dsimp only [readAll]
  rw [hcount, Word.ofSource_append, Reading.lines_append, hlowered, Reading.finish_append,
    Reading.finish_lowered, Reading.finish_of_closed hreached]

theorem read_below {above : Text} (h : leavesOpen mode above = false) (below : Text) :
    read mode (above ++ Text.newline :: below) =
      ((read mode above).1 ++
          (read mode below).1.mapSpans (Span.lowered (above.count Text.newline + 1)),
        (read mode above).2 ++
          (read mode below).2.map
            (·.mapSpan (Span.lowered (above.count Text.newline + 1)))) := by
  unfold read
  rw [readAll_append h]
  simp only [Reading.append_eq, Reading.mapSpans, List.map_append, List.map_map]
  rfl

theorem read_joined {sources : List Text}
    (h : ∀ source ∈ sources, leavesOpen mode source = false) :
    (read mode (joined sources)).1.withoutLines =
      { modules := sources.flatMap fun source => (read mode source).1.withoutLines.modules
        units := sources.flatMap fun source => (read mode source).1.withoutLines.units } := by
  induction sources with
  | nil => rfl
  | cons first rest ih =>
      obtain ⟨hfirst, hrest⟩ := List.forall_mem_cons.mp h
      cases rest with
      | nil => simp [joined]
      | cons second more =>
          have hjoined : joined (first :: second :: more) =
              first ++ Text.newline :: joined (second :: more) := by
            simp [joined, List.intercalate_cons_cons]
          rw [hjoined, read_below hfirst, withoutLines_append, withoutLines_lowered, ih hrest]
          simp [append_eq]

theorem flatMap_filter {α β : Type} {f : α → List β} {kept : α → Bool}
    (h : ∀ a, kept a = false → f a = []) (items : List α) :
    (items.filter kept).flatMap f = items.flatMap f := by
  induction items with
  | nil => rfl
  | cons first rest ih =>
      rw [List.filter_cons, List.flatMap_cons, ← ih]
      cases hfirst : kept first with
      | true => rfl
      | false => rw [h first hfirst, if_neg Bool.false_ne_true, List.nil_append]

/-- What sources declare one below the other depends on their order among those with modules
and among those with units, lines aside. -/
theorem read_joined_filter {sources : List Text}
    (h : ∀ source ∈ sources, leavesOpen mode source = false) :
    (read mode (joined sources)).1.withoutLines =
      { modules := (sources.filter (declaresModules mode)).flatMap fun source =>
          (read mode source).1.withoutLines.modules
        units := (sources.filter (declaresUnits mode)).flatMap fun source =>
          (read mode source).1.withoutLines.units } := by
  have hmodules (source : Text) (hnone : declaresModules mode source = false) :
      (read mode source).1.withoutLines.modules = [] := by
    simpa [withoutLines, mapSpans, declaresModules] using hnone
  have hunits (source : Text) (hnone : declaresUnits mode source = false) :
      (read mode source).1.withoutLines.units = [] := by
    simpa [withoutLines, mapSpans, declaresUnits] using hnone
  rw [read_joined h, flatMap_filter hmodules, flatMap_filter hunits]

/-- Reading is compositional. Below a source that leaves no block open another one is read as
it is alone, with its lines counted on: what both declare and what is said about both comes in
order. Whatever stands below, blocks that are closed stay. So where sources one below the
other leave no block open, units may be moved about among modules, and nothing but lines
changes as long as the modules keep their order and the units theirs. -/
theorem read_append (mode : ManifestMode) :
    (∀ above below : Text, leavesOpen mode above = false →
      let whole := read mode (above ++ Text.newline :: below)
      let lowered := Span.lowered (above.count Text.newline + 1)
      whole.1.modules =
          (read mode above).1.modules ++ (read mode below).1.modules.map (·.mapSpans lowered) ∧
        whole.1.units =
          (read mode above).1.units ++ (read mode below).1.units.map (·.mapSpans lowered) ∧
        whole.2 = (read mode above).2 ++ (read mode below).2.map (·.mapSpan lowered)) ∧
    (∀ above below : Text,
      let whole := read mode (above ++ Text.newline :: below)
      (read mode above).1.modules <+: whole.1.modules ∧
        (read mode above).1.units <+: whole.1.units) ∧
    ∀ sources moved : List Text,
      (∀ source ∈ sources ++ moved, leavesOpen mode source = false) →
      moved.filter (declaresModules mode) = sources.filter (declaresModules mode) →
      moved.filter (declaresUnits mode) = sources.filter (declaresUnits mode) →
      (read mode (joined moved)).1.withoutLines = (read mode (joined sources)).1.withoutLines := by
  refine ⟨?_, ?_, ?_⟩
  · intro above below hclosed whole lowered
    have hwhole : whole = _ := read_below hclosed below
    rw [hwhole]
    exact ⟨rfl, rfl, rfl⟩
  · intro above below whole
    have hwhole : whole.1 = ((({} : Reading).lines mode (Word.ofSource above)).lines mode
        ((Word.ofSource below).map
          (·.map (·.lowered (above.count Text.newline + 1))))).manifest := by
      rw [← Reading.lines_append, ← Word.ofSource_append]
      rfl
    rw [hwhole]
    exact Reading.lines_grow mode (({} : Reading).lines mode (Word.ofSource above)) _
  · intro sources moved hclosed hmodules hunits
    obtain ⟨hsources, hmoved⟩ := List.forall_mem_append.mp hclosed
    rw [read_joined_filter hmoved, read_joined_filter hsources, hmodules, hunits]

/-- A unit between two modules is moved in front of them, with a faulty line inside it and an
`end` that closes nothing below. The module that is open in the end does not take the others
with it. -/
theorem read_append_stables :
    let stables : Text := "module Stables\n  struct Horse\nend"
    let rider : Text := "unit Rider\n  import Stables\n  gallop\nend\nend"
    let barn : Text := "# Hay\nmodule Barn\nend"
    let sources : List Text := [stables, rider, barn]
    let moved : List Text := [rider, stables, barn]
    let lines (diagnostics : List Diagnostic) : List UInt32 :=
      diagnostics.map (·.span.start.line)
    (∀ source ∈ sources ++ moved, leavesOpen .workspace source = false) ∧
      (read .workspace (joined moved)).1.withoutLines =
        (read .workspace (joined sources)).1.withoutLines ∧
      (read .workspace (joined moved)).1 ≠ (read .workspace (joined sources)).1 ∧
      lines (read .workspace (rider ++ Text.newline :: "end\nmodule Yard")).2 = [3, 5, 6, 7] ∧
      (read .workspace (stables ++ Text.newline :: "module Yard")).1.modules.map (·.name) =
        (["Stables"] : List Text) := by
  intro stables rider barn sources moved lines
  obtain ⟨hbelow, -, hmoved⟩ := read_append .workspace
  have hclosed : ∀ source ∈ sources ++ moved, leavesOpen .workspace source = false := by
    decide +kernel
  refine ⟨hclosed, hmoved sources moved hclosed (by decide +kernel) (by decide +kernel), ?_, ?_, ?_⟩
  · intro hsame
    have hspans := congrArg (fun manifest : Manifest =>
      manifest.units.map (·.span.start.line)) hsame
    exact absurd hspans (by decide +kernel)
  · obtain ⟨-, -, hdiagnostics⟩ := hbelow rider "end\nmodule Yard" (by decide +kernel)
    rw [hdiagnostics]
    decide +kernel
  · obtain ⟨hmodules, -⟩ := hbelow stables "module Yard" (by decide +kernel)
    rw [hmodules]
    decide +kernel

end Manifest

end NameBinding
