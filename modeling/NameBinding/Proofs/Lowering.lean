import NameBinding.Proofs.Moving

/-!
Lines that stand further down in a source. What is read from them is what the same lines
give higher up, faults included, with every span moved down as far as the lines are.
-/

namespace NameBinding

def Location.lowered (lines : Nat) (location : Location) : Location :=
  { location with line := location.line + UInt32.ofNat lines }

/-- The same columns, `lines` lines further down. -/
def Span.lowered (lines : Nat) (span : Span) : Span :=
  ⟨span.start.lowered lines, span.stop.lowered lines⟩

/-- The columns of a span, and no lines. -/
def Span.withoutLines (span : Span) : Span :=
  ⟨{ span.start with line := 0 }, { span.stop with line := 0 }⟩

/-- Down by so many lines. -/
def Move.down (lines : Nat) : Move where
  line := (· + lines)
  column := id
  span := Span.lowered lines
  spans word := by simp [Word.span, Span.lowered, Location.lowered]

namespace Word

def lowered (lines : Nat) (word : Word) : Word := { word with line := word.line + lines }

theorem ofPieces_lowered (lines line column : Nat) (pieces : List Text) :
    ofPieces (line + lines) column pieces =
      (ofPieces line column pieces).map (·.lowered lines) := by
  induction pieces generalizing column with
  | nil => rfl
  | cons piece rest ih =>
      unfold ofPieces
      rw [ih]
      cases piece <;> rfl

end Word

namespace Reading

theorem lines_lowered (lines : Nat) (mode : ManifestMode) (reading : Reading)
    (words : List (List Word)) :
    (reading.mapSpans (Span.lowered lines)).lines mode (words.map (·.map (·.lowered lines))) =
      (reading.lines mode words).mapSpans (Span.lowered lines) :=
  lines_moved (.down lines) mode reading words

theorem finish_lowered (lines : Nat) (reading : Reading) (count : Nat) :
    (reading.mapSpans (Span.lowered lines)).finish (count + lines) =
      (reading.finish count).mapSpans (Span.lowered lines) := by
  simp [finish, mapSpans, OpenBlock.unclosed_mapSpans, Complaint.mapSpan, Span.lowered,
    Location.lowered]

end Reading

end NameBinding
