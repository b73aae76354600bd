import NameBinding.Text
import NameBinding.Span

/-!
A manifest is read line by line, and a line word by word. A line ends at its
first `#`, and words are set apart by blanks.
-/

namespace NameBinding

/-- A word with the line and the column at which it starts, counted from one. -/
structure Word where
  text : Text
  line : Nat
  column : Nat
deriving DecidableEq, Repr, Inhabited

namespace Word

def span (word : Word) : Span :=
  let line := UInt32.ofNat word.line
  { start := ⟨line, UInt32.ofNat word.column⟩
    stop := ⟨line, UInt32.ofNat (word.column + word.text.length)⟩ }

/-- The pieces between blanks, one blank apart; an empty piece is no word. -/
def ofPieces (line column : Nat) : List Text → List Word
  | [] => []
  | piece :: rest =>
    let later := ofPieces line (column + piece.length + 1) rest
    if piece.isEmpty then later else ⟨piece, line, column⟩ :: later

def uncomment (line : Text) : Text := line.takeWhile (· != Text.hash)

def ofLine (line : Nat) (text : Text) : List Word :=
  ofPieces line 1 ((uncomment text).splitOnP Text.isBlank)

/-- The words of every line of a source, lines counted from one. -/
def ofSource (source : Text) : List (List Word) :=
  ((source.splitOn Text.newline).zipIdx 1).map fun (text, line) => ofLine line text

end Word

end NameBinding
