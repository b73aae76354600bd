import NameBinding.Proofs.SourceLines
import Mathlib.Algebra.Group.Nat.Defs
import Mathlib.Data.List.TakeWhile

/-!
The text at a span. A span counts lines and columns from one, in 32 bits; in a source of less
than 2 ^ 32 bytes no word is so far down or so far to the right that its start wraps, and the
span of a word leads back to its bytes.
-/

namespace NameBinding

namespace Text

/-- The line with this number, where the first line has number one. -/
def lineAt (source : Text) (number : UInt32) : Text :=
  ([] :: source.splitOn newline).getD number.toNat []

/-- The bytes from the start of a span up to its stop, on the line where it starts. The number
of bytes is the difference of the columns, which is right even where the stop wraps: behind a
word that ends a single line of 2 ^ 32 - 1 bytes. -/
def bytesAt (source : Text) (span : Span) : Text :=
  ((source.lineAt span.start.line).drop (span.start.column.toNat - 1)).take
    (span.stop.column - span.start.column).toNat

/-- A whole word of a line, behind so many bytes. Blanks or the ends of the line set it apart,
or a comment that comes right after it, and it is in no comment itself. -/
inductive WordAt : (line : Text) → (before : Nat) → (word : Text) → Prop where
  | intro {before word after : Text} : IsWord word → hash ∉ before →
      (∀ byte ∈ before.getLast?, isBlank byte = true) →
      (∀ byte ∈ after.head?, isBlank byte = true ∨ byte = hash) →
      WordAt (before ++ word ++ after) before.length word

end Text

/-- The span covers a whole word of the source and nothing else. -/
structure Span.Marks (source : Text) (span : Span) (word : Text) : Prop where
  oneLine : span.stop.line = span.start.line
  line : 0 < span.start.line.toNat ∧
    span.start.line.toNat ≤ (source.splitOn Text.newline).length
  column : 0 < span.start.column.toNat
  bytes : source.bytesAt span = word
  whole : (source.lineAt span.start.line).WordAt (span.start.column.toNat - 1) word

namespace Text

variable {line word text : Text} {before : Nat}

theorem WordAt.isWord (h : line.WordAt before word) : IsWord word := by
  cases h with
  | intro hword => exact hword

theorem WordAt.take_drop (h : line.WordAt before word) :
    (line.drop before).take word.length = word := by
  cases h with
  | intro => rw [List.append_assoc, List.drop_left, List.take_left]

theorem WordAt.length_le (h : line.WordAt before word) : before + word.length ≤ line.length := by
  cases h with
  | intro =>
      rw [List.length_append, List.length_append]
      omega

/-- A word stays a word behind more of the line, if a blank comes between. -/
theorem WordAt.behind (h : line.WordAt before word) {piece : Text} (hpiece : hash ∉ piece)
    {blank : UInt8} (hblank : isBlank blank = true) :
    WordAt (piece ++ blank :: line) (piece.length + 1 + before) word := by
  cases h with
  | @intro front word after hword hfront hlast hfirst =>
      have hhash : hash ≠ blank := by
        rintro rfl
        cases hblank
      have hfronts : hash ∉ piece ++ blank :: front := by
        simp [hpiece, hhash, hfront]
      have hlasts : ∀ byte ∈ (piece ++ blank :: front).getLast?, isBlank byte = true := by
        rw [List.getLast?_append_cons]
        cases front with
        | nil => simpa using hblank
        | cons byte bytes => rwa [List.getLast?_cons_cons]
      have hall := WordAt.intro hword hfronts hlasts hfirst
      have hlength : (piece ++ blank :: front).length = piece.length + 1 + front.length := by
        rw [List.length_append, List.length_cons]
        omega
      rwa [hlength, List.append_assoc, List.append_assoc, List.cons_append,
        ← List.append_assoc front] at hall

theorem WordAt.before_comment (h : line.WordAt before word) (comment : Text) :
    WordAt (line ++ hash :: comment) before word := by
  cases h with
  | @intro front word after hword hfront hlast hfirst =>
      rw [List.append_assoc]
      refine .intro hword hfront hlast fun byte hbyte => ?_
      cases after with
      | nil => exact .inr (Option.some.inj hbyte).symm
      | cons first rest => exact hfirst byte hbyte

/-- Every line but the last takes one byte more than it has. -/
theorem length_line_le {separator : UInt8} (h : line ∈ text.splitOn separator) :
    (text.splitOn separator).length + line.length ≤ text.length + 1 := by
  induction text generalizing line with
  | nil =>
      obtain rfl := List.mem_singleton.mp h
      exact Nat.le_refl 1
  | cons first rest ih =>
      obtain ⟨head, tail, hrest⟩ :=
        List.exists_cons_of_ne_nil (List.splitOn_ne_nil separator rest)
      rw [List.splitOn_cons_eq_if_modifyHead] at h ⊢
      rw [hrest] at ih h ⊢
      have hhead := ih List.mem_cons_self
      -- A separator puts an empty line in front, any other byte makes the first line longer.
      split at h
      · next hfirst =>
        rw [if_pos hfirst]
        rcases List.mem_cons.mp h with rfl | hline
        · simp only [List.length_cons, List.length_nil] at hhead ⊢
          omega
        · have hlater := ih hline
          simp only [List.length_cons] at hlater ⊢
          omega
      · next hfirst =>
        rw [if_neg hfirst]
        rw [List.modifyHead_cons] at h ⊢
        rcases List.mem_cons.mp h with rfl | hline
        · simp only [List.length_cons] at hhead ⊢
          omega
        · have hlater := ih (List.mem_cons_of_mem _ hline)
          simp only [List.length_cons] at hlater ⊢
          omega

/-- A text without blanks, or what stands before its first blank. -/
theorem exists_piece (text : Text) :
    ∃ piece, (∀ byte ∈ piece, isBlank byte = false) ∧
      (text = piece ∨
        ∃ blank rest, isBlank blank = true ∧ text = piece ++ blank :: rest) := by
  refine ⟨text.takeWhile (!isBlank ·), fun byte hbyte => ?_, ?_⟩
  · simpa using List.mem_takeWhile_imp hbyte
  · have hsplit := List.takeWhile_append_dropWhile (p := (!isBlank ·)) (l := text)
    have hfirst := List.head?_dropWhile_not (!isBlank ·) text
    cases htail : text.dropWhile (!isBlank ·) with
    | nil =>
        rw [htail, List.append_nil] at hsplit
        exact .inl hsplit.symm
    | cons blank rest =>
        rw [htail] at hsplit hfirst
        exact .inr ⟨blank, rest, by simpa using hfirst, hsplit.symm⟩

/-- From the first piece to the last, with the blanks between them. -/
theorem induction_on_pieces {motive : Text → Prop}
    (last : ∀ piece, (∀ byte ∈ piece, isBlank byte = false) → motive piece)
    (more : ∀ piece blank rest, (∀ byte ∈ piece, isBlank byte = false) → isBlank blank = true →
      motive rest → motive (piece ++ blank :: rest)) (text : Text) : motive text := by
  obtain ⟨piece, hpiece, htext | ⟨blank, rest, hblank, htext⟩⟩ := exists_piece text
  · exact htext ▸ last piece hpiece
  · have hshorter : rest.length < text.length := by
      rw [htext, List.length_append, List.length_cons]
      omega
    exact htext ▸ more piece blank rest hpiece hblank (induction_on_pieces last more rest)
termination_by text.length

end Text

namespace Word

open Text

variable {source line text piece : Text} {pieces : List Text} {number column : Nat} {word : Word}

theorem mem_ofPieces_cons (h : word ∈ ofPieces number column (piece :: pieces)) :
    (piece ≠ [] ∧ word = ⟨piece, number, column⟩) ∨
      word ∈ ofPieces number (column + piece.length + 1) pieces := by
  unfold ofPieces at h
  cases piece with
  | nil => exact .inr h
  | cons first rest =>
      rcases List.mem_cons.mp h with rfl | hlater
      · exact .inl ⟨List.cons_ne_nil _ _, rfl⟩
      · exact .inr hlater

theorem wordAt_ofPieces (htext : hash ∉ text)
    (h : word ∈ ofPieces number column (text.splitOnP isBlank)) :
    word.line = number ∧
      ∃ before, word.column = column + before ∧ text.WordAt before word.text := by
  induction text using induction_on_pieces generalizing column with
  | last piece hpiece =>
      rw [List.splitOnP_eq_singleton hpiece] at h
      rcases mem_ofPieces_cons h with ⟨hnonempty, rfl⟩ | hnone
      · refine ⟨rfl, 0, rfl, ?_⟩
        have hall : ([] ++ piece ++ [] : Text).WordAt 0 piece :=
          .intro ⟨hnonempty, hpiece, htext⟩ List.not_mem_nil nofun nofun
        rwa [List.append_nil] at hall
      · cases hnone
  | more piece blank rest hpiece hblank ih =>
      rw [List.splitOnP_append_cons_of_forall_mem hpiece blank hblank] at h
      rw [List.mem_append, List.mem_cons, not_or, not_or] at htext
      rcases mem_ofPieces_cons h with ⟨hnonempty, rfl⟩ | hlater
      · refine ⟨rfl, 0, rfl, ?_⟩
        have hall : ([] ++ piece ++ blank :: rest : Text).WordAt 0 piece := by
          refine .intro ⟨hnonempty, hpiece, htext.1⟩ List.not_mem_nil nofun fun byte hbyte => ?_
          exact .inl (Option.some.inj hbyte ▸ hblank)
        exact hall
      · obtain ⟨hline, before, hcolumn, hword⟩ := ih htext.2.2 hlater
        exact ⟨hline, piece.length + 1 + before, by omega, hword.behind htext.1 hblank⟩

theorem wordAt_ofLine (h : word ∈ ofLine number line) :
    word.line = number ∧ ∃ before, word.column = before + 1 ∧ line.WordAt before word.text := by
  have hsplit := List.takeWhile_append_dropWhile (p := (· != hash)) (l := line)
  have hcomment := List.head?_dropWhile_not (· != hash) line
  have huncommented : hash ∉ uncomment line := fun hhash => by
    simpa using List.mem_takeWhile_imp hhash
  obtain ⟨hnumber, before, hcolumn, hword⟩ := wordAt_ofPieces huncommented h
  refine ⟨hnumber, before, by omega, ?_⟩
  rw [← hsplit]
  cases htail : line.dropWhile (· != hash) with
  | nil => rwa [List.append_nil]
  | cons first rest =>
      rw [htail] at hcomment
      obtain rfl : first = hash := by simpa using hcomment
      exact hword.before_comment rest

theorem bytesAt_span (source text : Text) (number column : Nat) :
    source.bytesAt (⟨text, number, column⟩ : Word).span =
      ((source.lineAt (UInt32.ofNat number)).drop ((UInt32.ofNat column).toNat - 1)).take
        (text.length % 2 ^ 32) := by
  have hlength : UInt32.ofNat (column + text.length) - UInt32.ofNat column =
      UInt32.ofNat text.length := by
    rw [UInt32.ofNat_add, UInt32.add_comm, UInt32.add_sub_cancel]
  unfold bytesAt span
  simp only [hlength, UInt32.toNat_ofNat']

theorem mem_ofSource {words : List Word} (h : words ∈ ofSource source) :
    ∃ position line, (source.splitOn newline)[position]? = some line ∧
      words = ofLine (position + 1) line := by
  obtain ⟨position, hposition⟩ := List.mem_iff_getElem?.mp h
  rw [getElem?_ofSource, Option.map_eq_some_iff, Nat.add_comm] at hposition
  obtain ⟨line, hline, rfl⟩ := hposition
  exact ⟨position, line, hline, rfl⟩

/-- The words of a source stand where they say. -/
theorem marks_span {words : List Word} (hsource : source.length < 2 ^ 32)
    (hwords : words ∈ ofSource source) (hword : word ∈ words) :
    word.span.Marks source word.text := by
  obtain ⟨position, line, hline, rfl⟩ := mem_ofSource hwords
  obtain ⟨hnumber, before, hcolumn, hat⟩ := wordAt_ofLine hword
  have hposition : position < (source.splitOn newline).length :=
    (List.getElem?_eq_some_iff.mp hline).1
  have hbytes := length_line_le (List.mem_of_getElem? hline)
  have hinside := hat.length_le
  have hnonempty : 0 < word.text.length := List.length_pos_iff.mpr hat.isWord.nonempty
  have hstart : word.span.start.line.toNat = position + 1 := by
    rw [← hnumber]
    exact UInt32.toNat_ofNat_of_lt' (show word.line < 2 ^ 32 by omega)
  have hfirst : word.span.start.column.toNat = before + 1 := by
    rw [← hcolumn]
    exact UInt32.toNat_ofNat_of_lt' (show word.column < 2 ^ 32 by omega)
  have hlineAt : source.lineAt word.span.start.line = line := by
    rw [lineAt, hstart, List.getD_eq_getElem?_getD, List.getElem?_cons_succ, hline]
    rfl
  refine ⟨rfl, by omega, by omega, ?_, ?_⟩
  · have hlength : word.text.length % 2 ^ 32 = word.text.length := Nat.mod_eq_of_lt (by omega)
    have hoffset : (UInt32.ofNat word.column).toNat = before + 1 := hfirst
    rw [bytesAt_span source word.text word.line word.column, hlength, hoffset, Nat.add_sub_cancel]
    exact (congrArg (fun text => (text.drop before).take word.text.length) hlineAt).trans
      hat.take_drop
  · rw [hlineAt, hfirst]
    exact hat

/-- So does the front part of a word. -/
theorem bytesAt_front (h : word.span.Marks source word.text) {front : Text}
    (hfront : front <+: word.text) : source.bytesAt ({ word with text := front }).span = front := by
  obtain ⟨text, number, column⟩ := word
  dsimp only at h hfront ⊢
  have hall := h.bytes
  rw [bytesAt_span] at hall ⊢
  have hshort := hfront.length_le
  have hlength : text.length < 2 ^ 32 := by
    have hle := congrArg List.length hall
    rw [List.length_take] at hle
    omega
  rw [Nat.mod_eq_of_lt hlength] at hall
  rw [Nat.mod_eq_of_lt (Nat.lt_of_le_of_lt hshort hlength)]
  generalize (source.lineAt (UInt32.ofNat number)).drop _ = later at hall ⊢
  have hlater : front <+: later := hfront.trans (hall ▸ List.take_prefix _ later)
  exact (List.prefix_iff_eq_take.mp hlater).symm

end Word

end NameBinding
