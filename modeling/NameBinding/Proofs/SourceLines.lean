import NameBinding.Manifest.Reader
import Mathlib.Data.List.Basic

/-!
The lines of a source as words, without where they stand. Reading goes over the lines
word by word, and a line without words is as good as none.
-/

namespace NameBinding

namespace Text

/-- The words of a line: what stands before its first `#`, cut at blanks. -/
def words (line : Text) : List Text :=
  ((line.takeWhile (· != hash)).splitOnP isBlank).filter (!·.isEmpty)

/-- The words of the lines that have any. -/
def wordLines (source : Text) : List (List Text) :=
  ((source.splitOn newline).map words).filter (!·.isEmpty)

/-- What a line can hold as one word. -/
structure IsWord (text : Text) : Prop where
  nonempty : text ≠ []
  unbroken (byte : UInt8) : byte ∈ text → isBlank byte = false
  uncommented : hash ∉ text

/-- Words with one space between them. -/
def spaced (words : List Text) : Text := [32].intercalate words

theorem uncommented_append {word : Text} (h : hash ∉ word) (rest : Text) :
    (word ++ rest).takeWhile (· != hash) = word ++ rest.takeWhile (· != hash) :=
  List.takeWhile_append_of_pos (bne_of_not_mem h)

theorem words_blank (rest : Text) : words (32 :: rest) = words rest := by
  have hsplit : ((32 :: rest).takeWhile (· != hash)).splitOnP isBlank =
      [] :: (rest.takeWhile (· != hash)).splitOnP isBlank := rfl
  rw [words, hsplit]
  rfl

theorem words_append_blank {word : Text} (h : IsWord word) (rest : Text) :
    words (word ++ 32 :: rest) = word :: words rest := by
  have hkept : (32 :: rest).takeWhile (· != hash) = 32 :: rest.takeWhile (· != hash) := rfl
  rw [words, uncommented_append h.uncommented, hkept,
    List.splitOnP_append_cons_of_forall_mem h.unbroken 32 rfl,
    List.filter_cons_of_pos (by simp [h.nonempty])]
  rfl

theorem words_of_isWord {word : Text} (h : IsWord word) : words word = [word] := by
  have hkept := uncommented_append h.uncommented []
  rw [List.append_nil, List.takeWhile_nil, List.append_nil] at hkept
  rw [words, hkept, List.splitOnP_eq_singleton h.unbroken]
  simp [h.nonempty]

theorem spaced_singleton (word : Text) : spaced [word] = word := List.intercalate_singleton

theorem spaced_cons_cons (first second : Text) (rest : List Text) :
    spaced (first :: second :: rest) = first ++ 32 :: spaced (second :: rest) := by
  simp [spaced, List.intercalate_cons_cons]

theorem words_spaced {words : List Text} (h : ∀ word ∈ words, IsWord word) :
    (spaced words).words = words := by
  induction words with
  | nil => rfl
  | cons first rest ih =>
      obtain ⟨hfirst, hrest⟩ := List.forall_mem_cons.mp h
      cases rest with
      | nil => rw [spaced_singleton, words_of_isWord hfirst]
      | cons second more => rw [spaced_cons_cons, words_append_blank hfirst, ih hrest]

theorem splitOn_terminated {lines : List Text} (h : ∀ line ∈ lines, newline ∉ line) :
    (lines.flatMap (· ++ [newline])).splitOn newline = lines ++ [[]] := by
  have hjoined : lines.flatMap (· ++ [newline]) = [newline].intercalate (lines ++ [[]]) := by
    induction lines with
    | nil => rfl
    | cons first rest ih =>
        rw [List.flatMap_cons, ih (List.forall_mem_cons.mp h).2]
        cases rest <;> simp [List.intercalate_cons_cons]
  rw [hjoined, List.splitOn_intercalate newline _ (by simp)]
  simpa [or_imp, forall_and] using h

end Text

namespace Word

theorem texts_ofPieces (line column : Nat) (pieces : List Text) :
    (ofPieces line column pieces).map (·.text) = pieces.filter (!·.isEmpty) := by
  induction pieces generalizing column with
  | nil => rfl
  | cons piece rest ih =>
      unfold ofPieces
      cases piece with
      | nil => simpa using ih _
      | cons byte bytes => simpa using ih _

theorem texts_ofLine (line : Nat) (text : Text) :
    (ofLine line text).map (·.text) = text.words :=
  texts_ofPieces line 1 _

theorem texts_ofSource (source : Text) :
    (ofSource source).map (·.map (·.text)) = (source.splitOn Text.newline).map Text.words := by
  rw [ofSource, List.map_map]
  have htexts : ((source.splitOn Text.newline).zipIdx 1).map (·.1) =
      source.splitOn Text.newline := List.zipIdx_map_fst 1 _
  conv_rhs => rw [← htexts, List.map_map]
  refine List.map_congr_left ?_
  rintro ⟨text, line⟩ -
  exact texts_ofLine line text

theorem texts_nonblank (source : Text) :
    ((ofSource source).filter (!·.isEmpty)).map (·.map (·.text)) = source.wordLines := by
  rw [Text.wordLines, ← texts_ofSource, List.filter_map]
  simp [Function.comp_def]

theorem getElem?_ofSource (source : Text) (position : Nat) :
    (ofSource source)[position]? =
      (source.splitOn Text.newline)[position]?.map (ofLine (1 + position)) := by
  rw [ofSource, List.getElem?_map, List.getElem?_zipIdx, Option.map_map]
  rfl

theorem length_ofSource (source : Text) :
    (ofSource source).length = (source.splitOn Text.newline).length := by
  simp [ofSource]

end Word

namespace Reading

variable (mode : ManifestMode) (reading : Reading)

@[simp] theorem lines_nil : reading.lines mode [] = reading := rfl

@[simp] theorem lines_cons (first : List Word) (rest : List (List Word)) :
    reading.lines mode (first :: rest) = (reading.line mode first).lines mode rest := rfl

theorem lines_append (earlier later : List (List Word)) :
    reading.lines mode (earlier ++ later) = (reading.lines mode earlier).lines mode later :=
  List.foldl_append

theorem line_end {keyword : Word} (h : keyword.text = "end") (rest : List Word) :
    reading.line mode (keyword :: rest) = reading.endLine keyword rest :=
  if_pos (by rwa [beq_iff_eq])

theorem line_other {keyword : Word} (h : keyword.text ≠ "end") (rest : List Word) :
    reading.line mode (keyword :: rest) =
      match reading.block.extend mode keyword rest with
      | .ok block => { reading with block }
      | .error complaint => reading.complain complaint :=
  if_neg (by rwa [beq_iff_eq])

/-- Lines without words may be left out. -/
theorem lines_filter (words : List (List Word)) :
    reading.lines mode (words.filter (!·.isEmpty)) = reading.lines mode words := by
  induction words generalizing reading with
  | nil => rfl
  | cons first rest ih =>
      cases first with
      | nil => exact ih reading
      | cons keyword more => exact ih _

end Reading

end NameBinding
