import NameBinding.Proofs.Grammar

/-!
Lines laid out as text. A line that is written with a space between each two words is read
as these words again, however deep its block indents it.
-/

namespace NameBinding

namespace Text

/-- The text of a block: its lines are indented below the one that opens it. -/
def enclosed (keyword name : Text) (inner : List Text) : List Text :=
  spaced [keyword, name] :: inner.map (("  " : Text) ++ ·) ++ [("end" : Text)]

def ofLines (lines : List Text) : Text := lines.flatMap (· ++ [newline])

/-- The text is one line and has these words, one at least. -/
structure Spells (line : Text) (words : List Text) : Prop where
  oneLine : newline ∉ line
  nonempty : words ≠ []
  words_eq : line.words = words

/-- The lines have words of this form. -/
def Spelled (lines : List Text) (form : List (List Text) → Prop) : Prop :=
  ∃ words, List.Forall₂ Spells lines words ∧ form words

section Words

/-- Blanks come before all digits and letters. -/
theorem isBlank_of_isNameByte {byte : UInt8} (h : isNameByte byte = true) :
    isBlank byte = false := by
  have hunderscore : underscore.toNat = 95 := by decide
  have hlow : 48 ≤ byte.toNat := by
    simp only [isNameByte, isLetter, isDigit, Bool.or_eq_true, Bool.and_eq_true,
      decide_eq_true_eq, beq_iff_eq, UInt8.le_iff_toNat_le, ← UInt8.toNat_inj,
      UInt8.toNat_ofNat, hunderscore] at h
    omega
  have hblank : ¬isBlank byte = true := by
    simp only [isBlank, Bool.or_eq_true, Bool.and_eq_true, decide_eq_true_eq, beq_iff_eq,
      UInt8.le_iff_toNat_le, ← UInt8.toNat_inj, UInt8.toNat_ofNat]
    omega
  simpa using hblank

theorem isWord_of_isIdentifier {name : Text} (h : name.isIdentifier) : IsWord name where
  nonempty := ne_nil_of_isIdentifier h
  unbroken _ hbyte := isBlank_of_isNameByte (isNameByte_of_mem h hbyte)
  uncommented := not_mem_of_isIdentifier h rfl

theorem isWord_keyword (kind : Kind) : IsWord kind.keyword :=
  isWord_of_isIdentifier (by cases kind <;> decide)

theorem isWord_context (context : Context) : IsWord context.word :=
  isWord_of_isIdentifier (by cases context <;> decide)

theorem isWord_singleton {byte : UInt8} (hblank : isBlank byte = false) (hhash : byte ≠ hash) :
    IsWord [byte] where
  nonempty := by simp
  unbroken := by simpa using hblank
  uncommented := by simpa using hhash.symm

theorem isWord_colon : IsWord ":" := isWord_singleton rfl (by decide)

theorem isWord_dot : IsWord "." := isWord_singleton rfl (by decide)

theorem IsWord.append {front back : Text} (hfront : IsWord front) (hback : IsWord back) :
    IsWord (front ++ back) where
  nonempty := by simp [hfront.nonempty]
  unbroken byte hbyte :=
    (List.mem_append.mp hbyte).elim (hfront.unbroken byte) (hback.unbroken byte)
  uncommented hhash :=
    (List.mem_append.mp hhash).elim hfront.uncommented hback.uncommented

theorem isWord_dotted {names : List Text} (hnonempty : names ≠ [])
    (h : ∀ name ∈ names, name.isIdentifier) : IsWord (dotted names) := by
  induction names with
  | nil => exact absurd rfl hnonempty
  | cons first rest ih =>
      obtain ⟨hfirst, hrest⟩ := List.forall_mem_cons.mp h
      cases rest with
      | nil => simpa [dotted] using isWord_of_isIdentifier hfirst
      | cons second more =>
          rw [dotted, List.intercalate_cons_cons]
          exact ((isWord_of_isIdentifier hfirst).append isWord_dot).append (ih (by simp) hrest)

theorem isWord_of_namePath {text : Text} {names : List Text} (h : NamePath text names) :
    IsWord text := by
  rw [h.spelled]
  exact isWord_dotted h.nonempty h.identifiers

theorem isWord_of_memberForm {word : Text} {member : Symbol} (h : MemberForm word member) :
    IsWord word := by
  cases h with
  | plain hname => exact isWord_of_isIdentifier hname
  | ofKind kind hname =>
      exact ((isWord_keyword kind).append isWord_colon).append (isWord_of_isIdentifier hname)

theorem isWord_of_memberForms {words : List Text} {members : List Symbol}
    (h : List.Forall₂ MemberForm words members) : ∀ word ∈ words, IsWord word := by
  induction h with
  | nil => simp
  | cons hmember _ ih => exact List.forall_mem_cons.mpr ⟨isWord_of_memberForm hmember, ih⟩

theorem isWord_of_declarationForm {words : List Text} {symbol : Symbol}
    (h : DeclarationForm words symbol) : ∀ word ∈ words, IsWord word := by
  cases h with
  | bare kind hname => simp [isWord_keyword, isWord_of_isIdentifier hname]
  | joined kind hname hmembers =>
      have hopening := (isWord_of_isIdentifier hname).append isWord_colon
      simpa [isWord_keyword, hopening] using isWord_of_memberForms hmembers
  | apart kind hname hmembers =>
      simpa [isWord_keyword, isWord_colon, isWord_of_isIdentifier hname] using
        isWord_of_memberForms hmembers

theorem isWord_of_importForm {words : List Text} {declaration : Import}
    (h : ImportForm words declaration) : ∀ word ∈ words, IsWord word := by
  cases h with
  | path hpath => simpa using isWord_of_namePath hpath
  | symbol kind hmodule hname =>
      have hpath := namePath_pair_iff.mpr ⟨hmodule, hname, rfl⟩
      simpa [isWord_keyword] using isWord_of_namePath hpath

theorem isWord_of_referenceForm {words : List Text} {reference : Reference}
    (h : ReferenceForm words reference) : ∀ word ∈ words, IsWord word := by
  cases h with
  | plain hpath => simpa using isWord_of_namePath hpath
  | inContext context hpath => simpa [isWord_context] using isWord_of_namePath hpath

end Words

section Lines

variable {line : Text} {words : List Text} {lines : List Text}

theorem IsWord.newline_not_mem {word : Text} (h : IsWord word) : newline ∉ word := by
  intro hnewline
  cases h.unbroken newline hnewline

theorem newline_not_mem_spaced (h : ∀ word ∈ words, IsWord word) : newline ∉ spaced words := by
  induction words with
  | nil => exact List.not_mem_nil
  | cons first rest ih =>
      obtain ⟨hfirst, hrest⟩ := List.forall_mem_cons.mp h
      cases rest with
      | nil =>
          rw [spaced_singleton]
          exact hfirst.newline_not_mem
      | cons second more =>
          rw [spaced_cons_cons, List.mem_append, List.mem_cons, not_or, not_or]
          exact ⟨hfirst.newline_not_mem, by decide, ih hrest⟩

theorem spells_spaced (hnonempty : words ≠ []) (h : ∀ word ∈ words, IsWord word) :
    Spells (spaced words) words where
  oneLine := newline_not_mem_spaced h
  nonempty := hnonempty
  words_eq := words_spaced h

theorem spells_of_isWord {word : Text} (h : IsWord word) : Spells word [word] where
  oneLine := h.newline_not_mem
  nonempty := by simp
  words_eq := words_of_isWord h

theorem spells_keyword (keyword : Text) (hkeyword : keyword.isIdentifier)
    (h : ∀ word ∈ words, IsWord word) : Spells (spaced (keyword :: words)) (keyword :: words) :=
  spells_spaced (by simp) (List.forall_mem_cons.mpr ⟨isWord_of_isIdentifier hkeyword, h⟩)

theorem Spells.indented (h : Spells line words) : Spells (("  " : Text) ++ line) words where
  oneLine := by
    rw [List.mem_append, not_or]
    exact ⟨by decide, h.oneLine⟩
  nonempty := h.nonempty
  words_eq := (words_blank _).trans ((words_blank line).trans h.words_eq)

variable {form : List (List Text) → Prop}

theorem spelled_nil (h : form []) : Spelled [] form := ⟨[], .nil, h⟩

theorem spelled_singleton (hline : Spells line words) (h : form [words]) :
    Spelled [line] form := ⟨[words], .cons hline .nil, h⟩

theorem spelled_enclosed {keyword name : Text} {inner : List Text}
    {within : List (List Text) → Prop} (hkeyword : keyword.isIdentifier)
    (hname : name.isIdentifier) (hinner : Spelled inner within)
    (h : ∀ words, within words → form (blockLines keyword name words)) :
    Spelled (enclosed keyword name inner) form := by
  obtain ⟨words, hwords, hwithin⟩ := hinner
  refine ⟨_, ?_, h words hwithin⟩
  have hopening : Spells (spaced [keyword, name]) [keyword, name] :=
    spells_keyword keyword hkeyword (by simpa using isWord_of_isIdentifier hname)
  have hindented : List.Forall₂ Spells (inner.map (("  " : Text) ++ ·)) words :=
    List.forall₂_map_left_iff.mpr (hwords.imp fun _ _ hline => hline.indented)
  have hend : Spells "end" [("end" : Text)] :=
    spells_of_isWord (isWord_of_isIdentifier (by decide))
  exact List.rel_append (.cons hopening hindented) (.cons hend .nil)

/-- Items that are written one after the other. The words of each take the form of the items
after it to the form that has this item in front. -/
theorem spelled_flatMap {α : Type} (form : List α → List (List Text) → Prop)
    {linesOf : α → List Text} {items : List α} (h : Spelled lines (form []))
    (hitems : ∀ item ∈ items, Spelled (linesOf item) fun words =>
      ∀ rest body, form rest body → form (item :: rest) (words ++ body)) :
    Spelled (items.flatMap linesOf ++ lines) (form items) := by
  induction items with
  | nil => exact h
  | cons first rest ih =>
      obtain ⟨⟨words, hwords, hfirst⟩, hrest⟩ := List.forall_mem_cons.mp hitems
      obtain ⟨body, hbody, hform⟩ := ih hrest
      rw [List.flatMap_cons, List.append_assoc]
      exact ⟨words ++ body, List.rel_append hwords hbody, hfirst rest body hform⟩

/-- A text of lines is read line by line; nothing stands after the last newline. -/
theorem wordLines_ofLines {words : List (List Text)} (h : List.Forall₂ Spells lines words) :
    (ofLines lines).wordLines = words := by
  have hlines : (∀ line ∈ lines, newline ∉ line) ∧
      (lines.map Text.words).filter (!·.isEmpty) = words := by
    induction h with
    | nil => exact ⟨by simp, rfl⟩
    | cons hline _ ih =>
        rw [List.forall_mem_cons, List.map_cons, hline.words_eq,
          List.filter_cons_of_pos (by simpa using hline.nonempty), ih.2]
        exact ⟨⟨hline.oneLine, ih.1⟩, rfl⟩
  have hlast : [Text.words []].filter (!·.isEmpty) = [] := rfl
  rw [Text.wordLines, ofLines, splitOn_terminated hlines.1, List.map_append, List.filter_append,
    hlines.2, List.map_singleton, hlast, List.append_nil]

theorem Spelled.wordLines (h : Spelled lines form) : form (ofLines lines).wordLines := by
  obtain ⟨words, hwords, hform⟩ := h
  rwa [wordLines_ofLines hwords]

end Lines

end Text

end NameBinding
