/-!
Names, messages and file contents are byte strings: nothing here asks for valid
UTF-8, and columns count bytes. The character classes are the ASCII ones, so a
byte of 0x80 and above is neither a letter nor a blank.
-/

namespace NameBinding

abbrev Text := List UInt8

namespace Text

def ofString (s : String) : Text := s.toUTF8.data.toList

instance : Coe String Text := ⟨ofString⟩

def newline : UInt8 := '\n'.toUInt8
def dot : UInt8 := '.'.toUInt8
def colon : UInt8 := ':'.toUInt8
def hash : UInt8 := '#'.toUInt8
def slash : UInt8 := '/'.toUInt8
def underscore : UInt8 := '_'.toUInt8

/-- Space, tab, newline, vertical tab, form feed and carriage return. -/
def isBlank (byte : UInt8) : Bool :=
  byte == 32 || (9 ≤ byte && byte ≤ 13)

def isDigit (byte : UInt8) : Bool := 48 ≤ byte && byte ≤ 57

def isLetter (byte : UInt8) : Bool :=
  (65 ≤ byte && byte ≤ 90) || (97 ≤ byte && byte ≤ 122)

/-- A byte that may stand anywhere but at the front of an identifier. -/
def isNameByte (byte : UInt8) : Bool :=
  isLetter byte || isDigit byte || byte == underscore

def isIdentifier : Text → Bool
  | [] => false
  | first :: rest => !isDigit first && (first :: rest).all isNameByte

/-- The text between dots. There is always at least one part, and a part is
empty where two dots meet or a dot stands at an end. -/
def parts (text : Text) : List Text := text.splitOn dot

def dotted (parts : List Text) : Text := [dot].intercalate parts

/-- Identifiers joined by dots. -/
def isDottedPath (text : Text) : Bool := text.parts.all isIdentifier

def quoted (text : Text) : Text := "'" ++ text ++ "'"

def decimal (n : Nat) : Text := (Nat.toDigits 10 n).map Char.toUInt8

/-- A piece of a text holds nothing that the text was cut at. -/
theorem uncut_of_mem {cut : UInt8 → Bool} {text piece : Text}
    (h : piece ∈ text.splitOnP cut) : ∀ byte ∈ piece, cut byte = false := by
  induction text generalizing piece with
  | nil => simp_all
  | cons first rest ih =>
      rw [List.splitOnP_cons_eq_if_modifyHead] at h
      split at h
      · rcases List.mem_cons.mp h with rfl | hlater
        · simp
        · exact ih hlater
      · next hfirst =>
        -- The byte that does not cut goes to the front of the first piece of the rest.
        obtain ⟨head, tail, hrest⟩ := List.exists_cons_of_ne_nil (List.splitOnP_ne_nil cut rest)
        rw [hrest] at h ih
        rcases List.mem_cons.mp h with rfl | hlater
        · rw [List.forall_mem_cons]
          exact ⟨Bool.not_eq_true _ ▸ hfirst, ih List.mem_cons_self⟩
        · exact ih (List.mem_cons_of_mem _ hlater)

theorem separator_not_mem {separator : UInt8} {text piece : Text}
    (h : piece ∈ text.splitOn separator) : separator ∉ piece := by
  intro hseparator
  rw [List.splitOn_eq_splitOnP] at h
  simpa using uncut_of_mem h separator hseparator

theorem bne_of_not_mem {mark : UInt8} {text : Text} (h : mark ∉ text) :
    ∀ byte ∈ text, (byte != mark) = true := by
  intro byte hbyte
  rw [bne_iff_ne]
  exact fun hmark => h (hmark ▸ hbyte)

theorem length_splitOn (separator : UInt8) (text : Text) :
    (text.splitOn separator).length = text.count separator + 1 := by
  induction text with
  | nil => rfl
  | cons first rest ih =>
      rw [List.splitOn_cons_eq_if_modifyHead, List.count_cons]
      split <;> simp [ih]

@[simp] theorem dotted_parts (text : Text) : dotted text.parts = text :=
  List.intercalate_splitOn dot

theorem parts_dotted {names : List Text} (nonempty : names ≠ [])
    (plain : ∀ name ∈ names, dot ∉ name) : (dotted names).parts = names :=
  List.splitOn_intercalate dot plain nonempty

end Text

end NameBinding
