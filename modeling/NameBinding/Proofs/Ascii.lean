import NameBinding.Proofs.Named

/-!
What is spelled in ASCII. Identifiers are, and so is all that is made of them: paths, imports
that are written out and the descriptions of symbols with such names.
-/

namespace NameBinding

namespace Text

def IsAscii (text : Text) : Prop := ∀ byte ∈ text, byte < 0x80

instance : DecidablePred IsAscii := fun text => List.decidableBAll (· < 0x80) text

variable {text rest : Text}

theorem isAscii_nil : IsAscii [] := by
  intro byte hbyte
  cases hbyte

theorem IsAscii.append (h : text.IsAscii) (hrest : rest.IsAscii) : (text ++ rest).IsAscii :=
  List.forall_mem_append.mpr ⟨h, hrest⟩

theorem isAscii_intercalate {separator : Text} (hseparator : separator.IsAscii)
    {items : List Text} (h : ∀ item ∈ items, item.IsAscii) :
    IsAscii (separator.intercalate items) := by
  induction items with
  | nil => exact isAscii_nil
  | cons first rest ih =>
      obtain ⟨hfirst, hrest⟩ := List.forall_mem_cons.mp h
      cases rest with
      | nil => rwa [List.intercalate_singleton]
      | cons second more =>
          rw [List.intercalate_cons_cons]
          exact (hfirst.append hseparator).append (ih hrest)

theorem lt_of_isNameByte {byte : UInt8} (h : isNameByte byte = true) : byte < 0x80 := by
  simp only [isNameByte, isLetter, isDigit, Bool.or_eq_true, Bool.and_eq_true,
    decide_eq_true_eq, beq_iff_eq, UInt8.le_iff_toNat_le] at h
  rw [UInt8.lt_iff_toNat_lt]
  rcases h with ((⟨-, h⟩ | ⟨-, h⟩) | ⟨-, h⟩) | rfl
  · exact lt_of_le_of_lt h (by decide)
  · exact lt_of_le_of_lt h (by decide)
  · exact lt_of_le_of_lt h (by decide)
  · decide

theorem isAscii_of_isIdentifier (h : text.isIdentifier = true) : text.IsAscii := by
  cases text with
  | nil => exact isAscii_nil
  | cons first rest =>
      have hbytes := (Bool.and_eq_true_iff.mp h).2
      intro byte hbyte
      exact lt_of_isNameByte (List.all_eq_true.mp hbytes byte hbyte)

end Text

theorem NamePath.isAscii {text : Text} {names : List Text} (h : NamePath text names) :
    text.IsAscii := by
  rw [h.spelled]
  exact Text.isAscii_intercalate (by decide) fun name hname =>
    Text.isAscii_of_isIdentifier (h.identifiers name hname)

theorem Import.Writable.isAscii_describe {declaration : Import} (h : declaration.Writable) :
    declaration.describe.IsAscii := by
  obtain ⟨module, target, span⟩ := declaration
  obtain ⟨hmodule, htarget⟩ := h
  have hmodule := Text.isAscii_of_isIdentifier hmodule
  unfold describe
  cases target with
  | everything => exact Text.IsAscii.append (by decide) hmodule
  | symbol kind name =>
      have hkeyword : kind.keyword.IsAscii := by cases kind <;> decide
      have hname := Text.isAscii_of_isIdentifier htarget
      exact ((((Text.IsAscii.append (by decide) hkeyword).append (by decide)).append
        hmodule).append (by decide)).append hname
  | submodule path =>
      obtain ⟨names, hnames⟩ := htarget
      exact ((Text.IsAscii.append (by decide) hmodule).append (by decide)).append hnames.isAscii

theorem Symbol.Named.isAscii_describe {symbol : Symbol} (h : symbol.Named) :
    symbol.describe.IsAscii := by
  obtain ⟨hname, howner, -⟩ := h
  have hkeyword : symbol.kind.keyword.IsAscii := by cases symbol.kind <;> decide
  have howner := (Text.isDottedPath_iff.mp howner).isAscii
  unfold Symbol.describe
  refine ((hkeyword.append (by decide)).append ?_).append (Text.isAscii_of_isIdentifier hname)
  split
  · exact Text.isAscii_nil
  · exact howner.append (by decide)

end NameBinding
