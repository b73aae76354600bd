import NameBinding.Proofs.SourceLines
import NameBinding.Proofs.WithoutSpans
import Mathlib.Data.List.Forall2

/-!
The grammar of manifests. It derives declarations, without places, from lines of words,
and says nothing of how a line is read.
-/

namespace NameBinding

/-- One or more identifiers with a dot between each two. -/
structure NamePath (text : Text) (names : List Text) : Prop where
  nonempty : names ≠ []
  identifiers (name : Text) : name ∈ names → name.isIdentifier
  spelled : text = Text.dotted names

/-- A member is a name, or a kind, a colon and a name in one word. -/
inductive MemberForm : Text → Symbol → Prop where
  | plain {name : Text} : name.isIdentifier → MemberForm name { name, kind := .constant }
  | ofKind (kind : Kind) {name : Text} : name.isIdentifier →
      MemberForm (kind.keyword ++ ":" ++ name) { name, kind }

/-- A declaration is a kind and a name. Members come after a colon, which ends the word of
the name or stands alone. -/
inductive DeclarationForm : List Text → Symbol → Prop where
  | bare (kind : Kind) {name : Text} : name.isIdentifier →
      DeclarationForm [kind.keyword, name] { name, kind }
  | joined (kind : Kind) {name : Text} {words : List Text} {members : List Symbol} :
      name.isIdentifier → List.Forall₂ MemberForm words members →
      DeclarationForm (kind.keyword :: (name ++ ":") :: words) { name, kind, members }
  | apart (kind : Kind) {name : Text} {words : List Text} {members : List Symbol} :
      name.isIdentifier → List.Forall₂ MemberForm words members →
      DeclarationForm (kind.keyword :: name :: ":" :: words) { name, kind, members }

/-- What is imported by a path: the submodule below its first name, if there is more. -/
def ImportTarget.ofPath : (below : List Text) → ImportTarget
  | [] => .everything
  | below => .submodule (Text.dotted below)

/-- What may follow `import`. -/
inductive ImportForm : List Text → Import → Prop where
  | path {text module : Text} {below : List Text} : NamePath text (module :: below) →
      ImportForm [text] { module, target := .ofPath below }
  | symbol (kind : Kind) {module name : Text} : module.isIdentifier → name.isIdentifier →
      ImportForm [kind.keyword, module ++ "." ++ name] { module, target := .symbol kind name }

/-- What may follow `reference`. -/
inductive ReferenceForm : List Text → Reference → Prop where
  | plain {text : Text} {path : List Text} : NamePath text path → ReferenceForm [text] { path }
  | inContext (context : Context) {text : Text} {path : List Text} : NamePath text path →
      ReferenceForm [context.word, text] { path, context }

/-- The lines of a block: the one that opens it, those inside, and its `end`. -/
def blockLines (keyword name : Text) (inner : List (List Text)) : List (List Text) :=
  [keyword, name] :: inner ++ [[("end" : Text)]]

/-- The lines inside a module, with the symbols and submodules that they declare. -/
inductive ModuleBody : List (List Text) → List Symbol → List Module → Prop where
  | done : ModuleBody [] [] []
  | symbol {words : List Text} {symbol : Symbol} {lines : List (List Text)}
      {symbols : List Symbol} {submodules : List Module} :
      DeclarationForm words symbol → ModuleBody lines symbols submodules →
      ModuleBody (words :: lines) (symbol :: symbols) submodules
  | submodule {name : Text} {inner : List (List Text)} {innerSymbols : List Symbol}
      {innermost : List Module} {lines : List (List Text)} {symbols : List Symbol}
      {submodules : List Module} :
      name.isIdentifier → ModuleBody inner innerSymbols innermost →
      ModuleBody lines symbols submodules →
      ModuleBody (blockLines "submodule" name inner ++ lines) symbols
        ({ name, symbols := innerSymbols, submodules := innermost } :: submodules)

/-- The lines inside a unit, with the imports, symbols and references that they add. -/
inductive UnitBody :
    List (List Text) → List Import → List Symbol → List Reference → Prop where
  | done : UnitBody [] [] [] []
  | import {words : List Text} {declaration : Import} {lines : List (List Text)}
      {imports : List Import} {symbols : List Symbol} {references : List Reference} :
      ImportForm words declaration → UnitBody lines imports symbols references →
      UnitBody (("import" :: words) :: lines) (declaration :: imports) symbols references
  | declare {words : List Text} {symbol : Symbol} {lines : List (List Text)}
      {imports : List Import} {symbols : List Symbol} {references : List Reference} :
      DeclarationForm words symbol → UnitBody lines imports symbols references →
      UnitBody (("declare" :: words) :: lines) imports (symbol :: symbols) references
  | reference {words : List Text} {reference : Reference} {lines : List (List Text)}
      {imports : List Import} {symbols : List Symbol} {references : List Reference} :
      ReferenceForm words reference → UnitBody lines imports symbols references →
      UnitBody (("reference" :: words) :: lines) imports symbols (reference :: references)

/-- The lines of a manifest, with what they declare. Only a workspace has units. -/
inductive ManifestForm : ManifestMode → List (List Text) → Manifest → Prop where
  | done {mode : ManifestMode} : ManifestForm mode [] {}
  | module {mode : ManifestMode} {name : Text} {inner : List (List Text)}
      {symbols : List Symbol} {submodules : List Module} {lines : List (List Text)}
      {manifest : Manifest} :
      name.isIdentifier → ModuleBody inner symbols submodules →
      ManifestForm mode lines manifest →
      ManifestForm mode (blockLines "module" name inner ++ lines)
        { manifest with modules := { name, symbols, submodules } :: manifest.modules }
  | unit {name : Text} {inner : List (List Text)} {imports : List Import}
      {symbols : List Symbol} {references : List Reference} {lines : List (List Text)}
      {manifest : Manifest} :
      name.isIdentifier → UnitBody inner imports symbols references →
      ManifestForm .workspace lines manifest →
      ManifestForm .workspace (blockLines "unit" name inner ++ lines)
        { manifest with
          units := { module := name, imports, symbols, references } :: manifest.units }

theorem blockLines_append (keyword name : Text) (inner lines : List (List Text)) :
    blockLines keyword name inner ++ lines =
      [keyword, name] :: (inner ++ [("end" : Text)] :: lines) := by
  simp [blockLines]

theorem ImportForm.length_le {words : List Text} {declaration : Import}
    (h : ImportForm words declaration) : words.length ≤ 2 := by
  cases h <;> simp

theorem ReferenceForm.length_le {words : List Text} {reference : Reference}
    (h : ReferenceForm words reference) : words.length ≤ 2 := by
  cases h <;> simp

namespace Text

theorem isNameByte_of_mem {name : Text} (h : name.isIdentifier) {byte : UInt8}
    (hbyte : byte ∈ name) : isNameByte byte = true := by
  cases name with
  | nil => cases hbyte
  | cons first rest =>
      rw [isIdentifier, Bool.and_eq_true] at h
      exact List.all_eq_true.mp h.2 byte hbyte

theorem not_mem_of_isIdentifier {name : Text} (h : name.isIdentifier) {byte : UInt8}
    (hbyte : isNameByte byte = false) : byte ∉ name := by
  intro hmember
  rw [isNameByte_of_mem h hmember] at hbyte
  cases hbyte

theorem ne_nil_of_isIdentifier {name : Text} (h : name.isIdentifier) : name ≠ [] := by
  rintro rfl
  cases h

theorem isDottedPath_iff {text : Text} :
    text.isDottedPath = true ↔ NamePath text text.parts := by
  rw [isDottedPath, List.all_eq_true]
  constructor
  · intro h
    exact ⟨List.splitOn_ne_nil dot text, h, (dotted_parts text).symm⟩
  · exact fun h => h.identifiers

end Text

theorem NamePath.parts {text : Text} {names : List Text} (h : NamePath text names) :
    text.parts = names := by
  rw [h.spelled]
  apply Text.parts_dotted h.nonempty
  intro name hname
  exact Text.not_mem_of_isIdentifier (h.identifiers name hname) rfl

theorem Text.namePath_of_isDottedPath {text : Text} {names : List Text}
    (h : text.isDottedPath = true) : NamePath text names ↔ text.parts = names :=
  ⟨fun hnames => hnames.parts, fun hparts => hparts ▸ isDottedPath_iff.mp h⟩

theorem NamePath.isDottedPath {text : Text} {names : List Text} (h : NamePath text names) :
    text.isDottedPath = true := by
  rw [Text.isDottedPath_iff, h.parts]
  exact h

theorem NamePath.singleton {name : Text} (h : name.isIdentifier) : NamePath name [name] where
  nonempty := by simp
  identifiers := by simpa using h
  spelled := List.intercalate_singleton.symm

theorem NamePath.cons {name text : Text} {names : List Text} (hname : name.isIdentifier)
    (h : NamePath text names) : NamePath (name ++ "." ++ text) (name :: names) where
  nonempty := by simp
  identifiers := List.forall_mem_cons.mpr ⟨hname, h.identifiers⟩
  spelled := by
    obtain ⟨first, rest, rfl⟩ := List.exists_cons_of_ne_nil h.nonempty
    rw [h.spelled, Text.dotted, Text.dotted, List.intercalate_cons_cons]
    rfl

theorem NamePath.submodule_eq {text : Text} {names : List Text} (h : NamePath text names) :
    ImportTarget.submodule text = .ofPath names := by
  obtain ⟨first, rest, rfl⟩ := List.exists_cons_of_ne_nil h.nonempty
  rw [h.spelled]
  rfl

theorem namePath_pair_iff {text module name : Text} :
    NamePath text [module, name] ↔
      module.isIdentifier ∧ name.isIdentifier ∧ text = module ++ "." ++ name := by
  constructor
  · intro h
    have hmodule := h.identifiers module (by simp)
    have hname := h.identifiers name (by simp)
    exact ⟨hmodule, hname, h.spelled.trans (NamePath.singleton hname |>.cons hmodule).spelled.symm⟩
  · rintro ⟨hmodule, hname, rfl⟩
    exact (NamePath.singleton hname).cons hmodule

theorem declarationForm_cons_iff {first : Text} {rest : List Text} {symbol : Symbol} :
    DeclarationForm (first :: rest) symbol ↔
      ∃ (kind : Kind) (name : Text) (members : List Symbol),
        first = kind.keyword ∧ name.isIdentifier ∧ symbol = { name, kind, members } ∧
          ((rest = [name] ∧ members = []) ∨
            (∃ words, rest = (name ++ ":") :: words ∧ List.Forall₂ MemberForm words members) ∨
            ∃ words, rest = name :: ":" :: words ∧ List.Forall₂ MemberForm words members) := by
  constructor
  · generalize hline : first :: rest = line
    intro h
    cases h with
    | bare kind hname =>
        obtain ⟨rfl, rfl⟩ := List.cons.inj hline
        exact ⟨kind, _, _, rfl, hname, rfl, .inl ⟨rfl, rfl⟩⟩
    | joined kind hname hmembers =>
        obtain ⟨rfl, rfl⟩ := List.cons.inj hline
        exact ⟨kind, _, _, rfl, hname, rfl, .inr (.inl ⟨_, rfl, hmembers⟩)⟩
    | apart kind hname hmembers =>
        obtain ⟨rfl, rfl⟩ := List.cons.inj hline
        exact ⟨kind, _, _, rfl, hname, rfl, .inr (.inr ⟨_, rfl, hmembers⟩)⟩
  · rintro ⟨kind, name, members, rfl, hname, rfl,
      ⟨rfl, rfl⟩ | ⟨words, rfl, hmembers⟩ | ⟨words, rfl, hmembers⟩⟩
    · exact .bare kind hname
    · exact .joined kind hname hmembers
    · exact .apart kind hname hmembers

theorem importForm_one_iff {text : Text} {declaration : Import} :
    ImportForm [text] declaration ↔
      ∃ module below, NamePath text (module :: below) ∧
        declaration = { module, target := .ofPath below } := by
  constructor
  · rintro ⟨hpath⟩
    exact ⟨_, _, hpath, rfl⟩
  · rintro ⟨module, below, hpath, rfl⟩
    exact .path hpath

theorem importForm_two_iff {word text : Text} {declaration : Import} :
    ImportForm [word, text] declaration ↔
      ∃ (kind : Kind) (module name : Text), word = kind.keyword ∧
        NamePath text [module, name] ∧
          declaration = { module, target := .symbol kind name } := by
  simp only [namePath_pair_iff]
  constructor
  · intro h
    cases h with
    | symbol kind hmodule hname => exact ⟨kind, _, _, rfl, ⟨hmodule, hname, rfl⟩, rfl⟩
  · rintro ⟨kind, module, name, rfl, ⟨hmodule, hname, rfl⟩, rfl⟩
    exact .symbol kind hmodule hname

theorem referenceForm_one_iff {text : Text} {reference : Reference} :
    ReferenceForm [text] reference ↔ ∃ path, NamePath text path ∧ reference = { path } := by
  constructor
  · rintro ⟨hpath⟩
    exact ⟨_, hpath, rfl⟩
  · rintro ⟨path, hpath, rfl⟩
    exact .plain hpath

theorem referenceForm_two_iff {word text : Text} {reference : Reference} :
    ReferenceForm [word, text] reference ↔
      ∃ context : Context, word = context.word ∧
        ∃ path, NamePath text path ∧ reference = { path, context } := by
  constructor
  · intro h
    cases h with
    | inContext context hpath => exact ⟨context, rfl, _, hpath, rfl⟩
  · rintro ⟨context, rfl, path, hpath, rfl⟩
    exact .inContext context hpath

end NameBinding
