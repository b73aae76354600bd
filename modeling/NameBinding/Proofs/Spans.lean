import NameBinding.Proofs.Complaints
import NameBinding.Proofs.SpanText

/-!
Spans point at what they claim. A declaration has the span of the keyword that introduces it,
a member or a reference the span of its word, and a complaint that of a word or of the kind in
front of a member. So each span leads back to this text in the source.
-/

namespace NameBinding

/-- The words stand in the source where they say. -/
def Text.Holds (source : Text) (words : List Word) : Prop :=
  ∀ word ∈ words, word.span.Marks source word.text

/-- The span of a member covers the word that declares it. -/
def Symbol.PlacedMember (source : Text) (member : Symbol) : Prop :=
  ∃ word, member.span.Marks source word ∧ MemberForm word member.withoutSpans

structure Symbol.Placed (source : Text) (symbol : Symbol) : Prop where
  keyword : symbol.span.Marks source symbol.kind.keyword
  members (member : Symbol) : member ∈ symbol.members → member.PlacedMember source

/-- A module that this keyword opens, with all that is in it. -/
inductive Module.Placed (source : Text) : (keyword : Text) → Module → Prop where
  | intro {keyword : Text} {module : Module} : module.span.Marks source keyword →
      (∀ symbol ∈ module.symbols, symbol.Placed source) →
      (∀ inner ∈ module.submodules, Placed source "submodule" inner) →
      Placed source keyword module

structure SourceUnit.Placed (source : Text) (unit : SourceUnit) : Prop where
  keyword : unit.span.Marks source "unit"
  imports (declaration : Import) : declaration ∈ unit.imports →
    declaration.span.Marks source "import"
  symbols (symbol : Symbol) : symbol ∈ unit.symbols → symbol.Placed source
  references (reference : Reference) : reference ∈ unit.references →
    reference.span.Marks source reference.text

structure Manifest.Placed (source : Text) (manifest : Manifest) : Prop where
  modules (module : Module) : module ∈ manifest.modules → module.Placed source "module"
  units (unit : SourceUnit) : unit ∈ manifest.units → unit.Placed source

/-- The span covers the kind in front of a member, up to the first colon of the word. -/
structure Span.MarksMemberKind (source : Text) (span : Span) (word : Word) : Prop where
  line : ∃ words ∈ Word.ofSource source, MemberIn words word
  whole : word.span.Marks source word.text
  colon : Text.colon ∈ word.text
  start : span.start = word.span.start
  oneLine : span.stop.line = span.start.line
  bytes : source.bytesAt span = word.text.takeWhile (· != Text.colon)

/-- The span is the first column of the last line. -/
structure Span.AtLastLine (source : Text) (span : Span) : Prop where
  line : span.start.line.toNat = (source.splitOn Text.newline).length
  column : span.start.column = 1
  empty : span.stop = span.start

/-- A complaint about a missing `end` stands on the last line, any other at a word or at the
kind in front of a member. -/
def Complaint.Placed (source : Text) (complaint : Complaint) : Prop :=
  if complaint.fault.isUnclosed then complaint.span.AtLastLine source
  else (∃ word, complaint.span.Marks source word) ∨
    ∃ word, complaint.span.MarksMemberKind source word

section Lines

variable {source : Text}

namespace Word

variable {keyword word : Word} {rest words : List Word}

theorem holds_cons : source.Holds (word :: words) ↔
    word.span.Marks source word.text ∧ source.Holds words := List.forall_mem_cons

theorem span_of_readMember {member : Symbol} (h : word.readMember = .ok member) :
    member.span = word.span := by
  have hmember {kind : Kind} {name : Text} (h : word.member kind name = .ok member) :
      member.span = word.span := by
    unfold Word.member at h
    split at h
    · exact congrArg (·.span) (Except.ok.inj h).symm
    · cases h
  rw [readMember_eq] at h
  split at h
  · exact hmember h
  · obtain ⟨kind, -, h⟩ := Complaint.bind_eq_ok_iff.mp h
    exact hmember h

theorem placed_of_readMember {member : Symbol} (hword : word.span.Marks source word.text)
    (h : word.readMember = .ok member) : member.PlacedMember source :=
  ⟨word.text, span_of_readMember h ▸ hword,
    map_readMember_eq_ok_iff.mp (Complaint.map_eq_ok (·.withoutSpans) h)⟩

theorem placed_of_mapM_readMember {members : List Symbol} (hwords : source.Holds words)
    (h : words.mapM readMember = .ok members) :
    ∀ member ∈ members, member.PlacedMember source := by
  induction words generalizing members with
  | nil =>
      obtain rfl := Except.ok.inj h
      exact List.forall_mem_nil _
  | cons first rest ih =>
      obtain ⟨hfirst, hrest⟩ := holds_cons.mp hwords
      rw [List.mapM_cons] at h
      obtain ⟨member, hmember, h⟩ := Complaint.bind_eq_ok_iff.mp h
      obtain ⟨others, hothers, h⟩ := Complaint.bind_eq_ok_iff.mp h
      obtain rfl := Except.ok.inj h
      exact List.forall_mem_cons.mpr ⟨placed_of_readMember hfirst hmember, ih hrest hothers⟩

theorem placed_of_readMembers {opened : Bool} {members : List Symbol}
    (hwords : source.Holds words) (h : readMembers opened words = .ok members) :
    ∀ member ∈ members, member.PlacedMember source := by
  cases words with
  | nil =>
      obtain rfl := Except.ok.inj h
      exact List.forall_mem_nil _
  | cons first rest =>
      cases opened with
      | true => exact placed_of_mapM_readMember hwords h
      | false =>
          simp only [readMembers, Bool.false_eq_true, if_false] at h
          split at h
          · exact placed_of_mapM_readMember (holds_cons.mp hwords).2 h
          · cases h

theorem placed_of_readSymbol {symbol : Symbol} (hwords : source.Holds (word :: rest))
    (h : word.readSymbol rest = .ok symbol) : symbol.Placed source := by
  cases rest with
  | nil =>
      obtain ⟨kind, -, h⟩ := Complaint.bind_eq_ok_iff.mp h
      cases h
  | cons nameWord words =>
      obtain ⟨hkindWord, hnameWord⟩ := holds_cons.mp hwords
      rw [readSymbol_cons] at h
      obtain ⟨kind, hkind, h⟩ := Complaint.bind_eq_ok_iff.mp h
      simp only [declared] at h
      split at h
      · obtain ⟨members, hmembers, h⟩ := Complaint.bind_eq_ok_iff.mp h
        obtain rfl := Except.ok.inj h
        exact ⟨readKind_eq_ok_iff.mp hkind ▸ hkindWord,
          placed_of_readMembers (holds_cons.mp hnameWord).2 hmembers⟩
      · cases h

theorem placed_of_readDeclaration {symbol : Symbol} (hwords : source.Holds rest)
    (h : keyword.readDeclaration rest = .ok symbol) : symbol.Placed source := by
  cases rest with
  | nil => cases h
  | cons kindWord words => exact placed_of_readSymbol hwords h

theorem span_of_readImport {declaration : Import} (h : keyword.readImport rest = .ok declaration) :
    declaration.span = keyword.span := by
  match rest with
  | [] => cases h
  | [path] =>
      simp only [readImport] at h
      split at h
      · cases h
      · split at h <;> exact congrArg (·.span) (Except.ok.inj h).symm
  | [kindWord, path] =>
      obtain ⟨kind, -, h⟩ := Complaint.bind_eq_ok_iff.mp h
      split at h
      · exact congrArg (·.span) (Except.ok.inj h).symm
      · cases h
  | _ :: _ :: _ :: _ => cases h

theorem placed_of_readTarget {context : Context} {reference : Reference}
    (hword : word.span.Marks source word.text) (h : word.readTarget context = .ok reference) :
    reference.span.Marks source reference.text := by
  unfold readTarget at h
  split at h
  · obtain rfl := Except.ok.inj h
    rw [Reference.text, Reference.ofText, Text.dotted_parts]
    exact hword
  · cases h

theorem placed_of_readReference {reference : Reference} (hwords : source.Holds rest)
    (h : keyword.readReference rest = .ok reference) :
    reference.span.Marks source reference.text := by
  match rest with
  | [] => cases h
  | [target] => exact placed_of_readTarget (holds_cons.mp hwords).1 h
  | [contextWord, target] =>
      obtain ⟨context, -, h⟩ := Complaint.bind_eq_ok_iff.mp h
      exact placed_of_readTarget (holds_cons.mp (holds_cons.mp hwords).2).1 h
  | _ :: _ :: _ :: _ => cases h

end Word

theorem Module.Placed.declare {keyword : Text} {module : Module} {symbol : Symbol}
    (h : module.Placed source keyword) (hsymbol : symbol.Placed source) :
    { module with symbols := module.symbols ++ [symbol] }.Placed source keyword := by
  cases h with
  | intro hkeyword hsymbols hsubmodules =>
      refine .intro hkeyword (List.forall_mem_append.mpr ⟨hsymbols, ?_⟩) hsubmodules
      exact List.forall_mem_singleton.mpr hsymbol

theorem Module.Placed.enclose {keyword : Text} {module inner : Module}
    (h : module.Placed source keyword) (hinner : inner.Placed source "submodule") :
    { module with submodules := module.submodules ++ [inner] }.Placed source keyword := by
  cases h with
  | intro hkeyword hsymbols hsubmodules =>
      refine .intro hkeyword hsymbols (List.forall_mem_append.mpr ⟨hsubmodules, ?_⟩)
      exact List.forall_mem_singleton.mpr hinner

namespace OpenBlock

/-- The keyword that opens a module inside of these. -/
def opener (outer : List Module) : Text := if outer.isEmpty then "module" else "submodule"

/-- Modules inside of each other, innermost first. -/
def PlacedAll (source : Text) : List Module → Prop
  | [] => True
  | inner :: outer => inner.Placed source (opener outer) ∧ PlacedAll source outer

def Placed (source : Text) : OpenBlock → Prop
  | .outside => True
  | .inModule inner outer => PlacedAll source (inner :: outer)
  | .inUnit unit => unit.Placed source

variable {mode : ManifestMode} {block next : OpenBlock} {keyword : Word} {rest : List Word}

theorem placed_of_enter (hkeyword : keyword.span.Marks source keyword.text)
    (h : enter mode keyword rest = .ok next) : next.Placed source := by
  unfold enter at h
  split at h
  · next hmodule =>
    obtain ⟨name, -, h⟩ := Complaint.bind_eq_ok_iff.mp h
    obtain rfl := Except.ok.inj h
    rw [beq_iff_eq.mp hmodule] at hkeyword
    exact ⟨.intro hkeyword (List.forall_mem_nil _) (List.forall_mem_nil _), trivial⟩
  · split at h
    · next hunit =>
      cases mode with
      | interface => cases h
      | workspace =>
          obtain ⟨name, -, h⟩ := Complaint.bind_eq_ok_iff.mp h
          obtain rfl := Except.ok.inj h
          rw [beq_iff_eq.mp hunit] at hkeyword
          exact ⟨hkeyword, List.forall_mem_nil _, List.forall_mem_nil _, List.forall_mem_nil _⟩
    · cases h

theorem placed_of_extendModule {inner : Module} {outer : List Module}
    (hwords : source.Holds (keyword :: rest)) (hblock : PlacedAll source (inner :: outer))
    (h : extendModule inner outer keyword rest = .ok next) : next.Placed source := by
  unfold extendModule at h
  split at h
  · cases h
  · split at h
    · next hsubmodule =>
      obtain ⟨name, -, h⟩ := Complaint.bind_eq_ok_iff.mp h
      obtain rfl := Except.ok.inj h
      have hkeyword := (Word.holds_cons.mp hwords).1
      rw [beq_iff_eq.mp hsubmodule] at hkeyword
      exact ⟨.intro hkeyword (List.forall_mem_nil _) (List.forall_mem_nil _), hblock⟩
    · obtain ⟨symbol, hsymbol, h⟩ := Complaint.bind_eq_ok_iff.mp h
      obtain rfl := Except.ok.inj h
      exact ⟨hblock.1.declare (Word.placed_of_readSymbol hwords hsymbol), hblock.2⟩

theorem placed_of_extendUnit {unit : SourceUnit} (hwords : source.Holds (keyword :: rest))
    (hunit : unit.Placed source) (h : extendUnit unit keyword rest = .ok next) :
    next.Placed source := by
  obtain ⟨hkeyword, hrest⟩ := Word.holds_cons.mp hwords
  unfold extendUnit at h
  split at h
  · next himport =>
    obtain ⟨declaration, hdeclaration, h⟩ := Complaint.bind_eq_ok_iff.mp h
    obtain rfl := Except.ok.inj h
    rw [beq_iff_eq.mp himport, ← Word.span_of_readImport hdeclaration] at hkeyword
    refine ⟨hunit.keyword, List.forall_mem_append.mpr ⟨hunit.imports, ?_⟩, hunit.symbols,
      hunit.references⟩
    exact List.forall_mem_singleton.mpr hkeyword
  · split at h
    · obtain ⟨symbol, hsymbol, h⟩ := Complaint.bind_eq_ok_iff.mp h
      obtain rfl := Except.ok.inj h
      refine ⟨hunit.keyword, hunit.imports, List.forall_mem_append.mpr ⟨hunit.symbols, ?_⟩,
        hunit.references⟩
      exact List.forall_mem_singleton.mpr (Word.placed_of_readDeclaration hrest hsymbol)
    · split at h
      · obtain ⟨reference, hreference, h⟩ := Complaint.bind_eq_ok_iff.mp h
        obtain rfl := Except.ok.inj h
        refine ⟨hunit.keyword, hunit.imports, hunit.symbols,
          List.forall_mem_append.mpr ⟨hunit.references, ?_⟩⟩
        exact List.forall_mem_singleton.mpr (Word.placed_of_readReference hrest hreference)
      · cases h

theorem placed_of_extend (hwords : source.Holds (keyword :: rest)) (hblock : block.Placed source)
    (h : block.extend mode keyword rest = .ok next) : next.Placed source := by
  cases block with
  | outside => exact placed_of_enter (Word.holds_cons.mp hwords).1 h
  | inModule inner outer => exact placed_of_extendModule hwords hblock h
  | inUnit unit => exact placed_of_extendUnit hwords hblock h

theorem Ends.placed {manifest ended : Manifest} (h : Ends manifest block ended next)
    (hmanifest : manifest.Placed source) (hblock : block.Placed source) :
    ended.Placed source ∧ next.Placed source := by
  cases h with
  | outside => exact ⟨hmanifest, trivial⟩
  | unit unit =>
      refine ⟨⟨hmanifest.modules, List.forall_mem_append.mpr ⟨hmanifest.units, ?_⟩⟩, trivial⟩
      exact List.forall_mem_singleton.mpr hblock
  | module inner =>
      refine ⟨⟨List.forall_mem_append.mpr ⟨hmanifest.modules, ?_⟩, hmanifest.units⟩, trivial⟩
      exact List.forall_mem_singleton.mpr hblock.1
  | submodule inner around outer =>
      obtain ⟨hinner, haround, houter⟩ := hblock
      exact ⟨hmanifest, haround.enclose hinner, houter⟩

end OpenBlock

namespace Reading

variable {mode : ManifestMode}

/-- Whatever a line declares has spans that point at the line. -/
theorem placed_line (reading : Reading) {words : List Word} (hwords : source.Holds words)
    (hmanifest : reading.manifest.Placed source) (hblock : reading.block.Placed source) :
    (reading.line mode words).manifest.Placed source ∧
      (reading.line mode words).block.Placed source := by
  cases words with
  | nil => exact ⟨hmanifest, hblock⟩
  | cons keyword rest =>
      by_cases hend : keyword.text = "end"
      · exact (line_end_ends mode reading hend rest).1.placed hmanifest hblock
      · rw [line_other mode reading hend]
        cases hextend : reading.block.extend mode keyword rest with
        | error complaint => exact ⟨hmanifest, hblock⟩
        | ok block => exact ⟨hmanifest, OpenBlock.placed_of_extend hwords hblock hextend⟩

theorem placed_lines (reading : Reading) {lines : List (List Word)}
    (hlines : ∀ words ∈ lines, source.Holds words)
    (hmanifest : reading.manifest.Placed source) (hblock : reading.block.Placed source) :
    (reading.lines mode lines).manifest.Placed source ∧
      (reading.lines mode lines).block.Placed source := by
  induction lines generalizing reading with
  | nil => exact ⟨hmanifest, hblock⟩
  | cons first rest ih =>
      obtain ⟨hfirst, hrest⟩ := List.forall_mem_cons.mp hlines
      obtain ⟨hmanifest', hblock'⟩ := placed_line reading hfirst hmanifest hblock
      exact ih _ hrest hmanifest' hblock'

end Reading

theorem Span.Marks.length_lines_le {span : Span} {word : Text} (h : span.Marks source word) :
    (source.splitOn Text.newline).length ≤ source.length := by
  have hinside := h.whole.length_le
  have hnonempty : 0 < word.length := List.length_pos_iff.mpr h.whole.isWord.nonempty
  obtain ⟨position, hposition⟩ := Nat.exists_eq_succ_of_ne_zero (Nat.ne_of_gt h.line.1)
  have hbound : position < (source.splitOn Text.newline).length := by
    have hlast := h.line.2
    omega
  have hline : source.lineAt span.start.line ∈ source.splitOn Text.newline := by
    rw [Text.lineAt, hposition, List.getD_eq_getElem?_getD, List.getElem?_cons_succ,
      List.getElem?_eq_getElem hbound]
    exact List.getElem_mem hbound
  have hbytes := Text.length_line_le hline
  omega

theorem MemberIn.mem {words : List Word} {word : Word} (h : MemberIn words word) :
    word ∈ words := by
  cases h with
  | intro => simp

theorem Complaint.About.placed {words : List Word} {complaint : Complaint}
    (h : complaint.About words) (hsource : source.length < 2 ^ 32)
    (hwords : words ∈ Word.ofSource source) : complaint.Placed source := by
  obtain ⟨hplace, -, hclosed⟩ := h
  rw [Complaint.Placed, hclosed]
  obtain ⟨fault, span⟩ := complaint
  cases hplace with
  | word hword => exact .inl ⟨_, Word.marks_span hsource hwords hword⟩
  | @memberKind word hmember hcolon =>
      have hwhole := Word.marks_span hsource hwords hmember.mem
      exact .inr ⟨word, ⟨words, hwords, hmember⟩, hwhole, hcolon, rfl, rfl,
        Word.bytesAt_front hwhole (List.takeWhile_prefix _)⟩

end Lines

namespace Manifest

variable {mode : ManifestMode} {source : Text}

theorem placed_at_end (mode : ManifestMode) (hsource : source.length < 2 ^ 32) :
    (read mode source).1.Placed source ∧ (openAtEnd mode source).Placed source := by
  refine Reading.placed_lines {} (fun words hwords word hword => ?_) ⟨by simp, by simp⟩ trivial
  exact Word.marks_span hsource hwords hword

/-- A source in which a block is open has a line that is not empty, so it has no more lines than
bytes. -/
theorem length_lines_le_of_unclosed {fault : ManifestFault} (hsource : source.length < 2 ^ 32)
    (hfault : fault ∈ (openAtEnd mode source).unclosed) :
    (source.splitOn Text.newline).length ≤ source.length := by
  have hplaced := (placed_at_end mode hsource).2
  cases hblock : openAtEnd mode source with
  | outside =>
      rw [hblock] at hfault
      cases hfault
  | inModule inner outer =>
      rw [hblock] at hplaced
      obtain ⟨⟨hkeyword, -, -⟩, -⟩ := hplaced
      exact hkeyword.length_lines_le
  | inUnit unit =>
      rw [hblock] at hplaced
      exact hplaced.keyword.length_lines_le

theorem placed_of_readAll {complaint : Complaint} (hsource : source.length < 2 ^ 32)
    (h : complaint ∈ (readAll mode source).complaints) : complaint.Placed source := by
  rcases about_of_readAll h with ⟨words, hwords, habout⟩ | ⟨hfault, hspan⟩
  · exact habout.placed hsource hwords
  · obtain ⟨hunclosed, -⟩ :=
      OpenBlock.identifiers_unclosed (wellFormed_openAtEnd mode source) hfault
    -- A line number that wraps would take 2 ^ 32 lines, all of them empty.
    have hlines := length_lines_le_of_unclosed hsource hfault
    rw [Complaint.Placed, if_pos hunclosed, hspan, Word.length_ofSource]
    refine ⟨UInt32.toNat_ofNat_of_lt' ?_, rfl, rfl⟩
    show (source.splitOn Text.newline).length < 2 ^ 32
    omega

/-- Spans point at the text that they claim, in every source of less than 2 ^ 32 bytes. Lines
are cut at newlines, and lines and columns are counted from one. The span of a reference covers
its text, that of a symbol the keyword of its kind, that of a member its word, which is its name
or its kind, a colon and its name, that of an import `import`, and those of modules, submodules
and units the keyword that opens them. The span of a complaint covers a word of its line, or the
part of a member's word before the first colon; only a missing `end` is complained about on the
last line, at column one. -/
theorem read_placed (mode : ManifestMode) (source : Text) (hsource : source.length < 2 ^ 32) :
    (read mode source).1.Placed source ∧
      (read mode source).2 = (readAll mode source).complaints.map (·.diagnostic) ∧
      ∀ complaint ∈ (readAll mode source).complaints, complaint.Placed source :=
  ⟨(placed_at_end mode hsource).1, rfl, fun _ => placed_of_readAll hsource⟩

/-- Tabs, a comment, a colon that ends a name and a kind in front of a member. The member whose
kind is unknown is complained about for this kind alone, the module that stays open at the empty
line behind the last newline. -/
theorem read_placed_stables :
    let source : Text :=
      "module Stables# of wood\n\tstruct  Horse: func:trot\tgallop\n  submodule Hay\n  end\n" ++
        "end\nunit Rider\n  import Stables\n  declare enum Gait : walk pace:amble\n" ++
        "  reference type Stables.Horse#!\nend\nmodule Barn\n"
    let manifest : Manifest := (read .workspace source).1
    let said : List Diagnostic := (read .workspace source).2
    source.length < 2 ^ 32 ∧ manifest.Placed source ∧
      (∀ complaint ∈ (readAll .workspace source).complaints, complaint.Placed source) ∧
      manifest.modules.flatMap (·.symbols.flatMap (·.members.map
        (source.bytesAt ·.span))) = (["func:trot", "gallop"] : List Text) ∧
      manifest.units.flatMap (·.references.map (source.bytesAt ·.span)) =
        (["Stables.Horse"] : List Text) ∧
      said.map (source.bytesAt ·.span) = (["pace", ""] : List Text) ∧
      said.map (·.span.start) = [⟨8, 28⟩, ⟨12, 1⟩] := by
  intro source manifest said
  have hsource : source.length < 2 ^ 32 := by decide +kernel
  obtain ⟨hmanifest, -, hcomplaints⟩ := read_placed .workspace source hsource
  exact ⟨hsource, hmanifest, hcomplaints, by decide +kernel⟩

end Manifest

end NameBinding
