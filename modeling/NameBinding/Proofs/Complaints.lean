import NameBinding.Proofs.WellFormed

/-!
What is complained about. A complaint about a line stands at one of its words, or at the kind
in front of a member, and quotes nothing but parts of these words and names of blocks. Only
a block that is never closed is complained about where no word stands.
-/

namespace NameBinding

namespace ManifestFault

/-- The texts that a fault quotes. -/
def quoted : ManifestFault → List Text
  | .unclosedUnit name | .unclosedModule name => [name]
  | .unitInInterface | .nothingToEnd | .malformedImport | .referenceForm | .kindExpected => []
  | .strayLine word | .wordAfterEnd word | .unknownContext word | .unknownKind word
  | .membersUnopened word => [word]
  | .blockInModule word name | .strayInUnit word name => [word, name]
  | .nameExpected after => [after]
  | .wordAfterName word block => [word, block]
  | .malformedImportPath path => [path]
  | .malformedSymbolImport kind path => [kind, path]
  | .malformedReference text => [text]
  | .invalidName name | .invalidMember name => [name]

/-- Whether the fault is one of the whole source, a block without its `end`. -/
def isUnclosed : ManifestFault → Bool
  | .unclosedUnit _ | .unclosedModule _ => true
  | _ => false

end ManifestFault

/-- The words of a declaration up to the colon, behind which its members stand. -/
inductive OpensMembers : List Text → Prop where
  | joined (kind : Kind) {name : Text} : name.isIdentifier →
      OpensMembers [kind.keyword, name ++ ":"]
  | apart (kind : Kind) {name : Text} : name.isIdentifier →
      OpensMembers [kind.keyword, name, ":"]

/-- A text that a line accounts for: a part of a word, or the name of a block. -/
def QuotedFrom (words : List Word) (text : Text) : Prop :=
  text.isIdentifier = true ∨ ∃ word ∈ words, text <:+: word.text

/-- What comes before a declaration: nothing in a module, and `declare` in a unit. -/
inductive Introduces : List Text → Prop where
  | inModule : Introduces []
  | inUnit : Introduces ["declare"]

/-- A word of a line that stands where the members of a declaration do. -/
inductive MemberIn : (words : List Word) → Word → Prop where
  | intro {lead opening earlier later : List Word} {word : Word} :
      Introduces (lead.map (·.text)) → OpensMembers (opening.map (·.text)) →
      MemberIn (lead ++ (opening ++ (earlier ++ word :: later))) word

/-- The kind in front of a member, which ends before the first colon. -/
def Word.memberKind (word : Word) : Word :=
  { word with text := word.text.takeWhile (· != Text.colon) }

/-- Where a complaint about a line can stand. -/
inductive PlaceIn (words : List Word) : Span → Prop where
  | word {word : Word} : word ∈ words → PlaceIn words word.span
  | memberKind {word : Word} : MemberIn words word → Text.colon ∈ word.text →
      PlaceIn words word.memberKind.span

structure Complaint.About (words : List Word) (complaint : Complaint) : Prop where
  place : PlaceIn words complaint.span
  quoted (text : Text) : text ∈ complaint.fault.quoted → QuotedFrom words text
  closed : complaint.fault.isUnclosed = false

section Quoting

variable {words : List Word} {word : Word} {text : Text}

theorem quotedFrom_identifier (words : List Word) (h : text.isIdentifier = true) :
    QuotedFrom words text := .inl h

theorem quotedFrom_part (h : word ∈ words) (htext : text <:+: word.text) :
    QuotedFrom words text := .inr ⟨word, h, htext⟩

theorem quotedFrom_word (h : word ∈ words) : QuotedFrom words word.text :=
  quotedFrom_part h (List.infix_refl _)

theorem Word.about_complain (h : word ∈ words) {fault : ManifestFault}
    (hquoted : ∀ text ∈ fault.quoted, QuotedFrom words text)
    (hclosed : fault.isUnclosed = false) : (word.complain fault).About words :=
  ⟨.word h, hquoted, hclosed⟩

/-- The usual fault is that of one word, and quotes nothing else. -/
theorem Word.about_complain_self (h : word ∈ words) {fault : ManifestFault}
    (hquoted : fault.quoted = [word.text]) (hclosed : fault.isUnclosed = false) :
    (word.complain fault).About words := by
  refine about_complain h ?_ hclosed
  rw [hquoted]
  exact List.forall_mem_singleton.mpr (quotedFrom_word h)

end Quoting

theorem Complaint.bind_eq_error_iff {α β : Type} {read : Except Complaint α}
    {next : α → Except Complaint β} {complaint : Complaint} :
    (read >>= next) = .error complaint ↔
      read = .error complaint ∨ ∃ a, read = .ok a ∧ next a = .error complaint := by
  cases read <;> simp [bind, Except.bind]

/-- What is only put somewhere after it was read adds no complaint. -/
theorem Complaint.eq_error_of_bind_ok {α β : Type} {read : Except Complaint α} {put : α → β}
    {complaint : Complaint} (h : (read >>= fun a => .ok (put a)) = .error complaint) :
    read = .error complaint := by
  rcases bind_eq_error_iff.mp h with hread | ⟨a, -, hput⟩
  · exact hread
  · cases hput

namespace Word

variable {keyword word : Word} {rest words : List Word} {complaint : Complaint}

theorem about_of_readName {block : Text} (hblock : block.isIdentifier = true)
    (h : keyword.readName block rest = .error complaint) :
    complaint.About (keyword :: rest) := by
  have hexpected : (keyword.complain (.nameExpected block)).About (keyword :: rest) :=
    about_complain List.mem_cons_self
      (List.forall_mem_singleton.mpr (quotedFrom_identifier _ hblock)) rfl
  cases rest with
  | nil => exact Except.error.inj h ▸ hexpected
  | cons name more =>
      cases hname : name.text.isIdentifier with
      | false =>
          simp only [readName, hname, Bool.not_false, if_true] at h
          exact Except.error.inj h ▸ hexpected
      | true =>
          simp only [readName, hname, Bool.not_true, Bool.false_eq_true, if_false] at h
          cases more with
          | nil => cases h
          | cons extra others =>
              have hextra : extra ∈ keyword :: name :: extra :: others := by simp
              refine Except.error.inj h ▸ about_complain hextra ?_ rfl
              exact List.forall_mem_cons.mpr ⟨quotedFrom_word hextra,
                List.forall_mem_singleton.mpr (quotedFrom_identifier _ hblock)⟩

theorem complaint_of_readKind (h : word.readKind = .error complaint) :
    complaint = word.complain (.unknownKind word.text) := by
  unfold readKind at h
  cases hkind : Kind.ofKeyword? word.text with
  | some kind =>
      rw [hkind] at h
      cases h
  | none =>
      rw [hkind] at h
      exact (Except.error.inj h).symm

theorem about_of_readKind (hword : word ∈ words) (h : word.readKind = .error complaint) :
    complaint.About words := by
  rw [complaint_of_readKind h]
  exact about_complain_self hword rfl rfl

/-- A member is complained about as a whole if it is no name, and else for its kind. -/
theorem complaint_of_readMember (h : word.readMember = .error complaint) :
    (∃ name, name <:+: word.text ∧ complaint = word.complain (.invalidMember name)) ∨
      Text.colon ∈ word.text ∧
        complaint = word.memberKind.complain (.unknownKind word.memberKind.text) := by
  have hinvalid {kind : Kind} {name : Text} (h : word.member kind name = .error complaint) :
      complaint = word.complain (.invalidMember name) := by
    unfold member at h
    split at h
    · cases h
    · exact (Except.error.inj h).symm
  rw [readMember_eq, List.span_eq_takeWhile_dropWhile] at h
  have hsplit := List.takeWhile_append_dropWhile (p := (· != Text.colon)) (l := word.text)
  have hcolon := List.head?_dropWhile_not (· != Text.colon) word.text
  cases htail : word.text.dropWhile (· != Text.colon) with
  | nil =>
      rw [htail] at h
      exact .inl ⟨_, (List.takeWhile_prefix _).isInfix, hinvalid h⟩
  | cons first name =>
      rw [htail] at h hcolon hsplit
      obtain rfl : first = Text.colon := by simpa using hcolon
      cases hkind : word.memberKind.readKind with
      | error unknown =>
          refine .inr ⟨hsplit ▸ by simp, ?_⟩
          rw [memberKind] at hkind
          simp only [hkind] at h
          exact Except.error.inj h ▸ complaint_of_readKind hkind
      | ok kind =>
          rw [memberKind] at hkind
          simp only [hkind] at h
          refine .inl ⟨name, ⟨word.text.takeWhile (· != Text.colon) ++ [Text.colon], [], ?_⟩,
            hinvalid h⟩
          simpa using hsplit

/-- If not all words are taken, one of them is complained about. -/
theorem exists_of_mapM_error {α : Type} {read : Word → Except Complaint α}
    (h : words.mapM read = .error complaint) :
    ∃ earlier word later, words = earlier ++ word :: later ∧ read word = .error complaint := by
  induction words with
  | nil => cases h
  | cons first rest ih =>
      rw [List.mapM_cons] at h
      rcases Complaint.bind_eq_error_iff.mp h with hfirst | ⟨value, -, h⟩
      · exact ⟨[], first, rest, rfl, hfirst⟩
      · obtain ⟨earlier, word, later, rfl, hword⟩ := ih (Complaint.eq_error_of_bind_ok h)
        exact ⟨first :: earlier, word, later, rfl, hword⟩

section Members

variable {lead opening : List Word}

theorem about_of_readMember {earlier later : List Word}
    (hlead : Introduces (lead.map (·.text)))
    (hopens : OpensMembers (opening.map (·.text)))
    (h : word.readMember = .error complaint) :
    complaint.About (lead ++ (opening ++ (earlier ++ word :: later))) := by
  have hword : word ∈ lead ++ (opening ++ (earlier ++ word :: later)) := by simp
  -- A kind that is unknown is cut out of the word before it is complained about.
  rcases complaint_of_readMember h with ⟨name, hname, rfl⟩ | ⟨hcolon, rfl⟩
  · exact about_complain hword (List.forall_mem_singleton.mpr (quotedFrom_part hword hname)) rfl
  · refine ⟨.memberKind (.intro hlead hopens) hcolon, ?_, rfl⟩
    refine List.forall_mem_singleton.mpr (quotedFrom_part hword ?_)
    exact (List.takeWhile_prefix _).isInfix

theorem about_of_mapM_readMember (lead opening : List Word)
    (hlead : Introduces (lead.map (·.text)))
    (hopens : OpensMembers (opening.map (·.text)))
    (h : words.mapM readMember = .error complaint) :
    complaint.About (lead ++ (opening ++ words)) := by
  obtain ⟨earlier, word, later, rfl, hword⟩ := exists_of_mapM_error h
  exact about_of_readMember hlead hopens hword

theorem about_of_readMembers {kindWord nameWord : Word} {kind : Kind} {name : Text}
    {opened : Bool} (hlead : Introduces (lead.map (·.text))) (hkind : kindWord.text = kind.keyword)
    (hname : name.isIdentifier) (htext : nameWord.text = if opened then name ++ ":" else name)
    (h : readMembers opened words = .error complaint) :
    complaint.About (lead ++ kindWord :: nameWord :: words) := by
  cases opened with
  | true =>
      rw [readMembers_opened] at h
      refine about_of_mapM_readMember lead [kindWord, nameWord] hlead ?_ h
      rw [List.map_cons, List.map_singleton, hkind, htext]
      exact .joined kind hname
  | false =>
      cases words with
      | nil => cases h
      | cons first rest =>
          by_cases hcolon : first.text = ":"
          · have hopened : readMembers false (first :: rest) = rest.mapM readMember :=
              if_pos (beq_iff_eq.mpr hcolon)
            rw [hopened] at h
            refine about_of_mapM_readMember lead [kindWord, nameWord, first] hlead ?_ h
            rw [List.map_cons, List.map_cons, List.map_singleton, hkind, htext, hcolon]
            exact .apart kind hname
          · have hunopened : readMembers false (first :: rest) =
                .error (first.complain (.membersUnopened first.text)) :=
              if_neg (by rwa [beq_iff_eq])
            rw [hunopened] at h
            have hfirst : first ∈ lead ++ kindWord :: nameWord :: first :: rest := by simp
            exact Except.error.inj h ▸ about_complain_self hfirst rfl rfl

theorem about_of_declared {kindWord nameWord : Word} {kind : Kind} {span : Span}
    (hlead : Introduces (lead.map (·.text))) (hkind : kindWord.text = kind.keyword)
    (h : declared nameWord words kind span = .error complaint) :
    complaint.About (lead ++ kindWord :: nameWord :: words) := by
  cases hsplit : splitName nameWord.text with
  | mk name opened =>
      have htext := of_splitName hsplit
      simp only [declared, hsplit] at h
      cases hname : name.isIdentifier with
      | true =>
          rw [if_pos hname] at h
          exact about_of_readMembers hlead hkind hname htext (Complaint.eq_error_of_bind_ok h)
      | false =>
          rw [hname] at h
          have hnameWord : nameWord ∈ lead ++ kindWord :: nameWord :: words := by simp
          have hpart : name <:+: nameWord.text := by
            rw [htext]
            split
            · exact (List.prefix_append _ _).isInfix
            · exact List.infix_refl _
          refine Except.error.inj h ▸ about_complain hnameWord ?_ rfl
          exact List.forall_mem_singleton.mpr (quotedFrom_part hnameWord hpart)

theorem about_of_readSymbol (lead : List Word) {kindWord : Word}
    (hlead : Introduces (lead.map (·.text)))
    (h : kindWord.readSymbol rest = .error complaint) :
    complaint.About (lead ++ kindWord :: rest) := by
  have hkindWord : kindWord ∈ lead ++ kindWord :: rest := by simp
  cases rest with
  | nil =>
      rcases Complaint.bind_eq_error_iff.mp h with hkind | ⟨kind, -, h⟩
      · exact about_of_readKind hkindWord hkind
      · exact Except.error.inj h ▸ about_complain_self hkindWord rfl rfl
  | cons nameWord words =>
      rw [readSymbol_cons] at h
      rcases Complaint.bind_eq_error_iff.mp h with hkind | ⟨kind, hkind, h⟩
      · exact about_of_readKind hkindWord hkind
      · exact about_of_declared hlead (readKind_eq_ok_iff.mp hkind) h

end Members

theorem about_of_readDeclaration (hkeyword : keyword.text = "declare")
    (h : keyword.readDeclaration rest = .error complaint) :
    complaint.About (keyword :: rest) := by
  cases rest with
  | nil => exact Except.error.inj h ▸ about_complain List.mem_cons_self nofun rfl
  | cons kindWord words =>
      refine about_of_readSymbol [keyword] ?_ h
      rw [List.map_singleton, hkeyword]
      exact .inUnit

theorem about_of_readImport (h : keyword.readImport rest = .error complaint) :
    complaint.About (keyword :: rest) := by
  have hmalformed (words : List Word) :
      (keyword.complain .malformedImport).About (keyword :: words) :=
    about_complain List.mem_cons_self nofun rfl
  match rest with
  | [] => exact Except.error.inj h ▸ hmalformed []
  | [path] =>
      have hword : path ∈ [keyword, path] := by simp
      cases hpath : path.text.isDottedPath with
      | false =>
          simp only [readImport, hpath, Bool.not_false, if_true] at h
          exact Except.error.inj h ▸ about_complain_self hword rfl rfl
      | true =>
          simp only [readImport, hpath, Bool.not_true, Bool.false_eq_true, if_false] at h
          split at h <;> cases h
  | [kindWord, path] =>
      have hkindWord : kindWord ∈ [keyword, kindWord, path] := by simp
      have hword : path ∈ [keyword, kindWord, path] := by simp
      rcases Complaint.bind_eq_error_iff.mp h with hkind | ⟨kind, -, h⟩
      · exact about_of_readKind hkindWord hkind
      · split at h
        · cases h
        · refine Except.error.inj h ▸ about_complain hword ?_ rfl
          exact List.forall_mem_cons.mpr ⟨quotedFrom_word hkindWord,
            List.forall_mem_singleton.mpr (quotedFrom_word hword)⟩
  | first :: second :: third :: more => exact Except.error.inj h ▸ hmalformed _

theorem about_of_readContext (hword : word ∈ words) (h : word.readContext = .error complaint) :
    complaint.About words := by
  unfold readContext at h
  split at h
  · cases h
  · split at h
    · cases h
    · split at h
      · cases h
      · exact Except.error.inj h ▸ about_complain_self hword rfl rfl

theorem about_of_readTarget {context : Context} (hword : word ∈ words)
    (h : word.readTarget context = .error complaint) : complaint.About words := by
  unfold readTarget at h
  split at h
  · cases h
  · exact Except.error.inj h ▸ about_complain_self hword rfl rfl

theorem about_of_readReference (h : keyword.readReference rest = .error complaint) :
    complaint.About (keyword :: rest) := by
  have hform (words : List Word) :
      (keyword.complain .referenceForm).About (keyword :: words) :=
    about_complain List.mem_cons_self nofun rfl
  match rest with
  | [] => exact Except.error.inj h ▸ hform []
  | [target] => exact about_of_readTarget (by simp) h
  | [contextWord, target] =>
      rcases Complaint.bind_eq_error_iff.mp h with hcontext | ⟨context, -, htarget⟩
      · exact about_of_readContext (by simp) hcontext
      · exact about_of_readTarget (by simp) htarget
  | first :: second :: third :: more => exact Except.error.inj h ▸ hform _

end Word

namespace OpenBlock

open Word

variable {mode : ManifestMode} {keyword : Word} {rest : List Word} {complaint : Complaint}

theorem about_of_enter (h : enter mode keyword rest = .error complaint) :
    complaint.About (keyword :: rest) := by
  unfold enter at h
  split at h
  · exact about_of_readName (by decide) (Complaint.eq_error_of_bind_ok h)
  · split at h
    · cases mode with
      | interface => exact Except.error.inj h ▸ about_complain List.mem_cons_self nofun rfl
      | workspace =>
          exact about_of_readName (by decide) (Complaint.eq_error_of_bind_ok h)
    · exact Except.error.inj h ▸ about_complain_self List.mem_cons_self rfl rfl

theorem about_of_extendModule {inner : Module} {outer : List Module}
    (hinner : inner.name.isIdentifier = true)
    (h : extendModule inner outer keyword rest = .error complaint) :
    complaint.About (keyword :: rest) := by
  unfold extendModule at h
  split at h
  · refine Except.error.inj h ▸ about_complain List.mem_cons_self ?_ rfl
    exact List.forall_mem_cons.mpr ⟨quotedFrom_word List.mem_cons_self,
      List.forall_mem_singleton.mpr (quotedFrom_identifier _ hinner)⟩
  · split at h
    · exact about_of_readName (by decide) (Complaint.eq_error_of_bind_ok h)
    · exact about_of_readSymbol [] .inModule (Complaint.eq_error_of_bind_ok h)

theorem about_of_extendUnit {unit : SourceUnit} (hunit : unit.module.isIdentifier = true)
    (h : extendUnit unit keyword rest = .error complaint) :
    complaint.About (keyword :: rest) := by
  unfold extendUnit at h
  split at h
  · exact about_of_readImport (Complaint.eq_error_of_bind_ok h)
  · split at h
    · next hdeclare =>
      exact about_of_readDeclaration (beq_iff_eq.mp hdeclare) (Complaint.eq_error_of_bind_ok h)
    · split at h
      · exact about_of_readReference (Complaint.eq_error_of_bind_ok h)
      · refine Except.error.inj h ▸ about_complain List.mem_cons_self ?_ rfl
        exact List.forall_mem_cons.mpr ⟨quotedFrom_word List.mem_cons_self,
          List.forall_mem_singleton.mpr (quotedFrom_identifier _ hunit)⟩

theorem about_of_extend {block : OpenBlock} (hblock : block.WellFormed mode)
    (h : block.extend mode keyword rest = .error complaint) :
    complaint.About (keyword :: rest) := by
  cases block with
  | outside => exact about_of_enter h
  | inModule inner outer =>
      obtain ⟨⟨hname, -, -⟩, -⟩ := hblock
      exact about_of_extendModule hname h
  | inUnit unit => exact about_of_extendUnit hblock.2.name h

end OpenBlock

namespace Reading

open Word

variable {mode : ManifestMode} {reading : Reading} {complaint : Complaint}

theorem about_of_close {keyword : Word} {words : List Word} (hkeyword : keyword ∈ words)
    (h : complaint ∈ (reading.close keyword).complaints) :
    complaint ∈ reading.complaints ∨ complaint.About words := by
  have hclose := congrArg (·.complaints) (close_with reading reading.complaints keyword)
  rw [show (reading.close keyword).complaints = _ from hclose] at h
  rcases List.mem_append.mp h with h | h
  · exact .inl h
  · split at h
    · cases h
    · obtain rfl := List.mem_singleton.mp h
      exact .inr (about_complain hkeyword nofun rfl)

/-- What is complained about when a line is read is something about this line. -/
theorem about_of_line {words : List Word} (hblock : reading.block.WellFormed mode)
    (h : complaint ∈ (reading.line mode words).complaints) :
    complaint ∈ reading.complaints ∨ complaint.About words := by
  cases words with
  | nil => exact .inl h
  | cons keyword rest =>
      by_cases hend : keyword.text = "end"
      · rw [line_end mode reading hend] at h
        cases rest with
        | nil => exact about_of_close List.mem_cons_self h
        | cons extra more =>
            rcases about_of_close List.mem_cons_self h with hearlier | habout
            · rcases List.mem_append.mp hearlier with hearlier | hextra
              · exact .inl hearlier
              · have hword : extra ∈ keyword :: extra :: more := by simp
                obtain rfl := List.mem_singleton.mp hextra
                exact .inr (about_complain_self hword rfl rfl)
            · exact .inr habout
      · rw [line_other mode reading hend] at h
        cases hextend : reading.block.extend mode keyword rest with
        | ok block =>
            rw [hextend] at h
            exact .inl h
        | error fault =>
            rw [hextend] at h
            rcases List.mem_append.mp h with hearlier | hlast
            · exact .inl hearlier
            · obtain rfl := List.mem_singleton.mp hlast
              exact .inr (OpenBlock.about_of_extend hblock hextend)

/-- The blocks that are open carry the induction: a complaint may name the innermost one, whose
name is an identifier because an earlier line opened it. -/
theorem about_of_lines (reading : Reading) {lines : List (List Word)}
    (hmanifest : reading.manifest.WellFormed mode) (hblock : reading.block.WellFormed mode)
    (h : complaint ∈ (reading.lines mode lines).complaints) :
    complaint ∈ reading.complaints ∨ ∃ words ∈ lines, complaint.About words := by
  induction lines generalizing reading with
  | nil => exact .inl h
  | cons first rest ih =>
      obtain ⟨hmanifest', hblock'⟩ := wellFormed_line reading first hmanifest hblock
      rcases ih _ hmanifest' hblock' h with hfirst | ⟨words, hwords, habout⟩
      · rcases about_of_line hblock hfirst with hearlier | habout
        · exact .inl hearlier
        · exact .inr ⟨first, List.mem_cons_self, habout⟩
      · exact .inr ⟨words, List.mem_cons_of_mem _ hwords, habout⟩

end Reading

namespace OpenBlock

/-- What is missing at the end is the `end` of a block with a name. -/
theorem identifiers_unclosed {mode : ManifestMode} {block : OpenBlock}
    (h : block.WellFormed mode) {fault : ManifestFault} (hfault : fault ∈ block.unclosed) :
    fault.isUnclosed = true ∧ ∀ text ∈ fault.quoted, text.isIdentifier = true := by
  cases block with
  | outside => cases hfault
  | inModule inner outer =>
      obtain rfl := List.mem_singleton.mp hfault
      have houtermost : outer.getLastD inner ∈ inner :: outer := List.getLastD_mem_cons ..
      obtain ⟨hname, -, -⟩ := List.forall_mem_cons.mpr h _ houtermost
      exact ⟨rfl, List.forall_mem_singleton.mpr hname⟩
  | inUnit unit =>
      obtain rfl := List.mem_singleton.mp hfault
      exact ⟨rfl, List.forall_mem_singleton.mpr h.2.name⟩

end OpenBlock

namespace Manifest

/-- The blocks that a source has open where it ends. -/
def openAtEnd (mode : ManifestMode) (source : Text) : OpenBlock :=
  (({} : Reading).lines mode (Word.ofSource source)).block

theorem wellFormed_openAtEnd (mode : ManifestMode) (source : Text) :
    (openAtEnd mode source).WellFormed mode :=
  (Reading.wellFormed_lines {} _ ⟨by simp, by simp, fun _ => rfl⟩ trivial).2

/-- All complaints about a source are about one of its lines or its end. -/
theorem about_of_readAll {mode : ManifestMode} {source : Text} {complaint : Complaint}
    (h : complaint ∈ (readAll mode source).complaints) :
    (∃ words ∈ Word.ofSource source, complaint.About words) ∨
      complaint.fault ∈ (openAtEnd mode source).unclosed ∧
        let place : Location := ⟨UInt32.ofNat (Word.ofSource source).length, 1⟩
        complaint.span = ⟨place, place⟩ := by
  rcases List.mem_append.mp h with hlines | hend
  · rcases Reading.about_of_lines {} ⟨by simp, by simp, fun _ => rfl⟩ trivial hlines with
      hnone | habout
    · cases hnone
    · exact .inl habout
  · obtain ⟨fault, hfault, rfl⟩ := List.mem_map.mp hend
    exact .inr ⟨hfault, rfl⟩

end Manifest

end NameBinding
