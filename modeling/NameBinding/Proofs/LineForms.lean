import NameBinding.Proofs.Grammar
import Mathlib.Data.List.TakeDrop
import Mathlib.Data.List.TakeWhile

/-!
The readers of single lines against the grammar. Each of them takes exactly the words that
the grammar has for such a line, and reads from them what the grammar derives.
-/

namespace NameBinding

namespace Word

theorem readKind_eq_ok_iff {word : Word} {kind : Kind} :
    word.readKind = .ok kind ↔ word.text = kind.keyword := by
  unfold readKind
  cases hkind : Kind.ofKeyword? word.text with
  | none =>
      have hother : word.text ≠ kind.keyword := by
        intro h
        rw [h, Kind.ofKeyword?_keyword] at hkind
        cases hkind
      simpa using hother
  | some found =>
      have hfound : found.keyword = word.text := by simpa using List.find?_some hkind
      constructor
      · intro h
        rw [← hfound, Except.ok.inj h]
      · intro h
        rw [h, Kind.ofKeyword?_keyword] at hkind
        rw [Option.some.inj hkind]

theorem readName_eq_ok_iff {keyword : Word} {block name : Text} {rest : List Word} :
    keyword.readName block rest = .ok name ↔
      rest.map (·.text) = [name] ∧ name.isIdentifier = true := by
  cases rest with
  | nil => simp [readName]
  | cons first more =>
      cases hfirst : first.text.isIdentifier with
      | false =>
          simp only [readName, hfirst, Bool.not_false, if_true, reduceCtorEq, List.map_cons,
            List.cons.injEq, false_iff]
          rintro ⟨⟨rfl, -⟩, hname⟩
          rw [hfirst] at hname
          cases hname
      | true =>
          cases more with
          | nil =>
              simp only [readName, hfirst, Bool.not_true, Bool.false_eq_true, if_false,
                Except.ok.injEq, List.map_cons, List.map_nil, List.cons.injEq, and_true]
              exact ⟨fun h => ⟨h, h ▸ hfirst⟩, fun h => h.1⟩
          | cons second others => simp [readName, hfirst]

end Word

namespace Text

/-- Where a word is cut at its first colon. -/
theorem span_eq_iff {text front tail : Text} :
    text.span (· != colon) = (front, tail) ↔
      colon ∉ front ∧ front ++ tail = text ∧ (tail = [] ∨ ∃ rest, tail = colon :: rest) := by
  rw [List.span_eq_takeWhile_dropWhile, Prod.mk.injEq]
  constructor
  · rintro ⟨rfl, rfl⟩
    refine ⟨?_, List.takeWhile_append_dropWhile, ?_⟩
    · intro hcolon
      simpa using List.mem_takeWhile_imp hcolon
    · cases htail : text.dropWhile (· != colon) with
      | nil => exact .inl rfl
      | cons first rest =>
          have hfirst := List.head?_dropWhile_not (· != colon) text
          rw [htail, List.head?_cons] at hfirst
          have hcolon : first = colon := by simpa using hfirst
          exact .inr ⟨rest, hcolon ▸ rfl⟩
  · rintro ⟨hfront, rfl, htail⟩
    have hall := bne_of_not_mem hfront
    rw [List.takeWhile_append_of_pos hall, List.dropWhile_append_of_pos hall]
    rcases htail with rfl | ⟨rest, rfl⟩ <;> simp

theorem colon_not_mem_keyword (kind : Kind) : colon ∉ kind.keyword := by
  cases kind <;> decide

end Text

namespace Complaint

variable {α β : Type} {read : Except Complaint α}

theorem map_eq_ok_iff {f : α → β} {b : β} :
    read.map f = .ok b ↔ ∃ a, read = .ok a ∧ f a = b := by
  cases read <;> simp [Except.map]

theorem map_eq_ok (f : α → β) {a : α} (h : read = .ok a) : read.map f = .ok (f a) :=
  map_eq_ok_iff.mpr ⟨a, h, rfl⟩

theorem bind_eq_ok_iff {next : α → Except Complaint β} {b : β} :
    (read >>= next) = .ok b ↔ ∃ a, read = .ok a ∧ next a = .ok b := by
  cases read <;> simp [bind, Except.bind]

theorem map_bind_pure_eq_ok_iff {γ : Type} {f : α → β} {g : β → γ} {c : γ} :
    (read >>= fun a => pure (f a)).map g = .ok c ↔ ∃ a, read = .ok a ∧ g (f a) = c := by
  cases read <;> simp [Except.map, bind, Except.bind, pure, Except.pure]

theorem map_bind {γ : Type} {next : α → Except Complaint β} (f : β → γ) :
    (read >>= next).map f = read >>= fun a => (next a).map f := by
  cases read <;> rfl

end Complaint

namespace Word

/-- The member that a word declares if `name` is a name. -/
def member (word : Word) (kind : Kind) (name : Text) : Except Complaint Symbol :=
  if name.isIdentifier then .ok { name, kind, span := word.span }
  else .error (word.complain (.invalidMember name))

theorem map_member_eq_ok_iff {word : Word} {kind : Kind} {name : Text} {symbol : Symbol} :
    (word.member kind name).map (·.withoutSpans) = .ok symbol ↔
      name.isIdentifier = true ∧ symbol = { name, kind } := by
  cases hname : name.isIdentifier <;>
    simp [member, hname, Except.map, Symbol.withoutSpans, eq_comm]

theorem readMember_eq (word : Word) :
    word.readMember =
      match word.text.span (· != Text.colon) with
      | (name, []) => word.member .constant name
      | (front, _ :: name) =>
        { word with text := front }.readKind >>= fun kind => word.member kind name := by
  unfold readMember member
  cases word.text.span (· != Text.colon) with
  | mk front tail =>
      cases tail with
      | nil => rfl
      | cons colon name =>
          cases { word with text := front }.readKind <;> rfl

theorem map_readMember_eq_ok_iff {word : Word} {symbol : Symbol} :
    word.readMember.map (·.withoutSpans) = .ok symbol ↔ MemberForm word.text symbol := by
  obtain ⟨text, line, column⟩ := word
  rw [readMember_eq]
  cases hspan : text.span (· != Text.colon) with
  | mk front tail =>
      obtain ⟨hcolon, htext, rfl | ⟨name, rfl⟩⟩ := Text.span_eq_iff.mp hspan
      · rw [List.append_nil] at htext
        subst htext
        rw [map_member_eq_ok_iff]
        constructor
        · rintro ⟨hname, rfl⟩
          exact .plain hname
        · intro h
          cases h with
          | plain hname => exact ⟨hname, rfl⟩
          | ofKind kind hname =>
              exact absurd (List.mem_append_left _ (List.mem_append_right _ (by decide))) hcolon
      · simp only [Complaint.map_bind, Complaint.bind_eq_ok_iff, readKind_eq_ok_iff,
          map_member_eq_ok_iff]
        constructor
        · rintro ⟨kind, rfl, hname, rfl⟩
          rw [← htext, List.append_cons]
          exact .ofKind kind hname
        · intro h
          cases h with
          | plain hname =>
              have hnone : Text.colon ∉ text := Text.not_mem_of_isIdentifier hname rfl
              exact absurd (htext ▸ by simp) hnone
          | @ofKind kind name' hname =>
              have hsame := hspan.symm.trans (Text.span_eq_iff.mpr
                ⟨Text.colon_not_mem_keyword kind, List.append_cons .., .inr ⟨name', rfl⟩⟩)
              obtain ⟨rfl, hrest⟩ := Prod.mk.inj hsame
              obtain ⟨-, rfl⟩ := List.cons.inj hrest
              exact ⟨kind, rfl, hname, rfl⟩

theorem map_mapM_readMember_eq_ok_iff {words : List Word} {members : List Symbol} :
    (words.mapM readMember).map (·.map (·.withoutSpans)) = .ok members ↔
      List.Forall₂ MemberForm (words.map (·.text)) members := by
  induction words generalizing members with
  | nil => simp [Except.map, pure, Except.pure, eq_comm]
  | cons first rest ih =>
      rw [List.mapM_cons, List.map_cons, List.forall₂_cons_left_iff]
      simp only [Complaint.map_bind, Complaint.bind_eq_ok_iff, ← map_readMember_eq_ok_iff, ← ih,
        Complaint.map_eq_ok_iff]
      constructor
      · rintro ⟨member, hmember, others, hothers, all, hall, rfl⟩
        obtain rfl := Except.ok.inj hall
        exact ⟨_, _, ⟨member, hmember, rfl⟩, ⟨others, hothers, rfl⟩, rfl⟩
      · rintro ⟨_, _, ⟨member, hmember, rfl⟩, ⟨others, hothers, rfl⟩, rfl⟩
        exact ⟨member, hmember, others, hothers, _, rfl, rfl⟩

theorem readMembers_opened (words : List Word) :
    readMembers true words = words.mapM readMember := by
  cases words <;> rfl

/-- Where the name does not open the members, a colon of its own does. -/
theorem map_readMembers_unopened_eq_ok_iff {words : List Word} {members : List Symbol} :
    (readMembers false words).map (·.map (·.withoutSpans)) = .ok members ↔
      (words = [] ∧ members = []) ∨
        ∃ texts, words.map (·.text) = (":" : Text) :: texts ∧
          List.Forall₂ MemberForm texts members := by
  cases words with
  | nil =>
      rw [Complaint.map_eq_ok_iff]
      constructor
      · rintro ⟨read, hread, rfl⟩
        obtain rfl := Except.ok.inj hread
        exact .inl ⟨rfl, rfl⟩
      · rintro (⟨-, rfl⟩ | ⟨texts, htexts, -⟩)
        · exact ⟨[], rfl, rfl⟩
        · cases htexts
  | cons first rest =>
      by_cases hcolon : first.text = ":"
      · have hopened : readMembers false (first :: rest) = rest.mapM readMember :=
          if_pos (beq_iff_eq.mpr hcolon)
        rw [hopened, map_mapM_readMember_eq_ok_iff, List.map_cons, hcolon]
        simp
      · have hunopened : readMembers false (first :: rest) =
            .error (first.complain (.membersUnopened first.text)) :=
          if_neg (by rwa [beq_iff_eq])
        rw [hunopened]
        simp [Except.map, hcolon]

theorem splitName_of_isIdentifier {name : Text} (h : name.isIdentifier) :
    splitName name = (name, false) := by
  have hlast : name.getLast? ≠ some Text.colon := by
    intro hcolon
    exact Text.not_mem_of_isIdentifier h rfl (List.mem_of_getLast? hcolon)
  simp [splitName, hlast]

theorem splitName_colon {name : Text} (h : name ≠ []) :
    splitName (name ++ ":") = (name, true) := by
  have hlength : 1 < (name ++ ":").length := by
    rw [List.length_append]
    exact Nat.add_lt_add_right (List.length_pos_iff.mpr h) 1
  have hlast : (name ++ ":").getLast? = some Text.colon := List.getLast?_concat
  have hfront : (name ++ ":").dropLast = name := List.dropLast_concat
  rw [splitName, hlast, hfront, decide_eq_true hlength]
  rfl

theorem of_splitName {text name : Text} {opened : Bool} (h : splitName text = (name, opened)) :
    text = if opened then name ++ ":" else name := by
  unfold splitName at h
  split at h
  · next hcolon =>
    obtain ⟨rfl, rfl⟩ := Prod.mk.inj h
    rw [Bool.and_eq_true, beq_iff_eq] at hcolon
    obtain ⟨front, rfl⟩ := List.getLast?_eq_some_iff.mp hcolon.2
    rw [List.dropLast_concat]
    rfl
  · obtain ⟨rfl, rfl⟩ := Prod.mk.inj h
    rfl

/-- The declaration that a word names, if it is a name, with the members after it. -/
def declared (nameWord : Word) (words : List Word) (kind : Kind) (span : Span) :
    Except Complaint Symbol :=
  let (name, opened) := splitName nameWord.text
  if name.isIdentifier then
    readMembers opened words >>= fun members => .ok { name, kind, members, span }
  else .error (nameWord.complain (.invalidName name))

theorem readSymbol_cons (kindWord nameWord : Word) (words : List Word) :
    kindWord.readSymbol (nameWord :: words) =
      kindWord.readKind >>= fun kind => declared nameWord words kind kindWord.span := by
  unfold readSymbol declared
  cases kindWord.readKind with
  | error complaint => rfl
  | ok kind =>
      cases hname : (splitName nameWord.text).1.isIdentifier <;>
        simp [hname, bind, Except.bind, pure, Except.pure]

theorem map_declared_eq_ok_iff {nameWord : Word} {words : List Word} {kind : Kind}
    {span : Span} {name : Text} {opened : Bool} {symbol : Symbol}
    (hsplit : splitName nameWord.text = (name, opened)) :
    (declared nameWord words kind span).map (·.withoutSpans) = .ok symbol ↔
      name.isIdentifier = true ∧ ∃ members,
        (readMembers opened words).map (·.map (·.withoutSpans)) = .ok members ∧
          symbol = { name, kind, members } := by
  simp only [declared, hsplit]
  cases name.isIdentifier with
  | false => simp [Except.map]
  | true =>
      simp only [if_true, Complaint.map_bind, Complaint.bind_eq_ok_iff, Complaint.map_eq_ok_iff,
        true_and]
      constructor
      · rintro ⟨members, hmembers, read, hread, rfl⟩
        obtain rfl := Except.ok.inj hread
        exact ⟨_, ⟨members, hmembers, rfl⟩, by simp [Symbol.withoutSpans]⟩
      · rintro ⟨_, ⟨members, hmembers, rfl⟩, rfl⟩
        exact ⟨members, hmembers, _, rfl, by simp [Symbol.withoutSpans]⟩

theorem map_readSymbol_eq_ok_iff {kindWord : Word} {rest : List Word} {symbol : Symbol} :
    (kindWord.readSymbol rest).map (·.withoutSpans) = .ok symbol ↔
      DeclarationForm (kindWord.text :: rest.map (·.text)) symbol := by
  rw [declarationForm_cons_iff]
  cases rest with
  | nil =>
      cases hkind : kindWord.readKind <;>
        simp [readSymbol, hkind, Except.map, bind, Except.bind]
  | cons nameWord words =>
      rw [readSymbol_cons]
      simp only [Complaint.map_bind, Complaint.bind_eq_ok_iff, readKind_eq_ok_iff, List.map_cons]
      constructor
      · rintro ⟨kind, hkind, h⟩
        cases hsplit : splitName nameWord.text with
        | mk name opened =>
            obtain ⟨hname, members, hmembers, rfl⟩ := (map_declared_eq_ok_iff hsplit).mp h
            refine ⟨kind, name, members, hkind, hname, rfl, ?_⟩
            rw [of_splitName hsplit]
            cases opened with
            | true =>
                rw [readMembers_opened, map_mapM_readMember_eq_ok_iff] at hmembers
                exact .inr (.inl ⟨_, rfl, hmembers⟩)
            | false =>
                rcases map_readMembers_unopened_eq_ok_iff.mp hmembers with
                  ⟨rfl, rfl⟩ | ⟨texts, htexts, hforms⟩
                · exact .inl ⟨rfl, rfl⟩
                · exact .inr (.inr ⟨texts, by rw [htexts]; rfl, hforms⟩)
      · rintro ⟨kind, name, members, hkind, hname, rfl, hrest⟩
        refine ⟨kind, hkind, ?_⟩
        rcases hrest with ⟨hwords, rfl⟩ | ⟨texts, hwords, hforms⟩ | ⟨texts, hwords, hforms⟩
        · obtain ⟨htext, hnone⟩ := List.cons.inj hwords
          rw [map_declared_eq_ok_iff (by rw [htext, splitName_of_isIdentifier hname])]
          rw [List.map_eq_nil_iff] at hnone
          exact ⟨hname, _, map_readMembers_unopened_eq_ok_iff.mpr (.inl ⟨hnone, rfl⟩), rfl⟩
        · obtain ⟨htext, rfl⟩ := List.cons.inj hwords
          rw [map_declared_eq_ok_iff
            (by rw [htext, splitName_colon (Text.ne_nil_of_isIdentifier hname)]),
            readMembers_opened]
          exact ⟨hname, _, map_mapM_readMember_eq_ok_iff.mpr hforms, rfl⟩
        · obtain ⟨htext, hopened⟩ := List.cons.inj hwords
          rw [map_declared_eq_ok_iff (by rw [htext, splitName_of_isIdentifier hname])]
          exact ⟨hname, _,
            map_readMembers_unopened_eq_ok_iff.mpr (.inr ⟨texts, hopened, hforms⟩), rfl⟩

theorem map_readDeclaration_eq_ok_iff {keyword : Word} {rest : List Word} {symbol : Symbol} :
    (keyword.readDeclaration rest).map (·.withoutSpans) = .ok symbol ↔
      DeclarationForm (rest.map (·.text)) symbol := by
  cases rest with
  | nil => exact ⟨nofun, nofun⟩
  | cons kindWord words => exact map_readSymbol_eq_ok_iff

theorem map_readImport_path_eq_ok_iff {keyword path : Word} {declaration : Import} :
    (keyword.readImport [path]).map (·.withoutSpan) = .ok declaration ↔
      ImportForm [path.text] declaration := by
  rw [importForm_one_iff]
  cases hpath : path.text.isDottedPath with
  | false =>
      simp only [readImport, hpath, Bool.not_false, if_true, Except.map, reduceCtorEq, false_iff]
      rintro ⟨module, below, hnames, -⟩
      rw [hnames.isDottedPath] at hpath
      cases hpath
  | true =>
      simp only [readImport, hpath, Bool.not_true, Bool.false_eq_true, if_false,
        Text.namePath_of_isDottedPath hpath]
      cases hparts : path.text.parts with
      | nil => exact absurd hparts (List.splitOn_ne_nil _ _)
      | cons module below =>
          have hwhole := Text.dotted_parts path.text
          rw [hparts] at hwhole
          cases below with
          | nil =>
              have hmodule : module = path.text := by simpa [Text.dotted] using hwhole
              simp [Except.map, Import.withoutSpan, ImportTarget.ofPath, hmodule, eq_comm]
          | cons next more =>
              simp [Except.map, Import.withoutSpan, ImportTarget.ofPath, eq_comm]

theorem map_readImport_symbol_eq_ok_iff {keyword kindWord path : Word} {declaration : Import} :
    (keyword.readImport [kindWord, path]).map (·.withoutSpan) = .ok declaration ↔
      ImportForm [kindWord.text, path.text] declaration := by
  rw [importForm_two_iff, readImport, Complaint.map_bind, Complaint.bind_eq_ok_iff]
  simp only [readKind_eq_ok_iff]
  cases hpath : path.text.isDottedPath with
  | false =>
      constructor
      · rintro ⟨kind, -, h⟩
        cases h
      · rintro ⟨kind, module, name, -, hnames, -⟩
        rw [hnames.isDottedPath] at hpath
        cases hpath
  | true =>
      simp only [Text.namePath_of_isDottedPath hpath]
      constructor
      · rintro ⟨kind, hkind, h⟩
        split at h
        · next module name _ hparts =>
          exact ⟨kind, module, name, hkind, hparts, (Except.ok.inj h).symm⟩
        · cases h
      · rintro ⟨kind, module, name, hkind, hparts, rfl⟩
        refine ⟨kind, hkind, ?_⟩
        rw [hparts]
        rfl

theorem map_readImport_eq_ok_iff {keyword : Word} {rest : List Word} {declaration : Import} :
    (keyword.readImport rest).map (·.withoutSpan) = .ok declaration ↔
      ImportForm (rest.map (·.text)) declaration := by
  match rest with
  | [] => exact ⟨nofun, nofun⟩
  | [path] => exact map_readImport_path_eq_ok_iff
  | [kindWord, path] => exact map_readImport_symbol_eq_ok_iff
  | _ :: _ :: _ :: _ =>
      refine ⟨nofun, ?_⟩
      intro h
      simpa using h.length_le

theorem readContext_eq_ok_iff {word : Word} {context : Context} :
    word.readContext = .ok context ↔ word.text = context.word := by
  constructor
  · intro h
    unfold readContext at h
    split at h
    · next hvalue =>
      obtain rfl := Except.ok.inj h
      exact beq_iff_eq.mp hvalue
    · split at h
      · next htype =>
        obtain rfl := Except.ok.inj h
        exact beq_iff_eq.mp htype
      · split at h
        · next hany =>
          obtain rfl := Except.ok.inj h
          exact beq_iff_eq.mp hany
        · cases h
  · intro h
    rw [readContext, h]
    cases context <;> rfl

theorem map_readTarget_eq_ok_iff {word : Word} {context : Context} {reference : Reference} :
    (word.readTarget context).map (·.withoutSpan) = .ok reference ↔
      ∃ path, NamePath word.text path ∧ reference = { path, context } := by
  cases hpath : word.text.isDottedPath with
  | false =>
      simp only [readTarget, hpath, Bool.false_eq_true, if_false, Except.map, reduceCtorEq,
        false_iff]
      rintro ⟨path, hnames, -⟩
      rw [hnames.isDottedPath] at hpath
      cases hpath
  | true =>
      simp only [readTarget, hpath, if_true, Text.namePath_of_isDottedPath hpath]
      simp [Except.map, Reference.withoutSpan, Reference.ofText, eq_comm]

theorem map_readReference_eq_ok_iff {keyword : Word} {rest : List Word}
    {reference : Reference} :
    (keyword.readReference rest).map (·.withoutSpan) = .ok reference ↔
      ReferenceForm (rest.map (·.text)) reference := by
  match rest with
  | [] => exact ⟨nofun, nofun⟩
  | [target] =>
      rw [readReference, map_readTarget_eq_ok_iff, List.map_cons, List.map_nil,
        referenceForm_one_iff]
  | [contextWord, target] =>
      simp only [readReference, Complaint.map_bind, Complaint.bind_eq_ok_iff,
        readContext_eq_ok_iff, map_readTarget_eq_ok_iff, List.map_cons, List.map_nil,
        referenceForm_two_iff]
  | _ :: _ :: _ :: _ =>
      refine ⟨nofun, ?_⟩
      intro h
      simpa using h.length_le

end Word

end NameBinding
