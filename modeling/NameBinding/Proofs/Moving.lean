import NameBinding.Proofs.Acceptance

/-!
Words that have moved. What is read from words in other places is what the same words give
where they stood, faults included, with every span moved along.
-/

namespace NameBinding

/-- A way to put words elsewhere, line by line and column by column, with what it does to their
spans. -/
structure Move where
  line : Nat → Nat
  column : Nat → Nat
  span : Span → Span
  spans (word : Word) :
    (⟨word.text, line word.line, column word.column⟩ : Word).span = span word.span

def Word.moved (move : Move) (word : Word) : Word :=
  ⟨word.text, move.line word.line, move.column word.column⟩

namespace Symbol

mutual

/-- The symbol with `f` applied to every span, those of its members included. -/
def mapSpans (f : Span → Span) : Symbol → Symbol
  | ⟨name, kind, owner, signature, members, span⟩ =>
    ⟨name, kind, owner, signature, allMapSpans f members, f span⟩

def allMapSpans (f : Span → Span) : List Symbol → List Symbol
  | [] => []
  | first :: rest => first.mapSpans f :: allMapSpans f rest

end

@[simp] theorem allMapSpans_eq_map (f : Span → Span) (symbols : List Symbol) :
    allMapSpans f symbols = symbols.map (mapSpans f) := by
  induction symbols with
  | nil => rfl
  | cons first rest ih => rw [allMapSpans, ih, List.map_cons]

mutual

@[simp] theorem mapSpans_mapSpans (f g : Span → Span) :
    (symbol : Symbol) → (symbol.mapSpans f).mapSpans g = symbol.mapSpans (g ∘ f)
  | ⟨_, _, _, _, members, _⟩ => by
    simp only [mapSpans, allMapSpans_allMapSpans f g members, Function.comp_apply]

theorem allMapSpans_allMapSpans (f g : Span → Span) :
    (symbols : List Symbol) →
      allMapSpans g (allMapSpans f symbols) = allMapSpans (g ∘ f) symbols
  | [] => rfl
  | first :: rest => by
    simp only [allMapSpans, mapSpans_mapSpans f g first, allMapSpans_allMapSpans f g rest]

end

end Symbol

namespace Module

mutual

def mapSpans (f : Span → Span) : Module → Module
  | ⟨name, symbols, submodules, span⟩ =>
    ⟨name, symbols.map (·.mapSpans f), allMapSpans f submodules, f span⟩

def allMapSpans (f : Span → Span) : List Module → List Module
  | [] => []
  | first :: rest => first.mapSpans f :: allMapSpans f rest

end

@[simp] theorem allMapSpans_eq_map (f : Span → Span) (modules : List Module) :
    allMapSpans f modules = modules.map (mapSpans f) := by
  induction modules with
  | nil => rfl
  | cons first rest ih => rw [allMapSpans, ih, List.map_cons]

mutual

@[simp] theorem mapSpans_mapSpans (f g : Span → Span) :
    (module : Module) → (module.mapSpans f).mapSpans g = module.mapSpans (g ∘ f)
  | ⟨_, symbols, submodules, _⟩ => by
    simp only [mapSpans, allMapSpans_allMapSpans f g submodules, List.map_map,
      Function.comp_def, Symbol.mapSpans_mapSpans]

theorem allMapSpans_allMapSpans (f g : Span → Span) :
    (modules : List Module) →
      allMapSpans g (allMapSpans f modules) = allMapSpans (g ∘ f) modules
  | [] => rfl
  | first :: rest => by
    simp only [allMapSpans, mapSpans_mapSpans f g first, allMapSpans_allMapSpans f g rest]

end

variable (f : Span → Span) (module : Module)

@[simp] theorem name_mapSpans : (module.mapSpans f).name = module.name := by
  cases module
  rfl

theorem mapSpans_declare (symbol : Symbol) :
    { module with symbols := module.symbols ++ [symbol] }.mapSpans f =
      { module.mapSpans f with
        symbols := (module.mapSpans f).symbols ++ [symbol.mapSpans f] } := by
  cases module
  simp [mapSpans]

theorem mapSpans_enclose (inner : Module) :
    { module with submodules := module.submodules ++ [inner] }.mapSpans f =
      { module.mapSpans f with
        submodules := (module.mapSpans f).submodules ++ [inner.mapSpans f] } := by
  cases module
  simp [mapSpans]

end Module

def Import.mapSpan (f : Span → Span) (declaration : Import) : Import :=
  { declaration with span := f declaration.span }

def Reference.mapSpan (f : Span → Span) (reference : Reference) : Reference :=
  { reference with span := f reference.span }

def SourceUnit.mapSpans (f : Span → Span) (unit : SourceUnit) : SourceUnit :=
  { module := unit.module
    imports := unit.imports.map (·.mapSpan f)
    symbols := unit.symbols.map (·.mapSpans f)
    references := unit.references.map (·.mapSpan f)
    span := f unit.span }

@[simp] theorem SourceUnit.mapSpans_mapSpans (f g : Span → Span) (unit : SourceUnit) :
    (unit.mapSpans f).mapSpans g = unit.mapSpans (g ∘ f) := by
  simp [mapSpans, Import.mapSpan, Reference.mapSpan]

def Manifest.mapSpans (f : Span → Span) (manifest : Manifest) : Manifest :=
  { modules := manifest.modules.map (·.mapSpans f)
    units := manifest.units.map (·.mapSpans f) }

def Diagnostic.mapSpan (f : Span → Span) (diagnostic : Diagnostic) : Diagnostic :=
  { diagnostic with span := f diagnostic.span }

namespace Complaint

def mapSpan (f : Span → Span) (complaint : Complaint) : Complaint :=
  { complaint with span := f complaint.span }

variable {α β : Type} {move : Move} {f : α → α} {g : β → β}

/-- What is read from words that have moved, where `f` moves what the words declare along. -/
def carrying (move : Move) (f : α → α) : Except Complaint α → Except Complaint α
  | .ok declared => .ok (f declared)
  | .error complaint => .error (complaint.mapSpan move.span)

theorem carrying_bind (read : Except Complaint α) {next next' : α → Except Complaint β}
    (h : ∀ a, next' (f a) = carrying move g (next a)) :
    carrying move f read >>= next' = carrying move g (read >>= next) := by
  cases read with
  | ok a => exact h a
  | error complaint => rfl

theorem carrying_mapM {γ δ : Type} {carry : γ → δ} {read : γ → Except Complaint β}
    {read' : δ → Except Complaint β} (h : ∀ c, read' (carry c) = carrying move g (read c))
    (items : List γ) :
    (items.map carry).mapM read' = carrying move (List.map g) (items.mapM read) := by
  induction items with
  | nil => rfl
  | cons first rest ih =>
      rw [List.map_cons, List.mapM_cons, List.mapM_cons, h, ih]
      refine carrying_bind _ fun value => ?_
      exact carrying_bind _ fun values => rfl

end Complaint

open Complaint

namespace Word

variable (move : Move) (word : Word)

@[simp] theorem text_moved : (word.moved move).text = word.text := rfl

@[simp] theorem span_moved : (word.moved move).span = move.span word.span := move.spans word

theorem complain_moved (fault : ManifestFault) :
    (word.moved move).complain fault =
      (word.complain fault).mapSpan move.span := by
  simp [complain, mapSpan]

theorem readName_moved (keyword : Word) (block : Text) (rest : List Word) :
    (keyword.moved move).readName block (rest.map (·.moved move)) =
      carrying move id (keyword.readName block rest) := by
  match rest with
  | [] => simp [readName, carrying, complain_moved]
  | [name] =>
      cases hname : name.text.isIdentifier <;>
        simp [readName, carrying, complain_moved, hname]
  | name :: extra :: more =>
      cases hname : name.text.isIdentifier <;>
        simp [readName, carrying, complain_moved, hname]

theorem readKind_moved :
    (word.moved move).readKind = carrying move id word.readKind := by
  unfold readKind
  rw [text_moved]
  cases Kind.ofKeyword? word.text with
  | some kind => rfl
  | none => simp [carrying, complain_moved]

theorem member_moved (kind : Kind) (name : Text) :
    (word.moved move).member kind name =
      carrying move (·.mapSpans move.span) (word.member kind name) := by
  unfold member
  cases name.isIdentifier <;>
    simp [carrying, complain_moved, Symbol.mapSpans]

theorem readMember_moved :
    (word.moved move).readMember =
      carrying move (·.mapSpans move.span) word.readMember := by
  rw [readMember_eq, readMember_eq, text_moved]
  cases word.text.span (· != Text.colon) with
  | mk front tail =>
      cases tail with
      | nil => exact member_moved move word .constant front
      | cons colon name =>
          have hkind := readKind_moved move { word with text := front }
          refine Eq.trans (congrArg (· >>= _) hkind) (carrying_bind _ fun kind => ?_)
          exact member_moved move word kind name

theorem readMembers_moved (opened : Bool) (words : List Word) :
    readMembers opened (words.map (·.moved move)) =
      carrying move (List.map (·.mapSpans move.span)) (readMembers opened words) := by
  cases words with
  | nil => rfl
  | cons first rest =>
      cases opened with
      | true => exact carrying_mapM (readMember_moved move) (first :: rest)
      | false =>
          cases hcolon : first.text == [Text.colon] with
          | true =>
              simp only [readMembers, List.map_cons, text_moved, hcolon]
              exact carrying_mapM (readMember_moved move) rest
          | false =>
              simp [readMembers, hcolon, carrying, complain_moved]

theorem declared_moved (nameWord : Word) (words : List Word) (kind : Kind) (span : Span) :
    declared (nameWord.moved move) (words.map (·.moved move)) kind (move.span span) =
      carrying move (·.mapSpans move.span) (declared nameWord words kind span) := by
  unfold declared
  rw [text_moved]
  cases splitName nameWord.text with
  | mk name opened =>
      cases hname : name.isIdentifier with
      | false => simp [hname, carrying, complain_moved]
      | true =>
          simp only [hname, if_true, readMembers_moved]
          exact carrying_bind _ fun members => by simp [carrying, Symbol.mapSpans]

theorem readSymbol_moved (kindWord : Word) (rest : List Word) :
    (kindWord.moved move).readSymbol (rest.map (·.moved move)) =
      carrying move (·.mapSpans move.span) (kindWord.readSymbol rest) := by
  cases rest with
  | nil =>
      rw [List.map_nil, readSymbol, readSymbol, readKind_moved]
      exact carrying_bind _ fun kind => by simp [carrying, complain_moved]
  | cons nameWord words =>
      rw [List.map_cons, readSymbol_cons, readSymbol_cons, readKind_moved, span_moved]
      exact carrying_bind _ fun kind => declared_moved move nameWord words kind _

theorem readDeclaration_moved (keyword : Word) (rest : List Word) :
    (keyword.moved move).readDeclaration (rest.map (·.moved move)) =
      carrying move (·.mapSpans move.span) (keyword.readDeclaration rest) := by
  cases rest with
  | nil => simp [readDeclaration, carrying, complain_moved]
  | cons kindWord words => exact readSymbol_moved move kindWord words

theorem readImport_moved (keyword : Word) (rest : List Word) :
    (keyword.moved move).readImport (rest.map (·.moved move)) =
      carrying move (·.mapSpan move.span) (keyword.readImport rest) := by
  match rest with
  | [] => simp [readImport, carrying, complain_moved]
  | [path] =>
      cases hpath : path.text.isDottedPath with
      | false => simp [readImport, hpath, carrying, complain_moved]
      | true =>
          simp only [readImport, List.map_cons, List.map_nil, text_moved, span_moved, hpath]
          cases path.text.parts with
          | nil => rfl
          | cons module below => cases below <;> rfl
  | [kindWord, path] =>
      simp only [readImport, List.map_cons, List.map_nil, text_moved, span_moved,
        readKind_moved, complain_moved]
      refine carrying_bind _ fun kind => ?_
      split <;> rfl
  | _ :: _ :: _ :: _ => simp [readImport, carrying, complain_moved]

theorem readContext_moved :
    (word.moved move).readContext = carrying move id word.readContext := by
  unfold readContext
  rw [text_moved, complain_moved]
  split
  · rfl
  · split
    · rfl
    · split <;> rfl

theorem readTarget_moved (context : Context) :
    (word.moved move).readTarget context =
      carrying move (·.mapSpan move.span) (word.readTarget context) := by
  unfold readTarget
  rw [text_moved, span_moved, complain_moved]
  split <;> rfl

theorem readReference_moved (keyword : Word) (rest : List Word) :
    (keyword.moved move).readReference (rest.map (·.moved move)) =
      carrying move (·.mapSpan move.span) (keyword.readReference rest) := by
  match rest with
  | [] => simp [readReference, carrying, complain_moved]
  | [target] => exact readTarget_moved move target .any
  | [contextWord, target] =>
      simp only [readReference, List.map_cons, List.map_nil, readContext_moved]
      exact carrying_bind _ fun context => readTarget_moved move target context
  | _ :: _ :: _ :: _ => simp [readReference, carrying, complain_moved]

end Word

namespace OpenBlock

def mapSpans (f : Span → Span) : OpenBlock → OpenBlock
  | .outside => .outside
  | .inModule inner outer => .inModule (inner.mapSpans f) (outer.map (·.mapSpans f))
  | .inUnit unit => .inUnit (unit.mapSpans f)

@[simp] theorem mapSpans_outside (f : Span → Span) : OpenBlock.outside.mapSpans f = .outside :=
  rfl

theorem unclosed_mapSpans (f : Span → Span) (block : OpenBlock) :
    (block.mapSpans f).unclosed = block.unclosed := by
  match block with
  | .outside => rfl
  | .inUnit unit => rfl
  | .inModule inner outer =>
      rw [mapSpans, unclosed, unclosed, List.getLastD_eq_getLast?, List.getLastD_eq_getLast?,
        List.getLast?_map]
      cases outer.getLast? <;> simp

variable (move : Move) (mode : ManifestMode) (keyword : Word) (rest : List Word)

theorem enter_moved :
    enter mode (keyword.moved move) (rest.map (·.moved move)) =
      carrying move (·.mapSpans move.span) (enter mode keyword rest) := by
  unfold enter
  simp only [Word.text_moved, Word.span_moved, Word.readName_moved, Word.complain_moved]
  split
  · exact carrying_bind _ fun name => rfl
  · split
    · cases mode with
      | interface => rfl
      | workspace => exact carrying_bind _ fun name => rfl
    · rfl

theorem extendModule_moved (inner : Module) (outer : List Module) :
    extendModule (inner.mapSpans move.span) (outer.map (·.mapSpans move.span))
        (keyword.moved move) (rest.map (·.moved move)) =
      carrying move (·.mapSpans move.span) (extendModule inner outer keyword rest) := by
  unfold extendModule
  simp only [Word.text_moved, Word.span_moved, Word.readName_moved, Word.complain_moved,
    Word.readSymbol_moved, Module.name_mapSpans]
  split
  · rfl
  · split
    · exact carrying_bind _ fun name => rfl
    · exact carrying_bind _ fun symbol => by
        simp [carrying, mapSpans, Module.mapSpans_declare, pure, Except.pure]

theorem extendUnit_moved (unit : SourceUnit) :
    extendUnit (unit.mapSpans move.span) (keyword.moved move)
        (rest.map (·.moved move)) =
      carrying move (·.mapSpans move.span) (extendUnit unit keyword rest) := by
  unfold extendUnit
  simp only [Word.text_moved, Word.complain_moved, Word.readImport_moved,
    Word.readDeclaration_moved, Word.readReference_moved]
  split
  · exact carrying_bind _ fun declaration => by
      simp [carrying, mapSpans, SourceUnit.mapSpans, pure, Except.pure]
  · split
    · exact carrying_bind _ fun symbol => by
        simp [carrying, mapSpans, SourceUnit.mapSpans, pure, Except.pure]
    · split
      · exact carrying_bind _ fun reference => by
          simp [carrying, mapSpans, SourceUnit.mapSpans, pure, Except.pure]
      · rfl

theorem extend_moved (block : OpenBlock) :
    (block.mapSpans move.span).extend mode (keyword.moved move)
        (rest.map (·.moved move)) =
      carrying move (·.mapSpans move.span) (block.extend mode keyword rest) := by
  cases block with
  | outside => exact enter_moved move mode keyword rest
  | inModule inner outer => exact extendModule_moved move keyword rest inner outer
  | inUnit unit => exact extendUnit_moved move keyword rest unit

end OpenBlock

namespace Reading

def mapSpans (f : Span → Span) (reading : Reading) : Reading :=
  { manifest := reading.manifest.mapSpans f
    block := reading.block.mapSpans f
    complaints := reading.complaints.map (·.mapSpan f) }

variable (move : Move) (mode : ManifestMode)

theorem complain_mapSpans (f : Span → Span) (reading : Reading) (complaint : Complaint) :
    (reading.mapSpans f).complain (complaint.mapSpan f) =
      (reading.complain complaint).mapSpans f := by
  simp [complain, mapSpans]

theorem close_moved (reading : Reading) (keyword : Word) :
    (reading.mapSpans move.span).close (keyword.moved move) =
      (reading.close keyword).mapSpans move.span := by
  obtain ⟨manifest, block, complaints⟩ := reading
  match block with
  | .outside =>
      simp [close, complain, mapSpans, OpenBlock.mapSpans, Word.complain_moved]
  | .inUnit unit => simp [close, mapSpans, OpenBlock.mapSpans, Manifest.mapSpans]
  | .inModule inner [] => simp [close, mapSpans, OpenBlock.mapSpans, Manifest.mapSpans]
  | .inModule inner (around :: outer) =>
      simp [close, mapSpans, OpenBlock.mapSpans, Module.mapSpans_enclose]

theorem line_moved (reading : Reading) (words : List Word) :
    (reading.mapSpans move.span).line mode (words.map (·.moved move)) =
      (reading.line mode words).mapSpans move.span := by
  cases words with
  | nil => rfl
  | cons keyword rest =>
      rw [List.map_cons]
      by_cases hend : keyword.text = "end"
      · rw [line_end mode _ (by rwa [Word.text_moved]), line_end mode _ hend]
        cases rest with
        | nil => exact close_moved move reading keyword
        | cons extra more =>
            rw [List.map_cons, endLine, endLine, Word.complain_moved, complain_mapSpans,
              close_moved, Word.text_moved]
      · rw [line_other mode _ (by rwa [Word.text_moved]), line_other mode _ hend, mapSpans,
          OpenBlock.extend_moved]
        cases reading.block.extend mode keyword rest with
        | ok block => rfl
        | error complaint => exact complain_mapSpans _ reading complaint

theorem lines_moved (reading : Reading) (words : List (List Word)) :
    (reading.mapSpans move.span).lines mode (words.map (·.map (·.moved move))) =
      (reading.lines mode words).mapSpans move.span := by
  induction words generalizing reading with
  | nil => rfl
  | cons first rest ih => rw [List.map_cons, lines_cons, lines_cons, line_moved, ih]

end Reading

end NameBinding
