import NameBinding.Proofs.Complaints
import NameBinding.Proofs.JsonLayout
import NameBinding.Proofs.Messages
import NameBinding.Proofs.Named
import NameBinding.Proofs.Relocation
import NameBinding.Proofs.RunAccount
import NameBinding.Proofs.SpanText

/-!
Diagnostics line by line. Messages quote what stands in a source, but only words of its lines and
names made of identifiers, and neither has a newline. So no source can make the printed text of
its diagnostics look as if there were more of them, or fewer.
-/

namespace NameBinding

namespace Text

/-- A text that stays on the line on which it is printed. -/
def OneLine (text : Text) : Prop := newline ∉ text

instance : DecidablePred OneLine := fun text => inferInstanceAs (Decidable (newline ∉ text))

variable {text rest whole name : Text}

@[simp] theorem oneLine_append : (text ++ rest).OneLine ↔ text.OneLine ∧ rest.OneLine := by
  rw [OneLine, List.mem_append, not_or, OneLine, OneLine]

@[simp] theorem oneLine_quoted : text.quoted.OneLine ↔ text.OneLine := by
  have hquote : OneLine "'" := by decide
  simp [quoted, hquote]

theorem OneLine.part (h : whole.OneLine) (hpart : text <:+: whole) : text.OneLine :=
  fun hnewline => h (hpart.subset hnewline)

theorem oneLine_of_isWord (h : IsWord text) : text.OneLine := h.newline_not_mem

theorem oneLine_of_isIdentifier (h : name.isIdentifier = true) : name.OneLine :=
  oneLine_of_isWord (isWord_of_isIdentifier h)

theorem oneLine_of_isDottedPath (h : text.isDottedPath = true) : text.OneLine :=
  oneLine_of_isWord (isWord_of_namePath (isDottedPath_iff.mp h))

theorem oneLine_keyword (kind : Kind) : kind.keyword.OneLine := by
  cases kind <;> decide

theorem oneLine_decimal (n : Nat) : (decimal n).OneLine := by
  intro hnewline
  cases (decimal_spec n).1 newline hnewline

end Text

open Text

/-- The printed form of the diagnostic is the lines that it is meant to have. -/
structure Diagnostic.OneLined (told : Diagnostic) : Prop where
  code : told.code.OneLine
  sigil : ("SIGIL-" : Text) <+: told.code
  message : told.message.OneLine
  notes (note : Text) : note ∈ told.notes → note.OneLine
  fixIt (hint : Text) : hint ∈ told.fixIt → hint.OneLine

namespace Diagnostic

variable {told : Diagnostic} {path : Text}

/-- Whether a line looks like the first one of a diagnostic. -/
def isHeadline (line : Text) : Bool := List.isPrefixOf ("SIGIL-" : Text) line

theorem oneLine_position (told : Diagnostic) (hpath : path.OneLine) :
    (told.position path).OneLine := by
  have hfile : OneLine (if path.isEmpty then [] else path ++ ":") := by
    split
    · decide
    · exact oneLine_append.mpr ⟨hpath, by decide⟩
  unfold position
  simp +decide only [oneLine_append, hfile, oneLine_decimal]

theorem OneLined.lines (h : told.OneLined) (hpath : path.OneLine) :
    ∀ line ∈ told.lines path, line.OneLine := by
  refine List.forall_mem_append.mpr ⟨List.forall_mem_cons.mpr ⟨?_, ?_⟩, ?_⟩
  · unfold headline
    simp +decide only [oneLine_append, h.code, h.message, told.oneLine_position hpath]
  · refine List.forall_mem_map.mpr fun note hnote => ?_
    exact oneLine_append.mpr ⟨by decide, h.notes note hnote⟩
  · refine List.forall_mem_map.mpr fun hint hhint => ?_
    exact oneLine_append.mpr ⟨by decide, h.fixIt hint (Option.mem_toList.mp hhint)⟩

/-- One line looks like a first one, and this is the first. -/
theorem OneLined.countP_lines (h : told.OneLined) (path : Text) :
    (told.lines path).countP isHeadline = 1 := by
  have hfirst : isHeadline (told.headline path) = true := by
    refine List.isPrefixOf_iff_prefix.mpr (h.sigil.trans ?_)
    rw [headline, List.append_assoc, List.append_assoc, List.append_assoc]
    exact List.prefix_append _ _
  have hnotes : (told.notes.map fun (note : Text) => ("    note: " ++ note : Text)).countP
      isHeadline = 0 := by
    rw [List.countP_eq_zero, List.forall_mem_map]
    exact fun note _ => Bool.false_ne_true
  have hhints : (told.fixIt.toList.map fun (hint : Text) => ("    fix-it: " ++ hint : Text)).countP
      isHeadline = 0 := by
    rw [List.countP_eq_zero, List.forall_mem_map]
    exact fun hint _ => Bool.false_ne_true
  rw [Diagnostic.lines, List.countP_append, List.countP_cons_of_pos hfirst, hnotes, hhints]

end Diagnostic

theorem Text.Coded.sigil {text : Text} {isError : Bool} (h : text.Coded isError) :
    ("SIGIL-" : Text) <+: text := by
  refine List.IsPrefix.trans ?_ h
  cases isError <;> exact List.isPrefixOf_iff_prefix.mp rfl

section Reader

theorem ManifestFault.oneLine_message {fault : ManifestFault}
    (h : ∀ text ∈ fault.quoted, text.OneLine) : fault.message.OneLine := by
  cases fault <;> simp only [quoted, List.forall_mem_cons] at h <;> simp +decide [message, h]

theorem Complaint.oneLined_diagnostic {complaint : Complaint}
    (h : ∀ text ∈ complaint.fault.quoted, text.OneLine) : complaint.diagnostic.OneLined where
  code := by
    change complaint.fault.code.OneLine
    unfold ManifestFault.code
    split <;> decide
  sigil := complaint.coded_diagnostic.sigil
  message := ManifestFault.oneLine_message h
  notes := nofun
  fixIt := nofun

theorem QuotedFrom.oneLine {words : List Word} {text : Text} (h : QuotedFrom words text)
    (hwords : ∀ word ∈ words, IsWord word.text) : text.OneLine := by
  rcases h with hname | ⟨word, hword, hpart⟩
  · exact oneLine_of_isIdentifier hname
  · exact (oneLine_of_isWord (hwords word hword)).part hpart

theorem Word.isWord_of_mem {source : Text} {words : List Word} (hwords : words ∈ ofSource source)
    {word : Word} (hword : word ∈ words) : IsWord word.text := by
  obtain ⟨position, line, -, rfl⟩ := mem_ofSource hwords
  obtain ⟨-, before, -, hat⟩ := wordAt_ofLine hword
  exact hat.isWord

/-- What is complained about in a source is printed as it is meant to be. -/
theorem Manifest.oneLined_read (mode : ManifestMode) (source : Text) :
    ∀ told ∈ (read mode source).2, told.OneLined := by
  refine List.forall_mem_map.mpr fun complaint hcomplaint => ?_
  refine Complaint.oneLined_diagnostic fun text htext => ?_
  rcases about_of_readAll hcomplaint with ⟨words, hwords, habout⟩ | ⟨hfault, -⟩
  · exact (habout.quoted text htext).oneLine fun word hword => Word.isWord_of_mem hwords hword
  · obtain ⟨-, hnames⟩ := OpenBlock.identifiers_unclosed (wellFormed_openAtEnd mode source) hfault
    exact oneLine_of_isIdentifier (hnames text htext)

end Reader

section Registration

/-- The names that a refusal gives. -/
def RefusalCause.quoted : RefusalCause → List Text
  | .frozen module | .repeatedModule module => [module]
  | .unnamedModule => []
  | .unnamedSubmodule scope => [scope]
  | .repeatedSymbol scope _ name | .repeatedSubmodule scope name => [scope, name]

theorem Refusal.oneLined_diagnostic {refusal : Refusal}
    (h : ∀ text ∈ refusal.cause.quoted, text.isDottedPath) : refusal.diagnostic.OneLined where
  code := by
    change refusal.cause.code.OneLine
    unfold RefusalCause.code
    split <;> decide
  sigil := refusal.coded_diagnostic.sigil
  message := by
    have hquoted : ∀ text ∈ refusal.cause.quoted, text.OneLine := fun text htext =>
      oneLine_of_isDottedPath (h text htext)
    obtain ⟨cause, span⟩ := refusal
    unfold diagnostic
    cases cause <;> simp only [RefusalCause.quoted, List.forall_mem_cons] at hquoted <;>
      simp +decide [RefusalCause.message, oneLine_keyword, hquoted]
  notes := nofun
  fixIt := nofun

namespace Module

theorem mem_of_findRepeated? {seen : List (Kind × Text)} {symbols : List Symbol} {symbol : Symbol}
    (h : findRepeated? seen symbols = some symbol) : symbol ∈ symbols := by
  induction symbols generalizing seen with
  | nil => cases h
  | cons first rest ih =>
      unfold findRepeated? at h
      split at h
      · exact Option.some.inj h ▸ List.mem_cons_self
      · exact List.mem_cons_of_mem _ (ih h)

theorem isDottedPath_of_faultAmong? {path : Text} (hpath : path.isDottedPath) {seen : List Text}
    {modules : List Module} {refusal : Refusal} (h : faultAmong? path seen modules = some refusal)
    (hmodules : ∀ inner ∈ modules, inner.name.isIdentifier ∧ ∀ path refusal,
      path.isDottedPath → inner.fault? path = some refusal →
        ∀ text ∈ refusal.cause.quoted, text.isDottedPath) :
    ∀ text ∈ refusal.cause.quoted, text.isDottedPath := by
  induction modules generalizing seen with
  | nil => cases h
  | cons first rest ih =>
      obtain ⟨⟨hname, hfirst⟩, hrest⟩ := List.forall_mem_cons.mp hmodules
      have hnonempty : first.name ≠ [] := Text.ne_nil_of_isIdentifier hname
      simp only [faultAmong?, List.isEmpty_iff, hnonempty, if_false] at h
      split at h
      · obtain rfl := Option.some.inj h
        exact List.forall_mem_cons.mpr
          ⟨hpath, List.forall_mem_singleton.mpr (isDottedPath_of_isIdentifier hname)⟩
      · split at h
        · next found hfound =>
          obtain rfl := Option.some.inj h
          exact hfirst _ _ (isDottedPath_below hpath hname) hfound
        · exact ih h hrest

theorem WellFormed.isDottedPath_of_fault? {module : Module} (h : module.WellFormed) {path : Text}
    (hpath : path.isDottedPath) {refusal : Refusal} (hfault : module.fault? path = some refusal) :
    ∀ text ∈ refusal.cause.quoted, text.isDottedPath := by
  induction h generalizing path refusal with
  | @intro module _ hsymbols hsubmodules ih =>
      obtain ⟨name, symbols, submodules, span⟩ := module
      unfold fault? at hfault
      split at hfault
      · next symbol hrepeated =>
        obtain rfl := Option.some.inj hfault
        have hsymbol := (hsymbols symbol (mem_of_findRepeated? hrepeated)).name
        exact List.forall_mem_cons.mpr
          ⟨hpath, List.forall_mem_singleton.mpr (isDottedPath_of_isIdentifier hsymbol)⟩
      · refine isDottedPath_of_faultAmong? hpath hfault fun inner hinner => ?_
        obtain ⟨hname, -, -⟩ := hsubmodules inner hinner
        exact ⟨hname, fun _ _ hpath hinner' => ih inner hinner hpath hinner'⟩

theorem WellFormed.isDottedPath_of_refusal? {module : Module} (h : module.WellFormed)
    {registry : Registry} {refusal : Refusal} (hrefusal : registry.refusal? module = some refusal) :
    ∀ text ∈ refusal.cause.quoted, text.isDottedPath := by
  have hname : module.name.isDottedPath := by
    obtain ⟨hname, -, -⟩ := h
    exact isDottedPath_of_isIdentifier hname
  simp only [Registry.refusal?, List.isEmpty_iff, h.name_ne_nil, if_false] at hrefusal
  split at hrefusal
  · obtain rfl := Option.some.inj hrefusal
    exact List.forall_mem_singleton.mpr hname
  · split at hrefusal
    · obtain rfl := Option.some.inj hrefusal
      exact List.forall_mem_singleton.mpr hname
    · exact h.isDottedPath_of_fault? hname hrefusal

end Module

theorem Registry.oneLined_refusals (registry : Registry) {modules : List Module}
    (h : ∀ module ∈ modules, module.WellFormed) :
    ∀ told ∈ registry.refusals modules, told.OneLined := by
  induction modules generalizing registry with
  | nil => exact nofun
  | cons first rest ih =>
      obtain ⟨hfirst, hrest⟩ := List.forall_mem_cons.mp h
      refine List.forall_mem_append.mpr ⟨?_, ih _ hrest⟩
      cases hrefusal : registry.refusal? first with
      | none => exact nofun
      | some refusal =>
          refine List.forall_mem_singleton.mpr ?_
          exact Refusal.oneLined_diagnostic (hfirst.isDottedPath_of_refusal? hrefusal)

end Registration

section Imports

/-- The names that a failed import gives besides that of the module. -/
def ImportFault.quoted : ImportFault → List Text
  | .selfImport | .missingModule => []
  | .missingSubmodule path => [path]
  | .missingSymbol _ name => [name]

namespace Import

variable {declaration : Import}

theorem Writable.oneLine_describe (h : declaration.Writable) : declaration.describe.OneLine := by
  rw [describe_eq]
  refine newline_not_mem_spaced (List.forall_mem_cons.mpr ⟨?_, ?_⟩)
  · exact isWord_of_isIdentifier (by decide)
  · exact isWord_of_importForm h.importForm

theorem Writable.isDottedPath_of_contribution (h : declaration.Writable) {registry : Registry}
    {unit : Text} {options : Options} {fault : ImportFault}
    (hfault : declaration.contribution registry unit options = .error fault) :
    ∀ text ∈ fault.quoted, text.isDottedPath := by
  obtain ⟨module, target, span⟩ := declaration
  obtain ⟨-, htarget⟩ := h
  unfold contribution at hfault
  split at hfault
  · obtain rfl := Except.error.inj hfault
    exact List.forall_mem_nil _
  · split at hfault
    · obtain rfl := Except.error.inj hfault
      exact List.forall_mem_nil _
    · cases target with
      | everything => cases hfault
      | submodule path =>
          obtain ⟨names, hnames⟩ := htarget
          dsimp only at hfault
          split at hfault
          · cases hfault
          · obtain rfl := Except.error.inj hfault
            exact List.forall_mem_singleton.mpr hnames.isDottedPath
      | symbol kind name =>
          dsimp only at hfault
          split at hfault
          · cases hfault
          · obtain rfl := Except.error.inj hfault
            exact List.forall_mem_singleton.mpr (isDottedPath_of_isIdentifier htarget)

theorem Writable.oneLined_diagnostic (h : declaration.Writable) {fault : ImportFault}
    (hfault : ∀ text ∈ fault.quoted, text.isDottedPath) :
    (fault.diagnostic declaration).OneLined where
  code := by
    change fault.code.OneLine
    unfold ImportFault.code
    split <;> decide
  sigil := by
    unfold ImportFault.diagnostic
    cases fault <;> exact List.isPrefixOf_iff_prefix.mp rfl
  message := by
    have hmodule : declaration.module.OneLine := oneLine_of_isIdentifier h.1
    have hquoted : ∀ text ∈ fault.quoted, text.OneLine := fun text htext =>
      oneLine_of_isDottedPath (hfault text htext)
    unfold ImportFault.diagnostic
    cases fault <;> simp only [ImportFault.quoted, List.forall_mem_cons] at hquoted <;>
      simp +decide [ImportFault.message, oneLine_keyword, hmodule, h.oneLine_describe, hquoted]
  notes := nofun
  fixIt := nofun

theorem Writable.oneLined_redundant (h : declaration.Writable) :
    declaration.redundant.OneLined where
  code := by
    change OneLine "SIGIL-W2105"
    decide
  sigil := List.isPrefixOf_iff_prefix.mp rfl
  message := by
    unfold redundant
    simp +decide [h.oneLine_describe]
  notes := nofun
  fixIt := nofun

theorem Writable.oneLined_remarks (h : declaration.Writable) (registry : Registry) (unit : Text)
    (options : Options) (earlier : List Import) :
    ∀ told ∈ declaration.remarks registry unit options earlier, told.OneLined := by
  refine List.forall_mem_append.mpr ⟨?_, ?_⟩
  · split
    · exact List.forall_mem_singleton.mpr h.oneLined_redundant
    · exact nofun
  · cases hfault : declaration.contribution registry unit options with
    | ok symbols => exact nofun
    | error fault =>
        refine List.forall_mem_singleton.mpr ?_
        exact h.oneLined_diagnostic (h.isDottedPath_of_contribution hfault)

end Import

end Imports

section References

namespace Symbol

variable {symbol : Symbol}

theorem Named.oneLine_describe (h : symbol.Named) : symbol.describe.OneLine := by
  obtain ⟨hname, howner, -⟩ := h
  have hqualifier : OneLine (if symbol.owner.isEmpty then [] else symbol.owner ++ ".") := by
    split
    · decide
    · exact oneLine_append.mpr ⟨oneLine_of_isDottedPath howner, by decide⟩
  unfold describe
  simp +decide only [oneLine_append, oneLine_keyword, hqualifier, oneLine_of_isIdentifier hname]

theorem Named.oneLine_candidateNote (h : symbol.Named) : symbol.candidateNote.OneLine := by
  have hdescribe := h.oneLine_describe
  obtain ⟨-, howner, -⟩ := h
  have hhome : OneLine (if symbol.owner.isEmpty then [] else
      " (module " ++ symbol.owner.quoted ++ ")") := by
    split
    · decide
    · simp +decide only [oneLine_append, oneLine_quoted, oneLine_of_isDottedPath howner]
  unfold candidateNote
  simp +decide only [oneLine_append, hdescribe, hhome]

theorem mem_of_distinctlyOwned? {candidates : List Symbol}
    (h : distinctlyOwned? candidates = some symbol) : symbol ∈ candidates := by
  cases candidates with
  | nil => cases h
  | cons first others =>
      rw [distinctlyOwned?, Option.ite_none_left_eq_some] at h
      exact Option.some.inj h.2 ▸ List.mem_cons_self

end Symbol

namespace Failure

variable {reference : Reference} {failure : Failure Symbol}

theorem oneLine_head (h : reference.Writable) : reference.head.OneLine := by
  obtain ⟨path, context, span⟩ := reference
  cases path with
  | nil => exact absurd rfl h.nonempty
  | cons first rest => exact oneLine_of_isIdentifier (h.identifiers first List.mem_cons_self)

theorem oneLine_last (h : reference.Writable) : reference.last.OneLine := by
  obtain ⟨path, context, span⟩ := reference
  cases path with
  | nil => exact absurd rfl h.nonempty
  | cons first rest =>
      have hlast : (first :: rest).getLastD [] ∈ first :: rest := by
        rw [List.getLastD_cons]
        exact List.getLastD_mem_cons
      exact oneLine_of_isIdentifier (h.identifiers _ hlast)

theorem oneLine_spelling? (h : reference.Writable)
    (hcandidates : ∀ symbol ∈ (Outcome.failed failure).candidates, symbol.Named) {spelling : Text}
    (hspelling : failure.spelling? reference = some spelling) : spelling.OneLine := by
  cases failure with
  | ambiguous tier candidates =>
      simp only [spelling?, Option.ite_none_left_eq_some, Option.map_eq_some_iff] at hspelling
      obtain ⟨-, symbol, hsymbol, rfl⟩ := hspelling
      obtain ⟨-, howner, -⟩ := hcandidates symbol (Symbol.mem_of_distinctlyOwned? hsymbol)
      simp +decide only [oneLine_append, oneLine_of_isDottedPath howner, oneLine_last h]
  | _ => cases hspelling

/-- Whatever keeps a reference from meaning something is said line by line. -/
theorem oneLined_diagnostic (h : reference.Writable)
    (hcandidates : ∀ symbol ∈ (Outcome.failed failure).candidates, symbol.Named) :
    (failure.diagnostic reference).OneLined where
  code := by
    change failure.code.OneLine
    unfold Failure.code
    split <;> decide
  sigil := (failure.coded_diagnostic reference).sigil
  message := by
    have htext := oneLine_of_isDottedPath h.namePath.isDottedPath
    change (failure.message reference).OneLine
    cases failure <;> simp +decide [message, htext, oneLine_head h, oneLine_last h]
  notes := by
    cases failure with
    | ambiguous tier candidates =>
        exact List.forall_mem_map.mpr fun symbol hsymbol =>
          (hcandidates symbol hsymbol).oneLine_candidateNote
    | _ => exact nofun
  fixIt := by
    intro hint hhint
    cases failure with
    | ambiguous tier candidates =>
        obtain ⟨spelling, hspelling, rfl⟩ := Option.map_eq_some_iff.mp hhint
        have hspelled := oneLine_spelling? h hcandidates hspelling
        simp +decide only [oneLine_append, oneLine_quoted, hspelled]
    | moduleNotImported =>
        obtain rfl := Option.some.inj hhint
        simp +decide only [oneLine_append, oneLine_quoted, oneLine_head h]
    | _ => cases hhint

end Failure

theorem ResolvedReference.oneLined_diagnostic? {resolved : ResolvedReference}
    (h : resolved.reference.Writable)
    (hmentioned : ∀ located ∈ resolved.outcome.mentioned, located.symbol.Named)
    {told : Diagnostic} (htold : resolved.diagnostic? = some told) : told.OneLined := by
  obtain ⟨reference, outcome⟩ := resolved
  cases outcome with
  | found symbol tier => cases htold
  | failed failure =>
      obtain rfl := Option.some.inj htold
      refine Failure.oneLined_diagnostic h ?_
      change ∀ symbol ∈ ((Outcome.failed failure).map (·.symbol)).candidates, symbol.Named
      rw [Outcome.candidates_map]
      exact List.forall_mem_map.mpr fun located hlocated =>
        hmentioned located (List.mem_append_right _ hlocated)

end References

/-- What is said about a unit that was read is printed as it is meant to be. -/
theorem SourceUnit.WellFormed.oneLined_log {unit : SourceUnit} (h : unit.WellFormed)
    {registry : Registry} (hregistry : registry.FromSources) (options : Options) :
    ∀ told ∈ (unit.resolve registry options).log.entries, told.OneLined := by
  rw [entries_log, ImportTable.diagnostics_build]
  refine List.forall_mem_append.mpr ⟨?_, ?_⟩
  · intro told htold
    obtain ⟨⟨declaration, earlier⟩, hentry, hremark⟩ := List.mem_flatMap.mp htold
    obtain ⟨⟨same, position⟩, hposition, hsame⟩ := List.mem_map.mp hentry
    obtain ⟨rfl, rfl⟩ := Prod.mk.inj hsame
    have hdeclaration := h.imports same (List.fst_mem_of_mem_zipIdx hposition)
    exact hdeclaration.oneLined_remarks registry unit.module options _ told hremark
  · intro told htold
    obtain ⟨resolved, hresolved, hsome⟩ := List.mem_filterMap.mp htold
    have hmentioned := h.named_mentioned hregistry options resolved hresolved
    rw [references_resolve] at hresolved
    obtain ⟨reference, hreference, rfl⟩ := List.mem_map.mp hresolved
    exact ResolvedReference.oneLined_diagnostic? (h.references reference hreference) hmentioned
      hsome

namespace Log

/-- The log is printed diagnostic by diagnostic: each has a line that starts with its code, then
a line for each note and one for the fix-it. No other line starts like a code. -/
structure LineByLine (log : Log) (path : Text) : Prop where
  lines : (log.format path).splitOn newline = log.entries.flatMap (·.lines path) ++ [[]]
  each (told : Diagnostic) : told ∈ log.entries →
    (told.format path).splitOn newline = told.lines path ++ [[]] ∧
      ∃ rest, told.lines path = (told.code ++ " " ++ rest) ::
        (told.notes.map (fun (note : Text) => ("    note: " ++ note : Text)) ++
          told.fixIt.toList.map (fun (hint : Text) => ("    fix-it: " ++ hint : Text)))
  sigil (told : Diagnostic) : told ∈ log.entries → ("SIGIL-" : Text) <+: told.code
  count : ((log.format path).splitOn newline).countP Diagnostic.isHeadline = log.entries.length

theorem countP_lines {entries : List Diagnostic} (h : ∀ told ∈ entries, told.OneLined)
    (path : Text) :
    (entries.flatMap (·.lines path)).countP Diagnostic.isHeadline = entries.length := by
  induction entries with
  | nil => rfl
  | cons first rest ih =>
      obtain ⟨hfirst, hrest⟩ := List.forall_mem_cons.mp h
      rw [List.flatMap_cons, List.countP_append, hfirst.countP_lines path, ih hrest,
        List.length_cons, Nat.add_comm]

theorem lineByLine_of_oneLined {log : Log} (h : ∀ told ∈ log.entries, told.OneLined) {path : Text}
    (hpath : newline ∉ path) : log.LineByLine path := by
  have hlines : ∀ line ∈ log.entries.flatMap (·.lines path), newline ∉ line := by
    intro line hline
    obtain ⟨told, htold, hmember⟩ := List.mem_flatMap.mp hline
    exact (h told htold).lines hpath line hmember
  have hformat : (log.format path).splitOn newline =
      log.entries.flatMap (·.lines path) ++ [[]] := by
    rw [← splitOn_terminated hlines, List.flatMap_assoc]
    rfl
  refine ⟨hformat, fun told htold => ⟨?_, ?_⟩, fun told htold => (h told htold).sigil, ?_⟩
  · exact splitOn_terminated ((h told htold).lines hpath)
  · refine ⟨told.position path ++ " -> " ++ told.message, ?_⟩
    simp only [Diagnostic.lines, Diagnostic.headline, List.cons_append, List.append_assoc]
  · rw [hformat, List.countP_append, countP_lines h path]
    rfl

theorem lineByLine_append {told : List Diagnostic} (h : ∀ said ∈ told, said.OneLined) {path : Text}
    (hpath : newline ∉ path) : (Log.empty.append told).LineByLine path := by
  refine lineByLine_of_oneLined ?_ hpath
  rwa [entries_append]

end Log

/-- No source can forge a diagnostic. Whatever bytes are read, and whatever the options, what is
printed about the source, about registering its modules in any registry, and about each of its
units in a registry that was filled from sources, is the lines that the diagnostics are meant to
have. -/
theorem Manifest.read_line_by_line (mode : ManifestMode) (source : Text) (options : Options)
    {path : Text} (hpath : newline ∉ path) (registry : Registry) {later : Registry}
    (hlater : later.FromSources) :
    let manifest := (read mode source).1
    let refused := (registry.registerAll manifest.modules).diagnostics.drop
      registry.diagnostics.length
    (Log.empty.append (read mode source).2).LineByLine path ∧
      (Log.empty.append refused).LineByLine path ∧
      ∀ unit ∈ manifest.units, (unit.resolve later options).log.LineByLine path := by
  intro manifest refused
  have hread : manifest.WellFormed mode := wellFormed_read mode source
  have hrefused : refused = registry.refusals manifest.modules := by
    rw [show refused = _ from congrArg _ (Registry.diagnostics_registerAll registry _),
      List.drop_left]
  refine ⟨Log.lineByLine_append (oneLined_read mode source) hpath, ?_, ?_⟩
  · rw [hrefused]
    exact Log.lineByLine_append (registry.oneLined_refusals hread.modules) hpath
  · intro unit hunit
    exact Log.lineByLine_of_oneLined ((hread.units unit hunit).oneLined_log hlater options) hpath

/-- A word that looks like a code stays inside the line of the complaint about it. -/
theorem Manifest.read_line_by_line_meet :
    let source : Text :=
      "SIGIL-E2001 L1:C1\rend\nmodule Triathlon\n  func swim\nend\nmodule Triathlon\nend\n" ++
        "module Pentathlon\n  func swim\nend\nunit Meet\n  import Triathlon\n" ++
        "  import Pentathlon\n  import Triathlon\n  reference swim\nend\n"
    let path : Text := "meet.sigil"
    let manifest := (read .workspace source).1
    let registry : Registry := ({} : Registry).registerAll manifest.modules
    let logs : List Log := [(read .workspace source).2, registry.diagnostics].map
      (Log.empty.append ·) ++ manifest.units.map fun unit => (unit.resolve registry {}).log
    newline ∉ path ∧ registry.FromSources ∧ (∀ log ∈ logs, log.LineByLine path) ∧
      logs.map (·.entries.length) = [1, 1, 2] ∧
      logs.map (fun log => ((log.format path).splitOn newline).length) = [2, 2, 6] := by
  intro source path manifest registry logs
  have hpath : newline ∉ path := by decide
  have hregistry : registry.FromSources := .registerAll .empty .workspace source
  obtain ⟨hread, hrefused, hunits⟩ := read_line_by_line .workspace source {} hpath {} hregistry
  refine ⟨hpath, hregistry, ?_, by decide +kernel, by decide +kernel⟩
  refine List.forall_mem_append.mpr ⟨?_, List.forall_mem_map.mpr hunits⟩
  exact List.forall_mem_cons.mpr ⟨hread, List.forall_mem_singleton.mpr hrefused⟩

end NameBinding
