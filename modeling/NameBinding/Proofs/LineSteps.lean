import NameBinding.Proofs.FaultyLines
import NameBinding.Proofs.LineForms

/-!
What a line without fault does, stated on its words alone with no places in sight. The
reader does the same with the line, and it does so just where it has no complaint.
-/

namespace NameBinding

namespace OpenBlock

def withoutSpans : OpenBlock → OpenBlock
  | .outside => .outside
  | .inModule inner outer => .inModule inner.withoutSpans (outer.map (·.withoutSpans))
  | .inUnit unit => .inUnit unit.withoutSpans

/-- What a line other than `end` does to the open blocks. -/
inductive Takes (mode : ManifestMode) : OpenBlock → List Text → OpenBlock → Prop where
  | module {name : Text} : name.isIdentifier →
      Takes mode .outside ["module", name] (.inModule { name } [])
  | unit {name : Text} : mode = .workspace → name.isIdentifier →
      Takes mode .outside ["unit", name] (.inUnit { module := name })
  | submodule {inner : Module} {outer : List Module} {name : Text} : name.isIdentifier →
      Takes mode (.inModule inner outer) ["submodule", name] (.inModule { name } (inner :: outer))
  | symbol {inner : Module} {outer : List Module} {words : List Text} {symbol : Symbol} :
      DeclarationForm words symbol →
      Takes mode (.inModule inner outer) words
        (.inModule { inner with symbols := inner.symbols ++ [symbol] } outer)
  | import {unit : SourceUnit} {words : List Text} {declaration : Import} :
      ImportForm words declaration →
      Takes mode (.inUnit unit) ("import" :: words)
        (.inUnit { unit with imports := unit.imports ++ [declaration] })
  | declare {unit : SourceUnit} {words : List Text} {symbol : Symbol} :
      DeclarationForm words symbol →
      Takes mode (.inUnit unit) ("declare" :: words)
        (.inUnit { unit with symbols := unit.symbols ++ [symbol] })
  | reference {unit : SourceUnit} {words : List Text} {reference : Reference} :
      ReferenceForm words reference →
      Takes mode (.inUnit unit) ("reference" :: words)
        (.inUnit { unit with references := unit.references ++ [reference] })

variable {mode : ManifestMode} {keyword : Word} {rest : List Word} {next : OpenBlock}

theorem map_enter_eq_ok_iff :
    (enter mode keyword rest).map (·.withoutSpans) = .ok next ↔
      Takes mode .outside (keyword.text :: rest.map (·.text)) next := by
  constructor
  · intro h
    unfold enter at h
    split at h
    · next hmodule =>
      obtain ⟨name, hread, rfl⟩ := Complaint.map_bind_pure_eq_ok_iff.mp h
      obtain ⟨hrest, hname⟩ := Word.readName_eq_ok_iff.mp hread
      rw [beq_iff_eq.mp hmodule, hrest]
      exact .module hname
    · split at h
      · next hunit =>
        cases mode with
        | interface => cases h
        | workspace =>
            obtain ⟨name, hread, rfl⟩ := Complaint.map_bind_pure_eq_ok_iff.mp h
            obtain ⟨hrest, hname⟩ := Word.readName_eq_ok_iff.mp hread
            rw [beq_iff_eq.mp hunit, hrest]
            exact .unit rfl hname
      · cases h
  · generalize hline : keyword.text :: rest.map (·.text) = line
    intro h
    cases h with
    | module hname =>
        obtain ⟨hkeyword, hrest⟩ := List.cons.inj hline
        have hread : keyword.readName "module" rest = .ok _ :=
          Word.readName_eq_ok_iff.mpr ⟨hrest, hname⟩
        unfold enter
        rw [hkeyword, if_pos (beq_self_eq_true _), hread]
        rfl
    | unit hmode hname =>
        obtain ⟨hkeyword, hrest⟩ := List.cons.inj hline
        have hread : keyword.readName "unit" rest = .ok _ :=
          Word.readName_eq_ok_iff.mpr ⟨hrest, hname⟩
        unfold enter
        rw [hkeyword, hmode, if_neg (by decide), if_pos (beq_self_eq_true _), hread]
        rfl

theorem map_extendModule_eq_ok_iff {inner : Module} {outer : List Module} :
    (extendModule inner outer keyword rest).map (·.withoutSpans) = .ok next ↔
      Takes mode (.inModule inner.withoutSpans (outer.map (·.withoutSpans)))
        (keyword.text :: rest.map (·.text)) next := by
  constructor
  · intro h
    unfold extendModule at h
    split at h
    · cases h
    · split at h
      · next hsubmodule =>
        obtain ⟨name, hread, rfl⟩ := Complaint.map_bind_pure_eq_ok_iff.mp h
        obtain ⟨hrest, hname⟩ := Word.readName_eq_ok_iff.mp hread
        rw [beq_iff_eq.mp hsubmodule, hrest]
        exact .submodule hname
      · obtain ⟨symbol, hsymbol, rfl⟩ := Complaint.map_bind_pure_eq_ok_iff.mp h
        simp only [withoutSpans, Module.withoutSpans_declare]
        exact .symbol (Word.map_readSymbol_eq_ok_iff.mp (Complaint.map_eq_ok _ hsymbol))
  · generalize hline : keyword.text :: rest.map (·.text) = line
    intro h
    cases h with
    | submodule hname =>
        obtain ⟨hkeyword, hrest⟩ := List.cons.inj hline
        have hread : keyword.readName "submodule" rest = .ok _ :=
          Word.readName_eq_ok_iff.mpr ⟨hrest, hname⟩
        unfold extendModule
        rw [hkeyword, if_neg (by decide), if_pos (beq_self_eq_true _), hread]
        rfl
    | symbol hform =>
        rw [← hline] at hform
        obtain ⟨kind, -, -, hkind, -⟩ := declarationForm_cons_iff.mp hform
        rw [← Word.map_readSymbol_eq_ok_iff, Complaint.map_eq_ok_iff] at hform
        obtain ⟨symbol, hsymbol, rfl⟩ := hform
        unfold extendModule
        rw [hkind, if_neg (by cases kind <;> decide), if_neg (by cases kind <;> decide), hsymbol,
          ← Module.withoutSpans_declare]
        rfl

theorem map_extendUnit_eq_ok_iff {unit : SourceUnit} :
    (extendUnit unit keyword rest).map (·.withoutSpans) = .ok next ↔
      Takes mode (.inUnit unit.withoutSpans) (keyword.text :: rest.map (·.text)) next := by
  constructor
  · intro h
    unfold extendUnit at h
    split at h
    · next himport =>
      obtain ⟨declaration, hread, rfl⟩ := Complaint.map_bind_pure_eq_ok_iff.mp h
      rw [beq_iff_eq.mp himport]
      simp only [withoutSpans, SourceUnit.withoutSpans_import]
      exact .import (Word.map_readImport_eq_ok_iff.mp (Complaint.map_eq_ok _ hread))
    · split at h
      · next hdeclare =>
        obtain ⟨symbol, hread, rfl⟩ := Complaint.map_bind_pure_eq_ok_iff.mp h
        rw [beq_iff_eq.mp hdeclare]
        simp only [withoutSpans, SourceUnit.withoutSpans_declare]
        exact .declare (Word.map_readDeclaration_eq_ok_iff.mp (Complaint.map_eq_ok _ hread))
      · split at h
        · next hreference =>
          obtain ⟨reference, hread, rfl⟩ := Complaint.map_bind_pure_eq_ok_iff.mp h
          rw [beq_iff_eq.mp hreference]
          simp only [withoutSpans, SourceUnit.withoutSpans_reference]
          exact .reference (Word.map_readReference_eq_ok_iff.mp (Complaint.map_eq_ok _ hread))
        · cases h
  · generalize hline : keyword.text :: rest.map (·.text) = line
    intro h
    cases h with
    | «import» hform =>
        obtain ⟨hkeyword, rfl⟩ := List.cons.inj hline
        obtain ⟨declaration, hread, rfl⟩ :=
          Complaint.map_eq_ok_iff.mp (Word.map_readImport_eq_ok_iff.mpr hform)
        unfold extendUnit
        rw [hkeyword, if_pos (beq_self_eq_true _), hread, ← SourceUnit.withoutSpans_import]
        rfl
    | declare hform =>
        obtain ⟨hkeyword, rfl⟩ := List.cons.inj hline
        obtain ⟨symbol, hread, rfl⟩ :=
          Complaint.map_eq_ok_iff.mp (Word.map_readDeclaration_eq_ok_iff.mpr hform)
        unfold extendUnit
        rw [hkeyword, if_neg (by decide), if_pos (beq_self_eq_true _), hread,
          ← SourceUnit.withoutSpans_declare]
        rfl
    | reference hform =>
        obtain ⟨hkeyword, rfl⟩ := List.cons.inj hline
        obtain ⟨reference, hread, rfl⟩ :=
          Complaint.map_eq_ok_iff.mp (Word.map_readReference_eq_ok_iff.mpr hform)
        unfold extendUnit
        rw [hkeyword, if_neg (by decide), if_neg (by decide), if_pos (beq_self_eq_true _), hread,
          ← SourceUnit.withoutSpans_reference]
        rfl

theorem map_extend_eq_ok_iff {block : OpenBlock} :
    (block.extend mode keyword rest).map (·.withoutSpans) = .ok next ↔
      Takes mode block.withoutSpans (keyword.text :: rest.map (·.text)) next := by
  cases block with
  | outside => exact map_enter_eq_ok_iff
  | inModule inner outer => exact map_extendModule_eq_ok_iff
  | inUnit unit => exact map_extendUnit_eq_ok_iff

theorem Takes.exists_keyword {block : OpenBlock} {words : List Text}
    (h : Takes mode block words next) : ∃ first more, words = first :: more ∧ first ≠ "end" := by
  cases h with
  | symbol hform =>
      cases words with
      | nil => cases hform
      | cons first more =>
          obtain ⟨kind, -, -, rfl, -⟩ := declarationForm_cons_iff.mp hform
          exact ⟨_, _, rfl, by cases kind <;> decide⟩
  | _ => exact ⟨_, _, rfl, by decide⟩

section Ends

variable {manifest ended : Manifest} {block : OpenBlock}

theorem Ends.unique {ended' : Manifest} {next' : OpenBlock} (h : Ends manifest block ended next)
    (h' : Ends manifest block ended' next') : ended = ended' ∧ next = next' := by
  cases h <;> cases h' <;> exact ⟨rfl, rfl⟩

theorem Ends.withoutSpans (h : Ends manifest block ended next) :
    Ends manifest.withoutSpans block.withoutSpans ended.withoutSpans next.withoutSpans := by
  cases h with
  | outside => exact .outside _
  | unit unit =>
      simpa [Manifest.withoutSpans, OpenBlock.withoutSpans] using
        Ends.unit manifest.withoutSpans unit.withoutSpans
  | module inner =>
      simpa [Manifest.withoutSpans, OpenBlock.withoutSpans] using
        Ends.module manifest.withoutSpans inner.withoutSpans
  | submodule inner around outer =>
      rw [OpenBlock.withoutSpans, OpenBlock.withoutSpans, Module.withoutSpans_enclose]
      exact .submodule _ _ _ _

theorem isOpen_withoutSpans (block : OpenBlock) : block.withoutSpans.isOpen = block.isOpen := by
  cases block <;> rfl

theorem unclosed_eq_nil_iff {block : OpenBlock} :
    block.unclosed = [] ↔ block.withoutSpans = .outside := by
  cases block <;> simp [unclosed, withoutSpans]

end Ends

/-- What a line without fault does to the manifest and the open blocks. -/
inductive Step (mode : ManifestMode) :
    Manifest → OpenBlock → List Text → Manifest → OpenBlock → Prop where
  | take {manifest : Manifest} {block next : OpenBlock} {words : List Text} :
      Takes mode block words next → Step mode manifest block words manifest next
  | «end» {manifest ended : Manifest} {block next : OpenBlock} :
      block.isOpen → Ends manifest block ended next → Step mode manifest block ["end"] ended next

/-- What lines without fault do, one after the other. -/
inductive Run (mode : ManifestMode) :
    Manifest → OpenBlock → List (List Text) → Manifest → OpenBlock → Prop where
  | done {manifest : Manifest} {block : OpenBlock} : Run mode manifest block [] manifest block
  | step {manifest between last : Manifest} {block next final : OpenBlock} {words : List Text}
      {lines : List (List Text)} :
      Step mode manifest block words between next → Run mode between next lines last final →
      Run mode manifest block (words :: lines) last final

section Steps

variable {manifest last : Manifest} {block : OpenBlock}

theorem step_iff_takes {first : Text} {more : List Text} (h : first ≠ "end") :
    Step mode manifest block (first :: more) last next ↔
      last = manifest ∧ Takes mode block (first :: more) next := by
  constructor
  · generalize hline : first :: more = line
    intro hstep
    cases hstep with
    | take htakes => exact ⟨rfl, htakes⟩
    | «end» => exact absurd (List.cons.inj hline).1 h
  · rintro ⟨rfl, htakes⟩
    exact .take htakes

theorem step_end_iff {more : List Text} :
    Step mode manifest block (("end" : Text) :: more) last next ↔
      more = [] ∧ block.isOpen ∧ Ends manifest block last next := by
  constructor
  · generalize hline : ("end" : Text) :: more = line
    intro hstep
    cases hstep with
    | take htakes =>
        obtain ⟨first, rest, hwords, hfirst⟩ := htakes.exists_keyword
        exact absurd (List.cons.inj (hline.trans hwords)).1.symm hfirst
    | «end» hopen hends => exact ⟨(List.cons.inj hline).2, hopen, hends⟩
  · rintro ⟨rfl, hopen, hends⟩
    exact .end hopen hends

theorem run_nil_iff :
    Run mode manifest block [] last next ↔ manifest = last ∧ block = next := by
  constructor
  · rintro ⟨⟩
    exact ⟨rfl, rfl⟩
  · rintro ⟨rfl, rfl⟩
    exact .done

theorem run_cons_iff {words : List Text} {lines : List (List Text)} :
    Run mode manifest block (words :: lines) last next ↔
      ∃ between opened, Step mode manifest block words between opened ∧
        Run mode between opened lines last next := by
  constructor
  · rintro (- | ⟨hstep, hrun⟩)
    exact ⟨_, _, hstep, hrun⟩
  · rintro ⟨between, opened, hstep, hrun⟩
    exact .step hstep hrun

end Steps

end OpenBlock

namespace Reading

open OpenBlock

variable {mode : ManifestMode} {reading : Reading} {manifest : Manifest} {block : OpenBlock}

def withoutSpans (reading : Reading) : Reading :=
  { reading with
    manifest := reading.manifest.withoutSpans
    block := reading.block.withoutSpans }

theorem step_iff_of_end {keyword : Word} (h : keyword.text = "end") (rest : List Word) :
    Step mode reading.manifest.withoutSpans reading.block.withoutSpans
        ((keyword :: rest).map (·.text)) manifest block ↔
      (reading.line mode (keyword :: rest)).withoutSpans =
        ⟨manifest, block, reading.complaints⟩ := by
  obtain ⟨hends, added, hadded, hcount⟩ := line_end_ends mode reading h rest
  rw [List.map_cons, h, step_end_iff, isOpen_withoutSpans, List.map_eq_nil_iff]
  constructor
  · rintro ⟨hrest, hopen, hstep⟩
    obtain ⟨rfl, rfl⟩ := hstep.unique hends.withoutSpans
    rw [if_pos hrest, if_pos hopen, List.length_eq_zero_iff] at hcount
    rw [hcount, List.append_nil] at hadded
    rw [withoutSpans, hadded]
  · intro hline
    obtain ⟨rfl, rfl, hsame⟩ := Reading.mk.inj hline
    have hnone : added = [] := List.append_right_eq_self.mp (hadded.symm.trans hsame)
    rw [hnone, List.length_nil, eq_comm, Nat.add_eq_zero_iff] at hcount
    exact ⟨by simpa using hcount.1, by simpa using hcount.2, hends.withoutSpans⟩

theorem step_iff_of_ne_end {keyword : Word} (h : keyword.text ≠ "end") (rest : List Word) :
    Step mode reading.manifest.withoutSpans reading.block.withoutSpans
        ((keyword :: rest).map (·.text)) manifest block ↔
      (reading.line mode (keyword :: rest)).withoutSpans =
        ⟨manifest, block, reading.complaints⟩ := by
  rw [List.map_cons, step_iff_takes h, ← map_extend_eq_ok_iff, line_other mode reading h]
  cases reading.block.extend mode keyword rest with
  | ok next => simp [Except.map, withoutSpans, eq_comm]
  | error complaint => simp [Except.map, withoutSpans, complain]

theorem step_iff {words : List Word} (h : words ≠ []) :
    Step mode reading.manifest.withoutSpans reading.block.withoutSpans (words.map (·.text))
        manifest block ↔
      (reading.line mode words).withoutSpans = ⟨manifest, block, reading.complaints⟩ := by
  cases words with
  | nil => exact absurd rfl h
  | cons keyword rest =>
      by_cases hend : keyword.text = "end"
      · exact step_iff_of_end hend rest
      · exact step_iff_of_ne_end hend rest

theorem prefix_complaints_line (mode : ManifestMode) (reading : Reading) (words : List Word) :
    reading.complaints <+: (reading.line mode words).complaints :=
  ⟨_, (complaints_line mode words).symm⟩

theorem prefix_complaints_lines (mode : ManifestMode) (reading : Reading)
    (words : List (List Word)) :
    reading.complaints <+: (reading.lines mode words).complaints := by
  induction words generalizing reading with
  | nil => exact List.prefix_rfl
  | cons first rest ih => exact (prefix_complaints_line mode reading first).trans (ih _)

theorem run_iff (reading : Reading) {words : List (List Word)} (h : [] ∉ words) :
    Run mode reading.manifest.withoutSpans reading.block.withoutSpans
        (words.map (·.map (·.text))) manifest block ↔
      (reading.lines mode words).withoutSpans = ⟨manifest, block, reading.complaints⟩ := by
  induction words generalizing reading with
  | nil =>
      simp only [List.map_nil, run_nil_iff, lines_nil, withoutSpans, Reading.mk.injEq, and_true]
  | cons first rest ih =>
      rw [List.mem_cons, not_or, eq_comm] at h
      rw [List.map_cons, run_cons_iff, lines_cons]
      constructor
      · rintro ⟨between, opened, hstep, hrun⟩
        obtain ⟨rfl, rfl, hsame⟩ := Reading.mk.inj ((step_iff h.1).mp hstep)
        rw [(ih _ h.2).mp hrun]
        exact congrArg _ hsame
      · intro hlines
        -- Complaints stay, so that none at the end means none on the way.
        have hlater := prefix_complaints_lines mode (reading.line mode first) rest
        have hlast : ((reading.line mode first).lines mode rest).complaints =
            reading.complaints := congrArg (·.complaints) hlines
        rw [hlast] at hlater
        have hsame : (reading.line mode first).complaints = reading.complaints :=
          hlater.eq_of_length_le (prefix_complaints_line mode reading first).length_le
        refine ⟨_, _, (step_iff h.1).mpr (congrArg (Reading.mk _ _) hsame), (ih _ h.2).mpr ?_⟩
        rw [hlines, hsame]

end Reading

end NameBinding
