import NameBinding.Report
import NameBinding.Proofs.Accounting
import NameBinding.Proofs.Ascii
import NameBinding.Proofs.JsonLayout

/-!
The text of a report. Any reader of JSON finds in it how each unit, each import and each
reference fared, in their order, whatever bytes the names are made of. Names that were read keep
the text in ASCII.
-/

namespace NameBinding

namespace JsonValue

/-- A field that is left out where there is nothing to say. -/
def told (key : Text) (value : Option Text) : List (Text × JsonValue) :=
  value.toList.map fun value => (key, .text value)

/-- A list that is left out where it is empty. -/
def listed (key : Text) (values : List Text) : List (Text × JsonValue) :=
  if values = [] then [] else [(key, .array (values.map .text))]

end JsonValue

def ImportEntry.account (entry : ImportEntry) : JsonValue :=
  .object [("declaration", .text entry.description),
    ("status", .text entry.status.word),
    ("bindings", .number entry.bindingCount)]

def ResolvedReference.account (resolved : ResolvedReference) : JsonValue :=
  let start := resolved.reference.span.start
  let outcome := resolved.outcome
  let always : List (Text × JsonValue) := [("reference", .text resolved.reference.text),
    ("context", .text resolved.reference.context.word),
    ("line", .number start.line.toNat),
    ("column", .number start.column.toNat),
    ("status", .text outcome.status.word)]
  .object (always ++ JsonValue.told "symbol" (outcome.symbol?.map (·.symbol.describe)) ++
    JsonValue.told "tier" (outcome.tier?.map (·.word)) ++
    JsonValue.listed "candidates" (outcome.candidates.map (·.symbol.describe)))

def ResolvedUnit.account (unit : ResolvedUnit) : JsonValue :=
  .object [("module", .text unit.module),
    ("imports", .array (unit.imports.entries.toList.map (·.account))),
    ("references", .array (unit.references.map (·.account))),
    ("errors", .number unit.log.errorCount),
    ("warnings", .number unit.log.warningCount)]

/-- What a report is to say, unit by unit. -/
def reportAccount (units : List ResolvedUnit) : JsonValue :=
  .object [("units", .array (units.map (·.account)))]

namespace Json

theorem values_eq_map (items : List Json) : values items = items.map value := by
  induction items with
  | nil => rfl
  | cons first rest ih => rw [values, ih, List.map_cons]

theorem fieldValues_append (fields rest : List (Text × Json)) :
    fieldValues (fields ++ rest) = fieldValues fields ++ fieldValues rest := by
  induction fields with
  | nil => rfl
  | cons field fields ih =>
      obtain ⟨key, value⟩ := field
      rw [List.cons_append, fieldValues, fieldValues, ih, List.cons_append]

theorem value_array_map {α : Type} {tree : α → Json} {account : α → JsonValue}
    (h : ∀ item, (tree item).value = account item) (items : List α) :
    (array (items.map tree)).value = .array (items.map account) := by
  rw [value, values_eq_map, List.map_map]
  exact congrArg JsonValue.array (List.map_congr_left fun item _ => h item)

end Json

theorem ImportEntry.value_toJson (entry : ImportEntry) : entry.toJson.value = entry.account := rfl

theorem ResolvedReference.value_toJson (resolved : ResolvedReference) :
    resolved.toJson.value = resolved.account := by
  obtain ⟨reference, outcome⟩ := resolved
  unfold toJson account
  simp only [Json.value, Json.fieldValues_append]
  congr 2
  · congr 2
    · cases outcome.symbol? <;> rfl
    · cases outcome.tier? <;> rfl
  · cases outcome.candidates with
    | nil => rfl
    | cons first rest =>
        simp [Json.fieldValues, Json.value, JsonValue.listed, Json.values_eq_map]

theorem ResolvedUnit.value_toJson (unit : ResolvedUnit) : unit.toJson.value = unit.account := by
  rw [account, ← Json.value_array_map ImportEntry.value_toJson,
    ← Json.value_array_map ResolvedReference.value_toJson]
  rfl

theorem value_reportTree (units : List ResolvedUnit) :
    (reportTree units).value = reportAccount units := by
  rw [reportAccount, ← Json.value_array_map ResolvedUnit.value_toJson]
  rfl

namespace Json

/-- Every text in the tree, keys included, is spelled in ASCII. -/
inductive IsAscii : Json → Prop where
  | text {value : Text} : value.IsAscii → IsAscii (.text value)
  | number (value : Nat) : IsAscii (.number value)
  | array {items : List Json} : (∀ item ∈ items, IsAscii item) → IsAscii (.array items)
  | object {fields : List (Text × Json)} : (∀ field ∈ fields, field.1.IsAscii) →
      (∀ field ∈ fields, IsAscii field.2) → IsAscii (.object fields)

theorem renderItems_eq_map (depth : Nat) (items : List Json) :
    renderItems depth items = items.map (render depth) := by
  induction items with
  | nil => rfl
  | cons first rest ih => rw [renderItems, ih, List.map_cons]

theorem renderFields_eq_map (depth : Nat) (fields : List (Text × Json)) :
    renderFields depth fields =
      fields.map fun field => string field.1 ++ ": " ++ field.2.render depth := by
  induction fields with
  | nil => rfl
  | cons field rest ih =>
      obtain ⟨key, value⟩ := field
      rw [renderFields, ih, List.map_cons]

theorem isAscii_escapeByte {byte : UInt8} (h : byte < 0x80) : (escapeByte byte).IsAscii := by
  have hcode : byte.toNat < 128 := UInt8.lt_iff_toNat_lt.mp h
  rw [← UInt8.ofNat_toNat (x := byte)]
  generalize byte.toNat = code at hcode
  decide +revert

theorem isAscii_string {value : Text} (h : value.IsAscii) : (string value).IsAscii := by
  have hescape : (escape value).IsAscii := by
    intro byte hbyte
    obtain ⟨raw, hraw, hmember⟩ := List.mem_flatMap.mp hbyte
    exact isAscii_escapeByte (h raw hraw) byte hmember
  exact (Text.IsAscii.append (by decide) hescape).append (by decide)

theorem isAscii_indent (depth : Nat) : (indent depth).IsAscii := by
  intro byte hbyte
  rw [List.eq_of_mem_replicate hbyte]
  decide

theorem isAscii_block {opening closing : Text} (hopening : opening.IsAscii)
    (hclosing : closing.IsAscii) (depth : Nat) {items : List Text}
    (h : ∀ item ∈ items, item.IsAscii) : (block opening closing depth items).IsAscii := by
  have hbody : Text.IsAscii ((",\n" : Text).intercalate (items.map (indent (depth + 1) ++ ·))) :=
    Text.isAscii_intercalate (by decide)
      (List.forall_mem_map.mpr fun item hitem => (isAscii_indent _).append (h item hitem))
  exact ((((hopening.append (by decide)).append hbody).append (by decide)).append
    (isAscii_indent depth)).append hclosing

theorem IsAscii.render {tree : Json} (h : tree.IsAscii) (depth : Nat) :
    (tree.render depth).IsAscii := by
  induction h generalizing depth with
  | text hvalue => exact isAscii_string hvalue
  | number value =>
      intro byte hbyte
      have hdigit := (Text.decimal_spec value).1 byte hbyte
      exact Text.lt_of_isNameByte (by simp [Text.isNameByte, hdigit])
  | @array items _ ih =>
      rw [Json.render, renderItems_eq_map, renderItems_eq_map]
      split
      · exact isAscii_block (by decide) (by decide) depth
          (List.forall_mem_map.mpr fun item hitem => ih item hitem (depth + 1))
      · have hitems := List.forall_mem_map.mpr fun item hitem => ih item hitem depth
        exact (Text.IsAscii.append (by decide) (Text.isAscii_intercalate (by decide) hitems)).append
          (by decide)
  | @object fields hkeys _ ih =>
      rw [Json.render, renderFields_eq_map]
      refine isAscii_block (by decide) (by decide) depth (List.forall_mem_map.mpr ?_)
      intro field hfield
      exact ((isAscii_string (hkeys field hfield)).append (by decide)).append
        (ih field hfield (depth + 1))

theorem isAscii_object {fields : List (Text × Json)}
    (h : ∀ field ∈ fields, field.1.IsAscii ∧ field.2.IsAscii) : IsAscii (.object fields) :=
  .object (fun field hfield => (h field hfield).1) fun field hfield => (h field hfield).2

theorem isAscii_field {key : Text} (hkey : key.IsAscii) {value : Json} (h : value.IsAscii) :
    ∀ field ∈ [(key, value)], field.1.IsAscii ∧ field.2.IsAscii :=
  List.forall_mem_singleton.mpr ⟨hkey, h⟩

end Json

theorem ImportEntry.isAscii_toJson {entry : ImportEntry} (h : entry.description.IsAscii) :
    entry.toJson.IsAscii := by
  have hstatus : entry.status.word.IsAscii := by cases entry.status <;> decide
  refine Json.isAscii_object ?_
  simp only [List.forall_mem_cons]
  exact ⟨⟨by decide, .text h⟩, ⟨by decide, .text hstatus⟩, ⟨by decide, .number _⟩, nofun⟩

theorem ResolvedReference.isAscii_toJson {resolved : ResolvedReference}
    (htext : resolved.reference.text.IsAscii)
    (hmentioned : ∀ located ∈ resolved.outcome.mentioned, located.symbol.Named) :
    resolved.toJson.IsAscii := by
  obtain ⟨reference, outcome⟩ := resolved
  have hcontext : reference.context.word.IsAscii := by cases reference.context <;> decide
  have hstatus : outcome.status.word.IsAscii := by cases outcome.status <;> decide
  obtain ⟨hsymbol, hcandidates⟩ := List.forall_mem_append.mp hmentioned
  refine Json.isAscii_object (List.forall_mem_append.mpr ⟨List.forall_mem_append.mpr
    ⟨List.forall_mem_append.mpr ⟨?_, ?_⟩, ?_⟩, ?_⟩)
  · simp only [List.forall_mem_cons]
    exact ⟨⟨by decide, .text htext⟩, ⟨by decide, .text hcontext⟩, ⟨by decide, .number _⟩,
      ⟨by decide, .number _⟩, ⟨by decide, .text hstatus⟩, nofun⟩
  · cases h : outcome.symbol? with
    | none => exact nofun
    | some located =>
        have hlocated := hsymbol located (by simp [h])
        exact Json.isAscii_field (by decide) (.text hlocated.isAscii_describe)
  · cases outcome.tier? with
    | none => exact nofun
    | some tier =>
        have htier : tier.word.IsAscii := by cases tier <;> decide
        exact Json.isAscii_field (by decide) (.text htier)
  · dsimp only at hcandidates ⊢
    cases h : outcome.candidates with
    | nil => exact nofun
    | cons first rest =>
        rw [h] at hcandidates
        refine Json.isAscii_field (by decide) (.array (List.forall_mem_map.mpr ?_))
        exact fun located hlocated => .text (hcandidates located hlocated).isAscii_describe

namespace SourceUnit

variable {registry : Registry} {unit : SourceUnit}

/-- A unit that was read is reported in ASCII. -/
theorem WellFormed.isAscii_toJson (h : unit.WellFormed) (hregistry : registry.FromSources)
    (options : Options) : (unit.resolve registry options).toJson.IsAscii := by
  refine Json.isAscii_object ?_
  simp only [List.forall_mem_cons]
  refine ⟨⟨by decide, .text (Text.isAscii_of_isIdentifier h.name)⟩,
    ⟨by decide, .array (List.forall_mem_map.mpr ?_)⟩,
    ⟨by decide, .array (List.forall_mem_map.mpr ?_)⟩,
    ⟨by decide, .number _⟩, ⟨by decide, .number _⟩, nofun⟩
  · have hentries : (unit.resolve registry options).imports.entries.toList =
        unit.imports.map fun declaration =>
          declaration.entry (declaration.contribution registry unit.module options)
            (declaration.contribution registry unit.module options).symbols.length :=
      ImportTable.entries_build registry unit.module options unit.imports
    rw [hentries]
    refine List.forall_mem_map.mpr fun declaration hdeclaration => ?_
    exact ImportEntry.isAscii_toJson (h.imports declaration hdeclaration).isAscii_describe
  · intro resolved hresolved
    have hmentioned := h.named_mentioned hregistry options resolved hresolved
    rw [references_resolve] at hresolved
    obtain ⟨reference, hreference, rfl⟩ := List.mem_map.mp hresolved
    have htext := (h.references reference hreference).namePath.isAscii
    exact ResolvedReference.isAscii_toJson htext hmentioned

end SourceUnit

/-- Whatever the names are made of, a reader of JSON takes the text of a report and finds in it
how every unit, import and reference fared, in order and with nothing more; so reports of one
text say the same. Where all modules and units come from sources, the text is in ASCII. -/
theorem renderReport_read_back (units : List ResolvedUnit) :
    JsonValue.parse? (renderReport units) = some (reportAccount units) ∧
    (∀ others, renderReport others = renderReport units →
      reportAccount others = reportAccount units) ∧
    ∀ registry : Registry, registry.FromSources →
      (∀ resolved ∈ units, ∃ (mode : ManifestMode) (source : Text) (options : Options),
        ∃ unit ∈ (Manifest.read mode source).1.units, resolved = unit.resolve registry options) →
      (renderReport units).IsAscii := by
  have hparse (units : List ResolvedUnit) :
      JsonValue.parse? (renderReport units) = some (reportAccount units) := by
    rw [← value_reportTree]
    exact JsonValue.parse?_render 0 (reportTree units)
  refine ⟨hparse units, ?_, ?_⟩
  · intro others hsame
    have hother := hparse others
    rw [hsame, hparse units] at hother
    exact (Option.some.inj hother).symm
  · intro registry hregistry hread
    have htree : (reportTree units).IsAscii := by
      refine Json.isAscii_object (Json.isAscii_field (by decide)
        (.array (List.forall_mem_map.mpr fun resolved hresolved => ?_)))
      obtain ⟨mode, source, options, unit, hunit, rfl⟩ := hread resolved hresolved
      exact ((Manifest.wellFormed_read mode source).units unit hunit).isAscii_toJson hregistry
        options
    exact (htree.render 0).append (by decide)

/-- One reference with two candidates, one that means a symbol at no tier, and one import that
fails: the fields that are left out differ. -/
theorem renderReport_meet_read_back :
    let source : Text :=
      "module Triathlon\n  func swim\nend\nmodule Pentathlon\n  func swim\nend\nunit Meet\n" ++
        "  import Triathlon\n  import Pentathlon\n  import Golf\n  reference swim\n" ++
        "  reference Triathlon.swim\nend\n"
    let manifest : Manifest := (Manifest.read .workspace source).1
    let registry : Registry := ({} : Registry).registerAll manifest.modules
    let units : List ResolvedUnit := manifest.units.map (·.resolve registry {})
    registry.FromSources ∧ (renderReport units).IsAscii ∧
      JsonValue.parse? (renderReport units) = some (reportAccount units) ∧
      units.map (·.references.map (·.outcome.status)) = [[.ambiguous, .resolved]] ∧
      units.map (·.log.errorCount) = [2] := by
  intro source manifest registry units
  have hregistry : registry.FromSources := .registerAll .empty .workspace source
  obtain ⟨hparse, -, hascii⟩ := renderReport_read_back units
  refine ⟨hregistry, hascii registry hregistry (List.forall_mem_map.mpr fun unit hunit => ?_),
    hparse, by decide +kernel, by decide +kernel⟩
  exact ⟨.workspace, source, {}, unit, hunit, rfl⟩

end NameBinding
