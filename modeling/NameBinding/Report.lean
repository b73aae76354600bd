import NameBinding.Json
import NameBinding.SourceUnit

/-!
The report of a run: per unit, how its imports and its references fared. Fields
that a result does not have are left out.
-/

namespace NameBinding

def ImportEntry.toJson (entry : ImportEntry) : Json :=
  .object [("declaration", .text entry.description),
    ("status", .text entry.status.word),
    ("bindings", .number entry.bindingCount)]

def ResolvedReference.toJson (resolved : ResolvedReference) : Json :=
  let reference := resolved.reference
  let outcome := resolved.outcome
  let always : List (Text × Json) := [("reference", .text reference.text),
    ("context", .text reference.context.word),
    ("line", .number reference.span.start.line.toNat),
    ("column", .number reference.span.start.column.toNat),
    ("status", .text outcome.status.word)]
  let symbol : List (Text × Json) := match outcome.symbol? with
    | some located => [("symbol", .text located.symbol.describe)]
    | none => []
  let tier : List (Text × Json) := match outcome.tier? with
    | some tier => [("tier", .text tier.word)]
    | none => []
  let candidates : List (Text × Json) := match outcome.candidates with
    | [] => []
    | several => [("candidates", .array (several.map (.text ·.symbol.describe)))]
  .object (always ++ symbol ++ tier ++ candidates)

def ResolvedUnit.toJson (unit : ResolvedUnit) : Json :=
  .object [("module", .text unit.module),
    ("imports", .array (unit.imports.entries.toList.map (·.toJson))),
    ("references", .array (unit.references.map (·.toJson))),
    ("errors", .number unit.log.errorCount),
    ("warnings", .number unit.log.warningCount)]

def reportTree (units : List ResolvedUnit) : Json :=
  .object [("units", .array (units.map (·.toJson)))]

/-- The report's text ends with a newline. -/
def renderReport (units : List ResolvedUnit) : Text :=
  (reportTree units).render 0 ++ "\n"

end NameBinding
