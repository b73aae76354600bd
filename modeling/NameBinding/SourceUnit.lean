import NameBinding.Diagnosis
import NameBinding.ImportTable.Build
import NameBinding.Resolver

/-!
A unit of source: what it imports, what it declares and the references in it.
Resolving a unit never stops at a fault; each one becomes a diagnostic, those of
the imports first and then those of the references.
-/

namespace NameBinding

structure SourceUnit where
  module : Text := []
  imports : List Import := []
  symbols : List Symbol := []
  references : List Reference := []
  span : Span := {}
deriving Repr, Inhabited

structure ResolvedReference where
  reference : Reference
  outcome : Outcome Located
deriving DecidableEq, Repr

structure ResolvedUnit where
  module : Text
  locals : Locals
  imports : ImportTable
  references : List ResolvedReference
  log : Log

def ResolvedReference.report (log : Log) (resolved : ResolvedReference) : Log :=
  log.report resolved.reference (resolved.outcome.map (·.symbol))

def ResolvedUnit.resolvedCount (unit : ResolvedUnit) : Nat :=
  unit.references.countP (·.outcome.isFound)

namespace SourceUnit

def resolve (registry : Registry) (options : Options) (unit : SourceUnit) :
    ResolvedUnit :=
  let (imports, importDiagnostics) :=
    ImportTable.build registry unit.module options unit.imports
  let locals := Locals.ofList unit.module unit.symbols
  let resolver : Resolver := ⟨registry, imports, locals, options⟩
  let references := unit.references.map fun reference =>
    (⟨reference, resolver.resolve reference⟩ : ResolvedReference)
  { module := unit.module
    locals
    imports
    references
    log := references.foldl ResolvedReference.report (Log.empty.append importDiagnostics) }

end SourceUnit

end NameBinding
