import NameBinding.Locals
import NameBinding.Options
import NameBinding.Outcome
import NameBinding.Reference
import NameBinding.Registry

/-!
Resolving references in one unit. A single name is searched tier by tier, and
the first tier with a candidate decides. A dotted path prefers a local or
singly imported declaration of its head that supplies the rest as members, and
otherwise qualifies through a registered module.
-/

namespace NameBinding

structure Resolver where
  registry : Registry
  imports : ImportTable
  locals : Locals
  options : Options

/-- The candidates of the first tier that has any, so there is at least one. -/
structure Match where
  tier : Tier
  first : Located
  others : List Located
deriving DecidableEq, Repr

namespace Match

def candidates (found : Match) : List Located := found.first :: found.others

/-- The one candidate, followed down `path`; nothing if there are several. -/
def follow? (found : Match) (context : Context) (path : List Text) : Option Located :=
  match found.others with
  | [] => found.first.follow? context path
  | _ :: _ => none

/-- The outcome where `follow?` led nowhere and no module can help. -/
def undecided (found : Match) : Failure Located :=
  match found.others with
  | [] => .unresolved
  | _ :: _ => .ambiguous (some found.tier) found.candidates

end Match

namespace Resolver

/-- The imported declaration that is written last hides the ones before. -/
def importedDeclarations (resolver : Resolver) (name : Text) (context : Context) :
    List Located :=
  let fitting := (resolver.imports.bindingsNamed name .importedDeclaration).filter
    (·.symbol.symbol.kind.fits context)
  let latest := (fitting.map (·.order)).foldl max 0
  ((fitting.filter (·.order == latest)).map (·.symbol)).eraseDups

def importedModuleSymbols (resolver : Resolver) (name : Text) (context : Context) :
    List Located :=
  let fitting := (resolver.imports.bindingsNamed name .importedModule).filter
    (·.symbol.symbol.kind.fits context)
  (fitting.map (·.symbol)).eraseDups

def candidates (resolver : Resolver) (name : Text) (context : Context) :
    Tier → List Located
  | .localDeclaration => resolver.locals.named name context
  | .importedDeclaration => resolver.importedDeclarations name context
  | .importedModule => resolver.importedModuleSymbols name context

def search? (resolver : Resolver) (name : Text) (context : Context)
    (tiers : List Tier) : Option Match :=
  tiers.findSome? fun tier =>
    match resolver.candidates name context tier with
    | [] => none
    | first :: others => some ⟨tier, first, others⟩

/-- The tiers that go before a module spelled like the head of a path. -/
def declarationTiers : List Tier := [.localDeclaration, .importedDeclaration]

def allTiers : List Tier := declarationTiers ++ [.importedModule]

def unqualified (resolver : Resolver) (name : Text) (context : Context) :
    Outcome Located :=
  match resolver.search? name context allTiers with
  | none => .failed .unresolved
  | some found =>
    match found.others with
    | [] => .found found.first (some found.tier)
    | _ :: _ => .failed (.ambiguous (some found.tier) found.candidates)

/-- Goes down through submodules as long as there is one for the next name and
a name is left for the symbol: the scope reached, the symbol's name, and the
members that are asked for below it. -/
def descend (scope : Scope) (name : Text) : (rest : List Text) → Scope × Text × List Text
  | [] => (scope, name, [])
  | next :: rest =>
    match scope.findSubmodule? name with
    | some inner => descend inner next rest
    | none => (scope, name, next :: rest)

/-- Resolves the path below a registered module; `name` comes right after it. -/
def qualified (resolver : Resolver) (scope : Scope) (name : Text) (rest : List Text)
    (context : Context) : Outcome Located :=
  if resolver.options.requireImport && !resolver.imports.importsModule scope.module.name then
    .failed .moduleNotImported
  else
    let (inner, name, rest) := descend scope name rest
    let isLast := rest.isEmpty
    match inner.search? resolver.options.reexport name (if isLast then context else .any) with
    | none => .failed (if isLast then .symbolNotFound else .submoduleNotFound)
    | some symbol =>
      match symbol.follow? context rest with
      | some target => .found target none
      | none => .failed .symbolNotFound

/-- Resolves the path below the unit's own name among its declarations. -/
def throughUnit (resolver : Resolver) (name : Text) (rest : List Text)
    (context : Context) : Outcome Located :=
  match resolver.locals.named name (if rest.isEmpty then context else .any) with
  | [] => .failed .symbolNotFound
  | [symbol] =>
    match symbol.follow? context rest with
    | some target => .found target (some .localDeclaration)
    | none => .failed .symbolNotFound
  | candidates => .failed (.ambiguous (some .localDeclaration) candidates)

/-- A path that no registered module qualifies and whose head is neither
declared nor singly imported. -/
def unregistered (resolver : Resolver) (head name : Text) (rest : List Text)
    (context : Context) : Outcome Located :=
  if !resolver.locals.unit.isEmpty && head == resolver.locals.unit then
    resolver.throughUnit name rest context
  else
    match resolver.search? head .any allTiers with
    | none => .failed .moduleNotFound
    | some found =>
      match found.follow? context (name :: rest) with
      | some target => .found target (some found.tier)
      | none => .failed found.undecided

def dotted (resolver : Resolver) (head name : Text) (rest : List Text)
    (context : Context) : Outcome Located :=
  let preferred := resolver.search? head .any declarationTiers
  let member := preferred.bind fun found =>
    (found.follow? context (name :: rest)).map fun target => (target, found.tier)
  match member with
  | some (target, tier) => .found target (some tier)
  | none =>
    match resolver.registry.lookup? head, preferred with
    | some scope, _ => resolver.qualified scope name rest context
    | none, some found => .failed found.undecided
    | none, none => resolver.unregistered head name rest context

def resolve (resolver : Resolver) (reference : Reference) : Outcome Located :=
  match reference.path with
  | [] => .failed .unresolved
  | head :: rest =>
    if head.isEmpty then .failed .unresolved
    else
      match rest with
      | [] => resolver.unqualified head reference.context
      | name :: rest => resolver.dotted head name rest reference.context

end Resolver

end NameBinding
