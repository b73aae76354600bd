import NameBinding.Scope
import NameBinding.Diagnostic
import Std.Data.TreeMap

/-!
The registered modules of a session. A module is taken whole or refused whole,
and a refusal names its cause; once the registry is frozen it refuses all.
Beside the modules, in the order they came, an index leads from a name to the
position of its module.
-/

namespace NameBinding

/-- Why a module is refused. `scope` is the dotted path of the module or
submodule in which the fault lies. -/
inductive RefusalCause where
  | frozen (module : Text)
  | unnamedModule
  | unnamedSubmodule (scope : Text)
  | repeatedModule (module : Text)
  | repeatedSymbol (scope : Text) (kind : Kind) (name : Text)
  | repeatedSubmodule (scope : Text) (name : Text)
deriving DecidableEq, Repr

structure Refusal where
  cause : RefusalCause
  span : Span
deriving DecidableEq, Repr

namespace RefusalCause

def code : RefusalCause → Text
  | .repeatedModule _ => "SIGIL-E2001"
  | .repeatedSymbol .. => "SIGIL-E2002"
  | .repeatedSubmodule .. => "SIGIL-E2003"
  | .frozen _ => "SIGIL-E2004"
  | .unnamedModule | .unnamedSubmodule _ => "SIGIL-E2005"

def message : RefusalCause → Text
  | .frozen module =>
    "Module " ++ module.quoted ++ " cannot be registered: the registry is frozen."
  | .unnamedModule => "Modules must have a non-empty name."
  | .unnamedSubmodule scope =>
    "Module " ++ scope.quoted ++ " declares a submodule without a name."
  | .repeatedModule module => "Module " ++ module.quoted ++ " is already registered."
  | .repeatedSymbol scope kind name =>
    "Module " ++ scope.quoted ++ " declares " ++ kind.keyword ++ " " ++ name ++
      " more than once."
  | .repeatedSubmodule scope name =>
    "Module " ++ scope.quoted ++ " declares submodule " ++ name.quoted ++
      " more than once."

end RefusalCause

/-- What is answered to the one who registers a module. -/
inductive RegistrationStatus where
  | registered
  | duplicateModule
  | duplicateSymbol
  | duplicateSubmodule
  | invalidModuleName
  | registryFrozen
deriving DecidableEq, Repr

def RefusalCause.status : RefusalCause → RegistrationStatus
  | .frozen _ => .registryFrozen
  | .unnamedModule | .unnamedSubmodule _ => .invalidModuleName
  | .repeatedModule _ => .duplicateModule
  | .repeatedSymbol .. => .duplicateSymbol
  | .repeatedSubmodule .. => .duplicateSubmodule

def Refusal.diagnostic (refusal : Refusal) : Diagnostic :=
  { code := refusal.cause.code, message := refusal.cause.message, span := refusal.span }

namespace Module

/-- The first symbol that repeats the kind and the name of an earlier one;
`seen` holds those of the symbols before. -/
def findRepeated? (seen : List (Kind × Text)) : List Symbol → Option Symbol
  | [] => none
  | first :: rest =>
    if (first.kind, first.name) ∈ seen then some first
    else findRepeated? ((first.kind, first.name) :: seen) rest

mutual

/-- The first fault in a module whose dotted path is `path`: its symbols come
first, then its submodules, each with all that is below it. -/
def fault? (path : Text) : Module → Option Refusal
  | ⟨_, symbols, submodules, _⟩ =>
    match findRepeated? [] symbols with
    | some symbol => some ⟨.repeatedSymbol path symbol.kind symbol.name, symbol.span⟩
    | none => faultAmong? path [] submodules

def faultAmong? (path : Text) (seen : List Text) : List Module → Option Refusal
  | [] => none
  | first :: rest =>
    if first.name.isEmpty then some ⟨.unnamedSubmodule path, first.span⟩
    else if first.name ∈ seen then some ⟨.repeatedSubmodule path first.name, first.span⟩
    else
      match first.fault? (path ++ "." ++ first.name) with
      | some refusal => some refusal
      | none => faultAmong? path (first.name :: seen) rest

end

end Module

/-- What a look-up by name did not find. -/
inductive Missing where
  | module
  | submodule
  | symbol
deriving DecidableEq, Repr

structure Registry where
  modules : Array Module := #[]
  index : Std.TreeMap Text Nat := {}
  diagnostics : List Diagnostic := []
  frozen : Bool := false

namespace Registry

def size (registry : Registry) : Nat := registry.modules.size

def names (registry : Registry) : List Text := registry.modules.toList.map (·.name)

def contains (registry : Registry) (name : Text) : Bool := registry.index.contains name

def freeze (registry : Registry) : Registry := { registry with frozen := true }

def refusal? (registry : Registry) (module : Module) : Option Refusal :=
  if registry.frozen then some ⟨.frozen module.name, module.span⟩
  else if module.name.isEmpty then some ⟨.unnamedModule, module.span⟩
  else if registry.contains module.name then
    some ⟨.repeatedModule module.name, module.span⟩
  else module.fault? module.name

/-- Takes the module, with all its symbols owned by their scopes, or notes why
not. -/
def register (registry : Registry) (module : Module) : Registry :=
  match registry.refusal? module with
  | some refusal =>
    { registry with diagnostics := registry.diagnostics ++ [refusal.diagnostic] }
  | none =>
    { registry with
      modules := registry.modules.push (module.owned module.name)
      index := registry.index.insert module.name registry.modules.size }

/-- The answer that goes with `register`. -/
def status (registry : Registry) (module : Module) : RegistrationStatus :=
  match registry.refusal? module with
  | some refusal => refusal.cause.status
  | none => .registered

def registerAll (registry : Registry) (modules : List Module) : Registry :=
  modules.foldl register registry

def lookup? (registry : Registry) (name : Text) : Option Scope := do
  let position ← registry.index[name]?
  let module ← registry.modules[position]?
  return .ofModule module

def lookup (registry : Registry) (name : Text) : Except Missing Scope :=
  match registry.lookup? name with
  | some scope => .ok scope
  | none => .error .module

def lookupSubmodule (registry : Registry) (name path : Text) : Except Missing Scope :=
  match registry.lookup? name with
  | none => .error .module
  | some scope =>
    match scope.findSubmodule? path with
    | some inner => .ok inner
    | none => .error .submodule

def lookupSymbol (registry : Registry) (module : Text) (kind : Kind) (name : Text) :
    Except Missing Located :=
  match registry.lookup? module with
  | none => .error .module
  | some scope =>
    match scope.findDeclared? kind name with
    | some symbol => .ok symbol
    | none => .error .symbol

end Registry

end NameBinding
