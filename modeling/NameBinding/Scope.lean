import NameBinding.Module

/-!
Symbols have identity: two that are declared alike in different places are two
candidates, and one that is reached in two ways is one. Identity is the place
of the declaration. Places are read off the way down to a symbol, so they do
not change when something is registered or imported later.
-/

namespace NameBinding

/-- A module is known by its name, a submodule by its position in the scope
around it. -/
inductive ScopePlace where
  | root (module : Text)
  | inside (outer : ScopePlace) (index : Nat)
deriving DecidableEq, Repr

inductive Place where
  | declared (index : Nat)
  | exported (scope : ScopePlace) (index : Nat)
  | member (owner : Place) (index : Nat)
deriving DecidableEq, Repr

structure Located where
  place : Place
  symbol : Symbol
deriving DecidableEq, Repr

namespace Located

def answers (located : Located) (name : Text) (context : Context) : Bool :=
  located.symbol.answers name context

def members (located : Located) : List Located :=
  located.symbol.members.mapIdx fun index symbol => ⟨.member located.place index, symbol⟩

def findMember? (located : Located) (name : Text) (context : Context) : Option Located :=
  located.members.find? (·.answers name context)

/-- Goes down through members along `path`. Only the last step asks for the
context of the use; any kind of symbol may be on the way. -/
def follow? (located : Located) (context : Context) : (path : List Text) → Option Located
  | [] => some located
  | [name] => located.findMember? name context
  | name :: rest => (located.findMember? name .any).bind (·.follow? context rest)

end Located

structure Scope where
  place : ScopePlace
  module : Module
deriving Repr

namespace Scope

/-- The scope of a module that stands on its own or in a registry. -/
def ofModule (module : Module) : Scope := ⟨.root module.name, module⟩

def locate (place : ScopePlace) (symbols : List Symbol) : List Located :=
  symbols.mapIdx fun index symbol => ⟨.exported place index, symbol⟩

def symbols (scope : Scope) : List Located := locate scope.place scope.module.symbols

/-- The first declared symbol that a use of `name` in `context` may mean. -/
def find? (scope : Scope) (name : Text) (context : Context) : Option Located :=
  scope.symbols.find? (·.answers name context)

/-- The first declared symbol of this kind and name. -/
def findDeclared? (scope : Scope) (kind : Kind) (name : Text) : Option Located :=
  scope.symbols.find? fun located =>
    located.symbol.kind == kind && located.symbol.name == name

def submodules (scope : Scope) : List Scope :=
  scope.module.submodules.mapIdx fun index module => ⟨.inside scope.place index, module⟩

def child? (scope : Scope) (name : Text) : Option Scope :=
  scope.submodules.find? (·.module.name == name)

/-- Follows a dotted path down, one child for each part. An empty part stands
for a child with an empty name. -/
def findSubmodule? (scope : Scope) (path : Text) : Option Scope :=
  path.parts.foldlM child? scope

mutual

/-- What an import of a module contributes: its own symbols, then, where
submodules are passed on, those of each submodule in order. -/
def exposedBy (reexport : Bool) (place : ScopePlace) : Module → List Located
  | ⟨_, symbols, submodules, _⟩ =>
    locate place symbols ++
      if reexport then exposedByAll reexport place 0 submodules else []

def exposedByAll (reexport : Bool) (outer : ScopePlace) (index : Nat) :
    List Module → List Located
  | [] => []
  | first :: rest =>
    exposedBy reexport (.inside outer index) first ++
      exposedByAll reexport outer (index + 1) rest

end

def exposed (scope : Scope) (reexport : Bool) : List Located :=
  exposedBy reexport scope.place scope.module

mutual

/-- Looks for a name that qualifies through a module: among its own symbols
and, where submodules are passed on, depth first below it. -/
def searchIn (reexport : Bool) (name : Text) (context : Context) (place : ScopePlace) :
    Module → Option Located
  | ⟨_, symbols, submodules, _⟩ =>
    match (locate place symbols).find? (·.answers name context) with
    | some found => some found
    | none =>
      if reexport then searchInAll reexport name context place 0 submodules else none

def searchInAll (reexport : Bool) (name : Text) (context : Context)
    (outer : ScopePlace) (index : Nat) : List Module → Option Located
  | [] => none
  | first :: rest =>
    match searchIn reexport name context (.inside outer index) first with
    | some found => some found
    | none => searchInAll reexport name context outer (index + 1) rest

end

def search? (scope : Scope) (reexport : Bool) (name : Text) (context : Context) :
    Option Located :=
  searchIn reexport name context scope.place scope.module

end Scope

end NameBinding
