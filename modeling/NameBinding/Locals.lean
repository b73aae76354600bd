import NameBinding.Scope

/-!
The symbols declared directly in a unit, in order of declaration.
-/

namespace NameBinding

structure Locals where
  unit : Text := []
  symbols : List Symbol := []
deriving Repr, Inhabited

namespace Locals

/-- A declared symbol, with all its members, is owned by the unit. -/
def declare (locals : Locals) (symbol : Symbol) : Locals :=
  { locals with symbols := locals.symbols ++ [symbol.ownedBy locals.unit] }

def ofList (unit : Text) (symbols : List Symbol) : Locals :=
  symbols.foldl declare { unit }

def size (locals : Locals) : Nat := locals.symbols.length

def located (locals : Locals) : List Located :=
  locals.symbols.mapIdx fun index symbol => ⟨.declared index, symbol⟩

def named (locals : Locals) (name : Text) (context : Context) : List Located :=
  locals.located.filter (·.answers name context)

end Locals

end NameBinding
