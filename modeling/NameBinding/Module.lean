import NameBinding.Symbol

/-!
A module holds symbols and, nested to any depth, submodules. A submodule is
named from above by the dotted path of the names on the way to it.
-/

namespace NameBinding

structure Module where
  name : Text := []
  symbols : List Symbol := []
  submodules : List Module := []
  span : Span := {}
deriving Repr, Inhabited

namespace Module

mutual

/-- Every symbol at any depth is handed to the dotted path of its scope; `path`
is the one of this module. -/
def owned (path : Text) : Module → Module
  | ⟨name, symbols, submodules, span⟩ =>
    ⟨name, symbols.map (·.ownedBy path), allOwned path submodules, span⟩

def allOwned (path : Text) : List Module → List Module
  | [] => []
  | first :: rest => first.owned (path ++ "." ++ first.name) :: allOwned path rest

end

end Module

end NameBinding
