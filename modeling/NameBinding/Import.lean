import NameBinding.Symbol

/-!
Import declarations: a whole module, one symbol of it, or one of its submodules.
-/

namespace NameBinding

inductive ImportTarget where
  | everything
  | symbol (kind : Kind) (name : Text)
  | submodule (path : Text)
deriving DecidableEq, Repr, Inhabited

structure Import where
  module : Text := []
  target : ImportTarget := .everything
  span : Span := {}
deriving DecidableEq, Repr, Inhabited

/-- The declaration as it is written in a manifest. -/
def Import.describe (declaration : Import) : Text :=
  match declaration.target with
  | .everything => "import " ++ declaration.module
  | .symbol kind name =>
    "import " ++ kind.keyword ++ " " ++ declaration.module ++ "." ++ name
  | .submodule path => "import " ++ declaration.module ++ "." ++ path

end NameBinding
