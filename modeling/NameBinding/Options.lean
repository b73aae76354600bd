/-!
The choices that shape how names are bound.
-/

namespace NameBinding

structure Options where
  /-- Importing a module also brings in the symbols of its submodules. -/
  reexport : Bool := false
  /-- Only an imported module may qualify a name. -/
  requireImport : Bool := false
  /-- Warn about an import that says again what an earlier one says. -/
  reportRedundant : Bool := true
deriving DecidableEq, Repr, Inhabited

end NameBinding
