import NameBinding.Module
import NameBinding.SourceUnit

/-!
The modules and units that a manifest file declares. A module interface file is
a manifest without units.
-/

namespace NameBinding

structure Manifest where
  modules : List Module := []
  units : List SourceUnit := []
deriving Repr, Inhabited

inductive ManifestMode where
  | workspace
  | interface
deriving DecidableEq, Repr, Inhabited

end NameBinding
