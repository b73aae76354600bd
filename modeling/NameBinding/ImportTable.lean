import NameBinding.Scope
import Std.Data.TreeMap

/-!
What the imports of a unit bring into scope. A binding gives a name to a symbol
at a tier; an entry records how one import declaration fared. Both stay in the
order in which they were added, and an index leads from a name to the positions
of its bindings.
-/

namespace NameBinding

/-- Names are looked for tier by tier, in this order. -/
inductive Tier where
  | localDeclaration
  | importedDeclaration
  | importedModule
deriving DecidableEq, Repr, Inhabited

def Tier.word : Tier → Text
  | .localDeclaration => "local"
  | .importedDeclaration => "importedDeclaration"
  | .importedModule => "importedModule"

/-- `order` is the position of the import declaration that made the binding. -/
structure Binding where
  name : Text
  symbol : Located
  tier : Tier
  order : Nat
deriving DecidableEq, Repr

inductive ImportStatus where
  | resolved
  | moduleNotFound
  | submoduleNotFound
  | symbolNotFound
  | selfImport
deriving DecidableEq, Repr, Inhabited

def ImportStatus.word : ImportStatus → Text
  | .resolved => "resolved"
  | .moduleNotFound => "moduleNotFound"
  | .submoduleNotFound => "submoduleNotFound"
  | .symbolNotFound => "symbolNotFound"
  | .selfImport => "self"

structure ImportEntry where
  description : Text := []
  module : Text := []
  status : ImportStatus := .resolved
  bindingCount : Nat := 0
  span : Span := {}
deriving DecidableEq, Repr, Inhabited

structure ImportTable where
  bindings : Array Binding := #[]
  entries : Array ImportEntry := #[]
  index : Std.TreeMap Text (List Nat) := {}

namespace ImportTable

def addBinding (table : ImportTable) (binding : Binding) : ImportTable :=
  let earlier := (table.index[binding.name]?).getD []
  { table with
    bindings := table.bindings.push binding
    index := table.index.insert binding.name (earlier ++ [table.bindings.size]) }

/-- Adds bindings one by one, and counts them. -/
def addCounted (table : ImportTable) (bindings : List Binding) : ImportTable × Nat :=
  bindings.foldl (fun added binding => (added.1.addBinding binding, added.2 + 1)) (table, 0)

def addEntry (table : ImportTable) (entry : ImportEntry) : ImportTable :=
  { table with entries := table.entries.push entry }

/-- The bindings of `name` at `tier`, in the order in which they were added. -/
def bindingsNamed (table : ImportTable) (name : Text) (tier : Tier) : List Binding :=
  ((table.index[name]?).getD []).filterMap (table.bindings[·]?) |>.filter (·.tier == tier)

/-- Whether some import of the module succeeded. -/
def importsModule (table : ImportTable) (module : Text) : Bool :=
  table.entries.any fun entry => entry.status == .resolved && entry.module == module

/-- Whether some import names the module, even one that failed. -/
def dependsOn (table : ImportTable) (module : Text) : Bool :=
  table.entries.any (·.module == module)

end ImportTable

end NameBinding
