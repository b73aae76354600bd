import NameBinding.ImportTable

/-!
The outcome of resolving a reference: one symbol, or the cause of the failure.
`σ` is the way a symbol is given, with its place or without.
-/

namespace NameBinding

inductive Status where
  | resolved
  | unresolved
  | ambiguous
  | moduleNotFound
  | submoduleNotFound
  | symbolNotFound
  | moduleNotImported
deriving DecidableEq, Repr, Inhabited

def Status.word : Status → Text
  | .resolved => "resolved"
  | .unresolved => "unresolved"
  | .ambiguous => "ambiguous"
  | .moduleNotFound => "moduleNotFound"
  | .submoduleNotFound => "submoduleNotFound"
  | .symbolNotFound => "symbolNotFound"
  | .moduleNotImported => "moduleNotImported"

/-- Why a reference means nothing. The tier of an ambiguity is the one at which
its candidates stand. -/
inductive Failure (σ : Type) where
  | unresolved
  | ambiguous (tier : Option Tier) (candidates : List σ)
  | moduleNotFound
  | submoduleNotFound
  | symbolNotFound
  | moduleNotImported
deriving DecidableEq, Repr

/-- A found symbol has the tier at which the head of its path was found, and
none where a registered module qualified the path. -/
inductive Outcome (σ : Type) where
  | found (symbol : σ) (tier : Option Tier)
  | failed (failure : Failure σ)
deriving DecidableEq, Repr

variable {σ τ : Type}

def Failure.map (f : σ → τ) : Failure σ → Failure τ
  | .unresolved => .unresolved
  | .ambiguous tier candidates => .ambiguous tier (candidates.map f)
  | .moduleNotFound => .moduleNotFound
  | .submoduleNotFound => .submoduleNotFound
  | .symbolNotFound => .symbolNotFound
  | .moduleNotImported => .moduleNotImported

def Failure.status : Failure σ → Status
  | .unresolved => .unresolved
  | .ambiguous .. => .ambiguous
  | .moduleNotFound => .moduleNotFound
  | .submoduleNotFound => .submoduleNotFound
  | .symbolNotFound => .symbolNotFound
  | .moduleNotImported => .moduleNotImported

namespace Outcome

def map (f : σ → τ) : Outcome σ → Outcome τ
  | .found symbol tier => .found (f symbol) tier
  | .failed failure => .failed (failure.map f)

def status : Outcome σ → Status
  | .found .. => .resolved
  | .failed failure => failure.status

def symbol? : Outcome σ → Option σ
  | .found symbol _ => some symbol
  | .failed _ => none

def tier? : Outcome σ → Option Tier
  | .found _ tier => tier
  | .failed (.ambiguous tier _) => tier
  | .failed _ => none

def candidates : Outcome σ → List σ
  | .failed (.ambiguous _ candidates) => candidates
  | _ => []

def isFound (outcome : Outcome σ) : Bool := outcome.symbol?.isSome

/-- The same answer about the same declarations, whatever they look like. -/
def same (left right : Outcome Located) : Bool :=
  left.map (·.place) == right.map (·.place)

end Outcome

end NameBinding
