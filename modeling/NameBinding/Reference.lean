import NameBinding.Symbol

/-!
A name as it is written at a use: `swim`, `Triathlon.swim`, `Darwin.C.puts`.
-/

namespace NameBinding

structure Reference where
  path : List Text := []
  context : Context := .any
  span : Span := {}
deriving DecidableEq, Repr, Inhabited

namespace Reference

def ofText (text : Text) (context : Context := .any) (span : Span := {}) : Reference :=
  ⟨text.parts, context, span⟩

def text (reference : Reference) : Text := Text.dotted reference.path

def isDotted (reference : Reference) : Bool := reference.path.length > 1

/-- The first part of the path, empty for an empty path. -/
def head (reference : Reference) : Text := reference.path.headD []

/-- The last part of the path, empty for an empty path. -/
def last (reference : Reference) : Text := reference.path.getLastD []

end Reference

end NameBinding
