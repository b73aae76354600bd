/-!
Where something stands in a source. Lines and columns count from one and wrap
at 32 bits; the end of a span is the first column after it.
-/

namespace NameBinding

structure Location where
  line : UInt32 := 1
  column : UInt32 := 1
deriving DecidableEq, Repr, Inhabited

structure Span where
  start : Location := {}
  stop : Location := {}
deriving DecidableEq, Repr, Inhabited

end NameBinding
