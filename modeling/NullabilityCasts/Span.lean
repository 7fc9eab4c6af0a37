/-!
# Source positions and identifiers
-/

set_option autoImplicit false

namespace NullabilityCasts

structure Span where
  file : UInt64
  lo : UInt32
  hi : UInt32
  deriving DecidableEq, Repr

namespace Span

def null : Span := ⟨0, 0, 0⟩

/-- Whether the range is empty at offset zero, in whatever file. -/
def isNull (s : Span) : Bool := s.lo == 0 && s.hi == 0

def text (s : Span) : String :=
  "Span(" ++ toString s.file ++ ":" ++ toString s.lo ++ "-" ++ toString s.hi ++ ")"

instance : ToString Span := ⟨text⟩

end Span

structure Ident where
  name : String
  deriving DecidableEq, Repr

namespace Ident

instance : ToString Ident := ⟨name⟩

end Ident

end NullabilityCasts
