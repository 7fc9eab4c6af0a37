import NullabilityCasts.Json
import NullabilityCasts.Span

/-!
# Positions and identifiers as JSON
-/

set_option autoImplicit false

namespace NullabilityCasts

namespace Span

def toJson (s : Span) : Json :=
  .obj [("file", .uint64 s.file), ("lo", .uint32 s.lo), ("hi", .uint32 s.hi)]

def ofJson? (j : Json) : Option Span := do
  let [file, lo, hi] ← j.fields? ["file", "lo", "hi"] | none
  return ⟨← file.bind Json.uint64?, ← lo.bind Json.uint32?, ← hi.bind Json.uint32?⟩

/-- A missing position is the null position. -/
def ofField? : Option Json → Option Span
  | none => some .null
  | some j => ofJson? j

end Span

namespace Ident

def toJson (i : Ident) : Json := .obj [("name", .str i.name)]

def ofJson? (j : Json) : Option Ident := do
  let [name] ← j.fields? ["name"] | none
  return ⟨← name.bind Json.str?⟩

end Ident

end NullabilityCasts
