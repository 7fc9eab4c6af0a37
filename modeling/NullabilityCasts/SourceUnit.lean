import NullabilityCasts.ClassTable
import NullabilityCasts.Member

/-!
# Source units

The classes of one source file with its path and the class table they are written over. Units of one
program share a table; shared tables are told apart by a tag, whatever they hold.
-/

set_option autoImplicit false

namespace NullabilityCasts

structure SharedTable where
  tag : Nat
  table : ClassTable

structure SourceUnit where
  path : String
  types : SharedTable
  classes : List ClassDef

namespace SourceUnit

/-- The components of a path: an empty component and a point that does not come first say nothing.
An absolute path begins with an empty component. -/
def pathComponents (path : String) : List String :=
  match path.splitOn "/" with
  | [] => []
  | first :: rest =>
    let later := rest.filter fun part => part != "" && part != "."
    if first == "" then if rest.isEmpty then [] else "" :: later else first :: later

/-- Units are the same if their paths have the same components, their tables are one and the same,
and their classes agree. -/
def same (a b : SourceUnit) : Bool :=
  pathComponents a.path == pathComponents b.path && a.types.tag == b.types.tag
    && a.classes == b.classes

instance : BEq SourceUnit := ⟨same⟩

end SourceUnit

end NullabilityCasts
