import NullabilityCasts.Conversion.Walk
import NullabilityCasts.Event
import NullabilityCasts.ClassTable.Mismatch
import NullabilityCasts.ClassTable.Projection

/-!
# Insertion of casts

The pass puts a cast around every value that flows into a slot with a stricter idea of null. The
cast names the projection of the type that the slot expects. Qualifiers, operands of casts and
conditions are left alone.
-/

set_option autoImplicit false

namespace NullabilityCasts

structure PassRun where
  unit : SourceUnit
  failure : Option Error
  log : List Event

structure Pass where
  name : String
  run : SourceUnit → PassRun

namespace CastPass

structure Tally where
  inserted : Nat
  log : List Event

/-- The decision at a slot depends only on the expected type and the type of the expression. -/
def insertCast (ct : ClassTable) (strictness : Strictness) : Handler Tally :=
  fun inferred _ e tally =>
    match ct.project inferred with
    | .error v => (.error (.internal v), tally)
    | .ok target =>
      match (ct.castNeeded strictness e.ty target).run [] with
      | .error v => (.error (.internal v), tally)
      | .ok (needed, gaps) =>
        let log := tally.log ++ gaps.map .arityIgnored
        if needed then
          (.ok (e.castTo target),
            ⟨tally.inserted + 1, log ++ [.castInserted e.span e.ty target e]⟩)
        else (.ok e, ⟨tally.inserted, log⟩)

def policy (ct : ClassTable) (strictness : Strictness) : Policy Tally where
  conversion := insertCast ct strictness
  qualifier := .keep

def name : String := "insert-casts-on-nullability-mismatch"

def run (strictness : Strictness) (u : SourceUnit) : PassRun :=
  let (unit, walk) := (u.walk (policy u.types.table strictness)).run (Walk.start ⟨0, []⟩)
  match walk.failure with
  | some e => ⟨unit, some e, walk.memory.log⟩
  | none =>
    ⟨unit, none, walk.memory.log ++ [.castsCounted name walk.memory.inserted u.path]⟩

end CastPass

def castPass (strictness : Strictness) : Pass := ⟨CastPass.name, CastPass.run strictness⟩

end NullabilityCasts
