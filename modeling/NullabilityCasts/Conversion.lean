import NullabilityCasts.Error
import NullabilityCasts.Expr

/-!
# Conversions

A conversion is a place where a value flows into a slot that expects a type. A policy decides what
stands in each such slot; it has a memory of its own that it keeps also when it fails.
-/

set_option autoImplicit false

namespace NullabilityCasts

inductive ConversionKind where
  /-- Initializers of locals, assigned values, array elements and branches of conditionals. -/
  | assignment
  | fieldInitializer
  | returned
  | argument
  /-- The object whose member is used; it is expected to have its own type. -/
  | qualifier
  /-- The operand of a cast that stands in the program. -/
  | castOperand
  /-- Conditions of statements and of conditional expressions. -/
  | condition
  deriving DecidableEq, Repr

abbrev Handler (σ : Type) := (inferred actual : Ty) → Expr → σ → Except Error Expr × σ

def Handler.keep {σ : Type} : Handler σ := fun _ _ e memory => (.ok e, memory)

/-- A handler for each kind of conversion. All fall back to the common handler `conversion` except
those for operands of casts and for conditions, which by default leave the expression alone. -/
structure Policy (σ : Type) where
  conversion : Handler σ := .keep
  assignment : Handler σ := conversion
  fieldInitializer : Handler σ := conversion
  returned : Handler σ := conversion
  argument : Handler σ := conversion
  qualifier : Handler σ := conversion
  castOperand : Handler σ := .keep
  condition : Handler σ := .keep

def Policy.handle {σ : Type} (p : Policy σ) : ConversionKind → Handler σ
  | .assignment => p.assignment
  | .fieldInitializer => p.fieldInitializer
  | .returned => p.returned
  | .argument => p.argument
  | .qualifier => p.qualifier
  | .castOperand => p.castOperand
  | .condition => p.condition

end NullabilityCasts
