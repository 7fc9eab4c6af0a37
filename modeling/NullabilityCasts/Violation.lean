import NullabilityCasts.Span
import NullabilityCasts.Ty.Text

/-!
# Violated invariants

The ways in which a program or a class table can fall outside what the passes are built for.
-/

set_option autoImplicit false

namespace NullabilityCasts

structure ArityGap where
  source : Ty
  target : Ty
  sourceArity : Nat
  targetArity : Nat

inductive Violation where
  /-- The class table has no bounds for the variable. -/
  | unboundVariable (v : TyVar)
  /-- Following bounds from a wildcard or capture comes back to it. -/
  | boundLoop (v : TyVar)
  /-- Following lower bounds, with all that they mention, comes back to the variable. -/
  | lowerBoundLoop (v : TyVar)
  | arityMismatch (gap : ArityGap)
  | argumentCount (passed : Nat) (method : Ident) (variadic : Bool) (expected : Nat)
  | variadicParameter (method : Ident) (ty : Ty)
  | arrayLiteralType (span : Span) (ty : Ty)
  | returnOutsideMethod (span : Span)
  /-- A violation reported by a policy or pass in its own words. -/
  | stated (message : String)

def Violation.message : Violation → String
  | unboundVariable v =>
    "type variable " ++ v.name ++ " (#" ++ toString v.id ++ ") has no bounds in the type store"
  | boundLoop v =>
    "wildcard bound chain of " ++ v.text ++ " (#" ++ toString v.id ++ ") loops back onto itself"
  | lowerBoundLoop v =>
    "lower bounds of " ++ v.text ++ " (#" ++ toString v.id ++ ") lead back to it"
  | arityMismatch gap =>
    "type argument arity mismatch between " ++ gap.source.text ++ " and " ++ gap.target.text ++ " ("
      ++ toString gap.sourceArity ++ " vs " ++ toString gap.targetArity ++ ")"
  | argumentCount passed method variadic expected =>
    toString passed ++ " arguments passed to "
      ++ (if variadic then "varargs method " else "method ") ++ method.name
      ++ " with " ++ toString expected ++ " parameters"
  | variadicParameter method ty =>
    "varargs parameter of " ++ method.name ++ " has non-array type " ++ ty.text
  | arrayLiteralType span ty =>
    "array literal at " ++ span.text ++ " has non-array type " ++ ty.text
  | returnOutsideMethod span =>
    "return with a value outside of a method body at " ++ span.text
  | stated message => message

end NullabilityCasts
