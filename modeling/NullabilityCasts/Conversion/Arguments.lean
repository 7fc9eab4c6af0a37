import NullabilityCasts.Expr
import NullabilityCasts.Violation

/-!
# Expected types of arguments

Which type a method expects for the argument at a position. The last parameter of a variadic method
takes all remaining arguments one by one, or one array in their place.
-/

set_option autoImplicit false

namespace NullabilityCasts.MethodSig

/-- A variadic method can do without arguments for its last parameter. -/
def accepts (m : MethodSig) (count : Nat) : Bool :=
  if m.isVariadic then m.params.length > 0 && count + 1 ≥ m.params.length
  else count == m.params.length

def countViolation (m : MethodSig) (count : Nat) : Violation :=
  .argumentCount count m.name m.isVariadic m.params.length

def expected (m : MethodSig) (count position : Nat) (actual : Ty) : Except Violation Ty :=
  let last := m.params.length - 1
  if m.isVariadic && last ≤ position then
    match m.params[last]? with
    | some (.array component nullable) =>
      if count = m.params.length && actual.isArray then .ok (.array component nullable)
      else .ok component
    | some ty => .error (.variadicParameter m.name ty)
    | none => .error (m.countViolation count)
  else
    match m.params[position]? with
    | some ty => .ok ty
    | none => .error (m.countViolation count)

end NullabilityCasts.MethodSig
