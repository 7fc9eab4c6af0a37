import NullabilityCasts.Diagnostic
import NullabilityCasts.Violation

/-!
# Errors
-/

set_option autoImplicit false

namespace NullabilityCasts

inductive Error where
  /-- The input is outside what the passes are built for. -/
  | internal (violation : Violation)
  | diagnostic (d : Diagnostic)
  | unknownDeclaration (qualifiedName : String)
  /-- Any other failure, in the words of whoever reports it. -/
  | other (text : String)

namespace Error

def isInternal : Error → Bool
  | internal _ => true
  | _ => false

def cause : Error → String
  | internal violation => violation.message
  | diagnostic d => d.text
  | unknownDeclaration qualifiedName => "unknown declaration " ++ qualifiedName
  | other text => text

def message (e : Error) : String :=
  match e with
  | internal _ => "internal invariant violated: " ++ e.cause
  | diagnostic _ => e.cause
  | unknownDeclaration _ | other _ => "Generic error: " ++ e.cause

instance : ToString Error := ⟨message⟩

end Error

end NullabilityCasts
