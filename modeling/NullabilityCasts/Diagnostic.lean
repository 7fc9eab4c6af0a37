import NullabilityCasts.Span

/-!
# Diagnostics

What a run reports to its user, and the summary of one diagnostic on a single line.
-/

set_option autoImplicit false

namespace NullabilityCasts

inductive Severity where
  | info
  | warning
  | error
  deriving DecidableEq, Repr

structure Diagnostic where
  severity : Severity
  message : String
  span : Option Span := none
  suggestions : List String := []
  /-- Where the diagnostic comes from, when it says so itself. -/
  context : Option String := none
  code : Option String := none
  deriving DecidableEq, Repr

namespace Diagnostic

def text (d : Diagnostic) : String :=
  d.message
    ++ (match d.code with
      | some code => " [" ++ code ++ "]"
      | none => "")
    ++ (if d.suggestions.isEmpty then "" else " (hints: " ++ "; ".intercalate d.suggestions ++ ")")

instance : ToString Diagnostic := ⟨text⟩

def isError (d : Diagnostic) : Bool := d.severity == .error

def anyError (ds : List Diagnostic) : Bool := ds.any isError

def inContext (d : Diagnostic) (context : String) : Diagnostic := { d with context := some context }

end Diagnostic

end NullabilityCasts
