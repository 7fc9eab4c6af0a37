import NullabilityCasts.Error
import NullabilityCasts.Expr.Text

/-!
# Log events
-/

set_option autoImplicit false

namespace NullabilityCasts

inductive LogLevel where
  | trace
  | debug
  | warn
  /-- The start of a stretch of work, not a message. -/
  | span
  deriving DecidableEq, Repr

def LogLevel.text : LogLevel → String
  | .trace => "TRACE"
  | .debug => "DEBUG"
  | .warn => "WARN"
  | .span => "SPAN"

inductive Event where
  | normalizing (units : Nat)
  | passStarted (pass path : String)
  | passFailed (pass path : String) (error : Error)
  | castInserted (span : Span) (source target : Ty) (e : Expr)
  | castsCounted (pass : String) (count : Nat) (path : String)
  /-- The arguments of two types were not compared. -/
  | arityIgnored (gap : ArityGap)

namespace Event

def level : Event → LogLevel
  | normalizing _ => .span
  | passStarted _ _ | castsCounted _ _ _ => .debug
  | passFailed _ _ _ | arityIgnored _ => .warn
  | castInserted _ _ _ _ => .trace

def message : Event → String
  | normalizing units => "normalize\x7bunits=" ++ toString units ++ "\x7d"
  | passStarted pass path => "running " ++ pass ++ " on " ++ path
  | passFailed pass path error => pass ++ " failed on " ++ path ++ ": " ++ error.message
  | castInserted span source target e =>
    "cast at " ++ span.text ++ ": " ++ source.text ++ " -> (" ++ target.text ++ ") " ++ e.text
  | castsCounted pass count path => pass ++ ": inserted " ++ toString count ++ " casts in " ++ path
  | arityIgnored gap =>
    "ignoring type arguments of " ++ gap.source.text ++ " and " ++ gap.target.text ++ ": arity "
      ++ toString gap.sourceArity ++ " vs " ++ toString gap.targetArity

end Event

end NullabilityCasts
