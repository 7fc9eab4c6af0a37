import NullabilityCasts.Diagnostic

/-!
# Rendering of diagnostics

Two layouts, a header line followed by one line for the position and one for each suggestion.
Informative diagnostics appear only in verbose output.
-/

set_option autoImplicit false

namespace NullabilityCasts

inductive Template where
  | pretty
  | plain
  deriving DecidableEq, Repr

structure DisplayOptions where
  template : Template := .pretty
  verbose : Bool := false
  deriving DecidableEq, Repr

namespace Template

def label : Template → Severity → String
  | .pretty, .error => "error"
  | .pretty, .warning => "warning"
  | .pretty, .info => "info"
  | .plain, .error => "ERROR"
  | .plain, .warning => "WARNING"
  | .plain, .info => "INFO"

def header (template : Template) (context : String) (d : Diagnostic) : String :=
  let label := template.label d.severity
  match template, d.code with
  | .pretty, some code => label ++ "[" ++ code ++ "]: [" ++ context ++ "] " ++ d.message
  | .pretty, none => label ++ ": [" ++ context ++ "] " ++ d.message
  | .plain, some code => "[" ++ context ++ "] " ++ label ++ ": " ++ d.message ++ " (" ++ code ++ ")"
  | .plain, none => "[" ++ context ++ "] " ++ label ++ ": " ++ d.message

def position : Template → Span → String
  | .pretty, span => "   --> " ++ span.text
  | .plain, span => "   at " ++ span.text

def suggestion : Template → String → String
  | .pretty, text => "   = help: " ++ text
  | .plain, text => "   suggestion: " ++ text

end Template

namespace Diagnostic

def isShown (d : Diagnostic) (verbose : Bool) : Bool := verbose || d.severity != .info

/-- The context named by the diagnostic itself comes before the one of its surroundings. -/
def contextOr (d : Diagnostic) (surroundings : Option String) : String :=
  (d.context <|> surroundings).getD "pipeline"

def render (options : DisplayOptions) (surroundings : Option String) (d : Diagnostic) :
    List String :=
  if d.isShown options.verbose then
    options.template.header (d.contextOr surroundings) d
      :: (d.span.toList.map options.template.position
        ++ d.suggestions.map options.template.suggestion)
  else []

/-- The lines of a text. Only a line feed ends a line; a carriage return is part of it. -/
def brokenLines (text : String) : List String := text.splitOn "\n"

/-- What is shown for a list of diagnostics, line by line; a text that contains line breaks takes
several lines. -/
def emit (options : DisplayOptions) (surroundings : Option String) (ds : List Diagnostic) :
    List String :=
  ds.flatMap fun d => (d.render options surroundings).flatMap brokenLines

end Diagnostic

end NullabilityCasts
