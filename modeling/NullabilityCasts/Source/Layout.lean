import NullabilityCasts.Expr.Text
import NullabilityCasts.SourceUnit

/-!
# Source layout

Statements, members and units are laid out as lines, each with its nesting depth; the lines are then
indented and joined. A body is opened by its header line and closed by a line of its own.
-/

set_option autoImplicit false

namespace NullabilityCasts

structure LayoutOptions where
  indent : Nat := 4
  /-- Add the static type to expression statements, initializers of locals and returned values. -/
  showTypes : Bool := false

structure Line where
  depth : Nat
  text : String
  deriving DecidableEq, Repr

namespace Line

def deeper (line : Line) : Line := { line with depth := line.depth + 1 }

def render (indent : Nat) (line : Line) : String :=
  String.ofList (List.replicate (line.depth * indent) ' ') ++ line.text ++ "\n"

end Line

def renderLines (options : LayoutOptions) (lines : List Line) : String :=
  String.join (lines.map (Line.render options.indent))

def line (text : String) : List Line := [⟨0, text⟩]

/-- The comment that shows the type of an expression at the end of its line. -/
def typeNote (showTypes : Bool) (e : Expr) : String :=
  if showTypes then " // : " ++ e.ty.text else ""

namespace Stmt

mutual

def layout (showTypes : Bool) : Stmt → List Line
  | declare _ name ty (some init) =>
    line (ty.text ++ " " ++ name.name ++ " = " ++ init.text ++ ";" ++ typeNote showTypes init)
  | declare _ name ty none => line (ty.text ++ " " ++ name.name ++ ";")
  | expr e => line (e.text ++ ";" ++ typeNote showTypes e)
  | ret _ (some value) => line ("return " ++ value.text ++ ";" ++ typeNote showTypes value)
  | ret _ none => line "return;"
  | ifThen condition body =>
    line ("if (" ++ condition.text ++ ") \x7b") ++ layoutBody showTypes body ++ line "\x7d"
  | ifThenElse condition body otherwise =>
    line ("if (" ++ condition.text ++ ") \x7b") ++ layoutBody showTypes body
      ++ line "\x7d else \x7b" ++ layoutBody showTypes otherwise ++ line "\x7d"
  | .while condition body =>
    line ("while (" ++ condition.text ++ ") \x7b") ++ layoutBody showTypes body ++ line "\x7d"
  | block body => line "\x7b" ++ layoutBody showTypes body ++ line "\x7d"
  | throw e => line ("throw " ++ e.text ++ ";")

/-- The lines of the statements of a body, one level deeper than its header. -/
def layoutBody (showTypes : Bool) : List Stmt → List Line
  | [] => []
  | s :: rest => (s.layout showTypes).map Line.deeper ++ layoutBody showTypes rest

end

end Stmt

def FieldSig.header (f : FieldSig) : String :=
  (if f.isStatic then "static " else "") ++ f.ty.text ++ " " ++ f.name.name

/-- A method header names as many parameters as have both a type and a name. -/
def MethodSig.header (m : MethodSig) (names : List Ident) : String :=
  let params := (m.params.zip names).map fun (ty, name) => ty.text ++ " " ++ name.name
  (if m.isConstructor then "<init>" else m.result.text ++ " " ++ m.name.name)
    ++ "(" ++ ", ".intercalate params ++ ")"

def Decl.header (d : Decl) : String :=
  "class " ++ d.simpleName
    ++ (if d.params.isEmpty then "" else "<" ++ ", ".intercalate (d.params.map TyVar.name) ++ ">")

namespace Member

mutual

def layout (showTypes : Bool) : Member → List Line
  | field sig (some init) => line (sig.header ++ " = " ++ init.text ++ ";")
  | field sig none => line (sig.header ++ ";")
  | method sig params (some body) =>
    line (sig.header params ++ " \x7b") ++ Stmt.layoutBody showTypes body ++ line "\x7d"
  | method sig params none => line (sig.header params ++ ";")
  | initializer body => line "\x7b" ++ Stmt.layoutBody showTypes body ++ line "\x7d"
  | nested decl members =>
    line (decl.header ++ " \x7b") ++ layoutMembers showTypes members ++ line "\x7d"

def layoutMembers (showTypes : Bool) : List Member → List Line
  | [] => []
  | m :: rest => (m.layout showTypes).map Line.deeper ++ layoutMembers showTypes rest

end

end Member

def ClassDef.layout (showTypes : Bool) (c : ClassDef) : List Line :=
  line (c.decl.header ++ " \x7b") ++ Member.layoutMembers showTypes c.members ++ line "\x7d"

def SourceUnit.layout (showTypes : Bool) (u : SourceUnit) : List Line :=
  line ("// " ++ u.path) ++ u.classes.flatMap (ClassDef.layout showTypes)

def Stmt.source (options : LayoutOptions) (s : Stmt) : String :=
  renderLines options (s.layout options.showTypes)

def Member.source (options : LayoutOptions) (m : Member) : String :=
  renderLines options (m.layout options.showTypes)

def ClassDef.source (options : LayoutOptions) (c : ClassDef) : String :=
  renderLines options (c.layout options.showTypes)

def SourceUnit.source (options : LayoutOptions) (u : SourceUnit) : String :=
  renderLines options (u.layout options.showTypes)

end NullabilityCasts
