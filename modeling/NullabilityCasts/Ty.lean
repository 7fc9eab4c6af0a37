/-!
# Types and declarations

Static types of a nominal language with generics, where every reference type records whether it
admits null. Bounds of type variables are not part of a type: they are kept by the class table under
the variable's id, so a bound may mention its own variable.
-/

set_option autoImplicit false

namespace NullabilityCasts

inductive Primitive where
  | boolean | byte | short | char | int | long | float | double | void
  deriving DecidableEq, Repr

def Primitive.all : List Primitive :=
  [.boolean, .byte, .short, .char, .int, .long, .float, .double, .void]

def Primitive.text : Primitive → String
  | .boolean => "boolean"
  | .byte => "byte"
  | .short => "short"
  | .char => "char"
  | .int => "int"
  | .long => "long"
  | .float => "float"
  | .double => "double"
  | .void => "void"

inductive VarKind where
  | parameter
  | wildcard
  /-- A variable that stands for one use of a wildcard at a call site. -/
  | capture
  deriving DecidableEq, Repr

/-- A use of a type variable. Variables are identified by `id`; `nullable` belongs to the use. -/
structure TyVar where
  id : UInt32
  name : String
  kind : VarKind
  nullable : Bool
  deriving DecidableEq, Repr

/-- Wildcards and captures are open: they stand for an unknown type between two bounds. -/
def TyVar.isOpen (v : TyVar) : Bool :=
  match v.kind with
  | .parameter => false
  | .wildcard | .capture => true

/-- A class, interface or enum, identified by `id` alone. -/
structure Decl where
  id : UInt32
  qualifiedName : String
  anonymous : Bool
  params : List TyVar
  deriving DecidableEq, Repr

namespace Decl

def isGeneric (d : Decl) : Bool := !d.params.isEmpty

def arity (d : Decl) : Nat := d.params.length

def simpleName (d : Decl) : String :=
  String.ofList (d.qualifiedName.toList.reverse.takeWhile fun c => c != '.' && c != '$').reverse

end Decl

inductive Ty where
  | prim (p : Primitive)
  /-- A use of a declaration; no arguments for a generic declaration make the raw type. -/
  | declared (decl : Decl) (nullable : Bool) (args : List Ty)
  | array (component : Ty) (nullable : Bool)
  | var (v : TyVar)
  | union (members : List Ty)
  | inter (members : List Ty)
  deriving Repr

namespace Ty

def boolean : Ty := .prim .boolean

def void : Ty := .prim .void

def of (d : Decl) (args : List Ty) : Ty := .declared d false args

def isOpen : Ty → Bool
  | .var v => v.isOpen
  | _ => false

def isArray : Ty → Bool
  | .array _ _ => true
  | _ => false

def isRaw : Ty → Bool
  | .declared d _ args => args.isEmpty && d.isGeneric
  | _ => false

/-- The positions that are compared between two types: the arguments of a declared type and the
component of an array. -/
def arguments : Ty → List Ty
  | .declared _ _ args => args
  | .array component _ => [component]
  | _ => []

mutual

/-- A union admits null if one member does, an intersection only if all do. -/
def isNullable : Ty → Bool
  | .prim _ => false
  | .declared _ nullable _ => nullable
  | .array _ nullable => nullable
  | .var v => v.nullable
  | .union members => anyNullable members
  | .inter members => allNullable members

def anyNullable : List Ty → Bool
  | [] => false
  | t :: rest => t.isNullable || anyNullable rest

def allNullable : List Ty → Bool
  | [] => true
  | t :: rest => t.isNullable && allNullable rest

end

theorem anyNullable_eq (ts : List Ty) : anyNullable ts = ts.any isNullable := by
  induction ts with
  | nil => simp [anyNullable]
  | cons t rest ih => simp [anyNullable, ih]

theorem allNullable_eq (ts : List Ty) : allNullable ts = ts.all isNullable := by
  induction ts with
  | nil => simp [allNullable]
  | cons t rest ih => simp [allNullable, ih]

mutual

/-- Sets the outermost nullability. A primitive has none; a union or intersection passes the flag on
to its members. -/
def withNullability (nullable : Bool) : Ty → Ty
  | .prim p => .prim p
  | .declared d _ args => .declared d nullable args
  | .array component _ => .array component nullable
  | .var v => .var { v with nullable := nullable }
  | .union members => .union (withNullabilities nullable members)
  | .inter members => .inter (withNullabilities nullable members)

def withNullabilities (nullable : Bool) : List Ty → List Ty
  | [] => []
  | t :: rest => t.withNullability nullable :: withNullabilities nullable rest

end

theorem withNullabilities_eq (nullable : Bool) (ts : List Ty) :
    withNullabilities nullable ts = ts.map (withNullability nullable) := by
  induction ts with
  | nil => simp [withNullabilities]
  | cons t rest ih => simp [withNullabilities, ih]

def toNullable (t : Ty) : Ty := t.withNullability true

def toNonNullable (t : Ty) : Ty := t.withNullability false

mutual

/-- Sameness of types as the language sees it: declarations are compared by id, and variables by all
that their use shows. -/
def same : Ty → Ty → Bool
  | .prim p, .prim q => p == q
  | .declared d n args, .declared d' n' args' => d.id == d'.id && n == n' && sameAll args args'
  | .array c n, .array c' n' => same c c' && n == n'
  | .var v, .var v' => v == v'
  | .union ts, .union ts' => sameAll ts ts'
  | .inter ts, .inter ts' => sameAll ts ts'
  | _, _ => false

def sameAll : List Ty → List Ty → Bool
  | [], [] => true
  | t :: ts, t' :: ts' => same t t' && sameAll ts ts'
  | _, _ => false

end

instance : BEq Ty := ⟨same⟩

end Ty

end NullabilityCasts
