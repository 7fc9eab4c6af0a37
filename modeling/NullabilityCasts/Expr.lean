import NullabilityCasts.Double
import NullabilityCasts.Span
import NullabilityCasts.Ty

/-!
# Expressions

Every expression carries its position and its static type. Types are given, never computed: the
constructors below only fix the type that a fresh node has.
-/

set_option autoImplicit false

namespace NullabilityCasts

inductive Literal where
  | null
  | bool (value : Bool)
  | int (value : Int64)
  | double (value : Double)
  | char (value : Char)
  | str (value : String)
  deriving DecidableEq, Repr

inductive BinaryOp where
  | add | sub | mul | div | rem | eq | ne | lt | le | gt | ge | and | or
  deriving DecidableEq, Repr

def BinaryOp.all : List BinaryOp :=
  [.add, .sub, .mul, .div, .rem, .eq, .ne, .lt, .le, .gt, .ge, .and, .or]

def BinaryOp.symbol : BinaryOp → String
  | .add => "+"
  | .sub => "-"
  | .mul => "*"
  | .div => "/"
  | .rem => "%"
  | .eq => "=="
  | .ne => "!="
  | .lt => "<"
  | .le => "<="
  | .gt => ">"
  | .ge => ">="
  | .and => "&&"
  | .or => "||"

inductive UnaryOp where
  | not
  | neg
  deriving DecidableEq, Repr

def UnaryOp.symbol : UnaryOp → String
  | .not => "!"
  | .neg => "-"

structure FieldSig where
  name : Ident
  ty : Ty
  isStatic : Bool
  deriving Repr

structure MethodSig where
  name : Ident
  params : List Ty
  result : Ty
  /-- The last parameter is an array that takes all remaining arguments. -/
  isVariadic : Bool
  isConstructor : Bool
  isStatic : Bool
  deriving Repr

def MethodSig.constructor (params : List Ty) : MethodSig :=
  ⟨⟨"<init>"⟩, params, Ty.void, false, true, false⟩

structure Info where
  span : Span
  ty : Ty
  deriving Repr

inductive Expr where
  | literal (info : Info) (value : Literal)
  | localVar (info : Info) (name : Ident)
  | this (info : Info)
  /-- Static fields and fields of the enclosing object have no qualifier. -/
  | field (info : Info) (qualifier : Option Expr) (field : FieldSig)
  | call (info : Info) (qualifier : Option Expr) (method : MethodSig) (args : List Expr)
  | new (info : Info) (constructor : MethodSig) (args : List Expr)
  | assign (info : Info) (target value : Expr)
  | cast (info : Info) (operand : Expr) (target : Ty)
  | binary (info : Info) (op : BinaryOp) (left right : Expr)
  | unary (info : Info) (op : UnaryOp) (operand : Expr)
  | conditional (info : Info) (condition whenTrue whenFalse : Expr)
  | arrayLit (info : Info) (elements : List Expr)
  | index (info : Info) (array index : Expr)
  deriving Repr

namespace Expr

def info : Expr → Info
  | literal info _ | localVar info _ | this info | field info _ _ | call info _ _ _
  | new info _ _ | assign info _ _ | cast info _ _ | binary info _ _ _ | unary info _ _
  | conditional info _ _ _ | arrayLit info _ | index info _ _ => info

def ty (e : Expr) : Ty := e.info.ty

def span (e : Expr) : Span := e.info.span

def withInfo (info : Info) : Expr → Expr
  | literal _ value => literal info value
  | localVar _ name => localVar info name
  | this _ => this info
  | field _ qualifier f => field info qualifier f
  | call _ qualifier method args => call info qualifier method args
  | new _ method args => new info method args
  | assign _ target value => assign info target value
  | cast _ operand target => cast info operand target
  | binary _ op left right => binary info op left right
  | unary _ op operand => unary info op operand
  | conditional _ condition whenTrue whenFalse => conditional info condition whenTrue whenFalse
  | arrayLit _ elements => arrayLit info elements
  | index _ array position => index info array position

def withSpan (e : Expr) (span : Span) : Expr := e.withInfo ⟨span, e.ty⟩

def withTy (e : Expr) (ty : Ty) : Expr := e.withInfo ⟨e.span, ty⟩

/-- The information of a node without a place in the source. -/
def fresh (ty : Ty) : Info := ⟨.null, ty⟩

def ofLiteral (value : Literal) (ty : Ty) : Expr := literal (fresh ty) value

def ofNull (ty : Ty) : Expr := ofLiteral .null ty.toNullable

def ofBool (value : Bool) : Expr := ofLiteral (.bool value) Ty.boolean

def ofInt (value : Int64) : Expr := ofLiteral (.int value) (.prim .int)

/-- What a slot holds when its policy failed. -/
def placeholder : Expr := ofLiteral .null Ty.void

def access (qualifier : Option Expr) (f : FieldSig) : Expr := field (fresh f.ty) qualifier f

def invoke (qualifier : Option Expr) (method : MethodSig) (args : List Expr) : Expr :=
  call (fresh method.result) qualifier method args

def assignTo (target value : Expr) : Expr := assign (fresh target.ty) target value

def castTo (e : Expr) (target : Ty) : Expr := cast ⟨e.span, target⟩ e target

def apply (op : UnaryOp) (operand : Expr) : Expr := unary (fresh operand.ty) op operand

def castTarget? : Expr → Option Ty
  | cast _ _ target => some target
  | _ => none

def isThis : Expr → Bool
  | this _ => true
  | _ => false

end Expr

end NullabilityCasts
