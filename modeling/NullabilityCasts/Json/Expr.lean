import NullabilityCasts.Expr
import NullabilityCasts.Json.Span
import NullabilityCasts.Json.Ty

/-!
# Expressions as JSON
-/

set_option autoImplicit false

namespace NullabilityCasts

namespace BinaryOp

def tag : BinaryOp → String
  | .add => "Add"
  | .sub => "Sub"
  | .mul => "Mul"
  | .div => "Div"
  | .rem => "Rem"
  | .eq => "Eq"
  | .ne => "Ne"
  | .lt => "Lt"
  | .le => "Le"
  | .gt => "Gt"
  | .ge => "Ge"
  | .and => "And"
  | .or => "Or"

def toJson (op : BinaryOp) : Json := .str op.tag

def ofJson? : Json → Option BinaryOp := Json.choice? all tag

end BinaryOp

namespace UnaryOp

def tag : UnaryOp → String
  | .not => "Not"
  | .neg => "Neg"

def toJson (op : UnaryOp) : Json := .str op.tag

def ofJson? : Json → Option UnaryOp := Json.choice? [.not, .neg] tag

end UnaryOp

namespace Literal

def toJson : Literal → Json
  | null => .str "Null"
  | bool value => .variant "Boolean" (.bool value)
  | int value => .variant "Int" (.int64 value)
  | double value => .variant "Double" (.ofDouble value)
  | char value => .variant "Char" (.char value)
  | str value => .variant "String" (.str value)

def ofJson? (j : Json) : Option Literal := do
  match ← j.variant? with
  | ("Null", none) | ("Null", some .null) => some null
  | ("Boolean", some body) => bool <$> body.bool?
  | ("Int", some body) => int <$> body.int64?
  | ("Double", some body) => double <$> body.double?
  | ("Char", some body) => char <$> body.char?
  | ("String", some body) => str <$> body.str?
  | _ => none

end Literal

namespace FieldSig

def toJson (f : FieldSig) : Json :=
  .obj [("name", f.name.toJson), ("ty", f.ty.toJson), ("is_static", .bool f.isStatic)]

def ofJson? (j : Json) : Option FieldSig := do
  let [name, ty, isStatic] ← j.fields? ["name", "ty", "is_static"] | none
  return ⟨← name.bind Ident.ofJson?, ← ty.bind Ty.ofJson?, ← isStatic.bind Json.bool?⟩

end FieldSig

namespace MethodSig

def toJson (m : MethodSig) : Json :=
  .obj [("name", m.name.toJson), ("parameter_types", .list Ty.toJson m.params),
    ("return_type", m.result.toJson), ("varargs", .bool m.isVariadic),
    ("is_constructor", .bool m.isConstructor), ("is_static", .bool m.isStatic)]

def ofJson? (j : Json) : Option MethodSig := do
  let [name, params, result, isVariadic, isConstructor, isStatic] ← j.fields?
    ["name", "parameter_types", "return_type", "varargs", "is_constructor", "is_static"] | none
  return ⟨← name.bind Ident.ofJson?, ← params.bind (Json.list? Ty.ofJson?),
    ← result.bind Ty.ofJson?, ← isVariadic.bind Json.bool?, ← isConstructor.bind Json.bool?,
    ← isStatic.bind Json.bool?⟩

end MethodSig

namespace Expr

/-- An expression is a record of its position, its type and its form. -/
def record (i : Info) (form : Json) : Json :=
  .obj [("span", i.span.toJson), ("ty", i.ty.toJson), ("kind", form)]

mutual

def toJson : Expr → Json
  | literal i value => record i (.variant "Literal" value.toJson)
  | localVar i name => record i (.variant "Local" name.toJson)
  | this i => record i (.str "This")
  | field i qualifier f =>
    record i (.variant "FieldAccess" (.obj [("qualifier", qualifierJson qualifier),
      ("field", f.toJson)]))
  | call i qualifier m args =>
    record i (.variant "Invoke" (.obj [("qualifier", qualifierJson qualifier),
      ("method", m.toJson), ("args", .arr (toJsons args))]))
  | new i m args =>
    record i (.variant "New" (.obj [("constructor", m.toJson), ("args", .arr (toJsons args))]))
  | assign i target value =>
    record i (.variant "Assign" (.obj [("target", target.toJson), ("value", value.toJson)]))
  | cast i operand target =>
    record i (.variant "Cast" (.obj [("expr", operand.toJson), ("ty", target.toJson)]))
  | binary i op left right =>
    record i (.variant "BinOp" (.obj [("kind", op.toJson), ("lhs", left.toJson),
      ("rhs", right.toJson)]))
  | unary i op operand =>
    record i (.variant "UnOp" (.obj [("op", op.toJson), ("val", operand.toJson)]))
  | conditional i condition whenTrue whenFalse =>
    record i (.variant "Conditional" (.obj [("cond", condition.toJson), ("then", whenTrue.toJson),
      ("elze", whenFalse.toJson)]))
  | arrayLit i elements =>
    record i (.variant "ArrayLiteral" (.obj [("elements", .arr (toJsons elements))]))
  | index i array position =>
    record i (.variant "Index" (.obj [("array", array.toJson), ("index", position.toJson)]))

def qualifierJson : Option Expr → Json
  | none => .null
  | some qualifier => qualifier.toJson

def toJsons : List Expr → List Json
  | [] => []
  | e :: rest => e.toJson :: toJsons rest

end

def readForm (read : Json → Option Expr) (i : Info) (form : Json) : Option Expr := do
  match ← form.variant? with
  | ("This", none) | ("This", some .null) => some (this i)
  | ("Literal", some body) => literal i <$> Literal.ofJson? body
  | ("Local", some body) => localVar i <$> Ident.ofJson? body
  | ("FieldAccess", some body) =>
    let [qualifier, f] ← body.fields? ["qualifier", "field"] | none
    return field i (← Json.optional? read qualifier) (← f.bind FieldSig.ofJson?)
  | ("Invoke", some body) =>
    let [qualifier, m, args] ← body.fields? ["qualifier", "method", "args"] | none
    return call i (← Json.optional? read qualifier) (← m.bind MethodSig.ofJson?)
      (← args.bind (Json.list? read))
  | ("New", some body) =>
    let [m, args] ← body.fields? ["constructor", "args"] | none
    return new i (← m.bind MethodSig.ofJson?) (← args.bind (Json.list? read))
  | ("Assign", some body) =>
    let [target, value] ← body.fields? ["target", "value"] | none
    return assign i (← target.bind read) (← value.bind read)
  | ("Cast", some body) =>
    let [operand, target] ← body.fields? ["expr", "ty"] | none
    return cast i (← operand.bind read) (← target.bind Ty.ofJson?)
  | ("BinOp", some body) =>
    let [op, left, right] ← body.fields? ["kind", "lhs", "rhs"] | none
    return binary i (← op.bind BinaryOp.ofJson?) (← left.bind read) (← right.bind read)
  | ("UnOp", some body) =>
    let [op, operand] ← body.fields? ["op", "val"] | none
    return unary i (← op.bind UnaryOp.ofJson?) (← operand.bind read)
  | ("Conditional", some body) =>
    let [condition, whenTrue, whenFalse] ← body.fields? ["cond", "then", "elze"] | none
    return conditional i (← condition.bind read) (← whenTrue.bind read) (← whenFalse.bind read)
  | ("ArrayLiteral", some body) =>
    let [elements] ← body.fields? ["elements"] | none
    return arrayLit i (← elements.bind (Json.list? read))
  | ("Index", some body) =>
    let [array, position] ← body.fields? ["array", "index"] | none
    return index i (← array.bind read) (← position.bind read)
  | _ => none

def read : (depth : Nat) → Json → Option Expr
  | 0, _ => none
  | depth + 1, j => do
    let [span, ty, form] ← j.fields? ["span", "ty", "kind"] | none
    let i : Info := ⟨← Span.ofField? span, ← ty.bind Ty.ofJson?⟩
    readForm (read depth) i (← form)

def ofJson? (j : Json) : Option Expr := read (j.depth + 1) j

end Expr

end NullabilityCasts
