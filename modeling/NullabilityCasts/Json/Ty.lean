import NullabilityCasts.ClassTable
import NullabilityCasts.Json
import NullabilityCasts.Ty

/-!
# Types as JSON

A declaration is written out in full wherever a type uses it.
-/

set_option autoImplicit false

namespace NullabilityCasts

namespace Primitive

def tag : Primitive → String
  | .boolean => "Boolean"
  | .byte => "Byte"
  | .short => "Short"
  | .char => "Char"
  | .int => "Int"
  | .long => "Long"
  | .float => "Float"
  | .double => "Double"
  | .void => "Void"

def toJson (p : Primitive) : Json := .str p.tag

def ofJson? : Json → Option Primitive := Json.choice? all tag

end Primitive

namespace VarKind

def tag : VarKind → String
  | .parameter => "Parameter"
  | .wildcard => "Wildcard"
  | .capture => "Capture"

def toJson (k : VarKind) : Json := .str k.tag

def ofJson? : Json → Option VarKind := Json.choice? [.parameter, .wildcard, .capture] tag

end VarKind

namespace TyVar

def toJson (v : TyVar) : Json :=
  .obj [("id", .uint32 v.id), ("name", .str v.name), ("kind", v.kind.toJson),
    ("nullable", .bool v.nullable)]

def ofJson? (j : Json) : Option TyVar := do
  let [id, name, kind, nullable] ← j.fields? ["id", "name", "kind", "nullable"] | none
  return ⟨← id.bind Json.uint32?, ← name.bind Json.str?, ← kind.bind VarKind.ofJson?,
    ← nullable.bind Json.bool?⟩

end TyVar

namespace Decl

def toJson (d : Decl) : Json :=
  .obj [("id", .uint32 d.id), ("qualified_name", .str d.qualifiedName),
    ("anonymous", .bool d.anonymous), ("type_parameters", .list TyVar.toJson d.params)]

def ofJson? (j : Json) : Option Decl := do
  let [id, qualifiedName, anonymous, params] ←
    j.fields? ["id", "qualified_name", "anonymous", "type_parameters"] | none
  return ⟨← id.bind Json.uint32?, ← qualifiedName.bind Json.str?, ← anonymous.bind Json.bool?,
    ← params.bind (Json.list? TyVar.ofJson?)⟩

end Decl

namespace Ty

mutual

def toJson : Ty → Json
  | prim p => .variant "Primitive" p.toJson
  | declared d nullable args =>
    .variant "Declared" (.obj [("declaration", d.toJson), ("nullable", .bool nullable),
      ("type_arguments", .arr (toJsons args))])
  | array component nullable =>
    .variant "Array" (.obj [("component", component.toJson), ("nullable", .bool nullable)])
  | var v => .variant "TypeVariable" v.toJson
  | union members => .variant "Union" (.obj [("types", .arr (toJsons members))])
  | inter members => .variant "Intersection" (.obj [("types", .arr (toJsons members))])

def toJsons : List Ty → List Json
  | [] => []
  | t :: rest => t.toJson :: toJsons rest

end

theorem toJsons_eq (ts : List Ty) : toJsons ts = ts.map toJson := by
  induction ts with
  | nil => simp [toJsons]
  | cons t rest ih => simp [toJsons, ih]

def read : (depth : Nat) → Json → Option Ty
  | 0, _ => none
  | depth + 1, j => do
    let (tag, some body) ← j.variant? | none
    match tag with
    | "Primitive" => prim <$> Primitive.ofJson? body
    | "Declared" =>
      let [d, nullable, args] ← body.fields? ["declaration", "nullable", "type_arguments"] | none
      return declared (← d.bind Decl.ofJson?) (← nullable.bind Json.bool?)
        (← args.bind (Json.list? (read depth)))
    | "Array" =>
      let [component, nullable] ← body.fields? ["component", "nullable"] | none
      return array (← component.bind (read depth)) (← nullable.bind Json.bool?)
    | "TypeVariable" => var <$> TyVar.ofJson? body
    | "Union" =>
      let [members] ← body.fields? ["types"] | none
      return union (← members.bind (Json.list? (read depth)))
    | "Intersection" =>
      let [members] ← body.fields? ["types"] | none
      return inter (← members.bind (Json.list? (read depth)))
    | _ => none

def ofJson? (j : Json) : Option Ty := read (j.depth + 1) j

end Ty

namespace Bounds

def toJson (b : Bounds) : Json :=
  .obj [("upper", b.upper.toJson), ("lower", .option Ty.toJson b.lower)]

def ofJson? (j : Json) : Option Bounds := do
  let [upper, lower] ← j.fields? ["upper", "lower"] | none
  return ⟨← upper.bind Ty.ofJson?, ← Json.optional? Ty.ofJson? lower⟩

end Bounds

end NullabilityCasts
