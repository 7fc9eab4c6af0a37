import NullabilityCasts.Json.Expr
import NullabilityCasts.SourceUnit

/-!
# Statements and classes as JSON
-/

set_option autoImplicit false

namespace NullabilityCasts

namespace Stmt

mutual

def toJson : Stmt → Json
  | declare span name ty init =>
    .variant "Local" (.obj [("span", span.toJson), ("name", name.toJson), ("ty", ty.toJson),
      ("init", .option Expr.toJson init)])
  | expr e => .variant "Expr" e.toJson
  | ret span value =>
    .variant "Return" (.obj [("span", span.toJson), ("value", .option Expr.toJson value)])
  | ifThen condition body =>
    .variant "If" (.obj [("cond", condition.toJson), ("then", blockJson body), ("elze", .null)])
  | ifThenElse condition body otherwise =>
    .variant "If" (.obj [("cond", condition.toJson), ("then", blockJson body),
      ("elze", blockJson otherwise)])
  | .while condition body =>
    .variant "While" (.obj [("cond", condition.toJson), ("body", blockJson body)])
  | block body => .variant "Block" (blockJson body)
  | throw e => .variant "Throw" e.toJson

def blockJson (body : List Stmt) : Json := .obj [("stmts", .arr (toJsons body))]

def toJsons : List Stmt → List Json
  | [] => []
  | s :: rest => s.toJson :: toJsons rest

end

def readBlock (read : Json → Option Stmt) (j : Json) : Option (List Stmt) := do
  let [body] ← j.fields? ["stmts"] | none
  body.bind (Json.list? read)

def read : (depth : Nat) → Json → Option Stmt
  | 0, _ => none
  | depth + 1, j => do
    let (tag, some body) ← j.variant? | none
    match tag with
    | "Local" =>
      let [span, name, ty, init] ← body.fields? ["span", "name", "ty", "init"] | none
      return declare (← Span.ofField? span) (← name.bind Ident.ofJson?) (← ty.bind Ty.ofJson?)
        (← Json.optional? Expr.ofJson? init)
    | "Expr" => expr <$> Expr.ofJson? body
    | "Return" =>
      let [span, value] ← body.fields? ["span", "value"] | none
      return ret (← Span.ofField? span) (← Json.optional? Expr.ofJson? value)
    | "If" =>
      let [condition, thenBody, elseBody] ← body.fields? ["cond", "then", "elze"] | none
      let condition ← condition.bind Expr.ofJson?
      let thenBody ← thenBody.bind (readBlock (read depth))
      match ← Json.optional? (readBlock (read depth)) elseBody with
      | none => return ifThen condition thenBody
      | some elseBody => return ifThenElse condition thenBody elseBody
    | "While" =>
      let [condition, loopBody] ← body.fields? ["cond", "body"] | none
      return .while (← condition.bind Expr.ofJson?) (← loopBody.bind (readBlock (read depth)))
    | "Block" => block <$> readBlock (read depth) body
    | "Throw" => throw <$> Expr.ofJson? body
    | _ => none

def ofJson? (j : Json) : Option Stmt := read (j.depth + 1) j

end Stmt

namespace Member

def classJson (decl : Decl) (members : List Json) : Json :=
  .obj [("declaration", decl.toJson), ("members", .arr members)]

mutual

def toJson : Member → Json
  | field sig init =>
    .variant "Field" (.obj [("descriptor", sig.toJson), ("initializer", .option Expr.toJson init)])
  | method sig params body =>
    .variant "Method" (.obj [("descriptor", sig.toJson), ("parameters", .list Ident.toJson params),
      ("body", .option Stmt.blockJson body)])
  | initializer body => .variant "Initializer" (Stmt.blockJson body)
  | nested decl members => .variant "Class" (classJson decl (toJsons members))

def toJsons : List Member → List Json
  | [] => []
  | m :: rest => m.toJson :: toJsons rest

end

def bodyOfJson? (j : Json) : Option (List Stmt) := Stmt.readBlock Stmt.ofJson? j

def read : (depth : Nat) → Json → Option Member
  | 0, _ => none
  | depth + 1, j => do
    let (tag, some body) ← j.variant? | none
    match tag with
    | "Field" =>
      let [sig, init] ← body.fields? ["descriptor", "initializer"] | none
      return field (← sig.bind FieldSig.ofJson?) (← Json.optional? Expr.ofJson? init)
    | "Method" =>
      let [sig, params, methodBody] ← body.fields? ["descriptor", "parameters", "body"] | none
      return method (← sig.bind MethodSig.ofJson?) (← params.bind (Json.list? Ident.ofJson?))
        (← Json.optional? bodyOfJson? methodBody)
    | "Initializer" => initializer <$> bodyOfJson? body
    | "Class" =>
      let [decl, members] ← body.fields? ["declaration", "members"] | none
      return nested (← decl.bind Decl.ofJson?) (← members.bind (Json.list? (read depth)))
    | _ => none

def ofJson? (j : Json) : Option Member := read (j.depth + 1) j

end Member

namespace ClassDef

def toJson (c : ClassDef) : Json := Member.classJson c.decl (Member.toJsons c.members)

def ofJson? (j : Json) : Option ClassDef := do
  let [decl, members] ← j.fields? ["declaration", "members"] | none
  return ⟨← decl.bind Decl.ofJson?, ← members.bind (Json.list? Member.ofJson?)⟩

end ClassDef

end NullabilityCasts
