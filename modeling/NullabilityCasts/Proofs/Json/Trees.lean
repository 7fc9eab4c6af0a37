import NullabilityCasts.Json.Source
import NullabilityCasts.Proofs.Json.Types

/-!
# Reading back trees

The doubles of a tree are those of its literals, in the order of writing. They decide whether the
tree is read back; all else in it always is.
-/

set_option autoImplicit false

namespace NullabilityCasts

open Json

theorem BinaryOp.ofJson?_toJson (op : BinaryOp) : ofJson? op.toJson = some op := by
  cases op <;> rfl

theorem UnaryOp.ofJson?_toJson (op : UnaryOp) : ofJson? op.toJson = some op := by
  cases op <;> rfl

namespace Literal

def doubles : Literal → List Double
  | double value => [value]
  | _ => []

theorem ofJson?_toJson (l : Literal) : ofJson? l.toJson = readBack l.doubles l := by
  cases l with
  | null => rfl
  | bool value => rfl
  | int value => simp [toJson, ofJson?, variant, variant?, int64?_int64, doubles, readBack_nil]
  | double value =>
    simp [toJson, ofJson?, variant, variant?, double?_ofDouble, doubles, map_readBack]
  | char value => simp [toJson, ofJson?, variant, variant?, char?_char, doubles, readBack_nil]
  | str value => rfl

end Literal

namespace Expr

mutual

def doubles : Expr → List Double
  | literal _ value => value.doubles
  | localVar _ _ | this _ => []
  | field _ qualifier _ => optionDoubles qualifier
  | call _ qualifier _ args => optionDoubles qualifier ++ listDoubles args
  | new _ _ args => listDoubles args
  | assign _ target value => doubles target ++ doubles value
  | cast _ operand _ => doubles operand
  | binary _ _ left right => doubles left ++ doubles right
  | unary _ _ operand => doubles operand
  | conditional _ condition whenTrue whenFalse =>
    doubles condition ++ (doubles whenTrue ++ doubles whenFalse)
  | arrayLit _ elements => listDoubles elements
  | index _ array position => doubles array ++ doubles position

def optionDoubles : Option Expr → List Double
  | none => []
  | some e => doubles e

def listDoubles : List Expr → List Double
  | [] => []
  | e :: rest => doubles e ++ listDoubles rest

end

theorem optionDoubles_eq (o : Option Expr) : optionDoubles o = o.toList.flatMap doubles := by
  cases o <;> simp [optionDoubles]

theorem listDoubles_eq (es : List Expr) : listDoubles es = es.flatMap doubles := by
  induction es with
  | nil => simp [listDoubles]
  | cons e rest ih => simp [listDoubles, ih]

theorem qualifierJson_eq (o : Option Expr) : qualifierJson o = option toJson o := by
  cases o <;> simp [qualifierJson, option]

theorem toJsons_eq (es : List Expr) : toJsons es = es.map toJson := by
  induction es with
  | nil => simp [toJsons]
  | cons e rest ih => simp [toJsons, ih]

theorem toJson_ne_null (e : Expr) : e.toJson ≠ .null := by
  cases e <;> simp [toJson, record]

section Form

variable {n : Nat} {read : Json → Option Expr}
  (reads : ∀ e : Expr, e.toJson.depth < n → read e.toJson = readBack e.doubles e)

include reads

theorem optional?_qualifierJson (o : Option Expr) (fits : (qualifierJson o).depth < n) :
    optional? read (some (qualifierJson o)) = readBack (optionDoubles o) o := by
  rw [qualifierJson_eq] at fits ⊢
  rw [optionDoubles_eq]
  refine optional?_option toJson_ne_null fun e present => reads e ?_
  obtain rfl : o = some e := present
  exact fits

theorem list?_toJsons (es : List Expr) (fits : depthAll (toJsons es) < n) :
    list? read (arr (toJsons es)) = readBack (listDoubles es) es := by
  rw [toJsons_eq] at fits ⊢
  rw [listDoubles_eq]
  exact list?_of_depth reads fits

end Form

section Forms

variable (read : Json → Option Expr) (i : Info)

theorem readForm_literal (value : Json) :
    readForm read i (variant "Literal" value) = (Literal.ofJson? value).map (literal i) := rfl

theorem readForm_localVar (name : Json) :
    readForm read i (variant "Local" name) = (Ident.ofJson? name).map (localVar i) := rfl

theorem readForm_field (qualifier f : Json) :
    readForm read i (variant "FieldAccess" (obj [("qualifier", qualifier), ("field", f)])) =
      (optional? read (some qualifier)).bind fun qualifier =>
        (FieldSig.ofJson? f).bind fun f => some (field i qualifier f) := rfl

theorem readForm_call (qualifier m args : Json) :
    readForm read i
      (variant "Invoke" (obj [("qualifier", qualifier), ("method", m), ("args", args)])) =
      (optional? read (some qualifier)).bind fun qualifier => (MethodSig.ofJson? m).bind fun m =>
        (list? read args).bind fun args => some (call i qualifier m args) := rfl

theorem readForm_new (m args : Json) :
    readForm read i (variant "New" (obj [("constructor", m), ("args", args)])) =
      (MethodSig.ofJson? m).bind fun m => (list? read args).bind fun args =>
        some (new i m args) := rfl

theorem readForm_assign (target value : Json) :
    readForm read i (variant "Assign" (obj [("target", target), ("value", value)])) =
      (read target).bind fun target => (read value).bind fun value =>
        some (assign i target value) := rfl

theorem readForm_cast (operand target : Json) :
    readForm read i (variant "Cast" (obj [("expr", operand), ("ty", target)])) =
      (read operand).bind fun operand => (Ty.ofJson? target).bind fun target =>
        some (cast i operand target) := rfl

theorem readForm_binary (op left right : Json) :
    readForm read i (variant "BinOp" (obj [("kind", op), ("lhs", left), ("rhs", right)])) =
      (BinaryOp.ofJson? op).bind fun op => (read left).bind fun left =>
        (read right).bind fun right => some (binary i op left right) := rfl

theorem readForm_unary (op operand : Json) :
    readForm read i (variant "UnOp" (obj [("op", op), ("val", operand)])) =
      (UnaryOp.ofJson? op).bind fun op => (read operand).bind fun operand =>
        some (unary i op operand) := rfl

theorem readForm_conditional (condition whenTrue whenFalse : Json) :
    readForm read i (variant "Conditional"
      (obj [("cond", condition), ("then", whenTrue), ("elze", whenFalse)])) =
      (read condition).bind fun condition => (read whenTrue).bind fun whenTrue =>
        (read whenFalse).bind fun whenFalse =>
          some (conditional i condition whenTrue whenFalse) := rfl

theorem readForm_arrayLit (elements : Json) :
    readForm read i (variant "ArrayLiteral" (obj [("elements", elements)])) =
      (list? read elements).bind fun elements => some (arrayLit i elements) := rfl

theorem readForm_index (array position : Json) :
    readForm read i (variant "Index" (obj [("array", array), ("index", position)])) =
      (read array).bind fun array => (read position).bind fun position =>
        some (index i array position) := rfl

end Forms

theorem read_record (n : Nat) (i : Info) (form : Json) :
    read (n + 1) (record i form) = readForm (read n) i form := by
  have found : (record i form).fields? ["span", "ty", "kind"]
      = some [some i.span.toJson, some i.ty.toJson, some form] := rfl
  rw [read, found]
  simp [Span.ofField?, Span.ofJson?_toJson, Ty.ofJson?_toJson]

/-- Each part of the form is less deep than the whole, so it is read with what is left. -/
theorem read_toJson (n : Nat) (e : Expr) (fits : e.toJson.depth < n) :
    read n e.toJson = readBack e.doubles e := by
  induction n generalizing e with
  | zero => omega
  | succ n ih =>
    cases e with
    | literal i value =>
      rw [toJson, read_record, readForm_literal, Literal.ofJson?_toJson, map_readBack, doubles]
    | localVar i name =>
      rw [toJson, read_record, readForm_localVar, Ident.ofJson?_toJson, doubles]
      rfl
    | this i =>
      rw [toJson, read_record, doubles]
      rfl
    | field i qualifier f =>
      simp only [toJson, record, variant, depth, depthEntries, depthEntry] at fits
      have qualifierRead := optional?_qualifierJson ih qualifier (by omega)
      rw [toJson, read_record, readForm_field, qualifierRead, FieldSig.ofJson?_toJson, doubles]
      simp only [Option.bind_some, bind_readBack_some]
    | call i qualifier m args =>
      simp only [toJson, record, variant, depth, depthEntries, depthEntry] at fits
      have qualifierRead := optional?_qualifierJson ih qualifier (by omega)
      have argsRead := list?_toJsons ih args (by omega)
      rw [toJson, read_record, readForm_call, qualifierRead, MethodSig.ofJson?_toJson, argsRead,
        doubles]
      simp only [Option.bind_some, bind_readBack_some, bind_readBack]
    | new i m args =>
      simp only [toJson, record, variant, depth, depthEntries, depthEntry] at fits
      have argsRead := list?_toJsons ih args (by omega)
      rw [toJson, read_record, readForm_new, MethodSig.ofJson?_toJson, argsRead, doubles]
      simp only [Option.bind_some, bind_readBack_some]
    | assign i target value =>
      simp only [toJson, record, variant, depth, depthEntries, depthEntry] at fits
      have targetRead := ih target (by omega)
      have valueRead := ih value (by omega)
      rw [toJson, read_record, readForm_assign, targetRead, valueRead, doubles]
      simp only [bind_readBack_some, bind_readBack]
    | cast i operand target =>
      simp only [toJson, record, variant, depth, depthEntries, depthEntry] at fits
      have operandRead := ih operand (by omega)
      rw [toJson, read_record, readForm_cast, operandRead, Ty.ofJson?_toJson, doubles]
      simp only [Option.bind_some, bind_readBack_some]
    | binary i op left right =>
      simp only [toJson, record, variant, depth, depthEntries, depthEntry] at fits
      have leftRead := ih left (by omega)
      have rightRead := ih right (by omega)
      rw [toJson, read_record, readForm_binary, BinaryOp.ofJson?_toJson, leftRead, rightRead,
        doubles]
      simp only [Option.bind_some, bind_readBack_some, bind_readBack]
    | unary i op operand =>
      simp only [toJson, record, variant, depth, depthEntries, depthEntry] at fits
      have operandRead := ih operand (by omega)
      rw [toJson, read_record, readForm_unary, UnaryOp.ofJson?_toJson, operandRead, doubles]
      simp only [Option.bind_some, bind_readBack_some]
    | conditional i condition whenTrue whenFalse =>
      simp only [toJson, record, variant, depth, depthEntries, depthEntry] at fits
      have conditionRead := ih condition (by omega)
      have trueRead := ih whenTrue (by omega)
      have falseRead := ih whenFalse (by omega)
      rw [toJson, read_record, readForm_conditional, conditionRead, trueRead, falseRead, doubles]
      simp only [bind_readBack_some, bind_readBack]
    | arrayLit i elements =>
      simp only [toJson, record, variant, depth, depthEntries, depthEntry] at fits
      have elementsRead := list?_toJsons ih elements (by omega)
      rw [toJson, read_record, readForm_arrayLit, elementsRead, bind_readBack_some, doubles]
    | index i array position =>
      simp only [toJson, record, variant, depth, depthEntries, depthEntry] at fits
      have arrayRead := ih array (by omega)
      have positionRead := ih position (by omega)
      rw [toJson, read_record, readForm_index, arrayRead, positionRead, doubles]
      simp only [bind_readBack_some, bind_readBack]

theorem ofJson?_toJson (e : Expr) : ofJson? e.toJson = readBack e.doubles e :=
  read_toJson _ e (Nat.lt_succ_self _)

theorem optional?_toJson (o : Option Expr) :
    optional? ofJson? (some (option toJson o)) = readBack (optionDoubles o) o := by
  rw [optionDoubles_eq]
  exact optional?_option toJson_ne_null fun e _ => ofJson?_toJson e

end Expr

namespace Stmt

mutual

def doubles : Stmt → List Double
  | declare _ _ _ init => Expr.optionDoubles init
  | expr e => e.doubles
  | ret _ value => Expr.optionDoubles value
  | ifThen condition body => condition.doubles ++ listDoubles body
  | ifThenElse condition body otherwise =>
    condition.doubles ++ (listDoubles body ++ listDoubles otherwise)
  | .while condition body => condition.doubles ++ listDoubles body
  | block body => listDoubles body
  | throw e => e.doubles

def listDoubles : List Stmt → List Double
  | [] => []
  | s :: rest => doubles s ++ listDoubles rest

end

theorem listDoubles_eq (body : List Stmt) : listDoubles body = body.flatMap doubles := by
  induction body with
  | nil => simp [listDoubles]
  | cons s rest ih => simp [listDoubles, ih]

theorem toJsons_eq (body : List Stmt) : toJsons body = body.map toJson := by
  induction body with
  | nil => simp [toJsons]
  | cons s rest ih => simp [toJsons, ih]

section Block

variable {n : Nat} {read : Json → Option Stmt}
  (reads : ∀ s : Stmt, s.toJson.depth < n → read s.toJson = readBack s.doubles s)

include reads

theorem readBlock_blockJson (body : List Stmt) (fits : (blockJson body).depth < n) :
    readBlock read (blockJson body) = readBack (listDoubles body) body := by
  simp only [blockJson, depth, depthEntries, depthEntry] at fits
  have bodyRead : list? read (arr (toJsons body)) = readBack (listDoubles body) body := by
    rw [toJsons_eq] at fits ⊢
    rw [listDoubles_eq]
    exact list?_of_depth reads (by omega)
  simp [readBlock, blockJson, fields?, bodyRead]

end Block

section Forms

variable (n : Nat)

theorem read_declare (span name ty init : Json) :
    read (n + 1) (variant "Local"
      (obj [("span", span), ("name", name), ("ty", ty), ("init", init)])) =
      (Span.ofJson? span).bind fun span => (Ident.ofJson? name).bind fun name =>
        (Ty.ofJson? ty).bind fun ty => (optional? Expr.ofJson? (some init)).bind fun init =>
          some (declare span name ty init) := rfl

theorem read_expr (e : Json) : read (n + 1) (variant "Expr" e) = (Expr.ofJson? e).map expr := rfl

theorem read_ret (span value : Json) :
    read (n + 1) (variant "Return" (obj [("span", span), ("value", value)])) =
      (Span.ofJson? span).bind fun span =>
        (optional? Expr.ofJson? (some value)).bind fun value => some (ret span value) := rfl

theorem read_ifThen (condition body : Json) :
    read (n + 1) (variant "If" (obj [("cond", condition), ("then", body), ("elze", .null)])) =
      (Expr.ofJson? condition).bind fun condition => (readBlock (read n) body).bind fun body =>
        some (ifThen condition body) := rfl

theorem read_ifThenElse (condition body : Json) (otherwise : List Stmt) :
    read (n + 1) (variant "If"
      (obj [("cond", condition), ("then", body), ("elze", blockJson otherwise)])) =
      (Expr.ofJson? condition).bind fun condition => (readBlock (read n) body).bind fun body =>
        (readBlock (read n) (blockJson otherwise)).bind fun otherwise =>
          some (ifThenElse condition body otherwise) := by
  have present : blockJson otherwise ≠ .null := by simp [blockJson]
  change ((Expr.ofJson? condition).bind fun condition =>
    (readBlock (read n) body).bind fun body =>
      (optional? (readBlock (read n)) (some (blockJson otherwise))).bind _) = _
  rw [optional?_some present]
  simp only [Option.bind_map]
  rfl

theorem read_while (condition body : Json) :
    read (n + 1) (variant "While" (obj [("cond", condition), ("body", body)])) =
      (Expr.ofJson? condition).bind fun condition => (readBlock (read n) body).bind fun body =>
        some (.while condition body) := rfl

theorem read_block (body : Json) :
    read (n + 1) (variant "Block" body) = (readBlock (read n) body).map block := rfl

theorem read_throw (e : Json) : read (n + 1) (variant "Throw" e) = (Expr.ofJson? e).map throw := rfl

end Forms

theorem read_toJson (n : Nat) (s : Stmt) (fits : s.toJson.depth < n) :
    read n s.toJson = readBack s.doubles s := by
  induction n generalizing s with
  | zero => omega
  | succ n ih =>
    cases s with
    | declare span name ty init =>
      rw [toJson, read_declare, Span.ofJson?_toJson, Ident.ofJson?_toJson, Ty.ofJson?_toJson,
        Expr.optional?_toJson, doubles]
      simp only [Option.bind_some, bind_readBack_some]
    | expr e => rw [toJson, read_expr, Expr.ofJson?_toJson, map_readBack, doubles]
    | ret span value =>
      rw [toJson, read_ret, Span.ofJson?_toJson, Expr.optional?_toJson, doubles]
      simp only [Option.bind_some, bind_readBack_some]
    | ifThen condition body =>
      simp only [toJson, variant, depth, depthEntries, depthEntry] at fits
      have bodyRead := readBlock_blockJson ih body (by omega)
      rw [toJson, read_ifThen, Expr.ofJson?_toJson, bodyRead, doubles]
      simp only [bind_readBack_some, bind_readBack]
    | ifThenElse condition body otherwise =>
      simp only [toJson, variant, depth, depthEntries, depthEntry] at fits
      have bodyRead := readBlock_blockJson ih body (by omega)
      have otherwiseRead := readBlock_blockJson ih otherwise (by omega)
      rw [toJson, read_ifThenElse, Expr.ofJson?_toJson, bodyRead, otherwiseRead, doubles]
      simp only [bind_readBack_some, bind_readBack]
    | «while» condition body =>
      simp only [toJson, variant, depth, depthEntries, depthEntry] at fits
      have bodyRead := readBlock_blockJson ih body (by omega)
      rw [toJson, read_while, Expr.ofJson?_toJson, bodyRead, doubles]
      simp only [bind_readBack_some, bind_readBack]
    | block body =>
      simp only [toJson, variant, depth, depthEntries, depthEntry] at fits
      have bodyRead := readBlock_blockJson ih body (by omega)
      rw [toJson, read_block, bodyRead, map_readBack, doubles]
    | throw e => rw [toJson, read_throw, Expr.ofJson?_toJson, map_readBack, doubles]

theorem ofJson?_toJson (s : Stmt) : ofJson? s.toJson = readBack s.doubles s :=
  read_toJson _ s (Nat.lt_succ_self _)

end Stmt

namespace Member

mutual

def doubles : Member → List Double
  | field _ init => Expr.optionDoubles init
  | method _ _ body => (body.getD []).flatMap Stmt.doubles
  | initializer body => body.flatMap Stmt.doubles
  | nested _ members => listDoubles members

def listDoubles : List Member → List Double
  | [] => []
  | m :: rest => doubles m ++ listDoubles rest

end

theorem listDoubles_eq (members : List Member) :
    listDoubles members = members.flatMap doubles := by
  induction members with
  | nil => simp [listDoubles]
  | cons m rest ih => simp [listDoubles, ih]

theorem toJsons_eq (members : List Member) : toJsons members = members.map toJson := by
  induction members with
  | nil => simp [toJsons]
  | cons m rest ih => simp [toJsons, ih]

theorem bodyOfJson?_blockJson (body : List Stmt) :
    bodyOfJson? (Stmt.blockJson body) = readBack (body.flatMap Stmt.doubles) body := by
  rw [← Stmt.listDoubles_eq]
  exact Stmt.readBlock_blockJson (fun s _ => Stmt.ofJson?_toJson s) body (Nat.lt_succ_self _)

theorem optional?_body (body : Option (List Stmt)) :
    optional? bodyOfJson? (some (option Stmt.blockJson body))
      = readBack ((body.getD []).flatMap Stmt.doubles) body := by
  have present (b : List Stmt) : Stmt.blockJson b ≠ .null := by simp [Stmt.blockJson]
  have all := optional?_option (o := body) present fun b _ => bodyOfJson?_blockJson b
  cases body with
  | none => rfl
  | some body => simpa using all

section Forms

variable (n : Nat)

theorem read_field (sig init : Json) :
    read (n + 1) (variant "Field" (obj [("descriptor", sig), ("initializer", init)])) =
      (FieldSig.ofJson? sig).bind fun sig =>
        (optional? Expr.ofJson? (some init)).bind fun init => some (field sig init) := rfl

theorem read_method (sig params body : Json) :
    read (n + 1) (variant "Method"
      (obj [("descriptor", sig), ("parameters", params), ("body", body)])) =
      (MethodSig.ofJson? sig).bind fun sig => (list? Ident.ofJson? params).bind fun params =>
        (optional? bodyOfJson? (some body)).bind fun body => some (method sig params body) := rfl

theorem read_initializer (body : Json) :
    read (n + 1) (variant "Initializer" body) = (bodyOfJson? body).map initializer := rfl

theorem read_nested (decl : Decl) (members : List Json) :
    read (n + 1) (variant "Class" (classJson decl members)) =
      (Decl.ofJson? decl.toJson).bind fun decl => (list? (read n) (arr members)).bind fun members =>
        some (nested decl members) := rfl

end Forms

theorem read_toJson (n : Nat) (m : Member) (fits : m.toJson.depth < n) :
    read n m.toJson = readBack m.doubles m := by
  induction n generalizing m with
  | zero => omega
  | succ n ih =>
    cases m with
    | field sig init =>
      rw [toJson, read_field, FieldSig.ofJson?_toJson, Expr.optional?_toJson, doubles]
      simp only [Option.bind_some, bind_readBack_some]
    | method sig params body =>
      rw [toJson, read_method, MethodSig.ofJson?_toJson, list?_list Ident.ofJson?_toJson,
        optional?_body, doubles]
      simp only [Option.bind_some, bind_readBack_some]
    | initializer body =>
      rw [toJson, read_initializer, bodyOfJson?_blockJson, map_readBack, doubles]
    | nested decl members =>
      simp only [toJson, classJson, variant, depth, depthEntries, depthEntry] at fits
      have membersRead : list? (read n) (arr (toJsons members))
          = readBack (listDoubles members) members := by
        rw [toJsons_eq] at fits ⊢
        rw [listDoubles_eq]
        exact list?_of_depth ih (by omega)
      rw [toJson, read_nested, Decl.ofJson?_toJson, membersRead, doubles]
      simp only [Option.bind_some, bind_readBack_some]

theorem ofJson?_toJson (m : Member) : ofJson? m.toJson = readBack m.doubles m :=
  read_toJson _ m (Nat.lt_succ_self _)

end Member

namespace ClassDef

def doubles (c : ClassDef) : List Double := c.members.flatMap Member.doubles

theorem ofJson?_toJson (c : ClassDef) : ofJson? c.toJson = readBack c.doubles c := by
  have membersRead : list? Member.ofJson? (arr (Member.toJsons c.members))
      = readBack c.doubles c.members := by
    rw [Member.toJsons_eq]
    exact list?_arr_map fun m _ => Member.ofJson?_toJson m
  simp [toJson, Member.classJson, ofJson?, fields?, List.lookup_cons, Decl.ofJson?_toJson,
    membersRead, bind_readBack_some]

end ClassDef

/-- Types are always read back, and a tree is if and only if all doubles in it are finite. -/
theorem Json.round_trip :
    (∀ t : Ty, Ty.ofJson? t.toJson = some t) ∧
    (∀ e : Expr, Expr.ofJson? e.toJson = readBack e.doubles e) ∧
    (∀ s : Stmt, Stmt.ofJson? s.toJson = readBack s.doubles s) ∧
    (∀ m : Member, Member.ofJson? m.toJson = readBack m.doubles m) ∧
    ∀ c : ClassDef, ClassDef.ofJson? c.toJson = readBack c.doubles c :=
  ⟨Ty.ofJson?_toJson, Expr.ofJson?_toJson, Stmt.ofJson?_toJson, Member.ofJson?_toJson,
    ClassDef.ofJson?_toJson⟩

end NullabilityCasts
