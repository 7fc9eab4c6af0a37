import NullabilityCasts.Proofs.Conversion.Stops

/-!
# Contents of slots

A unit in which the slots hold given contents. These go into the slots in the order of the stops, as
far as they last; a slot for which none is left keeps its expression, with what has been put into
the slots inside it.
-/

set_option autoImplicit false

namespace NullabilityCasts

/-- Takes the contents that it needs from the front. -/
abbrev Filling (α : Type) := StateM (List Expr) α

def Filling.next (e : Expr) : Filling Expr
  | [] => (e, [])
  | content :: rest => (content, rest)

namespace Expr

mutual

def fill : Expr → Filling Expr
  | literal i value => pure (literal i value)
  | localVar i name => pure (localVar i name)
  | this i => pure (this i)
  | field i qualifier f => do
    let qualifier ← fillOption qualifier
    pure (field i qualifier f)
  | call i qualifier m args => do
    let qualifier ← fillOption qualifier
    let args ← fillList args
    pure (call i qualifier m args)
  | new i m args => do
    let args ← fillList args
    pure (new i m args)
  | assign i target value => do
    let target ← fill target
    let value ← fill value
    let value ← Filling.next value
    pure (assign i target value)
  | cast i operand target => do
    let operand ← fill operand
    let operand ← Filling.next operand
    pure (cast i operand target)
  | binary i op left right => do
    let left ← fill left
    let right ← fill right
    pure (binary i op left right)
  | unary i op operand => do
    let operand ← fill operand
    pure (unary i op operand)
  | conditional i condition whenTrue whenFalse => do
    let condition ← fill condition
    let condition ← Filling.next condition
    let whenTrue ← fill whenTrue
    let whenTrue ← Filling.next whenTrue
    let whenFalse ← fill whenFalse
    let whenFalse ← Filling.next whenFalse
    pure (conditional i condition whenTrue whenFalse)
  | arrayLit i elements =>
    match i.ty with
    | .array _ _ => do
      let elements ← fillList elements
      pure (arrayLit i elements)
    | _ => pure (arrayLit i elements)
  | index i array position => do
    let array ← fill array
    let position ← fill position
    pure (index i array position)

def fillOption : Option Expr → Filling (Option Expr)
  | none => pure none
  | some e => do
    let e ← fill e
    let e ← Filling.next e
    pure (some e)

def fillList : List Expr → Filling (List Expr)
  | [] => pure []
  | e :: rest => do
    let e ← fill e
    let e ← Filling.next e
    let rest ← fillList rest
    pure (e :: rest)

end

def fillSlot (e : Expr) : Filling Expr := do
  let e ← e.fill
  Filling.next e

def filled (e : Expr) (contents : List Expr) : Expr := (e.fill contents).1

theorem info_filled (e : Expr) (contents : List Expr) : (e.filled contents).info = e.info := by
  cases e with
  | arrayLit i elements =>
    obtain ⟨span, ty⟩ := i
    cases ty <;> rfl
  | _ => rfl

theorem ty_filled (e : Expr) (contents : List Expr) : (e.filled contents).ty = e.ty :=
  congrArg Info.ty (info_filled e contents)

end Expr

namespace Stmt

mutual

def fill : Stmt → Filling Stmt
  | declare span name ty init => do
    let init ← Expr.fillOption init
    pure (declare span name ty init)
  | expr e => do
    let e ← e.fill
    pure (expr e)
  | ret span none => pure (ret span none)
  | ret span (some value) => do
    let value ← value.fill
    let value ← Filling.next value
    pure (ret span (some value))
  | ifThen condition body => do
    let condition ← condition.fillSlot
    let body ← fillAll body
    pure (ifThen condition body)
  | ifThenElse condition body otherwise => do
    let condition ← condition.fillSlot
    let body ← fillAll body
    let otherwise ← fillAll otherwise
    pure (ifThenElse condition body otherwise)
  | .while condition body => do
    let condition ← condition.fillSlot
    let body ← fillAll body
    pure (.while condition body)
  | block body => do
    let body ← fillAll body
    pure (block body)
  | throw e => do
    let e ← e.fill
    pure (throw e)

def fillAll : List Stmt → Filling (List Stmt)
  | [] => pure []
  | s :: rest => do
    let s ← fill s
    let rest ← fillAll rest
    pure (s :: rest)

end

end Stmt

namespace Member

mutual

def fill : Member → Filling Member
  | field sig init => do
    let init ← Expr.fillOption init
    pure (field sig init)
  | method sig params none => pure (method sig params none)
  | method sig params (some body) => do
    let body ← Stmt.fillAll body
    pure (method sig params (some body))
  | initializer body => do
    let body ← Stmt.fillAll body
    pure (initializer body)
  | nested decl members => do
    let members ← fillAll members
    pure (nested decl members)

def fillAll : List Member → Filling (List Member)
  | [] => pure []
  | m :: rest => do
    let m ← fill m
    let rest ← fillAll rest
    pure (m :: rest)

end

end Member

def ClassDef.fill (c : ClassDef) : Filling ClassDef := do
  let members ← Member.fillAll c.members
  pure { c with members := members }

def ClassDef.fillAll : List ClassDef → Filling (List ClassDef)
  | [] => pure []
  | c :: rest => do
    let c ← c.fill
    let rest ← fillAll rest
    pure (c :: rest)

def SourceUnit.filled (u : SourceUnit) (contents : List Expr) : SourceUnit :=
  { u with classes := (ClassDef.fillAll u.classes contents).1 }

end NullabilityCasts
