import NullabilityCasts.Conversion
import NullabilityCasts.Conversion.Arguments
import NullabilityCasts.SourceUnit

/-!
# Walking a unit

A walk visits a unit from the inside out and from left to right and hands every conversion to a
policy, with the slots inside it already settled. The first failure ends it: whatever comes later
stays as it was. A slot whose policy failed holds the placeholder.
-/

set_option autoImplicit false

namespace NullabilityCasts

structure Walk (σ : Type) where
  memory : σ
  /-- The result type of each enclosing body, innermost first; initializer blocks have none. -/
  results : List (Option Ty)
  failure : Option Error

/-- A step of a walk. The steps below return their input and change nothing once a failure is
recorded. -/
abbrev Step (σ α : Type) := StateM (Walk σ) α

def Walk.start {σ : Type} (memory : σ) : Walk σ := ⟨memory, [], none⟩

variable {σ : Type}

namespace Step

def fail (e : Error) : Step σ Unit := fun w =>
  ((), if w.failure.isNone then { w with failure := some e } else w)

def violate (v : Violation) : Step σ Unit := fail (.internal v)

def settle (p : Policy σ) (kind : ConversionKind) (inferred : Ty) (e : Expr) : Step σ Expr :=
  fun w =>
    match w.failure with
    | some _ => (e, w)
    | none =>
      match p.handle kind inferred e.ty e w.memory with
      | (.ok e', memory) => (e', { w with memory := memory })
      | (.error err, memory) => (.placeholder, { w with memory := memory, failure := some err })

/-- A call with a wrong number of arguments is reported before any of them is visited. -/
def checkCount (m : MethodSig) (count : Nat) : Step σ Unit :=
  if m.accepts count then pure () else violate (m.countViolation count)

/-- Hands an argument to the policy; the type expected for it may hang on its own type. -/
def settleArgument (p : Policy σ) (m : MethodSig) (count position : Nat) (e : Expr) :
    Step σ Expr :=
  match m.expected count position e.ty with
  | .ok inferred => settle p .argument inferred e
  | .error v => do
    violate v
    pure e

/-- A value can only be returned from a body that has a result type. -/
def settleReturned (p : Policy σ) (span : Span) (e : Expr) : Step σ Expr := fun w =>
  match w.results with
  | some result :: _ => settle p .returned result e w
  | _ => (e, (violate (.returnOutsideMethod span) w).2)

def inBody {α : Type} (result : Option Ty) (step : Step σ α) : Step σ α := do
  modify fun w => { w with results := result :: w.results }
  let a ← step
  modify fun w => { w with results := w.results.tail }
  pure a

end Step

open Step

namespace Expr

mutual

def walk (p : Policy σ) : Expr → Step σ Expr
  | literal i value => pure (literal i value)
  | localVar i name => pure (localVar i name)
  | this i => pure (this i)
  | field i qualifier f => do
    let qualifier ← walkQualifier p qualifier
    pure (field i qualifier f)
  | call i qualifier m args => do
    let qualifier ← walkQualifier p qualifier
    checkCount m args.length
    let args ← walkArguments p m args.length 0 args
    pure (call i qualifier m args)
  | new i m args => do
    checkCount m args.length
    let args ← walkArguments p m args.length 0 args
    pure (new i m args)
  | assign i target value => do
    let target ← walk p target
    let value ← walk p value
    let value ← settle p .assignment target.ty value
    pure (assign i target value)
  | cast i operand target => do
    let operand ← walk p operand
    let operand ← settle p .castOperand target operand
    pure (cast i operand target)
  | binary i op left right => do
    let left ← walk p left
    let right ← walk p right
    pure (binary i op left right)
  | unary i op operand => do
    let operand ← walk p operand
    pure (unary i op operand)
  | conditional i condition whenTrue whenFalse => do
    let condition ← walk p condition
    let condition ← settle p .condition Ty.boolean condition
    let whenTrue ← walk p whenTrue
    let whenTrue ← settle p .assignment i.ty whenTrue
    let whenFalse ← walk p whenFalse
    let whenFalse ← settle p .assignment i.ty whenFalse
    pure (conditional i condition whenTrue whenFalse)
  | arrayLit i elements => do
    match i.ty with
    | .array component _ =>
      let elements ← walkElements p component elements
      pure (arrayLit i elements)
    | ty =>
      violate (.arrayLiteralType i.span ty)
      pure (arrayLit i elements)
  | index i array position => do
    let array ← walk p array
    let position ← walk p position
    pure (index i array position)

def walkQualifier (p : Policy σ) : Option Expr → Step σ (Option Expr)
  | none => pure none
  | some qualifier => do
    let qualifier ← walk p qualifier
    let qualifier ← settle p .qualifier qualifier.ty qualifier
    pure (some qualifier)

def walkArguments (p : Policy σ) (m : MethodSig) (count position : Nat) :
    List Expr → Step σ (List Expr)
  | [] => pure []
  | arg :: rest => do
    let arg ← walk p arg
    let arg ← settleArgument p m count position arg
    let rest ← walkArguments p m count (position + 1) rest
    pure (arg :: rest)

def walkElements (p : Policy σ) (component : Ty) : List Expr → Step σ (List Expr)
  | [] => pure []
  | element :: rest => do
    let element ← walk p element
    let element ← settle p .assignment component element
    let rest ← walkElements p component rest
    pure (element :: rest)

end

def walkSlot (p : Policy σ) (kind : ConversionKind) (inferred : Ty) (e : Expr) : Step σ Expr := do
  let e ← e.walk p
  settle p kind inferred e

def walkOptionalSlot (p : Policy σ) (kind : ConversionKind) (inferred : Ty) :
    Option Expr → Step σ (Option Expr)
  | none => pure none
  | some e => do
    let e ← e.walkSlot p kind inferred
    pure (some e)

end Expr

namespace Stmt

mutual

def walk (p : Policy σ) : Stmt → Step σ Stmt
  | declare span name ty init => do
    let init ← Expr.walkOptionalSlot p .assignment ty init
    pure (declare span name ty init)
  | expr e => do
    let e ← e.walk p
    pure (expr e)
  | ret span none => pure (ret span none)
  | ret span (some value) => do
    let value ← value.walk p
    let value ← settleReturned p span value
    pure (ret span (some value))
  | ifThen condition body => do
    let condition ← condition.walkSlot p .condition Ty.boolean
    let body ← walkAll p body
    pure (ifThen condition body)
  | ifThenElse condition body otherwise => do
    let condition ← condition.walkSlot p .condition Ty.boolean
    let body ← walkAll p body
    let otherwise ← walkAll p otherwise
    pure (ifThenElse condition body otherwise)
  | .while condition body => do
    let condition ← condition.walkSlot p .condition Ty.boolean
    let body ← walkAll p body
    pure (.while condition body)
  | block body => do
    let body ← walkAll p body
    pure (block body)
  | throw e => do
    let e ← e.walk p
    pure (throw e)

def walkAll (p : Policy σ) : List Stmt → Step σ (List Stmt)
  | [] => pure []
  | s :: rest => do
    let s ← walk p s
    let rest ← walkAll p rest
    pure (s :: rest)

end

end Stmt

namespace Member

mutual

def walk (p : Policy σ) : Member → Step σ Member
  | field sig init => do
    let init ← Expr.walkOptionalSlot p .fieldInitializer sig.ty init
    pure (field sig init)
  | method sig params none => pure (method sig params none)
  | method sig params (some body) => do
    let body ← inBody (some sig.result) (Stmt.walkAll p body)
    pure (method sig params (some body))
  | initializer body => do
    let body ← inBody none (Stmt.walkAll p body)
    pure (initializer body)
  | nested decl members => do
    let members ← walkAll p members
    pure (nested decl members)

def walkAll (p : Policy σ) : List Member → Step σ (List Member)
  | [] => pure []
  | m :: rest => do
    let m ← walk p m
    let rest ← walkAll p rest
    pure (m :: rest)

end

end Member

def ClassDef.walk (p : Policy σ) (c : ClassDef) : Step σ ClassDef := do
  let members ← Member.walkAll p c.members
  pure { c with members := members }

def ClassDef.walkAll (p : Policy σ) : List ClassDef → Step σ (List ClassDef)
  | [] => pure []
  | c :: rest => do
    let c ← c.walk p
    let rest ← walkAll p rest
    pure (c :: rest)

/-- A walk through a unit begins without a failure, also after one that failed. -/
def SourceUnit.walk (p : Policy σ) (u : SourceUnit) : Step σ SourceUnit := do
  modify fun w => { w with failure := none }
  let classes ← ClassDef.walkAll p u.classes
  pure { u with classes := classes }

end NullabilityCasts
