import NullabilityCasts.Conversion.Walk

/-!
# Walks after a failure

Once a failure is recorded, every later part of a walk returns what it is given and leaves the state
of the walk alone. So a failed walk has changed exactly what came before the failure.
-/

set_option autoImplicit false

namespace NullabilityCasts

variable {σ : Type}

/-- A step that does nothing to `a` once the walk has failed. -/
def Step.Inert {α : Type} (step : Step σ α) (a : α) : Prop :=
  ∀ w : Walk σ, w.failure.isSome → step w = (a, w)

namespace Step

theorem inert_pure {α : Type} (a : α) : Inert (pure a : Step σ α) a := fun _ _ => rfl

theorem Inert.bind {α β : Type} {step : Step σ α} {next : α → Step σ β} {a : α} {b : β}
    (first : Inert step a) (later : Inert (next a) b) : Inert (step >>= next) b := by
  intro w failed
  change next (step w).1 (step w).2 = (b, w)
  rw [first w failed]
  exact later w failed

theorem inert_fail (e : Error) : Inert (fail e : Step σ Unit) () := by
  intro w failed
  cases h : w.failure with
  | none => simp [h] at failed
  | some _ => simp [fail, h]

theorem inert_settle (p : Policy σ) (kind : ConversionKind) (inferred : Ty) (e : Expr) :
    Inert (settle p kind inferred e) e := by
  intro w failed
  cases h : w.failure with
  | none => simp [h] at failed
  | some _ => simp [settle, h]

theorem inert_settleArgument (p : Policy σ) (m : MethodSig) (count position : Nat) (e : Expr) :
    Inert (settleArgument p m count position e) e := by
  unfold settleArgument
  cases m.expected count position e.ty with
  | ok inferred => exact inert_settle p .argument inferred e
  | error v => exact (inert_fail _).bind (inert_pure e)

theorem inert_settleReturned (p : Policy σ) (span : Span) (e : Expr) :
    Inert (settleReturned p span e) e := by
  intro w failed
  unfold settleReturned
  split
  · exact inert_settle p .returned _ e w failed
  · rw [violate, inert_fail _ w failed]

theorem inBody_apply {α : Type} (result : Option Ty) (step : Step σ α) (w : Walk σ) :
    inBody result step w
      = ((step { w with results := result :: w.results }).1,
        { (step { w with results := result :: w.results }).2 with
          results := (step { w with results := result :: w.results }).2.results.tail }) := rfl

theorem inert_inBody {α : Type} (result : Option Ty) {step : Step σ α} {a : α}
    (inside : Inert step a) : Inert (inBody result step) a := by
  intro w failed
  have unchanged := inside { w with results := result :: w.results } failed
  rw [inBody_apply, unchanged]
  rfl

theorem inert_checkCount (m : MethodSig) (count : Nat) :
    Inert (checkCount m count : Step σ Unit) () := by
  unfold checkCount
  cases m.accepts count with
  | false => exact inert_fail _
  | true => exact inert_pure _

end Step

open Step

namespace Expr

mutual

theorem inert_walk (p : Policy σ) (e : Expr) : Inert (e.walk p) e := by
  cases e with
  | literal i value => exact inert_pure _
  | localVar i name => exact inert_pure _
  | this i => exact inert_pure _
  | field i qualifier f => exact (inert_walkQualifier p qualifier).bind (inert_pure _)
  | call i qualifier m args =>
    exact (inert_walkQualifier p qualifier).bind
      ((inert_checkCount m args.length).bind
        ((inert_walkArguments p m args.length 0 args).bind (inert_pure _)))
  | new i m args =>
    exact (inert_checkCount m args.length).bind
      ((inert_walkArguments p m args.length 0 args).bind (inert_pure _))
  | assign i target value =>
    exact (inert_walk p target).bind ((inert_walk p value).bind
      ((inert_settle p _ _ value).bind (inert_pure _)))
  | cast i operand target =>
    exact (inert_walk p operand).bind ((inert_settle p _ _ operand).bind (inert_pure _))
  | binary i op left right =>
    exact (inert_walk p left).bind ((inert_walk p right).bind (inert_pure _))
  | unary i op operand => exact (inert_walk p operand).bind (inert_pure _)
  | conditional i condition whenTrue whenFalse =>
    exact (inert_walk p condition).bind ((inert_settle p _ _ condition).bind
      ((inert_walk p whenTrue).bind ((inert_settle p _ _ whenTrue).bind
        ((inert_walk p whenFalse).bind ((inert_settle p _ _ whenFalse).bind (inert_pure _))))))
  | arrayLit i elements =>
    unfold Expr.walk
    split
    · exact (inert_walkElements p _ elements).bind (inert_pure _)
    · exact (inert_fail _).bind (inert_pure _)
  | index i array position =>
    exact (inert_walk p array).bind ((inert_walk p position).bind (inert_pure _))

theorem inert_walkQualifier (p : Policy σ) (qualifier : Option Expr) :
    Inert (walkQualifier p qualifier) qualifier := by
  cases qualifier with
  | none => exact inert_pure _
  | some e => exact (inert_walk p e).bind ((inert_settle p _ _ e).bind (inert_pure _))

theorem inert_walkArguments (p : Policy σ) (m : MethodSig) (count position : Nat)
    (args : List Expr) : Inert (walkArguments p m count position args) args := by
  cases args with
  | nil => exact inert_pure _
  | cons arg rest =>
    exact (inert_walk p arg).bind ((inert_settleArgument p m count position arg).bind
      ((inert_walkArguments p m count (position + 1) rest).bind (inert_pure _)))

theorem inert_walkElements (p : Policy σ) (component : Ty) (elements : List Expr) :
    Inert (walkElements p component elements) elements := by
  cases elements with
  | nil => exact inert_pure _
  | cons element rest =>
    exact (inert_walk p element).bind ((inert_settle p _ _ element).bind
      ((inert_walkElements p component rest).bind (inert_pure _)))

end

theorem inert_walkSlot (p : Policy σ) (kind : ConversionKind) (inferred : Ty) (e : Expr) :
    Inert (e.walkSlot p kind inferred) e :=
  (inert_walk p e).bind (inert_settle p kind inferred e)

theorem inert_walkOptionalSlot (p : Policy σ) (kind : ConversionKind) (inferred : Ty)
    (slot : Option Expr) : Inert (walkOptionalSlot p kind inferred slot) slot := by
  cases slot with
  | none => exact inert_pure _
  | some e => exact (inert_walkSlot p kind inferred e).bind (inert_pure _)

end Expr

namespace Stmt

mutual

theorem inert_walk (p : Policy σ) (s : Stmt) : Inert (s.walk p) s := by
  cases s with
  | declare span name ty init =>
    exact (Expr.inert_walkOptionalSlot p _ ty init).bind (inert_pure _)
  | expr e => exact (Expr.inert_walk p e).bind (inert_pure _)
  | ret span value =>
    cases value with
    | none => exact inert_pure _
    | some e =>
      exact (Expr.inert_walk p e).bind ((inert_settleReturned p span e).bind (inert_pure _))
  | ifThen condition body =>
    exact (Expr.inert_walkSlot p _ _ condition).bind ((inert_walkAll p body).bind (inert_pure _))
  | ifThenElse condition body otherwise =>
    exact (Expr.inert_walkSlot p _ _ condition).bind ((inert_walkAll p body).bind
      ((inert_walkAll p otherwise).bind (inert_pure _)))
  | «while» condition body =>
    exact (Expr.inert_walkSlot p _ _ condition).bind ((inert_walkAll p body).bind (inert_pure _))
  | block body => exact (inert_walkAll p body).bind (inert_pure _)
  | throw e => exact (Expr.inert_walk p e).bind (inert_pure _)

theorem inert_walkAll (p : Policy σ) (body : List Stmt) : Inert (walkAll p body) body := by
  cases body with
  | nil => exact inert_pure _
  | cons s rest => exact (inert_walk p s).bind ((inert_walkAll p rest).bind (inert_pure _))

end

end Stmt

namespace Member

mutual

theorem inert_walk (p : Policy σ) (m : Member) : Inert (m.walk p) m := by
  cases m with
  | field sig init => exact (Expr.inert_walkOptionalSlot p _ _ init).bind (inert_pure _)
  | method sig params body =>
    cases body with
    | none => exact inert_pure _
    | some body => exact (inert_inBody _ (Stmt.inert_walkAll p body)).bind (inert_pure _)
  | initializer body => exact (inert_inBody _ (Stmt.inert_walkAll p body)).bind (inert_pure _)
  | nested decl members => exact (inert_walkAll p members).bind (inert_pure _)

theorem inert_walkAll (p : Policy σ) (members : List Member) :
    Inert (walkAll p members) members := by
  cases members with
  | nil => exact inert_pure _
  | cons m rest => exact (inert_walk p m).bind ((inert_walkAll p rest).bind (inert_pure _))

end

end Member

namespace ClassDef

theorem inert_walk (p : Policy σ) (c : ClassDef) : Inert (c.walk p) c :=
  (Member.inert_walkAll p c.members).bind (inert_pure _)

theorem inert_walkAll (p : Policy σ) (classes : List ClassDef) :
    Inert (walkAll p classes) classes := by
  induction classes with
  | nil => exact inert_pure _
  | cons c rest ih => exact (inert_walk p c).bind (ih.bind (inert_pure _))

end ClassDef

end NullabilityCasts
