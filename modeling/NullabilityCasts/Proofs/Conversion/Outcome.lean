import NullabilityCasts.Proofs.Conversion.Decisions

/-!
# The outcome of a walk

A walk with a policy of casts is foretold by the sites of what it visits. The main statement is
`SourceUnit.walk_outcome`; the others are one for each kind of node.
-/

set_option autoImplicit false

namespace NullabilityCasts

open Step

variable {σ : Type} {p : Policy σ} {rule : CastRule} {count : σ → Nat} {result : Option Ty}

namespace Expr

mutual

theorem foretold_walk (obeys : p.Obeys rule count) (e : Expr) :
    Foretold rule count result (e.walk p) e.sites (e.withCasts rule.cast) := by
  cases e with
  | literal i value => exact foretold_pure _
  | localVar i name => exact foretold_pure _
  | this i => exact foretold_pure _
  | field i qualifier f => exact (foretold_walkQualifier obeys qualifier).map _
  | call i qualifier m args =>
    exact (foretold_walkQualifier obeys qualifier).bind
      ((foretold_checkCount m args.length).bind
        ((foretold_walkArguments obeys m args.length 0 args).map _))
  | new i m args =>
    exact (foretold_checkCount m args.length).bind
      ((foretold_walkArguments obeys m args.length 0 args).map _)
  | assign i target value =>
    exact (foretold_walk obeys target).bind ((foretold_walk obeys value).bind
      ((foretold_settleTyped obeys (ty_withCasts _ target) (ty_withCasts _ value)).map _))
  | cast i operand target =>
    exact (foretold_walk obeys operand).bind
      ((foretold_settleTyped obeys rfl (ty_withCasts _ operand)).map _)
  | binary i op left right =>
    exact (foretold_walk obeys left).bind ((foretold_walk obeys right).map _)
  | unary i op operand => exact (foretold_walk obeys operand).map _
  | conditional i condition whenTrue whenFalse =>
    exact (foretold_walk obeys condition).bind
      ((foretold_settleTyped obeys rfl (ty_withCasts _ condition)).bind
        ((foretold_walk obeys whenTrue).bind
          ((foretold_settleTyped obeys rfl (ty_withCasts _ whenTrue)).bind
            ((foretold_walk obeys whenFalse).bind
              ((foretold_settleTyped obeys rfl (ty_withCasts _ whenFalse)).map _)))))
  | arrayLit i elements =>
    obtain ⟨span, ty⟩ := i
    cases ty with
    | array component nullable => exact (foretold_walkElements obeys component elements).map _
    | _ => exact (foretold_violate _).map _
  | index i array position =>
    exact (foretold_walk obeys array).bind ((foretold_walk obeys position).map _)

theorem foretold_walkQualifier (obeys : p.Obeys rule count) (qualifier : Option Expr) :
    Foretold rule count result (walkQualifier p qualifier) (qualifierSites qualifier)
      (qualifierWithCasts rule.cast qualifier) := by
  cases qualifier with
  | none => exact foretold_pure _
  | some e =>
    exact (foretold_walk obeys e).bind
      ((foretold_settle obeys ⟨.qualifier, e.ty⟩ (congrArg _ (ty_withCasts _ e).symm)
        (ty_withCasts _ e)).map _)

theorem foretold_walkArguments (obeys : p.Obeys rule count) (m : MethodSig) (passed position : Nat)
    (args : List Expr) :
    Foretold rule count result (walkArguments p m passed position args)
      (argumentSites m passed position args)
      (argumentsWithCasts rule.cast m passed position args) := by
  cases args with
  | nil => exact foretold_pure _
  | cons arg rest =>
    exact (foretold_walk obeys arg).bind
      ((foretold_settleArgument obeys m passed position (ty_withCasts rule.cast arg)).bind
        ((foretold_walkArguments obeys m passed (position + 1) rest).map _))

theorem foretold_walkElements (obeys : p.Obeys rule count) (component : Ty) (elements : List Expr) :
    Foretold rule count result (walkElements p component elements)
      (elementSites component elements) (elementsWithCasts rule.cast component elements) := by
  cases elements with
  | nil => exact foretold_pure _
  | cons element rest =>
    exact (foretold_walk obeys element).bind
      ((foretold_settleTyped obeys rfl (ty_withCasts _ element)).bind
        ((foretold_walkElements obeys component rest).map _))

end

theorem foretold_walkSlot (obeys : p.Obeys rule count) (kind : ConversionKind) (inferred : Ty)
    (e : Expr) :
    Foretold rule count result (e.walkSlot p kind inferred) (e.slotSites kind inferred)
      (e.slotWithCasts rule.cast kind inferred) :=
  (foretold_walk obeys e).bind (foretold_settleTyped obeys rfl (ty_withCasts _ e))

theorem foretold_walkOptionalSlot (obeys : p.Obeys rule count) (kind : ConversionKind)
    (inferred : Ty) (slot : Option Expr) :
    Foretold rule count result (walkOptionalSlot p kind inferred slot)
      (optionalSlotSites kind inferred slot)
      (slot.map (slotWithCasts rule.cast kind inferred)) := by
  cases slot with
  | none => exact foretold_pure _
  | some e => exact (foretold_walkSlot obeys kind inferred e).map _

end Expr

namespace Stmt

mutual

theorem foretold_walk (obeys : p.Obeys rule count) (s : Stmt) :
    Foretold rule count result (s.walk p) (s.sites result) (s.withCasts rule.cast result) := by
  cases s with
  | declare span name ty init => exact (Expr.foretold_walkOptionalSlot obeys _ ty init).map _
  | expr e => exact (Expr.foretold_walk obeys e).map _
  | ret span value =>
    cases value with
    | none => exact foretold_pure _
    | some e =>
      exact (Expr.foretold_walk obeys e).bind
        ((foretold_settleReturned obeys span (Expr.ty_withCasts _ e)).map _)
  | ifThen condition body =>
    exact (Expr.foretold_walkSlot obeys _ _ condition).bind ((foretold_walkAll obeys body).map _)
  | ifThenElse condition body otherwise =>
    exact (Expr.foretold_walkSlot obeys _ _ condition).bind
      ((foretold_walkAll obeys body).bind ((foretold_walkAll obeys otherwise).map _))
  | «while» condition body =>
    exact (Expr.foretold_walkSlot obeys _ _ condition).bind ((foretold_walkAll obeys body).map _)
  | block body => exact (foretold_walkAll obeys body).map _
  | throw e => exact (Expr.foretold_walk obeys e).map _

theorem foretold_walkAll (obeys : p.Obeys rule count) (body : List Stmt) :
    Foretold rule count result (walkAll p body) (allSites result body)
      (allWithCasts rule.cast result body) := by
  cases body with
  | nil => exact foretold_pure _
  | cons s rest => exact (foretold_walk obeys s).bind ((foretold_walkAll obeys rest).map _)

end

end Stmt

namespace Member

mutual

theorem foretold_walk (obeys : p.Obeys rule count) (m : Member) :
    Foretold rule count result (m.walk p) m.sites (m.withCasts rule.cast) := by
  cases m with
  | field sig init => exact (Expr.foretold_walkOptionalSlot obeys _ _ init).map _
  | method sig params body =>
    cases body with
    | none => exact foretold_pure _
    | some body => exact (foretold_inBody _ (Stmt.foretold_walkAll obeys body)).map _
  | initializer body => exact (foretold_inBody _ (Stmt.foretold_walkAll obeys body)).map _
  | nested decl members => exact (foretold_walkAll obeys members).map _

theorem foretold_walkAll (obeys : p.Obeys rule count) (members : List Member) :
    Foretold rule count result (walkAll p members) (allSites members)
      (allWithCasts rule.cast members) := by
  cases members with
  | nil => exact foretold_pure _
  | cons m rest => exact (foretold_walk obeys m).bind ((foretold_walkAll obeys rest).map _)

end

end Member

theorem ClassDef.foretold_walkAll (obeys : p.Obeys rule count) (classes : List ClassDef) :
    Foretold rule count result (walkAll p classes)
      (classes.flatMap fun c => Member.allSites c.members)
      (classes.map (withCasts rule.cast)) := by
  induction classes with
  | nil => exact foretold_pure _
  | cons c rest ih =>
    have first : Foretold rule count result (c.walk p) (Member.allSites c.members)
        (c.withCasts rule.cast) := (Member.foretold_walkAll obeys c.members).map _
    exact first.bind (ih.map _)

/-- A walk through a whole unit either fails with the first violation among the decisions at its
sites, or leaves the unit with the casts decided on and has counted each of them. -/
theorem SourceUnit.walk_outcome (obeys : p.Obeys rule count) (u : SourceUnit) (memory : σ) :
    match rule.atSites u.sites with
    | .ok casts => ∃ memory',
        u.walk p (Walk.start memory) = (u.withCasts rule.cast, Walk.start memory') ∧
          count memory' = count memory + casts.countP Option.isSome
    | .error v => (u.walk p (Walk.start memory)).2.failure = some (.internal v) := by
  have walked : Foretold rule count none
      (do
        let classes ← ClassDef.walkAll p u.classes
        pure ({ u with classes := classes } : SourceUnit))
      u.sites (u.withCasts rule.cast) := (ClassDef.foretold_walkAll obeys u.classes).map _
  exact walked (Walk.start memory) rfl rfl

end NullabilityCasts
