import NullabilityCasts.Proofs.Conversion.Parameters

/-!
# The sites of a unit

Where a walk stops, read off a unit as it is given: the slots, and the parts of the unit that are
not as they should be. The sites come from the inside out and from left to right, each once.
-/

set_option autoImplicit false

namespace NullabilityCasts

/-- Where a slot stands, as far as it matters for what the slot expects. -/
inductive Place where
  | typed (kind : ConversionKind) (inferred : Ty)
  | qualifier
  | argument (m : MethodSig) (count position : Nat)
  /-- The slot of a returned value, with the result type of the body around it, if it has one. -/
  | returned (span : Span) (result : Option Ty)

namespace Place

def kind : Place → ConversionKind
  | typed kind _ => kind
  | qualifier => .qualifier
  | argument _ _ _ => .argument
  | returned _ _ => .returned

/-- The type expected of a value whose own type is `actual`. -/
def expects (actual : Ty) : Place → Except Violation Ty
  | typed _ inferred => .ok inferred
  | qualifier => .ok actual
  | argument m count position => m.parameterFor count position actual
  | returned _ (some result) => .ok result
  | returned span none => .error (.returnOutsideMethod span)

theorem expects_argument (m : MethodSig) (count position : Nat) (actual : Ty) :
    (argument m count position).expects actual = m.expected count position actual :=
  m.parameterFor_eq_expected count position actual

end Place

structure Slot where
  place : Place
  actual : Ty

namespace Slot

def kind (s : Slot) : ConversionKind := s.place.kind

def inferred (s : Slot) : Except Violation Ty := s.place.expects s.actual

end Slot

inductive Site where
  | slot (s : Slot)
  | violation (v : Violation)

namespace Site

def slot? : Site → Option Slot
  | slot s => some s
  | violation _ => none

def typed (kind : ConversionKind) (inferred actual : Ty) : Site :=
  slot ⟨.typed kind inferred, actual⟩

end Site

/-- A wrong number of arguments is found before the arguments are. -/
def MethodSig.countSites (m : MethodSig) (count : Nat) : List Site :=
  if m.Takes count then []
  else [.violation (.argumentCount count m.name m.isVariadic m.params.length)]

theorem MethodSig.countSites_eq (m : MethodSig) (count : Nat) :
    m.countSites count = if m.accepts count then [] else [.violation (m.countViolation count)] := by
  simp only [countSites, m.takes_iff, countViolation]

namespace Expr

mutual

def sites : Expr → List Site
  | literal _ _ | localVar _ _ | this _ => []
  | field _ qualifier _ => qualifierSites qualifier
  | call _ qualifier m args =>
    qualifierSites qualifier ++ (m.countSites args.length ++ argumentSites m args.length 0 args)
  | new _ m args => m.countSites args.length ++ argumentSites m args.length 0 args
  | assign _ target value =>
    sites target ++ (sites value ++ [.typed .assignment target.ty value.ty])
  | cast _ operand target => sites operand ++ [.typed .castOperand target operand.ty]
  | binary _ _ left right => sites left ++ sites right
  | unary _ _ operand => sites operand
  | conditional i condition whenTrue whenFalse =>
    sites condition ++ (.typed .condition Ty.boolean condition.ty ::
      (sites whenTrue ++ (.typed .assignment i.ty whenTrue.ty ::
        (sites whenFalse ++ [.typed .assignment i.ty whenFalse.ty]))))
  | arrayLit i elements =>
    match i.ty with
    | .array component _ => elementSites component elements
    | ty => [.violation (.arrayLiteralType i.span ty)]
  | index _ array position => sites array ++ sites position

def qualifierSites : Option Expr → List Site
  | none => []
  | some qualifier => sites qualifier ++ [.slot ⟨.qualifier, qualifier.ty⟩]

def argumentSites (m : MethodSig) (count position : Nat) : List Expr → List Site
  | [] => []
  | arg :: rest =>
    sites arg ++ (.slot ⟨.argument m count position, arg.ty⟩ ::
      argumentSites m count (position + 1) rest)

def elementSites (component : Ty) : List Expr → List Site
  | [] => []
  | element :: rest =>
    sites element ++ (.typed .assignment component element.ty :: elementSites component rest)

end

def slotSites (kind : ConversionKind) (inferred : Ty) (e : Expr) : List Site :=
  e.sites ++ [.typed kind inferred e.ty]

def optionalSlotSites (kind : ConversionKind) (inferred : Ty) : Option Expr → List Site
  | none => []
  | some e => e.slotSites kind inferred

end Expr

namespace Stmt

mutual

def sites (result : Option Ty) : Stmt → List Site
  | declare _ _ ty init => Expr.optionalSlotSites .assignment ty init
  | expr e => e.sites
  | ret _ none => []
  | ret span (some value) => value.sites ++ [.slot ⟨.returned span result, value.ty⟩]
  | ifThen condition body => condition.slotSites .condition Ty.boolean ++ allSites result body
  | ifThenElse condition body otherwise =>
    condition.slotSites .condition Ty.boolean ++ (allSites result body ++ allSites result otherwise)
  | .while condition body => condition.slotSites .condition Ty.boolean ++ allSites result body
  | block body => allSites result body
  | throw e => e.sites

def allSites (result : Option Ty) : List Stmt → List Site
  | [] => []
  | s :: rest => sites result s ++ allSites result rest

end

end Stmt

namespace Member

mutual

def sites : Member → List Site
  | field sig init => Expr.optionalSlotSites .fieldInitializer sig.ty init
  | method _ _ none => []
  | method sig _ (some body) => Stmt.allSites (some sig.result) body
  | initializer body => Stmt.allSites none body
  | nested _ members => allSites members

def allSites : List Member → List Site
  | [] => []
  | m :: rest => sites m ++ allSites rest

end

end Member

namespace SourceUnit

def sites (u : SourceUnit) : List Site := u.classes.flatMap fun c => Member.allSites c.members

def slots (u : SourceUnit) : List Slot := u.sites.filterMap Site.slot?

theorem mem_slots {u : SourceUnit} {s : Slot} : s ∈ u.slots ↔ .slot s ∈ u.sites := by
  rw [slots, List.mem_filterMap]
  constructor
  · rintro ⟨site, member, same⟩
    cases site with
    | slot s' => exact Option.some.inj same ▸ member
    | violation v => simp [Site.slot?] at same
  · exact fun member => ⟨.slot s, member, rfl⟩

end SourceUnit

end NullabilityCasts
