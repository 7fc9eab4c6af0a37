import NullabilityCasts.Proofs.Conversion.Sites

/-!
# Units with casts

A unit in which chosen slots hold a cast of what they held. Whether a slot gets one is read off the
unit as it is given, so no choice hangs on the casts made elsewhere.
-/

set_option autoImplicit false

namespace NullabilityCasts

namespace Expr

def castIf (e : Expr) : Option Ty → Expr
  | none => e
  | some target => e.castTo target

mutual

def withCasts (cast : Slot → Option Ty) : Expr → Expr
  | literal i value => literal i value
  | localVar i name => localVar i name
  | this i => this i
  | field i qualifier f => field i (qualifierWithCasts cast qualifier) f
  | call i qualifier m args =>
    call i (qualifierWithCasts cast qualifier) m (argumentsWithCasts cast m args.length 0 args)
  | new i m args => new i m (argumentsWithCasts cast m args.length 0 args)
  | assign i target value =>
    assign i (withCasts cast target)
      ((withCasts cast value).castIf (cast ⟨.typed .assignment target.ty, value.ty⟩))
  | .cast i operand target =>
    .cast i ((withCasts cast operand).castIf (cast ⟨.typed .castOperand target, operand.ty⟩)) target
  | binary i op left right => binary i op (withCasts cast left) (withCasts cast right)
  | unary i op operand => unary i op (withCasts cast operand)
  | conditional i condition whenTrue whenFalse =>
    conditional i
      ((withCasts cast condition).castIf (cast ⟨.typed .condition Ty.boolean, condition.ty⟩))
      ((withCasts cast whenTrue).castIf (cast ⟨.typed .assignment i.ty, whenTrue.ty⟩))
      ((withCasts cast whenFalse).castIf (cast ⟨.typed .assignment i.ty, whenFalse.ty⟩))
  | arrayLit i elements =>
    arrayLit i (match i.ty with
      | .array component _ => elementsWithCasts cast component elements
      | _ => elements)
  | index i array position => index i (withCasts cast array) (withCasts cast position)

def qualifierWithCasts (cast : Slot → Option Ty) : Option Expr → Option Expr
  | none => none
  | some qualifier =>
    some ((withCasts cast qualifier).castIf (cast ⟨.qualifier, qualifier.ty⟩))

def argumentsWithCasts (cast : Slot → Option Ty) (m : MethodSig) (count position : Nat) :
    List Expr → List Expr
  | [] => []
  | arg :: rest =>
    (withCasts cast arg).castIf (cast ⟨.argument m count position, arg.ty⟩) ::
      argumentsWithCasts cast m count (position + 1) rest

def elementsWithCasts (cast : Slot → Option Ty) (component : Ty) : List Expr → List Expr
  | [] => []
  | element :: rest =>
    (withCasts cast element).castIf (cast ⟨.typed .assignment component, element.ty⟩) ::
      elementsWithCasts cast component rest

end

def slotWithCasts (cast : Slot → Option Ty) (kind : ConversionKind) (inferred : Ty) (e : Expr) :
    Expr :=
  (e.withCasts cast).castIf (cast ⟨.typed kind inferred, e.ty⟩)

end Expr

namespace Stmt

mutual

def withCasts (cast : Slot → Option Ty) (result : Option Ty) : Stmt → Stmt
  | declare span name ty init =>
    declare span name ty (init.map (Expr.slotWithCasts cast .assignment ty))
  | expr e => expr (e.withCasts cast)
  | ret span none => ret span none
  | ret span (some value) =>
    ret span (some ((value.withCasts cast).castIf (cast ⟨.returned span result, value.ty⟩)))
  | ifThen condition body =>
    ifThen (condition.slotWithCasts cast .condition Ty.boolean) (allWithCasts cast result body)
  | ifThenElse condition body otherwise =>
    ifThenElse (condition.slotWithCasts cast .condition Ty.boolean) (allWithCasts cast result body)
      (allWithCasts cast result otherwise)
  | .while condition body =>
    .while (condition.slotWithCasts cast .condition Ty.boolean) (allWithCasts cast result body)
  | block body => block (allWithCasts cast result body)
  | throw e => throw (e.withCasts cast)

def allWithCasts (cast : Slot → Option Ty) (result : Option Ty) : List Stmt → List Stmt
  | [] => []
  | s :: rest => withCasts cast result s :: allWithCasts cast result rest

end

end Stmt

namespace Member

mutual

def withCasts (cast : Slot → Option Ty) : Member → Member
  | field sig init => field sig (init.map (Expr.slotWithCasts cast .fieldInitializer sig.ty))
  | method sig params none => method sig params none
  | method sig params (some body) =>
    method sig params (some (Stmt.allWithCasts cast (some sig.result) body))
  | initializer body => initializer (Stmt.allWithCasts cast none body)
  | nested decl members => nested decl (allWithCasts cast members)

def allWithCasts (cast : Slot → Option Ty) : List Member → List Member
  | [] => []
  | m :: rest => withCasts cast m :: allWithCasts cast rest

end

end Member

def ClassDef.withCasts (cast : Slot → Option Ty) (c : ClassDef) : ClassDef :=
  { c with members := Member.allWithCasts cast c.members }

def SourceUnit.withCasts (cast : Slot → Option Ty) (u : SourceUnit) : SourceUnit :=
  { u with classes := u.classes.map (ClassDef.withCasts cast) }

namespace Expr

theorem info_withCasts (cast : Slot → Option Ty) (e : Expr) : (e.withCasts cast).info = e.info := by
  cases e with
  | _ => rfl

theorem ty_withCasts (cast : Slot → Option Ty) (e : Expr) : (e.withCasts cast).ty = e.ty :=
  congrArg Info.ty (info_withCasts cast e)

theorem length_argumentsWithCasts (cast : Slot → Option Ty) (m : MethodSig) (count position : Nat)
    (args : List Expr) : (argumentsWithCasts cast m count position args).length = args.length := by
  induction args generalizing position with
  | nil => rfl
  | cons arg rest ih => exact congrArg Nat.succ (ih (position + 1))

end Expr

def Site.NoneCast (cast : Slot → Option Ty) (sites : List Site) : Prop :=
  ∀ s, .slot s ∈ sites → cast s = none

namespace Site

variable {cast : Slot → Option Ty}

theorem noneCast_append {first later : List Site} :
    NoneCast cast (first ++ later) ↔ NoneCast cast first ∧ NoneCast cast later := by
  simp only [NoneCast, List.mem_append]
  exact ⟨fun h => ⟨fun s inside => h s (.inl inside), fun s inside => h s (.inr inside)⟩,
    fun h s inside => inside.elim (h.1 s) (h.2 s)⟩

theorem noneCast_slot_cons {s : Slot} {rest : List Site} :
    NoneCast cast (.slot s :: rest) ↔ cast s = none ∧ NoneCast cast rest := by
  simp only [NoneCast, List.mem_cons, Site.slot.injEq]
  exact ⟨fun h => ⟨h s (.inl rfl), fun s' inside => h s' (.inr inside)⟩,
    fun h s' inside => inside.elim (fun same => same ▸ h.1) (h.2 s')⟩

end Site

namespace Expr

open Site

mutual

theorem withCasts_of_noneCast {cast : Slot → Option Ty} (e : Expr) (h : NoneCast cast e.sites) :
    e.withCasts cast = e := by
  cases e with
  | literal i value => rfl
  | localVar i name => rfl
  | this i => rfl
  | field i qualifier f =>
    rw [withCasts, qualifierWithCasts_of_noneCast qualifier h]
  | call i qualifier m args =>
    obtain ⟨inQualifier, later⟩ := noneCast_append.mp h
    obtain ⟨_, inArgs⟩ := noneCast_append.mp later
    rw [withCasts, qualifierWithCasts_of_noneCast qualifier inQualifier,
      argumentsWithCasts_of_noneCast args inArgs]
  | new i m args =>
    rw [withCasts, argumentsWithCasts_of_noneCast args (noneCast_append.mp h).2]
  | assign i target value =>
    obtain ⟨inTarget, later⟩ := noneCast_append.mp h
    obtain ⟨inValue, last⟩ := noneCast_append.mp later
    rw [withCasts, withCasts_of_noneCast target inTarget, withCasts_of_noneCast value inValue,
      (noneCast_slot_cons.mp last).1, castIf]
  | cast i operand target =>
    obtain ⟨inOperand, last⟩ := noneCast_append.mp h
    rw [withCasts, withCasts_of_noneCast operand inOperand, (noneCast_slot_cons.mp last).1, castIf]
  | binary i op left right =>
    obtain ⟨inLeft, inRight⟩ := noneCast_append.mp h
    rw [withCasts, withCasts_of_noneCast left inLeft, withCasts_of_noneCast right inRight]
  | unary i op operand => rw [withCasts, withCasts_of_noneCast operand h]
  | conditional i condition whenTrue whenFalse =>
    obtain ⟨inCondition, later⟩ := noneCast_append.mp h
    obtain ⟨atCondition, later⟩ := noneCast_slot_cons.mp later
    obtain ⟨inTrue, later⟩ := noneCast_append.mp later
    obtain ⟨atTrue, later⟩ := noneCast_slot_cons.mp later
    obtain ⟨inFalse, last⟩ := noneCast_append.mp later
    rw [withCasts, withCasts_of_noneCast condition inCondition,
      withCasts_of_noneCast whenTrue inTrue, withCasts_of_noneCast whenFalse inFalse, atCondition,
      atTrue, (noneCast_slot_cons.mp last).1]
    rfl
  | arrayLit i elements =>
    obtain ⟨span, ty⟩ := i
    cases ty with
    | array component nullable =>
      exact congrArg (arrayLit _) (elementsWithCasts_of_noneCast elements h)
    | _ => rfl
  | index i array position =>
    obtain ⟨inArray, inPosition⟩ := noneCast_append.mp h
    rw [withCasts, withCasts_of_noneCast array inArray, withCasts_of_noneCast position inPosition]

theorem qualifierWithCasts_of_noneCast {cast : Slot → Option Ty} (qualifier : Option Expr)
    (h : NoneCast cast (qualifierSites qualifier)) :
    qualifierWithCasts cast qualifier = qualifier := by
  cases qualifier with
  | none => rfl
  | some e =>
    obtain ⟨inside, last⟩ := noneCast_append.mp h
    rw [qualifierWithCasts, withCasts_of_noneCast e inside, (noneCast_slot_cons.mp last).1, castIf]

theorem argumentsWithCasts_of_noneCast {cast : Slot → Option Ty} {m : MethodSig}
    {count position : Nat} (args : List Expr)
    (h : NoneCast cast (argumentSites m count position args)) :
    argumentsWithCasts cast m count position args = args := by
  cases args with
  | nil => rfl
  | cons arg rest =>
    obtain ⟨inArg, later⟩ := noneCast_append.mp h
    obtain ⟨atArg, inRest⟩ := noneCast_slot_cons.mp later
    rw [argumentsWithCasts, withCasts_of_noneCast arg inArg, atArg,
      argumentsWithCasts_of_noneCast rest inRest, castIf]

theorem elementsWithCasts_of_noneCast {cast : Slot → Option Ty} {component : Ty}
    (elements : List Expr) (h : NoneCast cast (elementSites component elements)) :
    elementsWithCasts cast component elements = elements := by
  cases elements with
  | nil => rfl
  | cons element rest =>
    obtain ⟨inElement, later⟩ := noneCast_append.mp h
    obtain ⟨atElement, inRest⟩ := noneCast_slot_cons.mp later
    rw [elementsWithCasts, withCasts_of_noneCast element inElement, atElement,
      elementsWithCasts_of_noneCast rest inRest, castIf]

end

theorem slotWithCasts_of_noneCast {cast : Slot → Option Ty} {kind : ConversionKind} {inferred : Ty}
    (e : Expr) (h : NoneCast cast (e.slotSites kind inferred)) :
    e.slotWithCasts cast kind inferred = e := by
  obtain ⟨inside, last⟩ := noneCast_append.mp h
  rw [slotWithCasts, withCasts_of_noneCast e inside, (noneCast_slot_cons.mp last).1, castIf]

theorem map_slotWithCasts_of_noneCast {cast : Slot → Option Ty} {kind : ConversionKind}
    {inferred : Ty} (slot : Option Expr)
    (h : NoneCast cast (optionalSlotSites kind inferred slot)) :
    slot.map (slotWithCasts cast kind inferred) = slot := by
  cases slot with
  | none => rfl
  | some e => exact congrArg some (slotWithCasts_of_noneCast e h)

end Expr

namespace Stmt

mutual

theorem withCasts_of_noneCast {cast : Slot → Option Ty} {result : Option Ty} (s : Stmt)
    (h : Site.NoneCast cast (s.sites result)) : s.withCasts cast result = s := by
  cases s with
  | declare span name ty init =>
    rw [withCasts, Expr.map_slotWithCasts_of_noneCast init h]
  | expr e => rw [withCasts, Expr.withCasts_of_noneCast e h]
  | ret span value =>
    cases value with
    | none => rfl
    | some e =>
      obtain ⟨inside, last⟩ := Site.noneCast_append.mp h
      rw [withCasts, Expr.withCasts_of_noneCast e inside, (Site.noneCast_slot_cons.mp last).1,
        Expr.castIf]
  | ifThen condition body =>
    obtain ⟨inCondition, inBody⟩ := Site.noneCast_append.mp h
    rw [withCasts, Expr.slotWithCasts_of_noneCast condition inCondition,
      allWithCasts_of_noneCast body inBody]
  | ifThenElse condition body otherwise =>
    obtain ⟨inCondition, later⟩ := Site.noneCast_append.mp h
    obtain ⟨inBody, inOtherwise⟩ := Site.noneCast_append.mp later
    rw [withCasts, Expr.slotWithCasts_of_noneCast condition inCondition,
      allWithCasts_of_noneCast body inBody, allWithCasts_of_noneCast otherwise inOtherwise]
  | «while» condition body =>
    obtain ⟨inCondition, inBody⟩ := Site.noneCast_append.mp h
    rw [withCasts, Expr.slotWithCasts_of_noneCast condition inCondition,
      allWithCasts_of_noneCast body inBody]
  | block body => rw [withCasts, allWithCasts_of_noneCast body h]
  | throw e => rw [withCasts, Expr.withCasts_of_noneCast e h]

theorem allWithCasts_of_noneCast {cast : Slot → Option Ty} {result : Option Ty} (body : List Stmt)
    (h : Site.NoneCast cast (allSites result body)) : allWithCasts cast result body = body := by
  cases body with
  | nil => rfl
  | cons s rest =>
    obtain ⟨inFirst, inRest⟩ := Site.noneCast_append.mp h
    rw [allWithCasts, withCasts_of_noneCast s inFirst, allWithCasts_of_noneCast rest inRest]

end

end Stmt

namespace Member

mutual

theorem withCasts_of_noneCast {cast : Slot → Option Ty} (m : Member)
    (h : Site.NoneCast cast m.sites) : m.withCasts cast = m := by
  cases m with
  | field sig init => rw [withCasts, Expr.map_slotWithCasts_of_noneCast init h]
  | method sig params body =>
    cases body with
    | none => rfl
    | some body => rw [withCasts, Stmt.allWithCasts_of_noneCast body h]
  | initializer body => rw [withCasts, Stmt.allWithCasts_of_noneCast body h]
  | nested decl members => rw [withCasts, allWithCasts_of_noneCast members h]

theorem allWithCasts_of_noneCast {cast : Slot → Option Ty} (members : List Member)
    (h : Site.NoneCast cast (allSites members)) : allWithCasts cast members = members := by
  cases members with
  | nil => rfl
  | cons m rest =>
    obtain ⟨inFirst, inRest⟩ := Site.noneCast_append.mp h
    rw [allWithCasts, withCasts_of_noneCast m inFirst, allWithCasts_of_noneCast rest inRest]

end

end Member

theorem SourceUnit.withCasts_of_noneCast {cast : Slot → Option Ty} (u : SourceUnit)
    (h : ∀ s ∈ u.slots, cast s = none) : u.withCasts cast = u := by
  have unchanged : ∀ c ∈ u.classes, c.withCasts cast = c := by
    intro c inside
    rw [ClassDef.withCasts, Member.allWithCasts_of_noneCast c.members]
    exact fun s site => h s (mem_slots.mpr (List.mem_flatMap.mpr ⟨c, inside, site⟩))
  rw [SourceUnit.withCasts, List.map_congr_left unchanged, List.map_id']

end NullabilityCasts
