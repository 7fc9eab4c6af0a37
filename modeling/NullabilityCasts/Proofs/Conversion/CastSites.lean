import NullabilityCasts.Proofs.Conversion.Casts

/-!
# The sites of a unit with casts

A cast adds one slot, that of its operand, and changes the type of what the slot around it holds.
Nothing else about the sites of a unit hangs on its casts.
-/

set_option autoImplicit false

namespace NullabilityCasts

/-- What has become of a site. A slot with a cast comes after the slot of the operand. -/
def Site.afterCasts (cast : Slot → Option Ty) : Site → List Site
  | slot s =>
    match cast s with
    | some target => [.typed .castOperand target s.actual, .slot { s with actual := target }]
    | none => [.slot s]
  | violation v => [.violation v]

variable {cast : Slot → Option Ty}

theorem MethodSig.flatMap_countSites (m : MethodSig) (count : Nat) :
    (m.countSites count).flatMap (Site.afterCasts cast) = m.countSites count := by
  unfold countSites
  split <;> rfl

namespace Expr

open Site

theorem sites_castIf_append (place : Place) (e : Expr) {actual : Ty} (typed : e.ty = actual)
    (rest : List Site) :
    (e.castIf (cast ⟨place, actual⟩)).sites ++
        (.slot ⟨place, (e.castIf (cast ⟨place, actual⟩)).ty⟩ :: rest)
      = e.sites ++ (afterCasts cast (.slot ⟨place, actual⟩) ++ rest) := by
  subst typed
  cases chosen : cast ⟨place, e.ty⟩ with
  | none => simp only [castIf, afterCasts, chosen, List.cons_append, List.nil_append]
  | some target =>
    simp only [castIf, afterCasts, chosen, castTo, sites, List.append_assoc, List.cons_append,
      List.nil_append]
    rfl

mutual

theorem sites_withCasts (e : Expr) :
    (e.withCasts cast).sites = e.sites.flatMap (afterCasts cast) := by
  cases e with
  | literal i value => rfl
  | localVar i name => rfl
  | this i => rfl
  | field i qualifier f => exact qualifierSites_withCasts qualifier
  | call i qualifier m args =>
    rw [withCasts, sites, sites, length_argumentsWithCasts, qualifierSites_withCasts qualifier,
      argumentSites_withCasts args, List.flatMap_append, List.flatMap_append,
      m.flatMap_countSites]
  | new i m args =>
    rw [withCasts, sites, sites, length_argumentsWithCasts, argumentSites_withCasts args,
      List.flatMap_append, m.flatMap_countSites]
  | assign i target value =>
    rw [withCasts, sites, sites, ty_withCasts, Site.typed,
      sites_castIf_append _ _ (ty_withCasts cast value), sites_withCasts target,
      sites_withCasts value]
    simp only [List.flatMap_append, List.flatMap_cons, List.flatMap_nil, List.append_nil,
      Site.typed]
  | cast i operand target =>
    rw [withCasts, sites, sites, Site.typed, sites_castIf_append _ _ (ty_withCasts cast operand),
      sites_withCasts operand]
    simp only [List.flatMap_append, List.flatMap_cons, List.flatMap_nil, List.append_nil,
      Site.typed]
  | binary i op left right =>
    rw [withCasts, sites, sites, sites_withCasts left, sites_withCasts right, List.flatMap_append]
  | unary i op operand => exact sites_withCasts operand
  | conditional i condition whenTrue whenFalse =>
    rw [withCasts, sites, sites, Site.typed, sites_castIf_append _ _ (ty_withCasts cast condition),
      Site.typed, sites_castIf_append _ _ (ty_withCasts cast whenTrue),
      Site.typed, sites_castIf_append _ _ (ty_withCasts cast whenFalse), sites_withCasts condition,
      sites_withCasts whenTrue, sites_withCasts whenFalse]
    simp only [List.flatMap_append, List.flatMap_cons, List.flatMap_nil, List.append_nil,
      Site.typed]
  | arrayLit i elements =>
    obtain ⟨span, ty⟩ := i
    cases ty with
    | array component nullable => exact elementSites_withCasts elements
    | _ => rfl
  | index i array position =>
    rw [withCasts, sites, sites, sites_withCasts array, sites_withCasts position,
      List.flatMap_append]

theorem qualifierSites_withCasts (qualifier : Option Expr) :
    qualifierSites (qualifierWithCasts cast qualifier)
      = (qualifierSites qualifier).flatMap (afterCasts cast) := by
  cases qualifier with
  | none => rfl
  | some e =>
    rw [qualifierWithCasts, qualifierSites, qualifierSites,
      sites_castIf_append _ _ (ty_withCasts cast e), sites_withCasts e, List.flatMap_append,
      List.flatMap_cons, List.flatMap_nil]

theorem argumentSites_withCasts {m : MethodSig} {count position : Nat} (args : List Expr) :
    argumentSites m count position (argumentsWithCasts cast m count position args)
      = (argumentSites m count position args).flatMap (afterCasts cast) := by
  cases args with
  | nil => rfl
  | cons arg rest =>
    rw [argumentsWithCasts, argumentSites, argumentSites,
      sites_castIf_append _ _ (ty_withCasts cast arg), sites_withCasts arg,
      argumentSites_withCasts rest, List.flatMap_append, List.flatMap_cons]

theorem elementSites_withCasts {component : Ty} (elements : List Expr) :
    elementSites component (elementsWithCasts cast component elements)
      = (elementSites component elements).flatMap (afterCasts cast) := by
  cases elements with
  | nil => rfl
  | cons element rest =>
    rw [elementsWithCasts, elementSites, elementSites, Site.typed,
      sites_castIf_append _ _ (ty_withCasts cast element), sites_withCasts element,
      elementSites_withCasts rest, List.flatMap_append, Site.typed, List.flatMap_cons]

end

theorem slotSites_slotWithCasts {kind : ConversionKind} {inferred : Ty} (e : Expr) :
    (e.slotWithCasts cast kind inferred).slotSites kind inferred
      = (e.slotSites kind inferred).flatMap (afterCasts cast) := by
  rw [slotWithCasts, slotSites, slotSites, Site.typed,
    sites_castIf_append _ _ (ty_withCasts cast e), sites_withCasts e, List.flatMap_append,
    Site.typed, List.flatMap_cons, List.flatMap_nil]

theorem optionalSlotSites_map {kind : ConversionKind} {inferred : Ty} (slot : Option Expr) :
    optionalSlotSites kind inferred (slot.map (slotWithCasts cast kind inferred))
      = (optionalSlotSites kind inferred slot).flatMap (afterCasts cast) := by
  cases slot with
  | none => rfl
  | some e => exact slotSites_slotWithCasts e

end Expr

namespace Stmt

mutual

theorem sites_withCasts {result : Option Ty} (s : Stmt) :
    (s.withCasts cast result).sites result = (s.sites result).flatMap (Site.afterCasts cast) := by
  cases s with
  | declare span name ty init => exact Expr.optionalSlotSites_map init
  | expr e => exact Expr.sites_withCasts e
  | ret span value =>
    cases value with
    | none => rfl
    | some e =>
      rw [withCasts, sites, sites, Expr.sites_castIf_append _ _ (Expr.ty_withCasts cast e),
        Expr.sites_withCasts e, List.flatMap_append, List.flatMap_cons, List.flatMap_nil]
  | ifThen condition body =>
    rw [withCasts, sites, sites, Expr.slotSites_slotWithCasts condition, allSites_withCasts body,
      List.flatMap_append]
  | ifThenElse condition body otherwise =>
    rw [withCasts, sites, sites, Expr.slotSites_slotWithCasts condition, allSites_withCasts body,
      allSites_withCasts otherwise, List.flatMap_append, List.flatMap_append]
  | «while» condition body =>
    rw [withCasts, sites, sites, Expr.slotSites_slotWithCasts condition, allSites_withCasts body,
      List.flatMap_append]
  | block body => exact allSites_withCasts body
  | throw e => exact Expr.sites_withCasts e

theorem allSites_withCasts {result : Option Ty} (body : List Stmt) :
    allSites result (allWithCasts cast result body)
      = (allSites result body).flatMap (Site.afterCasts cast) := by
  cases body with
  | nil => rfl
  | cons s rest =>
    rw [allWithCasts, allSites, allSites, sites_withCasts s, allSites_withCasts rest,
      List.flatMap_append]

end

end Stmt

namespace Member

mutual

theorem sites_withCasts (m : Member) :
    (m.withCasts cast).sites = m.sites.flatMap (Site.afterCasts cast) := by
  cases m with
  | field sig init => exact Expr.optionalSlotSites_map init
  | method sig params body =>
    cases body with
    | none => rfl
    | some body => exact Stmt.allSites_withCasts body
  | initializer body => exact Stmt.allSites_withCasts body
  | nested decl members => exact allSites_withCasts members

theorem allSites_withCasts (members : List Member) :
    allSites (allWithCasts cast members)
      = (allSites members).flatMap (Site.afterCasts cast) := by
  cases members with
  | nil => rfl
  | cons m rest =>
    rw [allWithCasts, allSites, allSites, sites_withCasts m, allSites_withCasts rest,
      List.flatMap_append]

end

end Member

theorem SourceUnit.sites_withCasts (u : SourceUnit) :
    (u.withCasts cast).sites = u.sites.flatMap (Site.afterCasts cast) := by
  rw [sites, sites, withCasts, List.flatMap_map, List.flatMap_assoc]
  congr 1
  funext c
  exact Member.allSites_withCasts c.members

end NullabilityCasts
