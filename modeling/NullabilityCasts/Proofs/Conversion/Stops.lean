import NullabilityCasts.Proofs.Conversion.Sites

/-!
# The stops of a unit

The sites of a unit with the expressions that stand in its slots. A slot comes right after the stops
inside it, so the stops go from the inside out.
-/

set_option autoImplicit false

namespace NullabilityCasts

inductive Stop where
  | slot (place : Place) (e : Expr)
  | violation (v : Violation)

def Stop.site : Stop → Site
  | slot place e => .slot ⟨place, e.ty⟩
  | violation v => .violation v

def MethodSig.countStops (m : MethodSig) (count : Nat) : List Stop :=
  if m.Takes count then []
  else [.violation (.argumentCount count m.name m.isVariadic m.params.length)]

theorem MethodSig.countStops_eq (m : MethodSig) (count : Nat) :
    m.countStops count = if m.accepts count then [] else [.violation (m.countViolation count)] := by
  simp only [countStops, m.takes_iff, countViolation]

namespace Expr

mutual

def stops : Expr → List Stop
  | literal _ _ | localVar _ _ | this _ => []
  | field _ qualifier _ => qualifierStops qualifier
  | call _ qualifier m args =>
    qualifierStops qualifier ++ (m.countStops args.length ++ argumentStops m args.length 0 args)
  | new _ m args => m.countStops args.length ++ argumentStops m args.length 0 args
  | assign _ target value =>
    stops target ++ (stops value ++ [.slot (.typed .assignment target.ty) value])
  | cast _ operand target => stops operand ++ [.slot (.typed .castOperand target) operand]
  | binary _ _ left right => stops left ++ stops right
  | unary _ _ operand => stops operand
  | conditional i condition whenTrue whenFalse =>
    stops condition ++ (.slot (.typed .condition Ty.boolean) condition ::
      (stops whenTrue ++ (.slot (.typed .assignment i.ty) whenTrue ::
        (stops whenFalse ++ [.slot (.typed .assignment i.ty) whenFalse]))))
  | arrayLit i elements =>
    match i.ty with
    | .array component _ => elementStops component elements
    | ty => [.violation (.arrayLiteralType i.span ty)]
  | index _ array position => stops array ++ stops position

def qualifierStops : Option Expr → List Stop
  | none => []
  | some qualifier => stops qualifier ++ [.slot .qualifier qualifier]

def argumentStops (m : MethodSig) (count position : Nat) : List Expr → List Stop
  | [] => []
  | arg :: rest =>
    stops arg ++ (.slot (.argument m count position) arg ::
      argumentStops m count (position + 1) rest)

def elementStops (component : Ty) : List Expr → List Stop
  | [] => []
  | element :: rest =>
    stops element ++ (.slot (.typed .assignment component) element ::
      elementStops component rest)

end

def slotStops (kind : ConversionKind) (inferred : Ty) (e : Expr) : List Stop :=
  e.stops ++ [.slot (.typed kind inferred) e]

def optionalSlotStops (kind : ConversionKind) (inferred : Ty) : Option Expr → List Stop
  | none => []
  | some e => e.slotStops kind inferred

end Expr

namespace Stmt

mutual

def stops (result : Option Ty) : Stmt → List Stop
  | declare _ _ ty init => Expr.optionalSlotStops .assignment ty init
  | expr e => e.stops
  | ret _ none => []
  | ret span (some value) => value.stops ++ [.slot (.returned span result) value]
  | ifThen condition body => condition.slotStops .condition Ty.boolean ++ allStops result body
  | ifThenElse condition body otherwise =>
    condition.slotStops .condition Ty.boolean ++ (allStops result body ++ allStops result otherwise)
  | .while condition body => condition.slotStops .condition Ty.boolean ++ allStops result body
  | block body => allStops result body
  | throw e => e.stops

def allStops (result : Option Ty) : List Stmt → List Stop
  | [] => []
  | s :: rest => stops result s ++ allStops result rest

end

end Stmt

namespace Member

mutual

def stops : Member → List Stop
  | field sig init => Expr.optionalSlotStops .fieldInitializer sig.ty init
  | method _ _ none => []
  | method sig _ (some body) => Stmt.allStops (some sig.result) body
  | initializer body => Stmt.allStops none body
  | nested _ members => allStops members

def allStops : List Member → List Stop
  | [] => []
  | m :: rest => stops m ++ allStops rest

end

end Member

def SourceUnit.stops (u : SourceUnit) : List Stop :=
  u.classes.flatMap fun c => Member.allStops c.members

theorem MethodSig.map_site_countStops (m : MethodSig) (count : Nat) :
    (m.countStops count).map Stop.site = m.countSites count := by
  unfold countStops countSites
  split <;> rfl

namespace Expr

mutual

theorem map_site_stops (e : Expr) : e.stops.map Stop.site = e.sites := by
  cases e with
  | literal i value => rfl
  | localVar i name => rfl
  | this i => rfl
  | field i qualifier f => exact map_site_qualifierStops qualifier
  | call i qualifier m args =>
    rw [stops, sites, List.map_append, List.map_append, map_site_qualifierStops qualifier,
      m.map_site_countStops, map_site_argumentStops args]
  | new i m args =>
    rw [stops, sites, List.map_append, m.map_site_countStops, map_site_argumentStops args]
  | assign i target value =>
    rw [stops, sites, List.map_append, List.map_append, map_site_stops target,
      map_site_stops value]
    rfl
  | cast i operand target =>
    rw [stops, sites, List.map_append, map_site_stops operand]
    rfl
  | binary i op left right =>
    rw [stops, sites, List.map_append, map_site_stops left, map_site_stops right]
  | unary i op operand => exact map_site_stops operand
  | conditional i condition whenTrue whenFalse =>
    rw [stops, sites, List.map_append, List.map_cons, List.map_append, List.map_cons,
      List.map_append, map_site_stops condition, map_site_stops whenTrue,
      map_site_stops whenFalse]
    rfl
  | arrayLit i elements =>
    obtain ⟨span, ty⟩ := i
    cases ty with
    | array component nullable => exact map_site_elementStops elements
    | _ => rfl
  | index i array position =>
    rw [stops, sites, List.map_append, map_site_stops array, map_site_stops position]

theorem map_site_qualifierStops (qualifier : Option Expr) :
    (qualifierStops qualifier).map Stop.site = qualifierSites qualifier := by
  cases qualifier with
  | none => rfl
  | some e =>
    rw [qualifierStops, qualifierSites, List.map_append, map_site_stops e]
    rfl

theorem map_site_argumentStops {m : MethodSig} {count position : Nat} (args : List Expr) :
    (argumentStops m count position args).map Stop.site = argumentSites m count position args := by
  cases args with
  | nil => rfl
  | cons arg rest =>
    rw [argumentStops, argumentSites, List.map_append, List.map_cons, map_site_stops arg,
      map_site_argumentStops rest]
    rfl

theorem map_site_elementStops {component : Ty} (elements : List Expr) :
    (elementStops component elements).map Stop.site = elementSites component elements := by
  cases elements with
  | nil => rfl
  | cons element rest =>
    rw [elementStops, elementSites, List.map_append, List.map_cons, map_site_stops element,
      map_site_elementStops rest]
    rfl

end

theorem map_site_slotStops {kind : ConversionKind} {inferred : Ty} (e : Expr) :
    (e.slotStops kind inferred).map Stop.site = e.slotSites kind inferred := by
  rw [slotStops, slotSites, List.map_append, map_site_stops e]
  rfl

theorem map_site_optionalSlotStops {kind : ConversionKind} {inferred : Ty} (slot : Option Expr) :
    (optionalSlotStops kind inferred slot).map Stop.site
      = optionalSlotSites kind inferred slot := by
  cases slot with
  | none => rfl
  | some e => exact map_site_slotStops e

end Expr

namespace Stmt

mutual

theorem map_site_stops {result : Option Ty} (s : Stmt) :
    (s.stops result).map Stop.site = s.sites result := by
  cases s with
  | declare span name ty init => exact Expr.map_site_optionalSlotStops init
  | expr e => exact Expr.map_site_stops e
  | ret span value =>
    cases value with
    | none => rfl
    | some e =>
      rw [stops, sites, List.map_append, Expr.map_site_stops e]
      rfl
  | ifThen condition body =>
    rw [stops, sites, List.map_append, Expr.map_site_slotStops condition, map_site_allStops body]
  | ifThenElse condition body otherwise =>
    rw [stops, sites, List.map_append, List.map_append, Expr.map_site_slotStops condition,
      map_site_allStops body, map_site_allStops otherwise]
  | «while» condition body =>
    rw [stops, sites, List.map_append, Expr.map_site_slotStops condition, map_site_allStops body]
  | block body => exact map_site_allStops body
  | throw e => exact Expr.map_site_stops e

theorem map_site_allStops {result : Option Ty} (body : List Stmt) :
    (allStops result body).map Stop.site = allSites result body := by
  cases body with
  | nil => rfl
  | cons s rest =>
    rw [allStops, allSites, List.map_append, map_site_stops s, map_site_allStops rest]

end

end Stmt

namespace Member

mutual

theorem map_site_stops (m : Member) : m.stops.map Stop.site = m.sites := by
  cases m with
  | field sig init => exact Expr.map_site_optionalSlotStops init
  | method sig params body =>
    cases body with
    | none => rfl
    | some body => exact Stmt.map_site_allStops body
  | initializer body => exact Stmt.map_site_allStops body
  | nested decl members => exact map_site_allStops members

theorem map_site_allStops (members : List Member) :
    (allStops members).map Stop.site = allSites members := by
  cases members with
  | nil => rfl
  | cons m rest =>
    rw [allStops, allSites, List.map_append, map_site_stops m, map_site_allStops rest]

end

end Member

theorem SourceUnit.map_site_stops (u : SourceUnit) : u.stops.map Stop.site = u.sites := by
  rw [stops, sites, List.map_flatMap]
  congr 1
  funext c
  exact Member.map_site_allStops c.members

/-- Every slot comes right after the stops inside it. -/
def Stop.InsideOut (stops : List Stop) : Prop :=
  ∀ before place e after, stops = before ++ .slot place e :: after → e.stops <:+ before

namespace Stop

theorem insideOut_nil : InsideOut [] := by
  intro before place e after empty
  simp at empty

theorem insideOut_append {first later : List Stop} (inFirst : InsideOut first)
    (inLater : InsideOut later) : InsideOut (first ++ later) := by
  intro before place e after parts
  rcases List.append_eq_append_iff.mp parts with ⟨passed, rfl, rest⟩ | ⟨passed, split, rest⟩
  · exact (inLater passed place e after rest).trans (List.suffix_append first passed)
  · cases passed with
    | nil =>
      -- The slot is the first of the later stops, so there is nothing inside it.
      have none : e.stops = [] := List.suffix_nil.mp (inLater [] place e after rest.symm)
      rw [none]
      exact List.nil_suffix
    | cons stop passed =>
      obtain ⟨rfl, _⟩ := List.cons_eq_cons.mp rest
      exact inFirst before place e passed split

theorem insideOut_violation (v : Violation) : InsideOut [.violation v] := by
  intro before place e after parts
  rcases List.singleton_eq_append_iff.mp parts with ⟨_, single⟩ | ⟨_, single⟩ <;> simp at single

theorem insideOut_slot {e : Expr} (inside : InsideOut e.stops) (place : Place) {later : List Stop}
    (inLater : InsideOut later) : InsideOut (e.stops ++ .slot place e :: later) := by
  intro before place' e' after parts
  rcases List.append_eq_append_iff.mp parts with ⟨passed, rfl, rest⟩ | ⟨passed, split, rest⟩
  · cases passed with
    | nil =>
      obtain ⟨same, _⟩ := List.cons_eq_cons.mp rest
      obtain ⟨_, rfl⟩ := Stop.slot.inj same
      exact (List.append_nil _).symm ▸ List.suffix_refl _
    | cons stop passed =>
      obtain ⟨_, rest⟩ := List.cons_eq_cons.mp rest
      exact (inLater passed place' e' after rest).trans
        ((List.suffix_cons stop passed).trans (List.suffix_append e.stops _))
  · cases passed with
    | nil =>
      obtain ⟨same, _⟩ := List.cons_eq_cons.mp rest
      obtain ⟨_, rfl⟩ := Stop.slot.inj same
      rw [List.append_nil] at split
      exact split ▸ List.suffix_refl _
    | cons stop passed =>
      obtain ⟨rfl, _⟩ := List.cons_eq_cons.mp rest
      exact inside before place' e' passed split

end Stop

namespace Expr

open Stop

theorem insideOut_countStops (m : MethodSig) (count : Nat) : InsideOut (m.countStops count) := by
  unfold MethodSig.countStops
  split
  · exact insideOut_nil
  · exact insideOut_violation _

mutual

theorem insideOut_stops (e : Expr) : InsideOut e.stops := by
  cases e with
  | literal i value => exact insideOut_nil
  | localVar i name => exact insideOut_nil
  | this i => exact insideOut_nil
  | field i qualifier f => exact insideOut_qualifierStops qualifier
  | call i qualifier m args =>
    exact insideOut_append (insideOut_qualifierStops qualifier)
      (insideOut_append (insideOut_countStops m args.length) (insideOut_argumentStops args))
  | new i m args =>
    exact insideOut_append (insideOut_countStops m args.length) (insideOut_argumentStops args)
  | assign i target value =>
    exact insideOut_append (insideOut_stops target)
      (insideOut_slot (insideOut_stops value) _ insideOut_nil)
  | cast i operand target => exact insideOut_slot (insideOut_stops operand) _ insideOut_nil
  | binary i op left right => exact insideOut_append (insideOut_stops left) (insideOut_stops right)
  | unary i op operand => exact insideOut_stops operand
  | conditional i condition whenTrue whenFalse =>
    exact insideOut_slot (insideOut_stops condition) _ (insideOut_slot (insideOut_stops whenTrue) _
      (insideOut_slot (insideOut_stops whenFalse) _ insideOut_nil))
  | arrayLit i elements =>
    obtain ⟨span, ty⟩ := i
    cases ty with
    | array component nullable => exact insideOut_elementStops elements
    | _ => exact insideOut_violation _
  | index i array position =>
    exact insideOut_append (insideOut_stops array) (insideOut_stops position)

theorem insideOut_qualifierStops (qualifier : Option Expr) :
    InsideOut (qualifierStops qualifier) := by
  cases qualifier with
  | none => exact insideOut_nil
  | some e => exact insideOut_slot (insideOut_stops e) _ insideOut_nil

theorem insideOut_argumentStops {m : MethodSig} {count position : Nat} (args : List Expr) :
    InsideOut (argumentStops m count position args) := by
  cases args with
  | nil => exact insideOut_nil
  | cons arg rest => exact insideOut_slot (insideOut_stops arg) _ (insideOut_argumentStops rest)

theorem insideOut_elementStops {component : Ty} (elements : List Expr) :
    InsideOut (elementStops component elements) := by
  cases elements with
  | nil => exact insideOut_nil
  | cons element rest =>
    exact insideOut_slot (insideOut_stops element) _ (insideOut_elementStops rest)

end

theorem insideOut_slotStops {kind : ConversionKind} {inferred : Ty} (e : Expr) :
    InsideOut (e.slotStops kind inferred) :=
  insideOut_slot (insideOut_stops e) _ insideOut_nil

theorem insideOut_optionalSlotStops {kind : ConversionKind} {inferred : Ty} (slot : Option Expr) :
    InsideOut (optionalSlotStops kind inferred slot) := by
  cases slot with
  | none => exact insideOut_nil
  | some e => exact insideOut_slotStops e

end Expr

namespace Stmt

open Stop

mutual

theorem insideOut_stops {result : Option Ty} (s : Stmt) : InsideOut (s.stops result) := by
  cases s with
  | declare span name ty init => exact Expr.insideOut_optionalSlotStops init
  | expr e => exact Expr.insideOut_stops e
  | ret span value =>
    cases value with
    | none => exact insideOut_nil
    | some e => exact insideOut_slot (Expr.insideOut_stops e) _ insideOut_nil
  | ifThen condition body =>
    exact insideOut_append (Expr.insideOut_slotStops condition) (insideOut_allStops body)
  | ifThenElse condition body otherwise =>
    exact insideOut_append (Expr.insideOut_slotStops condition)
      (insideOut_append (insideOut_allStops body) (insideOut_allStops otherwise))
  | «while» condition body =>
    exact insideOut_append (Expr.insideOut_slotStops condition) (insideOut_allStops body)
  | block body => exact insideOut_allStops body
  | throw e => exact Expr.insideOut_stops e

theorem insideOut_allStops {result : Option Ty} (body : List Stmt) :
    InsideOut (allStops result body) := by
  cases body with
  | nil => exact insideOut_nil
  | cons s rest => exact insideOut_append (insideOut_stops s) (insideOut_allStops rest)

end

end Stmt

namespace Member

open Stop

mutual

theorem insideOut_stops (m : Member) : InsideOut m.stops := by
  cases m with
  | field sig init => exact Expr.insideOut_optionalSlotStops init
  | method sig params body =>
    cases body with
    | none => exact insideOut_nil
    | some body => exact Stmt.insideOut_allStops body
  | initializer body => exact Stmt.insideOut_allStops body
  | nested decl members => exact insideOut_allStops members

theorem insideOut_allStops (members : List Member) : InsideOut (allStops members) := by
  cases members with
  | nil => exact insideOut_nil
  | cons m rest => exact insideOut_append (insideOut_stops m) (insideOut_allStops rest)

end

end Member

theorem SourceUnit.insideOut_stops (u : SourceUnit) : Stop.InsideOut u.stops := by
  rw [stops]
  induction u.classes with
  | nil => exact Stop.insideOut_nil
  | cons c rest ih => exact Stop.insideOut_append (Member.insideOut_allStops c.members) ih

end NullabilityCasts
