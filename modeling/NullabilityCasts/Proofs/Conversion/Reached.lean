import NullabilityCasts.Proofs.Conversion.Calls

/-!
# What a walk comes to

The arguments of a call are only visited if their number was accepted, so the parameter of every
argument that a walk comes to is there.
-/

set_option autoImplicit false

namespace NullabilityCasts

namespace Site

/-- A site as a walk may come to it: an argument has a parameter, and a part of the unit that is not
as it should be is a call with a wrong number of arguments or an array literal that is no array. -/
def Regular : Site → Prop
  | slot ⟨.argument m _ position, _⟩ => m.paramIndex position < m.params.length
  | slot _ => True
  | violation v =>
    (∃ m count, MethodSig.accepts m count = false ∧ v = m.countViolation count) ∨
      ∃ span ty, v = .arrayLiteralType span ty

def RegularUntilViolation : List Site → Prop
  | [] => True
  | site :: rest => site.Regular ∧ (site.violation? = none → RegularUntilViolation rest)

namespace RegularUntilViolation

theorem nil : RegularUntilViolation [] := trivial

theorem cons {site : Site} {rest : List Site} (first : site.Regular)
    (later : RegularUntilViolation rest) : RegularUntilViolation (site :: rest) :=
  ⟨first, fun _ => later⟩

theorem append {sites later : List Site} (first : RegularUntilViolation sites)
    (next : RegularUntilViolation later) : RegularUntilViolation (sites ++ later) := by
  induction sites with
  | nil => exact next
  | cons site rest ih => exact ⟨first.1, fun passed => ih (first.2 passed)⟩

theorem regular {before after : List Site} {site : Site}
    (all : RegularUntilViolation (before ++ site :: after)) (passed : violations before = []) :
    site.Regular := by
  induction before with
  | nil => exact all.1
  | cons first rest ih =>
    cases violates : first.violation? with
    | some v => simp [violations, violates] at passed
    | none =>
      have later : violations rest = [] := by simpa [violations, violates] using passed
      exact ih (all.2 violates) later

end RegularUntilViolation

theorem regular_typed (kind : ConversionKind) (inferred actual : Ty) :
    (typed kind inferred actual).Regular := trivial

end Site

open Site RegularUntilViolation

namespace Expr

mutual

theorem regular_sites (e : Expr) : RegularUntilViolation e.sites := by
  cases e with
  | literal i value => exact nil
  | localVar i name => exact nil
  | this i => exact nil
  | field i qualifier f => exact regular_qualifierSites qualifier
  | call i qualifier m args =>
    exact (regular_qualifierSites qualifier).append (regular_countedSites m args)
  | new i m args => exact regular_countedSites m args
  | assign i target value =>
    exact (regular_sites target).append
      ((regular_sites value).append (cons (regular_typed _ _ _) nil))
  | cast i operand target => exact (regular_sites operand).append (cons (regular_typed _ _ _) nil)
  | binary i op left right => exact (regular_sites left).append (regular_sites right)
  | unary i op operand => exact regular_sites operand
  | conditional i condition whenTrue whenFalse =>
    exact (regular_sites condition).append (cons (regular_typed _ _ _)
      ((regular_sites whenTrue).append (cons (regular_typed _ _ _)
        ((regular_sites whenFalse).append (cons (regular_typed _ _ _) nil)))))
  | arrayLit i elements =>
    obtain ⟨span, ty⟩ := i
    cases ty with
    | array component nullable => exact regular_elementSites component elements
    | _ => exact cons (.inr ⟨_, _, rfl⟩) nil
  | index i array position => exact (regular_sites array).append (regular_sites position)

theorem regular_qualifierSites (qualifier : Option Expr) :
    RegularUntilViolation (qualifierSites qualifier) := by
  cases qualifier with
  | none => exact nil
  | some e => exact (regular_sites e).append (cons trivial nil)

/-- If the number of arguments is not accepted, what comes after does not matter. -/
theorem regular_countedSites (m : MethodSig) (args : List Expr) :
    RegularUntilViolation (m.countSites args.length ++ argumentSites m args.length 0 args) := by
  rw [m.countSites_eq]
  cases accepted : m.accepts args.length with
  | false => exact ⟨.inl ⟨m, args.length, accepted, rfl⟩, fun passed => by cases passed⟩
  | true => exact regular_argumentSites accepted 0 args (Nat.le_of_eq (Nat.zero_add _))

theorem regular_argumentSites {m : MethodSig} {count : Nat} (accepted : m.accepts count = true)
    (position : Nat) (args : List Expr) (inside : position + args.length ≤ count) :
    RegularUntilViolation (argumentSites m count position args) := by
  cases args with
  | nil => exact nil
  | cons arg rest =>
    rw [List.length_cons] at inside
    have here : m.paramIndex position < m.params.length :=
      MethodSig.paramIndex_lt accepted (by omega)
    exact (regular_sites arg).append
      (cons here (regular_argumentSites accepted (position + 1) rest (by omega)))

theorem regular_elementSites (component : Ty) (elements : List Expr) :
    RegularUntilViolation (elementSites component elements) := by
  cases elements with
  | nil => exact nil
  | cons element rest =>
    exact (regular_sites element).append
      (cons (regular_typed _ _ _) (regular_elementSites component rest))

end

theorem regular_slotSites (kind : ConversionKind) (inferred : Ty) (e : Expr) :
    RegularUntilViolation (e.slotSites kind inferred) :=
  (regular_sites e).append (cons (regular_typed _ _ _) nil)

theorem regular_optionalSlotSites (kind : ConversionKind) (inferred : Ty) (slot : Option Expr) :
    RegularUntilViolation (optionalSlotSites kind inferred slot) := by
  cases slot with
  | none => exact nil
  | some e => exact regular_slotSites kind inferred e

end Expr

namespace Stmt

mutual

theorem regular_sites (result : Option Ty) (s : Stmt) :
    RegularUntilViolation (s.sites result) := by
  cases s with
  | declare span name ty init => exact Expr.regular_optionalSlotSites _ ty init
  | expr e => exact Expr.regular_sites e
  | ret span value =>
    cases value with
    | none => exact nil
    | some e => exact (Expr.regular_sites e).append (cons trivial nil)
  | ifThen condition body =>
    exact (Expr.regular_slotSites _ _ condition).append (regular_allSites result body)
  | ifThenElse condition body otherwise =>
    exact (Expr.regular_slotSites _ _ condition).append
      ((regular_allSites result body).append (regular_allSites result otherwise))
  | «while» condition body =>
    exact (Expr.regular_slotSites _ _ condition).append (regular_allSites result body)
  | block body => exact regular_allSites result body
  | throw e => exact Expr.regular_sites e

theorem regular_allSites (result : Option Ty) (body : List Stmt) :
    RegularUntilViolation (allSites result body) := by
  cases body with
  | nil => exact nil
  | cons s rest => exact (regular_sites result s).append (regular_allSites result rest)

end

end Stmt

namespace Member

mutual

theorem regular_sites (m : Member) : RegularUntilViolation m.sites := by
  cases m with
  | field sig init => exact Expr.regular_optionalSlotSites _ _ init
  | method sig params body =>
    cases body with
    | none => exact nil
    | some body => exact Stmt.regular_allSites _ body
  | initializer body => exact Stmt.regular_allSites none body
  | nested decl members => exact regular_allSites members

theorem regular_allSites (members : List Member) : RegularUntilViolation (allSites members) := by
  cases members with
  | nil => exact nil
  | cons m rest => exact (regular_sites m).append (regular_allSites rest)

end

end Member

theorem SourceUnit.regular_sites (u : SourceUnit) : RegularUntilViolation u.sites := by
  unfold sites
  induction u.classes with
  | nil => exact nil
  | cons c rest ih => exact (Member.regular_allSites c.members).append ih

end NullabilityCasts
