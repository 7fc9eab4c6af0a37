import NullabilityCasts.Proofs.ClassTable.Agreement
import NullabilityCasts.Proofs.ClassTable.Denotability
import Mathlib.Order.Defs.LinearOrder

/-!
# Types that differ in nullability alone

Of two types that are the same but for their nullability, the comparison of the arguments sees every
flag that differs, and nothing else. A union or an intersection could hide a difference among its
members, but a type with one in it is not denotable.
-/

set_option autoImplicit false

namespace NullabilityCasts

namespace Ty

mutual

def skeleton : Ty → Ty
  | .prim p => .prim p
  | .declared d _ args => .declared d false (skeletons args)
  | .array component _ => .array (skeleton component) false
  | .var v => .var { v with nullable := false }
  | .union members => .union (skeletons members)
  | .inter members => .inter (skeletons members)

def skeletons : List Ty → List Ty
  | [] => []
  | t :: rest => skeleton t :: skeletons rest

end

mutual

/-- The nullability flags of a type at all depths, from the outside in and from left to right. A
union or an intersection has those of its members. -/
def flags : Ty → List Bool
  | .prim _ => []
  | .declared _ nullable args => nullable :: allFlags args
  | .array component nullable => nullable :: flags component
  | .var v => [v.nullable]
  | .union members | .inter members => allFlags members

def allFlags : List Ty → List Bool
  | [] => []
  | t :: rest => flags t ++ allFlags rest

end

def argumentFlags (t : Ty) : List Bool := allFlags t.arguments

/-- Two types of one form, with the same skeletons inside. -/
inductive Alike : Ty → Ty → Prop where
  | prim (p : Primitive) : Alike (.prim p) (.prim p)
  | declared {d d' : Decl} {nullable nullable' : Bool} {args args' : List Ty}
      (ids : d.id = d'.id) (inside : sameAll (skeletons args) (skeletons args') = true) :
      Alike (.declared d nullable args) (.declared d' nullable' args')
  | array {component component' : Ty} {nullable nullable' : Bool}
      (inside : same component.skeleton component'.skeleton = true) :
      Alike (.array component nullable) (.array component' nullable')
  | var {v v' : TyVar} (kinds : v.kind = v'.kind) : Alike (.var v) (.var v')
  | union {members members' : List Ty}
      (inside : sameAll (skeletons members) (skeletons members') = true) :
      Alike (.union members) (.union members')
  | inter {members members' : List Ty}
      (inside : sameAll (skeletons members) (skeletons members') = true) :
      Alike (.inter members) (.inter members')

theorem alike_of_skeleton {s t : Ty} (equal : same s.skeleton t.skeleton = true) : Alike s t := by
  cases s with
  | prim p =>
    cases t with
    | prim q =>
      obtain rfl : p = q := by simpa [skeleton, same] using equal
      exact .prim p
    | _ => cases equal
  | declared d nullable args =>
    cases t with
    | declared d' nullable' args' =>
      have parts : d.id = d'.id ∧ sameAll (skeletons args) (skeletons args') = true := by
        simpa [skeleton, same] using equal
      exact .declared parts.1 parts.2
    | _ => cases equal
  | array component nullable =>
    cases t with
    | array component' nullable' =>
      have inside : same component.skeleton component'.skeleton = true := by
        simpa [skeleton, same] using equal
      exact .array inside
    | _ => cases equal
  | var v =>
    cases t with
    | var v' =>
      have uses : ({ v with nullable := false } : TyVar) = { v' with nullable := false } := by
        simpa only [skeleton, same, beq_iff_eq] using equal
      injection uses with _ _ kinds
      exact .var kinds
    | _ => cases equal
  | union members =>
    cases t with
    | union members' => exact .union equal
    | _ => cases equal
  | inter members =>
    cases t with
    | inter members' => exact .inter equal
    | _ => cases equal

theorem skeletons_cons {s t : Ty} {ss ts : List Ty}
    (equal : sameAll (skeletons (s :: ss)) (skeletons (t :: ts)) = true) :
    same s.skeleton t.skeleton = true ∧ sameAll (skeletons ss) (skeletons ts) = true := by
  simpa [skeletons, sameAll] using equal

theorem length_of_skeletons {ss ts : List Ty}
    (equal : sameAll (skeletons ss) (skeletons ts) = true) : ss.length = ts.length := by
  induction ss generalizing ts with
  | nil =>
    cases ts with
    | nil => rfl
    | cons t ts => cases equal
  | cons s ss ih =>
    cases ts with
    | nil => cases equal
    | cons t ts => exact congrArg Nat.succ (ih (skeletons_cons equal).2)

mutual

theorem length_flags_of_skeleton {s t : Ty} (equal : same s.skeleton t.skeleton = true) :
    s.flags.length = t.flags.length := by
  cases s with
  | prim p =>
    cases alike_of_skeleton equal
    rfl
  | declared d nullable args =>
    cases alike_of_skeleton equal with
    | declared _ inside => exact congrArg Nat.succ (length_allFlags_of_skeletons inside)
  | array component nullable =>
    cases alike_of_skeleton equal with
    | array inside => exact congrArg Nat.succ (length_flags_of_skeleton inside)
  | var v =>
    cases alike_of_skeleton equal
    rfl
  | union members =>
    cases alike_of_skeleton equal with
    | union inside => exact length_allFlags_of_skeletons inside
  | inter members =>
    cases alike_of_skeleton equal with
    | inter inside => exact length_allFlags_of_skeletons inside

theorem length_allFlags_of_skeletons {ss ts : List Ty}
    (equal : sameAll (skeletons ss) (skeletons ts) = true) :
    (allFlags ss).length = (allFlags ts).length := by
  cases ss with
  | nil =>
    cases ts with
    | nil => rfl
    | cons t ts => cases equal
  | cons s ss =>
    cases ts with
    | nil => cases equal
    | cons t ts =>
      obtain ⟨first, rest⟩ := skeletons_cons equal
      rw [allFlags, allFlags, List.length_append, List.length_append,
        length_flags_of_skeleton first, length_allFlags_of_skeletons rest]

end

theorem append_bne_append {a b c d : List Bool} (lengths : a.length = c.length) :
    (a ++ b != c ++ d) = (a != c || b != d) := by
  rw [Bool.eq_iff_iff, Bool.or_eq_true, bne_iff_ne, bne_iff_ne, bne_iff_ne]
  constructor
  · intro differs
    by_cases first : a = c
    · subst first
      exact .inr fun second => differs (congrArg (a ++ ·) second)
    · exact .inl first
  · intro parts equal
    obtain ⟨first, second⟩ := List.append_inj equal lengths
    exact parts.elim (· first) (· second)

/-- Unless it is hidden in a union or an intersection, a difference is one of the outermost flags or
one inside the arguments. -/
theorem flags_bne {s t : Ty} (equal : same s.skeleton t.skeleton = true)
    (named : t.isNameless = false) :
    (s.flags != t.flags) = (s.outerDisagrees t || s.argumentFlags != t.argumentFlags) := by
  cases alike_of_skeleton equal with
  | prim p => rfl
  | @declared d d' nullable nullable' args args' ids inside =>
    change (nullable :: allFlags args != nullable' :: allFlags args')
      = ((false && true || nullable != nullable') || allFlags args != allFlags args')
    cases nullable <;> cases nullable' <;> simp [bne]
  | @array component component' nullable nullable' inside =>
    change (nullable :: flags component != nullable' :: flags component')
      = ((false && true || nullable != nullable')
        || flags component ++ [] != flags component' ++ [])
    cases nullable <;> cases nullable' <;> simp [bne]
  | @var v v' kinds =>
    have opens : v.isOpen = v'.isOpen := by
      rw [TyVar.isOpen, TyVar.isOpen, kinds]
    change ([v.nullable] != [v'.nullable])
      = ((v.isOpen && !v'.isOpen || v.nullable != v'.nullable) || false)
    rw [opens]
    cases v.nullable <;> cases v'.nullable <;> cases v'.isOpen <;> rfl
  | union => cases named
  | inter => cases named

end Ty

namespace ClassTable

open Ty

variable {ct : ClassTable} {strictness : Strictness} {seen : List UInt32}

mutual

/-- Types of one skeleton correspond argument by argument, so no gap is ever noted. -/
theorem argumentsDisagree_of_skeleton {s t : Ty} (equal : same s.skeleton t.skeleton = true)
    (writable : ct.Writable seen t) :
    ct.argumentsDisagree strictness s t = pure (s.argumentFlags != t.argumentFlags) := by
  cases t with
  | declared d' nullable' args' =>
    cases alike_of_skeleton equal with
    | @declared d _ nullable _ args _ ids inside =>
      have named : d'.anonymous = false := writable _ .refl
      rw [argumentsDisagree_declared ct strictness ids (length_of_skeletons inside)]
      exact anyDisagree_of_skeletons inside ((writable_declared_iff named).mp writable)
  | array component' nullable' =>
    cases alike_of_skeleton equal with
    | @array component _ nullable _ inside =>
      have within : ct.Writable seen component' := writable_array_iff.mp writable
      rw [argumentsDisagree_array, argumentsDisagree_of_skeleton inside within]
      change _ = pure (component.flags ++ [] != component'.flags ++ [])
      rw [List.append_nil, List.append_nil, flags_bne inside (within _ .refl)]
      cases component.outerDisagrees component' <;> rfl
  | prim p =>
    cases alike_of_skeleton equal
    rfl
  | var v =>
    cases alike_of_skeleton equal
    rfl
  | union members => cases writable _ .refl
  | inter members => cases writable _ .refl

theorem anyDisagree_of_skeletons {ss ts : List Ty}
    (equal : sameAll (skeletons ss) (skeletons ts) = true)
    (writable : ∀ t ∈ ts, ct.Writable seen t) :
    ct.anyDisagree strictness ss ts = pure (allFlags ss != allFlags ts) := by
  cases ts with
  | nil =>
    cases ss with
    | nil => rfl
    | cons s ss => cases equal
  | cons t ts =>
    cases ss with
    | nil => cases equal
    | cons s ss =>
      obtain ⟨first, rest⟩ := skeletons_cons equal
      obtain ⟨here, later⟩ := List.forall_mem_cons.mp writable
      rw [anyDisagree, argumentsDisagree_of_skeleton first here,
        anyDisagree_of_skeletons rest later, allFlags, allFlags,
        append_bne_append (length_flags_of_skeleton first), flags_bne first (here _ .refl)]
      cases s.outerDisagrees t <;> cases s.argumentFlags != t.argumentFlags <;> rfl

end

theorem castNeeded_of_skeleton {source target : Ty} {d : Bool} (gaps : List ArityGap)
    (equal : same source.skeleton target.skeleton = true)
    (denotable : ct.isDenotable target = .ok d) :
    (ct.castNeeded strictness source target).run gaps
      = .ok (d && (source.isNullable && !target.isNullable
          || source.argumentFlags != target.argumentFlags), gaps) := by
  rw [castNeeded_of_denotable denotable]
  cases d with
  | false => rfl
  | true =>
    have writable : ct.Writable [] target :=
      ((checked_denotableFrom ct [] [] target).decides true denotable).mp rfl
    rw [argumentsDisagree_of_skeleton equal writable]
    cases source.isNullable && !target.isNullable <;> rfl

/-- A cast between types that differ in nullability alone is needed to forbid null on the outside
and to change any flag inside. So a type needs none to itself or to its nullable form. -/
theorem castNeeded_iff_flags (ct : ClassTable) (strictness : Strictness) :
    (∀ (source target : Ty) (d : Bool) (gaps : List ArityGap),
      (source.skeleton == target.skeleton) = true → ct.isDenotable target = .ok d →
      ∃ needed, (ct.castNeeded strictness source target).run gaps = .ok (needed, gaps) ∧
        (needed = true ↔ d = true ∧ (source.isNullable = true ∧ target.isNullable = false ∨
          source.argumentFlags ≠ target.argumentFlags))) ∧
    (∀ (t : Ty) (d : Bool) (gaps : List ArityGap), ct.isDenotable t = .ok d →
      (ct.castNeeded strictness t t).run gaps = .ok (false, gaps)) ∧
    (∀ (t : Ty) (d : Bool) (gaps : List ArityGap), ct.isDenotable t.toNullable = .ok d →
      (ct.castNeeded strictness t t.toNullable).run gaps = .ok (false, gaps)) := by
  refine ⟨?_, fun t d gaps denotable => castNeeded_self denotable gaps,
    fun t d gaps denotable => castNeeded_toNullable denotable gaps⟩
  intro source target d gaps equal denotable
  refine ⟨_, castNeeded_of_skeleton gaps equal denotable, ?_⟩
  rw [Bool.and_eq_true, Bool.or_eq_true, Bool.and_eq_true, Bool.not_eq_true', bne_iff_ne]

end ClassTable

namespace Sample

open ClassTable

def nested (nullable : Bool) : Ty :=
  .of box [.of box [.var ⟨0, "E", .parameter, nullable⟩]]

theorem castNeeded_iff_flags_nested :
    ((nested true).skeleton == (nested false).skeleton) = true ∧
    boxes.isDenotable (nested false) = .ok true ∧
    (nested true).argumentFlags ≠ (nested false).argumentFlags ∧
    (boxes.castNeeded .strict (nested true) (nested false)).run [] = .ok (true, []) ∧
    (boxes.castNeeded .strict (nested true) (nested true)).run [] = .ok (false, []) ∧
    boxes.isDenotable (nested true).toNullable = .ok true ∧
    (boxes.castNeeded .strict (nested true) (nested true).toNullable).run [] = .ok (false, []) := by
  have equal : ((nested true).skeleton == (nested false).skeleton) = true := by decide
  have denotable : boxes.isDenotable (nested false) = .ok true := by cbv
  have differ : (nested true).argumentFlags ≠ (nested false).argumentFlags := by decide
  have same : boxes.isDenotable (nested true) = .ok true := by cbv
  have widened : boxes.isDenotable (nested true).toNullable = .ok true := by cbv
  obtain ⟨changes, keeps, widens⟩ := castNeeded_iff_flags boxes .strict
  obtain ⟨needed, answered, iff⟩ := changes (nested true) (nested false) true [] equal denotable
  obtain rfl : needed = true := iff.mpr ⟨rfl, .inr differ⟩
  exact ⟨equal, denotable, differ, answered, keeps (nested true) true [] same, widened,
    widens (nested true) true [] widened⟩

end Sample

end NullabilityCasts
