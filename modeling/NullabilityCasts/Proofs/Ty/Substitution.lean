import NullabilityCasts.Ty.Subst
import Mathlib.Data.List.Basic

/-!
# Substitution after substitution

One substitution after another is one substitution: its replacements are those of the first with the
second one made in them, and those of the second for what the first leaves alone. Nullable uses
respect this, because the nullable form of a type is substituted in as the type itself is.
-/

set_option autoImplicit false

namespace NullabilityCasts

namespace Ty

mutual

def varIds : Ty → List UInt32
  | .prim _ => []
  | .declared _ _ args => allVarIds args
  | .array component _ => varIds component
  | .var v => [v.id]
  | .union members | .inter members => allVarIds members

def allVarIds : List Ty → List UInt32
  | [] => []
  | t :: rest => varIds t ++ allVarIds rest

end

theorem mem_allVarIds {ts : List Ty} {id : UInt32} :
    id ∈ allVarIds ts ↔ ∃ t ∈ ts, id ∈ t.varIds := by
  induction ts with
  | nil => simp [allVarIds]
  | cons t rest ih => simp [allVarIds, ih]

mutual

theorem toNullable_toNullable (t : Ty) : t.toNullable.toNullable = t.toNullable := by
  cases t with
  | union members => exact congrArg Ty.union (withNullabilities_withNullabilities members)
  | inter members => exact congrArg Ty.inter (withNullabilities_withNullabilities members)
  | _ => rfl

theorem withNullabilities_withNullabilities (ts : List Ty) :
    withNullabilities true (withNullabilities true ts) = withNullabilities true ts := by
  cases ts with
  | nil => rfl
  | cons t rest =>
    exact congrArg₂ List.cons (toNullable_toNullable t) (withNullabilities_withNullabilities rest)

end

mutual

theorem varIds_toNullable (t : Ty) : t.toNullable.varIds = t.varIds := by
  cases t with
  | union members => exact allVarIds_withNullabilities members
  | inter members => exact allVarIds_withNullabilities members
  | _ => rfl

theorem allVarIds_withNullabilities (ts : List Ty) :
    allVarIds (withNullabilities true ts) = allVarIds ts := by
  cases ts with
  | nil => rfl
  | cons t rest =>
    exact congrArg₂ (· ++ ·) (varIds_toNullable t) (allVarIds_withNullabilities rest)

end

/-- What stands for a use of a variable. -/
theorem subst_var_of_some {b : Bindings} {v : TyVar} {t : Ty} (bound : b.get? v.id = some t) :
    (Ty.var v).subst b = if v.nullable then t.toNullable else t := by
  rw [subst, bound]

theorem subst_var_of_none {b : Bindings} {v : TyVar} (free : b.get? v.id = none) :
    (Ty.var v).subst b = .var v := by
  rw [subst, free]

mutual

theorem subst_toNullable (b : Bindings) (t : Ty) :
    t.toNullable.subst b = (t.subst b).toNullable := by
  cases t with
  | var v =>
    change (Ty.var { v with nullable := true }).subst b = _
    cases found : b.get? v.id with
    | none =>
      rw [subst_var_of_none found, subst_var_of_none (v := { v with nullable := true }) found]
      rfl
    | some t =>
      rw [subst_var_of_some found, subst_var_of_some (v := { v with nullable := true }) found]
      cases v.nullable with
      | true => exact (toNullable_toNullable t).symm
      | false => rfl
  | union members => exact congrArg Ty.union (substAll_withNullabilities b members)
  | inter members => exact congrArg Ty.inter (substAll_withNullabilities b members)
  | _ => rfl

theorem substAll_withNullabilities (b : Bindings) (ts : List Ty) :
    substAll b (withNullabilities true ts) = withNullabilities true (substAll b ts) := by
  cases ts with
  | nil => rfl
  | cons t rest =>
    exact congrArg₂ List.cons (subst_toNullable b t) (substAll_withNullabilities b rest)

end

end Ty

namespace Bindings

/-- The bindings that do what `b` does and then what `b'` does. -/
def andThen (b b' : Bindings) : Bindings := b.map (fun (id, t) => (id, t.subst b')) ++ b'

theorem get?_map (b : Bindings) (f : Ty → Ty) (id : UInt32) :
    get? (b.map fun (id, t) => (id, f t)) id = (b.get? id).map f := by
  induction b with
  | nil => rfl
  | cons entry rest ih =>
    obtain ⟨key, t⟩ := entry
    change List.lookup _ _ = Option.map f (List.lookup _ _)
    rw [List.map_cons, List.lookup_cons, List.lookup_cons]
    cases id == key with
    | true => rfl
    | false => exact ih

theorem get?_append (b b' : Bindings) (id : UInt32) :
    get? (b ++ b') id = (b.get? id).or (b'.get? id) := List.lookup_append

theorem get?_andThen (b b' : Bindings) (id : UInt32) :
    (b.andThen b').get? id = ((b.get? id).map (Ty.subst b')).or (b'.get? id) := by
  rw [andThen, get?_append, get?_map]

end Bindings

namespace Ty

mutual

theorem subst_subst (b b' : Bindings) (t : Ty) :
    (t.subst b).subst b' = t.subst (b.andThen b') := by
  cases t with
  | prim p => rfl
  | declared d n args => exact congrArg (Ty.declared d n) (substAll_substAll b b' args)
  | array component n => exact congrArg (Ty.array · n) (subst_subst b b' component)
  | var v =>
    have both := Bindings.get?_andThen b b' v.id
    cases found : b.get? v.id with
    | none =>
      rw [found] at both
      change (b.andThen b').get? v.id = b'.get? v.id at both
      rw [subst_var_of_none found, subst, subst, both]
    | some t =>
      rw [found] at both
      change (b.andThen b').get? v.id = some (t.subst b') at both
      rw [subst_var_of_some found, subst_var_of_some both]
      cases v.nullable with
      | true => exact subst_toNullable b' t
      | false => rfl
  | union members => exact congrArg Ty.union (substAll_substAll b b' members)
  | inter members => exact congrArg Ty.inter (substAll_substAll b b' members)

theorem substAll_substAll (b b' : Bindings) (ts : List Ty) :
    substAll b' (substAll b ts) = substAll (b.andThen b') ts := by
  cases ts with
  | nil => rfl
  | cons t rest => exact congrArg₂ List.cons (subst_subst b b' t) (substAll_substAll b b' rest)

end

mutual

/-- Only the bindings of the variables in a type matter. -/
theorem subst_congr {b b' : Bindings} (t : Ty)
    (agree : ∀ id ∈ t.varIds, b.get? id = b'.get? id) : t.subst b = t.subst b' := by
  cases t with
  | prim p => rfl
  | declared d n args => exact congrArg (Ty.declared d n) (substAll_congr args agree)
  | array component n => exact congrArg (Ty.array · n) (subst_congr component agree)
  | var v => rw [subst, subst, agree v.id (List.mem_singleton_self _)]
  | union members => exact congrArg Ty.union (substAll_congr members agree)
  | inter members => exact congrArg Ty.inter (substAll_congr members agree)

theorem substAll_congr {b b' : Bindings} (ts : List Ty)
    (agree : ∀ id ∈ allVarIds ts, b.get? id = b'.get? id) : substAll b ts = substAll b' ts := by
  cases ts with
  | nil => rfl
  | cons t rest =>
    have first := subst_congr t fun id member => agree id (List.mem_append_left _ member)
    have later := substAll_congr rest fun id member => agree id (List.mem_append_right _ member)
    exact congrArg₂ List.cons first later

end

mutual

/-- A variable in a substituted type comes with a replacement, or was there and is not replaced. -/
theorem mem_varIds_subst {b : Bindings} {id : UInt32} (t : Ty) (member : id ∈ (t.subst b).varIds) :
    id ∈ t.varIds ∧ b.get? id = none ∨
      ∃ id' ∈ t.varIds, ∃ u, b.get? id' = some u ∧ id ∈ u.varIds := by
  cases t with
  | prim p => cases member
  | declared d n args => exact mem_allVarIds_substAll args member
  | array component n => exact mem_varIds_subst component member
  | var v =>
    cases found : b.get? v.id with
    | none =>
      rw [subst_var_of_none found] at member
      obtain rfl := List.mem_singleton.mp member
      exact .inl ⟨member, found⟩
    | some u =>
      rw [subst_var_of_some found] at member
      refine .inr ⟨v.id, List.mem_singleton_self _, u, found, ?_⟩
      split at member
      · exact varIds_toNullable u ▸ member
      · exact member
  | union members => exact mem_allVarIds_substAll members member
  | inter members => exact mem_allVarIds_substAll members member

theorem mem_allVarIds_substAll {b : Bindings} {id : UInt32} (ts : List Ty)
    (member : id ∈ allVarIds (substAll b ts)) :
    id ∈ allVarIds ts ∧ b.get? id = none ∨
      ∃ id' ∈ allVarIds ts, ∃ u, b.get? id' = some u ∧ id ∈ u.varIds := by
  cases ts with
  | nil => cases member
  | cons t rest =>
    rcases List.mem_append.mp member with here | later
    · rcases mem_varIds_subst t here with ⟨inside, free⟩ | ⟨id', inside, u, found, within⟩
      · exact .inl ⟨List.mem_append_left _ inside, free⟩
      · exact .inr ⟨id', List.mem_append_left _ inside, u, found, within⟩
    · rcases mem_allVarIds_substAll rest later with ⟨inside, free⟩ | ⟨id', inside, u, found, within⟩
      · exact .inl ⟨List.mem_append_right _ inside, free⟩
      · exact .inr ⟨id', List.mem_append_right _ inside, u, found, within⟩

end

mutual

/-- Every use of a variable becomes what `f` has for it. -/
def mapVars (f : TyVar → Ty) : Ty → Ty
  | .prim p => .prim p
  | .declared d nullable args => .declared d nullable (mapAllVars f args)
  | .array component nullable => .array (mapVars f component) nullable
  | .var v => f v
  | .union members => .union (mapAllVars f members)
  | .inter members => .inter (mapAllVars f members)

def mapAllVars (f : TyVar → Ty) : List Ty → List Ty
  | [] => []
  | t :: rest => mapVars f t :: mapAllVars f rest

end

mutual

theorem subst_eq_mapVars (b : Bindings) (t : Ty) :
    t.subst b = t.mapVars fun v => (var v).subst b := by
  cases t with
  | prim p => rfl
  | declared d n args => exact congrArg (Ty.declared d n) (substAll_eq_mapAllVars b args)
  | array component n => exact congrArg (Ty.array · n) (subst_eq_mapVars b component)
  | var v => rfl
  | union members => exact congrArg Ty.union (substAll_eq_mapAllVars b members)
  | inter members => exact congrArg Ty.inter (substAll_eq_mapAllVars b members)

theorem substAll_eq_mapAllVars (b : Bindings) (ts : List Ty) :
    substAll b ts = mapAllVars (fun v => (var v).subst b) ts := by
  cases ts with
  | nil => rfl
  | cons t rest => exact congrArg₂ List.cons (subst_eq_mapVars b t) (substAll_eq_mapAllVars b rest)

end

/-- Two substitutions are one: what the first replaces is replaced by the same with the second made
in it, and all else as by the second. What stands for the nullable form of a type is the nullable
form of what stands for the type. -/
theorem subst_composes (b b' : Bindings) :
    (∀ id, (b.andThen b').get? id = match b.get? id with
      | some u => some (u.subst b')
      | none => b'.get? id) ∧
    (∀ t : Ty, (t.subst b).subst b' = t.subst (b.andThen b')) ∧
    ∀ t : Ty, t.toNullable.subst b = (t.subst b).toNullable := by
  refine ⟨fun id => ?_, subst_subst b b', subst_toNullable b⟩
  rw [Bindings.get?_andThen]
  cases b.get? id <;> rfl

/-- A nullable use stays one in both steps, and leaves the primitive member alone. -/
example : ((Ty.var ⟨0, "E", .parameter, true⟩).subst
      [(0, .union [.prim .int, .var ⟨1, "F", .parameter, false⟩])]).subst
        [(1, .array (.prim .int) false)]
    = .union [.prim .int, .array (.prim .int) true] := rfl

end Ty

end NullabilityCasts
