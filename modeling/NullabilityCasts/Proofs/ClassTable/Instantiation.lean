import NullabilityCasts.Proofs.ClassTable.Hierarchy
import NullabilityCasts.Proofs.Ty.Substitution
import Mathlib.Data.List.Nodup
import Mathlib.Data.List.Pairwise

/-!
# Lifting the instantiations of a declaration

A declaration applied to its own parameters lifts once for all of its instantiations: what another
instantiation lifts to is that with the arguments put in for the parameters. This needs a table in
which supertypes are written over the parameters of the declaration that extends them.
-/

set_option autoImplicit false

namespace NullabilityCasts

namespace Bindings

variable {params : List TyVar} {args : List Ty}

theorem ofParams_map (params : List TyVar) (args : List Ty) (f : Ty → Ty) :
    ofParams params (args.map f) = (ofParams params args).map fun (id, t) => (id, f t) := by
  rw [ofParams, ofParams, ofPairs, ofPairs, List.zip_map_right, List.map_reverse]
  rfl

theorem mem_ofParams {entry : UInt32 × Ty} :
    entry ∈ ofParams params args ↔ entry ∈ (params.map TyVar.id).zip args := List.mem_reverse

theorem keys_ofParams (full : args.length = params.length) :
    ((params.map TyVar.id).zip args).map Prod.fst = params.map TyVar.id :=
  List.map_fst_zip (by simp [full])

theorem mem_of_get? {b : Bindings} {id : UInt32} {t : Ty} (found : b.get? id = some t) :
    (id, t) ∈ b := by
  obtain ⟨before, after, rfl, _⟩ := List.lookup_eq_some_iff.mp found
  exact List.mem_append_right _ List.mem_cons_self

theorem get?_ofParams_of_mem (full : args.length = params.length) {id : UInt32}
    (known : id ∈ params.map TyVar.id) : ∃ t, (ofParams params args).get? id = some t := by
  cases found : (ofParams params args).get? id with
  | some t => exact ⟨t, rfl⟩
  | none =>
    rw [← keys_ofParams full] at known
    obtain ⟨⟨id', t⟩, entry, rfl⟩ := List.mem_map.mp known
    have differs := List.lookup_eq_none_iff.mp found _ (mem_ofParams.mpr entry)
    simp at differs

/-- Where the parameters are different from each other, each is bound to its own argument. -/
theorem get?_ofParams (distinct : (params.map TyVar.id).Nodup)
    (full : args.length = params.length) {id : UInt32} {t : Ty}
    (entry : (id, t) ∈ (params.map TyVar.id).zip args) :
    (ofParams params args).get? id = some t := by
  have known : id ∈ params.map TyVar.id := (List.of_mem_zip entry).1
  obtain ⟨t', found⟩ := get?_ofParams_of_mem full known
  have entry' := mem_ofParams.mp (mem_of_get? found)
  have keys : (((params.map TyVar.id).zip args).map Prod.fst).Nodup :=
    (keys_ofParams full).symm ▸ distinct
  have same : (id, t') = (id, t) := List.inj_on_of_nodup_map keys entry' entry rfl
  rw [found, (Prod.mk.inj same).2]

end Bindings

namespace Decl

def ownArgs (d : Decl) : List Ty := d.params.map fun p => (Ty.var p).toNonNullable

theorem varIds_ownArgs {d : Decl} {nullable : Bool} :
    (Ty.declared d nullable d.ownArgs).varIds = d.params.map TyVar.id := by
  change Ty.allVarIds (d.params.map fun p => (Ty.var p).toNonNullable) = d.params.map TyVar.id
  induction d.params with
  | nil => rfl
  | cons p rest ih => exact congrArg (p.id :: ·) ih

theorem subst_ownArgs {d : Decl} {args : List Ty} (distinct : (d.params.map TyVar.id).Nodup)
    (full : args.length = d.arity) (nullable : Bool) :
    (Ty.declared d nullable d.ownArgs).subst (Bindings.ofParams d.params args)
      = .declared d nullable args := by
  rw [Ty.subst, Ty.substAll_eq, ownArgs, List.map_map]
  congr 1
  refine List.ext_getElem (by simp [full, arity]) fun i inside inside' => ?_
  have position : i < d.params.length := by simpa using inside
  have entry : (d.params[i].id, args[i]) ∈ (d.params.map TyVar.id).zip args :=
    List.mem_iff_getElem.mpr ⟨i, by simp; omega, by simp⟩
  rw [List.getElem_map]
  exact Ty.subst_var_of_some (v := { d.params[i] with nullable := false })
    (Bindings.get?_ofParams distinct full entry)

end Decl

namespace Ty

variable {d : Decl} {nullable : Bool} {args : List Ty}

theorem isRaw_of_full (full : args.length = d.arity) :
    (declared d nullable args).isRaw = false := by
  cases args with
  | nil =>
    have none : d.params = [] := List.length_eq_zero_iff.mp full.symm
    simp [isRaw, Decl.isGeneric, none]
  | cons t rest => rfl

theorem instantiate_of_raw (generic : d.isGeneric = true) {s : Ty} {d' : Decl}
    (use : s.decl? = some d') : (declared d nullable []).instantiate s = of d' [] := by
  have raw : (declared d nullable []).isRaw = true := generic
  obtain ⟨nullable', args', rfl⟩ := eq_of_decl? use
  simp only [instantiate, raw]

theorem instantiate_of_not_raw (full : (declared d nullable args).isRaw = false) (s : Ty) :
    (declared d nullable args).instantiate s = s.subst (Bindings.ofParams d.params args) := by
  simp only [instantiate, full]

end Ty

namespace ClassTable

variable {ct : ClassTable} {target : Decl}

def Declares (ct : ClassTable) (d : Decl) : Prop := ct.decl? d.id = some d

/-- A use of a declaration of the table, raw or with an argument for each parameter. -/
inductive ProperUse (ct : ClassTable) : Ty → Prop where
  | raw {d : Decl} (nullable : Bool) (declares : ct.Declares d) (generic : d.isGeneric = true) :
      ProperUse ct (.declared d nullable [])
  | full {d : Decl} (nullable : Bool) {args : List Ty} (declares : ct.Declares d)
      (complete : args.length = d.arity) : ProperUse ct (.declared d nullable args)

/-- All supertypes are recorded over the parameters of the declaration that extends them, and no
two parameters are the same variable. -/
structure WrittenOver (ct : ClassTable) : Prop where
  recorded : ∀ id, ∀ s ∈ ct.supertypesOf id, ct.ProperUse s ∧
    ∃ owner, ct.decl? id = some owner ∧ s.varIds ⊆ owner.params.map TyVar.id
  distinct : (ct.decls.flatMap fun d => d.params.map TyVar.id).Nodup

theorem ProperUse.decl? {t : Ty} (use : ct.ProperUse t) :
    ∃ d, t.decl? = some d ∧ ct.Declares d := by
  cases use with
  | raw _ declares _ => exact ⟨_, rfl, declares⟩
  | full _ declares _ => exact ⟨_, rfl, declares⟩

theorem properUse_of {d : Decl} (declares : ct.Declares d) : ct.ProperUse (.of d []) := by
  cases generic : d.isGeneric with
  | true => exact .raw false declares generic
  | false =>
    have none : d.params = [] := by simpa [Decl.isGeneric] using generic
    exact .full false declares (congrArg List.length none).symm

theorem ProperUse.subst {t : Ty} (use : ct.ProperUse t) (b : Bindings) :
    ct.ProperUse (t.subst b) := by
  cases use with
  | raw nullable declares generic => exact .raw nullable declares generic
  | full nullable declares complete =>
    refine .full nullable declares ?_
    rw [Ty.substAll_eq, List.length_map, complete]

theorem ProperUse.instantiate {t s : Ty} (use : ct.ProperUse t) (supertype : ct.ProperUse s) :
    ct.ProperUse (t.instantiate s) := by
  cases use with
  | raw nullable declares generic =>
    obtain ⟨d', named, declares'⟩ := supertype.decl?
    rw [Ty.instantiate_of_raw generic named]
    exact properUse_of declares'
  | full nullable declares complete =>
    rw [Ty.instantiate_of_not_raw (Ty.isRaw_of_full complete)]
    exact supertype.subst _

section Instantiate

variable {t s : Ty} (use : ct.ProperUse t) (supertype : ct.ProperUse s)
  (inScope : ∀ d, t.decl? = some d → s.varIds ⊆ d.params.map TyVar.id)

include use supertype inScope

/-- All that a supertype mentions is bound where its declaration is used with all its arguments. So
what is substituted later comes into it by way of the arguments alone. -/
theorem instantiate_subst (b : Bindings) :
    (t.subst b).instantiate s = (t.instantiate s).subst b := by
  cases use with
  | raw nullable declares generic =>
    obtain ⟨d', named, _⟩ := supertype.decl?
    rw [Ty.instantiate_of_raw generic named]
    exact Ty.instantiate_of_raw generic named
  | @full d nullable args declares complete =>
    have complete' : (args.map (Ty.subst b)).length = d.arity := by rw [List.length_map, complete]
    rw [Ty.instantiate_of_not_raw (Ty.isRaw_of_full complete), Ty.subst, Ty.substAll_eq,
      Ty.instantiate_of_not_raw (Ty.isRaw_of_full complete'), Ty.subst_subst,
      Bindings.ofParams_map]
    refine Ty.subst_congr s fun id member => ?_
    obtain ⟨u, found⟩ := Bindings.get?_ofParams_of_mem complete (inScope d rfl member)
    rw [Bindings.get?_map, Bindings.get?_andThen, found]
    rfl

theorem varIds_instantiate : (t.instantiate s).varIds ⊆ t.varIds := by
  cases use with
  | raw nullable declares generic =>
    obtain ⟨d', named, _⟩ := supertype.decl?
    rw [Ty.instantiate_of_raw generic named]
    exact List.nil_subset _
  | @full d nullable args declares complete =>
    rw [Ty.instantiate_of_not_raw (Ty.isRaw_of_full complete)]
    intro id member
    rcases Ty.mem_varIds_subst s member with ⟨inside, free⟩ | ⟨id', inside, u, found, within⟩
    · obtain ⟨u, found⟩ := Bindings.get?_ofParams_of_mem complete (inScope d rfl inside)
      rw [free] at found
      cases found
    · have entry := Bindings.mem_ofParams.mp (Bindings.mem_of_get? found)
      exact Ty.mem_allVarIds.mpr ⟨u, (List.of_mem_zip entry).2, within⟩

end Instantiate

namespace WrittenOver

variable (written : ct.WrittenOver) {visited : List UInt32} {ts : List Ty}

include written

theorem supertype {d : Decl} {nullable : Bool} {args : List Ty}
    (use : ct.ProperUse (.declared d nullable args)) {s : Ty} (recorded : s ∈ ct.supertypes d) :
    ct.ProperUse s ∧ ∀ d', (Ty.declared d nullable args).decl? = some d' →
      s.varIds ⊆ d'.params.map TyVar.id := by
  obtain ⟨proper, owner, owns, inScope⟩ := written.recorded d.id s recorded
  obtain ⟨d', same, declares⟩ := use.decl?
  obtain rfl : d = d' := Option.some.inj same
  obtain rfl : d = owner := Option.some.inj (declares.symm.trans owns)
  refine ⟨proper, fun d' same => ?_⟩
  obtain rfl : d = d' := Option.some.inj same
  exact inScope

/-- The search takes the same way through all instantiations. -/
theorem findSupertype_subst (b : Bindings) (proper : ∀ t ∈ ts, ct.ProperUse t) :
    ct.findSupertype target visited (ts.map (Ty.subst b))
      = (ct.findSupertype target visited ts).map (Ty.subst b) := by
  induction visited, ts using findSupertype.induct ct target with
  | case1 visited => simp [findSupertype]
  | case2 visited d nullable args ts arrived =>
    rw [List.map_cons, Ty.subst, findSupertype, if_pos arrived, findSupertype, if_pos arrived]
    rfl
  | case3 visited d nullable args ts other known ih =>
    rw [List.map_cons, Ty.subst, findSupertype, if_neg other, if_pos known, findSupertype,
      if_neg other, if_pos known]
    exact ih fun t member => proper t (List.mem_cons_of_mem _ member)
  | case4 visited d nullable args ts other fresh ih =>
    have use := proper _ List.mem_cons_self
    have commutes : (ct.supertypes d).map ((Ty.declared d nullable args).subst b).instantiate
        = ((ct.supertypes d).map (Ty.declared d nullable args).instantiate).map (Ty.subst b) := by
      rw [List.map_map]
      refine List.map_congr_left fun s recorded => ?_
      obtain ⟨supertype, inScope⟩ := written.supertype use recorded
      exact instantiate_subst use supertype inScope b
    rw [Ty.subst] at commutes
    rw [List.map_cons, Ty.subst, findSupertype, if_neg other, if_neg fresh, findSupertype,
      if_neg other, if_neg fresh, commutes, ← List.map_append]
    refine ih fun t member => ?_
    rcases List.mem_append.mp member with new | old
    · obtain ⟨s, recorded, rfl⟩ := List.mem_map.mp new
      exact use.instantiate (written.supertype use recorded).1
    · exact proper t (List.mem_cons_of_mem _ old)
  | case5 visited t ts other ih =>
    obtain ⟨d, named, _⟩ := (proper t List.mem_cons_self).decl?
    obtain ⟨nullable, args, rfl⟩ := Ty.eq_of_decl? named
    exact absurd rfl (other d nullable args)

/-- The search finds no variable that the types it starts from do not mention. -/
theorem varIds_findSupertype {ids : List UInt32}
    (proper : ∀ t ∈ ts, ct.ProperUse t ∧ t.varIds ⊆ ids) {u : Ty}
    (found : ct.findSupertype target visited ts = some u) : u.varIds ⊆ ids := by
  induction visited, ts using findSupertype.induct ct target with
  | case1 visited => simp [findSupertype] at found
  | case2 visited d nullable args ts arrived =>
    rw [findSupertype, if_pos arrived] at found
    obtain rfl := Option.some.inj found
    exact (proper _ List.mem_cons_self).2
  | case3 visited d nullable args ts other known ih =>
    rw [findSupertype, if_neg other, if_pos known] at found
    exact ih (fun t member => proper t (List.mem_cons_of_mem _ member)) found
  | case4 visited d nullable args ts other fresh ih =>
    obtain ⟨use, inside⟩ := proper _ List.mem_cons_self
    rw [findSupertype, if_neg other, if_neg fresh] at found
    refine ih (fun t member => ?_) found
    rcases List.mem_append.mp member with new | old
    · obtain ⟨s, recorded, rfl⟩ := List.mem_map.mp new
      obtain ⟨supertype, inScope⟩ := written.supertype use recorded
      exact ⟨use.instantiate supertype,
        List.Subset.trans (varIds_instantiate use supertype inScope) inside⟩
    · exact proper t (List.mem_cons_of_mem _ old)
  | case5 visited t ts other ih =>
    obtain ⟨d, named, _⟩ := (proper t List.mem_cons_self).1.decl?
    obtain ⟨nullable, args, rfl⟩ := Ty.eq_of_decl? named
    exact absurd rfl (other d nullable args)

theorem varIds_lift? {t u : Ty} (use : ct.ProperUse t) (lifted : ct.lift? t target = some u) :
    u.varIds ⊆ t.varIds := by
  refine written.varIds_findSupertype (fun t' member => ?_) lifted
  obtain rfl := List.mem_singleton.mp member
  exact ⟨use, List.Subset.refl _⟩

theorem params_distinct {d : Decl} (declares : ct.Declares d) : (d.params.map TyVar.id).Nodup :=
  (List.nodup_flatMap.mp written.distinct).1 d (List.mem_of_getElem? declares)

theorem params_apart {d d' : Decl} (declares : ct.Declares d) (declares' : ct.Declares d')
    (other : d ≠ d') : (d.params.map TyVar.id).Disjoint (d'.params.map TyVar.id) := by
  have symmetric : Std.Symm (Function.onFun List.Disjoint fun d : Decl => d.params.map TyVar.id) :=
    ⟨fun _ _ apart _ second first => apart first second⟩
  exact (List.nodup_flatMap.mp written.distinct).2.forall (List.mem_of_getElem? declares)
    (List.mem_of_getElem? declares') other

end WrittenOver

/-- A declaration lifts as its instantiations do, with the arguments in the place of the parameters;
no other declaration's parameters come in on the way. -/
theorem lift?_eq_subst_own (written : ct.WrittenOver) {d : Decl} (declares : ct.Declares d)
    {args : List Ty} (full : args.length = d.arity) (nullable : Bool) (target : Decl) :
    (ct.lift? (.declared d nullable args) target = none ↔
      ct.lift? (.declared d nullable d.ownArgs) target = none) ∧
    ct.lift? (.declared d nullable args) target
      = (ct.lift? (.declared d nullable d.ownArgs) target).map
        (Ty.subst (Bindings.ofParams d.params args)) ∧
    (∀ u, ct.lift? (.declared d nullable args) target = some u →
      ∀ id ∈ u.varIds, ∃ t ∈ args, id ∈ t.varIds) ∧
    ∀ u, ct.lift? (.declared d nullable d.ownArgs) target = some u →
      u.varIds ⊆ d.params.map TyVar.id ∧
      ∀ d', ct.Declares d' → d ≠ d' → ∀ p ∈ d'.params, p.id ∉ u.varIds := by
  have own : ct.ProperUse (.declared d nullable d.ownArgs) :=
    .full nullable declares (List.length_map _)
  have commutes : ct.lift? (.declared d nullable args) target
      = (ct.lift? (.declared d nullable d.ownArgs) target).map
        (Ty.subst (Bindings.ofParams d.params args)) := by
    have proper : ∀ t ∈ [Ty.declared d nullable d.ownArgs], ct.ProperUse t :=
      fun t member => List.mem_singleton.mp member ▸ own
    rw [lift?, lift?, ← written.findSupertype_subst _ proper, List.map_singleton,
      Decl.subst_ownArgs (written.params_distinct declares) full]
  refine ⟨?_, commutes, ?_, ?_⟩
  · rw [commutes, Option.map_eq_none_iff]
  · intro u lifted id member
    exact Ty.mem_allVarIds.mp (written.varIds_lift? (.full nullable declares full) lifted member)
  · intro u lifted
    have inside := written.varIds_lift? own lifted
    rw [Decl.varIds_ownArgs] at inside
    refine ⟨inside, fun d' declares' other p param member => ?_⟩
    exact written.params_apart declares declares' other (inside member)
      (List.mem_map.mpr ⟨p, param, rfl⟩)

end ClassTable

namespace Sample

theorem writtenOver_diamond : diamond.WrittenOver where
  recorded := by
    have first : diamond.Declares sharedDecl := rfl
    have second : diamond.Declares loopingDecl := rfl
    have third : diamond.Declares passingDecl := rfl
    have last : diamond.Declares goalDecl := rfl
    intro id s recorded
    have entry := supertypes_diamond recorded
    simp only [List.mem_cons, Prod.mk.injEq, List.not_mem_nil, or_false] at entry
    rcases entry with ⟨rfl, rfl⟩ | ⟨rfl, rfl⟩ | ⟨rfl, rfl⟩ | ⟨rfl, rfl⟩ | ⟨rfl, rfl⟩
    · exact ⟨.full false second rfl, sharedDecl, first, List.Subset.refl _⟩
    · exact ⟨.full false third rfl, sharedDecl, first, List.Subset.refl _⟩
    · exact ⟨.full false first rfl, loopingDecl, second, List.Subset.refl _⟩
    · exact ⟨.raw false second rfl, passingDecl, third, List.nil_subset _⟩
    · exact ⟨.full false last rfl, passingDecl, third, List.Subset.refl _⟩
  distinct := by decide

/-- The array of a class goes up as its element type would, in a nullable use. -/
theorem lift?_eq_subst_own_diamond :
    diamond.WrittenOver ∧ diamond.Declares sharedDecl ∧
    diamond.lift? (.of sharedDecl sharedDecl.ownArgs) goalDecl
      = some (.of goalDecl [(Ty.var shared).toNullable]) ∧
    diamond.lift? (.of sharedDecl [.array ClassTable.top false]) goalDecl
      = some (.of goalDecl [.array ClassTable.top true]) := by
  have own : diamond.lift? (.of sharedDecl sharedDecl.ownArgs) goalDecl
      = some (.of goalDecl [(Ty.var shared).toNullable]) :=
    (lift?_diamond (.var shared)).1
  have full : [Ty.array ClassTable.top false].length = sharedDecl.arity := rfl
  have lifted := (ClassTable.lift?_eq_subst_own writtenOver_diamond (d := sharedDecl) rfl full
    false goalDecl).2.1
  refine ⟨writtenOver_diamond, rfl, own, lifted.trans ?_⟩
  change Option.map _ (diamond.lift? (.of sharedDecl sharedDecl.ownArgs) goalDecl) = _
  rw [own]
  rfl

end Sample

end NullabilityCasts
