import NullabilityCasts.ClassTable.Supertype
import NullabilityCasts.Proofs.Ty.Substitution
import Mathlib.Logic.Relation

/-!
# Lifting along the hierarchy

The search for a supertype enters no declaration twice, on whatever way it comes back there, and
still finds what it would find if it only kept off the declarations it is inside of: the target at
the end of the first simple route. What was left without the target leads to it only through the
declarations that the search is inside of.
-/

set_option autoImplicit false

namespace NullabilityCasts

namespace Ty

def decl? : Ty → Option Decl
  | .declared d _ _ => some d
  | _ => none

theorem eq_of_decl? {t : Ty} {d : Decl} (use : t.decl? = some d) :
    ∃ nullable args, t = .declared d nullable args := by
  cases t with
  | declared d' nullable args =>
    obtain rfl : d' = d := Option.some.inj use
    exact ⟨nullable, args, rfl⟩
  | _ => cases use

end Ty

namespace Decl

/-- What a use of a variable in a supertype of `d` is where `d` has the arguments: the argument in
the place of the parameter, in its nullable form for a nullable use. Of two parameters with one id
the later counts, and what is no parameter stays. -/
def argumentFor (d : Decl) (args : List Ty) (v : TyVar) : Ty :=
  match (d.params.zip args).reverse.find? (·.1.id == v.id) with
  | some (_, t) => if v.nullable then t.toNullable else t
  | none => .var v

/-- What a supertype recorded for `d` is where `d` has the arguments. Without arguments for its
parameters `d` is raw, and its supertypes are. -/
def supertypeAt (d : Decl) (args : List Ty) (s : Ty) : Ty :=
  match args, d.params, s with
  | [], _ :: _, .declared d' _ _ => .declared d' false []
  | _, _, _ => s.mapVars (d.argumentFor args)

theorem lookup_eq_find? (pairs : List (TyVar × Ty)) (id : UInt32) :
    (pairs.map fun pair => (pair.1.id, pair.2)).lookup id
      = (pairs.find? (·.1.id == id)).map (·.2) := by
  induction pairs with
  | nil => rfl
  | cons pair rest ih =>
    rw [List.map_cons, List.lookup_cons, List.find?_cons, Bool.beq_comm]
    cases pair.1.id == id with
    | true => rfl
    | false => exact ih

theorem subst_var_eq_argumentFor (d : Decl) (args : List Ty) (v : TyVar) :
    (Ty.var v).subst (Bindings.ofParams d.params args) = d.argumentFor args v := by
  have found : (Bindings.ofParams d.params args).get? v.id
      = ((d.params.zip args).reverse.find? (·.1.id == v.id)).map (·.2) := by
    rw [← lookup_eq_find?, Bindings.get?, Bindings.ofParams, Bindings.ofPairs, List.zip_map_left,
      List.map_reverse]
    rfl
  rw [Ty.subst, argumentFor, found]
  cases (d.params.zip args).reverse.find? (·.1.id == v.id) <;> rfl

theorem instantiate_eq_supertypeAt (d : Decl) (nullable : Bool) (args : List Ty) (s : Ty) :
    (Ty.declared d nullable args).instantiate s = d.supertypeAt args s := by
  have replaced : s.subst (Bindings.ofParams d.params args) = s.mapVars (d.argumentFor args) := by
    rw [Ty.subst_eq_mapVars]
    exact congrArg s.mapVars (funext (d.subst_var_eq_argumentFor args))
  obtain ⟨id, name, anonymous, params⟩ := d
  cases args with
  | cons t rest => exact replaced
  | nil =>
    cases params with
    | nil => exact replaced
    | cons p rest =>
      cases s with
      | declared d' nullable' args' => rfl
      | _ => exact replaced

theorem decl?_supertypeAt (d : Decl) (args : List Ty) {s : Ty} {d' : Decl}
    (use : s.decl? = some d') : (d.supertypeAt args s).decl? = some d' := by
  obtain ⟨nullable, args', rfl⟩ := Ty.eq_of_decl? use
  unfold supertypeAt
  split
  · rename_i same
    cases same
    rfl
  · rfl

end Decl

namespace ClassTable

variable {ct : ClassTable} {target : Decl}

/-- Only uses of declarations are recorded as supertypes. -/
def DeclaredSupertypes (ct : ClassTable) : Prop :=
  ∀ id, ∀ s ∈ ct.supertypesOf id, ∃ d, s.decl? = some d

/-- One declaration, given by its id, has a use of another among its recorded supertypes. -/
def Extends (ct : ClassTable) (id id' : UInt32) : Prop :=
  ∃ s d, s ∈ ct.supertypesOf id ∧ s.decl? = some d ∧ d.id = id'

theorem DeclaredSupertypes.decl? (declared : ct.DeclaredSupertypes) {d : Decl} {s : Ty}
    (recorded : s ∈ ct.supertypes d) : ∃ d', s.decl? = some d' ∧ ct.Extends d.id d'.id := by
  obtain ⟨d', use⟩ := declared d.id s recorded
  exact ⟨d', use, s, d', recorded, use, rfl⟩

/-- The declarations that a route goes through from `d` on, by their ids. A route chooses, at each
declaration, one of the recorded supertypes by its position. -/
def trail (ct : ClassTable) (d : Decl) : List Nat → Option (List UInt32)
  | [] => some [d.id]
  | i :: route =>
    match (ct.supertypes d)[i]? with
    | some (.declared d' _ _) => (ct.trail d' route).map (d.id :: ·)
    | _ => none

/-- What a type is at the end of a route, step by step. -/
def along (ct : ClassTable) (t : Ty) : List Nat → Option Ty
  | [] => some t
  | i :: route =>
    match t with
    | .declared d _ args =>
      match (ct.supertypes d)[i]? with
      | some s => ct.along (d.supertypeAt args s) route
      | none => none
    | _ => none

/-- A route to `target` that comes to no declaration twice, and to none of those in `path`. -/
def SimpleRoute (ct : ClassTable) (target : Decl) (path : List UInt32) (d : Decl)
    (route : List Nat) : Prop :=
  ∃ ids, ct.trail d route = some ids ∧ ids.getLast? = some target.id ∧ ids.Nodup ∧
    ∀ id ∈ ids, id ∉ path

/-- The first of the simple routes, where supertypes come in the order of recording. -/
structure FirstRoute (ct : ClassTable) (target : Decl) (path : List UInt32) (d : Decl)
    (route : List Nat) : Prop where
  simple : ct.SimpleRoute target path d route
  first : ∀ route', ct.SimpleRoute target path d route' → ¬ List.Lex (· < ·) route' route

theorem trail_eq_cons {d : Decl} {route : List Nat} {ids : List UInt32}
    (goes : ct.trail d route = some ids) : ∃ rest, ids = d.id :: rest := by
  cases route with
  | nil => exact ⟨[], (Option.some.inj goes).symm⟩
  | cons i route =>
    rw [trail] at goes
    split at goes
    · obtain ⟨rest, _, rfl⟩ := Option.map_eq_some_iff.mp goes
      exact ⟨rest, rfl⟩
    · cases goes

theorem trail_cons_iff {d : Decl} {i : Nat} {route : List Nat} {ids : List UInt32} :
    ct.trail d (i :: route) = some ids ↔ ∃ s d' rest, (ct.supertypes d)[i]? = some s ∧
      s.decl? = some d' ∧ ct.trail d' route = some rest ∧ ids = d.id :: rest := by
  rw [trail]
  constructor
  · intro goes
    split at goes
    · rename_i d' nullable args recorded
      obtain ⟨rest, later, rfl⟩ := Option.map_eq_some_iff.mp goes
      exact ⟨_, d', rest, recorded, rfl, later, rfl⟩
    · cases goes
  · rintro ⟨s, d', rest, recorded, use, later, rfl⟩
    obtain ⟨nullable, args, rfl⟩ := Ty.eq_of_decl? use
    rw [recorded]
    change (ct.trail d' route).map (d.id :: ·) = some (d.id :: rest)
    rw [later, Option.map_some]

theorem simpleRoute_nil_iff {path : List UInt32} {d : Decl} :
    ct.SimpleRoute target path d [] ↔ d.id = target.id ∧ d.id ∉ path := by
  constructor
  · rintro ⟨ids, goes, ends, _, outside⟩
    obtain rfl : [d.id] = ids := Option.some.inj goes
    exact ⟨Option.some.inj ends, outside d.id (List.mem_singleton_self _)⟩
  · rintro ⟨arrived, outside⟩
    refine ⟨[d.id], rfl, congrArg some arrived, List.pairwise_singleton _ _, ?_⟩
    intro id member
    rwa [List.mem_singleton.mp member]

/-- A simple route goes on from one of the supertypes as a simple route that keeps off where it
came from. -/
theorem simpleRoute_cons_iff {path : List UInt32} {d : Decl} {i : Nat} {route : List Nat} :
    ct.SimpleRoute target path d (i :: route) ↔ d.id ∉ path ∧
      ∃ s d', (ct.supertypes d)[i]? = some s ∧ s.decl? = some d' ∧
        ct.SimpleRoute target (d.id :: path) d' route := by
  constructor
  · rintro ⟨ids, goes, ends, simple, outside⟩
    obtain ⟨s, d', rest, recorded, use, later, rfl⟩ := trail_cons_iff.mp goes
    obtain ⟨rest', rfl⟩ := trail_eq_cons later
    rw [List.getLast?_cons_cons] at ends
    obtain ⟨fresh, simple⟩ := List.nodup_cons.mp simple
    refine ⟨outside d.id List.mem_cons_self, s, d', recorded, use, _, later, ends, simple, ?_⟩
    intro id member onPath
    rcases List.mem_cons.mp onPath with rfl | earlier
    · exact fresh member
    · exact outside id (List.mem_cons_of_mem _ member) earlier
  · rintro ⟨fresh, s, d', recorded, use, rest, later, ends, simple, outside⟩
    refine ⟨d.id :: rest, trail_cons_iff.mpr ⟨s, d', rest, recorded, use, later, rfl⟩, ?_, ?_, ?_⟩
    · obtain ⟨rest', rfl⟩ := trail_eq_cons later
      rwa [List.getLast?_cons_cons]
    · exact List.nodup_cons.mpr ⟨fun member => outside d.id member List.mem_cons_self, simple⟩
    · intro id member
      rcases List.mem_cons.mp member with rfl | later
      · exact fresh
      · exact fun earlier => outside id later (List.mem_cons_of_mem _ earlier)

/-- The first route goes through the first of the supertypes from which there is a simple one. -/
theorem FirstRoute.cons {path : List UInt32} {d d₁ : Decl} {before after : List Ty} {s : Ty}
    {route : List Nat} (other : d.id ≠ target.id) (fresh : d.id ∉ path)
    (split : ct.supertypes d = before ++ s :: after) (supertype : s.decl? = some d₁)
    (onward : ct.FirstRoute target (d.id :: path) d₁ route)
    (earlier : ∀ s' ∈ before, ∀ d₂, s'.decl? = some d₂ →
      ∀ route', ¬ ct.SimpleRoute target (d.id :: path) d₂ route') :
    ct.FirstRoute target path d (before.length :: route) where
  simple := by
    have recorded : (ct.supertypes d)[before.length]? = some s := by simp [split]
    exact simpleRoute_cons_iff.mpr ⟨fresh, s, d₁, recorded, supertype, onward.simple⟩
  first := by
    intro route' simple'
    cases route' with
    | nil => exact absurd (simpleRoute_nil_iff.mp simple').1 other
    | cons j route' =>
      obtain ⟨_, s', d₂, recorded', supertype', later⟩ := simpleRoute_cons_iff.mp simple'
      rw [split] at recorded'
      intro sooner
      rcases List.cons_lex_cons_iff.mp sooner with less | ⟨rfl, below⟩
      · rw [List.getElem?_append_left less] at recorded'
        exact earlier s' (List.mem_of_getElem? recorded') d₂ supertype' route' later
      · obtain rfl : s = s' := by simpa using recorded'
        obtain rfl : d₁ = d₂ := Option.some.inj (supertype.symm.trans supertype')
        exact onward.first route' later below

/-- The first instantiation of `target` among a type and its supertypes, for a search that keeps off
the declarations in `path`, those that it is inside of. -/
def searchAlong (ct : ClassTable) (target : Decl) (path : List UInt32) (t : Ty) : Option Ty :=
  match t with
  | .declared d nullable args =>
    if d.id = target.id then some (.declared d nullable args)
    else if _fresh : d.id ∈ path then none
    else (ct.supertypes d).attach.findSome? fun ⟨s, _recorded⟩ =>
      ct.searchAlong target (d.id :: path) (d.supertypeAt args s)
  | _ => none
termination_by unvisited ct.subtypeIds path
decreasing_by
  exact unvisited_cons_lt (mem_subtypeIds (List.ne_nil_of_mem _recorded)) _fresh

theorem searchAlong_of_fresh {path : List UInt32} {d : Decl} {nullable : Bool} {args : List Ty}
    (other : d.id ≠ target.id) (fresh : d.id ∉ path) :
    ct.searchAlong target path (.declared d nullable args)
      = (ct.supertypes d).findSome? fun s =>
        ct.searchAlong target (d.id :: path) (d.supertypeAt args s) := by
  rw [searchAlong, if_neg other, dif_neg fresh, List.findSome?_subtype fun _ _ => rfl,
    List.unattach_attach]

/-- The search ends without a result if there is no simple route, and else takes the first. -/
theorem searchAlong_spec (declared : ct.DeclaredSupertypes) (path : List UInt32) (t : Ty)
    (outside : target.id ∉ path) {d : Decl} (use : t.decl? = some d) :
    match ct.searchAlong target path t with
    | none => ∀ route, ¬ ct.SimpleRoute target path d route
    | some u => ∃ route, ct.FirstRoute target path d route ∧ ct.along t route = some u := by
  induction path, t using searchAlong.induct ct target generalizing d with
  | case1 path d' nullable args arrived =>
    obtain rfl : d' = d := Option.some.inj use
    rw [searchAlong, if_pos arrived]
    have simple : ct.SimpleRoute target path d' [] :=
      simpleRoute_nil_iff.mpr ⟨arrived, arrived ▸ outside⟩
    exact ⟨[], ⟨simple, fun route' _ => List.not_lex_nil⟩, rfl⟩
  | case2 path d' nullable args other onPath =>
    obtain rfl : d' = d := Option.some.inj use
    rw [searchAlong, if_neg other, dif_pos onPath]
    rintro route ⟨ids, goes, _, _, keepsOff⟩
    obtain ⟨rest, rfl⟩ := trail_eq_cons goes
    exact keepsOff d'.id List.mem_cons_self onPath
  | case3 path d' nullable args other fresh ih =>
    obtain rfl : d' = d := Option.some.inj use
    have further : target.id ∉ d'.id :: path :=
      List.not_mem_cons_of_ne_of_not_mem (Ne.symm other) outside
    rw [searchAlong_of_fresh other fresh]
    split
    · rename_i nothing
      have each := List.findSome?_eq_none_iff.mp nothing
      intro route simple
      cases route with
      | nil => exact other (simpleRoute_nil_iff.mp simple).1
      | cons i route =>
        obtain ⟨_, s, d₁, recorded, supertype, later⟩ := simpleRoute_cons_iff.mp simple
        have member := List.mem_of_getElem? recorded
        have none := ih s member further (d'.decl?_supertypeAt args supertype)
        rw [each s member] at none
        exact none route later
    · rename_i u found
      obtain ⟨before, s, after, split, first, earlier⟩ := List.findSome?_eq_some_iff.mp found
      have member : s ∈ ct.supertypes d' := by simp [split]
      obtain ⟨d₁, supertype, _⟩ := declared.decl? member
      have result := ih s member further (d'.decl?_supertypeAt args supertype)
      rw [first] at result
      obtain ⟨route, onward, arrives⟩ := result
      refine ⟨before.length :: route, onward.cons other fresh split supertype ?_, ?_⟩
      · intro s' place d₂ supertype'
        have none := ih s' (split ▸ List.mem_append_left _ place) further
          (Decl.decl?_supertypeAt _ _ supertype')
        rwa [earlier s' place] at none
      · have recorded : (ct.supertypes d')[before.length]? = some s := by simp [split]
        rw [along]
        simp only [recorded, arrives]
  | case4 path t other =>
    obtain ⟨nullable, args, rfl⟩ := Ty.eq_of_decl? use
    exact absurd rfl (other d nullable args)

def ExtendsOutside (ct : ClassTable) (path : List UInt32) (id id' : UInt32) : Prop :=
  id ∉ path ∧ ct.Extends id id'

/-- What the target is reached from, it is reached from without coming to `id`, or one of the
declarations that `id` extends leads to it in this way. -/
theorem extends_around {path : List UInt32} {start goal : UInt32} (id : UInt32)
    (reaches : Relation.ReflTransGen (ct.ExtendsOutside path) start goal) :
    Relation.ReflTransGen (ct.ExtendsOutside (id :: path)) start goal ∨
      ∃ next, ct.Extends id next ∧
        Relation.ReflTransGen (ct.ExtendsOutside (id :: path)) next goal := by
  induction reaches using Relation.ReflTransGen.head_induction_on with
  | refl => exact .inl .refl
  | @head here next step _ ih =>
    rcases ih with around | later
    · by_cases same : here = id
      · exact .inr ⟨next, same ▸ step.2, around⟩
      · exact .inl (around.head ⟨List.not_mem_cons_of_ne_of_not_mem same step.1, step.2⟩)
    · exact .inr later

theorem not_reaches_of_searchAlong (path : List UInt32) (t : Ty) {d : Decl}
    (use : t.decl? = some d) (nothing : ct.searchAlong target path t = none) :
    ¬ Relation.ReflTransGen (ct.ExtendsOutside path) d.id target.id := by
  induction path, t using searchAlong.induct ct target generalizing d with
  | case1 path d' nullable args arrived =>
    rw [searchAlong, if_pos arrived] at nothing
    cases nothing
  | case2 path d' nullable args other onPath =>
    obtain rfl : d' = d := Option.some.inj use
    intro reaches
    rcases reaches.cases_head with same | ⟨next, step, _⟩
    · exact other same
    · exact step.1 onPath
  | case3 path d' nullable args other fresh ih =>
    obtain rfl : d' = d := Option.some.inj use
    rw [searchAlong_of_fresh other fresh] at nothing
    have each := List.findSome?_eq_none_iff.mp nothing
    intro reaches
    rcases extends_around d'.id reaches with around | ⟨next, ⟨s, d₁, entry, supertype, rfl⟩, later⟩
    · rcases around.cases_head with same | ⟨next, step, _⟩
      · exact other same
      · exact step.1 List.mem_cons_self
    · have recorded : s ∈ ct.supertypes d' := entry
      exact ih s recorded (d'.decl?_supertypeAt args supertype) (each s recorded) later
  | case4 path t other =>
    obtain ⟨nullable, args, rfl⟩ := Ty.eq_of_decl? use
    exact absurd rfl (other d nullable args)

theorem reaches_of_trail {d : Decl} {route : List Nat} {ids : List UInt32} {goal : UInt32}
    (goes : ct.trail d route = some ids) (ends : ids.getLast? = some goal) :
    Relation.ReflTransGen ct.Extends d.id goal := by
  induction route generalizing d ids with
  | nil =>
    obtain rfl : [d.id] = ids := Option.some.inj goes
    obtain rfl : d.id = goal := Option.some.inj ends
    exact .refl
  | cons i route ih =>
    obtain ⟨s, d', rest, recorded, use, later, rfl⟩ := trail_cons_iff.mp goes
    obtain ⟨rest', rfl⟩ := trail_eq_cons later
    rw [List.getLast?_cons_cons] at ends
    exact (ih later ends).head ⟨s, d', List.mem_of_getElem? recorded, use, rfl⟩

theorem searchAlong_eq_none_iff (declared : ct.DeclaredSupertypes) {t : Ty} {d : Decl}
    (use : t.decl? = some d) :
    ct.searchAlong target [] t = none ↔ ¬ Relation.ReflTransGen ct.Extends d.id target.id := by
  constructor
  · intro nothing reaches
    have more : ct.Extends ≤ ct.ExtendsOutside [] := fun _ _ step => ⟨List.not_mem_nil, step⟩
    exact not_reaches_of_searchAlong [] t use nothing (Relation.ReflTransGen.mono more _ _ reaches)
  · intro apart
    have result := searchAlong_spec declared [] t (List.not_mem_nil (a := target.id)) use
    cases found : ct.searchAlong target [] t with
    | none => rfl
    | some u =>
      rw [found] at result
      obtain ⟨route, ⟨⟨ids, goes, ends, _⟩, _⟩, _⟩ := result
      exact absurd (reaches_of_trail goes ends) apart

/-- Nothing leads to the target from declarations that only lead among themselves. -/
theorem searchAlong_of_closed (declared : ct.DeclaredSupertypes) {visited inside : List UInt32}
    (missing : target.id ∉ visited)
    (closed : ∀ id ∈ visited, id ∉ inside → ∀ id', ct.Extends id id' → id' ∈ visited)
    (path : List UInt32) (t : Ty) (within : inside ⊆ path)
    (known : ∀ d, t.decl? = some d → d.id ∈ visited) : ct.searchAlong target path t = none := by
  induction path, t using searchAlong.induct ct target with
  | case1 path d nullable args arrived => exact absurd (known d rfl) (arrived ▸ missing)
  | case2 path d nullable args other onPath => rw [searchAlong, if_neg other, dif_pos onPath]
  | case3 path d nullable args other fresh ih =>
    rw [searchAlong_of_fresh other fresh]
    refine List.findSome?_eq_none_iff.mpr fun s recorded => ?_
    refine ih s recorded (List.subset_cons_of_subset _ within) fun d₁ use => ?_
    obtain ⟨d₂, supertype, step⟩ := declared.decl? recorded
    obtain rfl : d₂ = d₁ := Option.some.inj ((d.decl?_supertypeAt args supertype).symm.trans use)
    exact closed d.id (known d rfl) (fun member => fresh (within member)) d₂.id step
  | case4 path t other =>
    rw [searchAlong]
    exact other

/-- A state of the search, where each pending type comes with the declarations that the search is
inside of when it turns to it. A declaration that the search is then no longer inside of leads only
to declarations that it has entered, or enters before. -/
structure Entered (ct : ClassTable) (target : Decl) (visited : List UInt32)
    (pending : List (List UInt32 × Ty)) : Prop where
  missing : target.id ∉ visited
  inside : ∀ x ∈ pending, x.1 ⊆ visited
  closed : ∀ before x after, pending = before ++ x :: after → ∀ id ∈ visited, id ∉ x.1 →
    ∀ id', ct.Extends id id' → id' ∈ visited ∨ ∃ y ∈ before, ∃ d, y.2.decl? = some d ∧ d.id = id'

variable {visited path : List UInt32} {pending : List (List UInt32 × Ty)}

/-- When the search turns to a type, what has been entered on other ways only leads to what has been
entered. -/
theorem Entered.head_closed {t : Ty} (entered : Entered ct target visited ((path, t) :: pending))
    {id id' : UInt32} (member : id ∈ visited) (outside : id ∉ path) (step : ct.Extends id id') :
    id' ∈ visited := by
  rcases entered.closed [] _ pending rfl id member outside id' step with known | ⟨y, place, _⟩
  · exact known
  · cases place

theorem Entered.skip {t : Ty} (entered : Entered ct target visited ((path, t) :: pending))
    (known : ∀ d, t.decl? = some d → d.id ∈ visited) : Entered ct target visited pending where
  missing := entered.missing
  inside := fun x member => entered.inside x (List.mem_cons_of_mem _ member)
  closed := by
    rintro before x after rfl id member outside id' step
    rcases entered.closed ((path, t) :: before) x after rfl id member outside id' step with
      old | ⟨y, place, d, use, rfl⟩
    · exact .inl old
    · rcases List.mem_cons.mp place with rfl | later
      · exact .inl (known d use)
      · exact .inr ⟨y, later, d, use, rfl⟩

theorem split_append {α : Type} {l m before after : List α} {x : α}
    (split : l ++ m = before ++ x :: after) :
    (∃ rest, before = l ++ rest ∧ m = rest ++ x :: after) ∨ x ∈ l := by
  rcases List.append_eq_append_iff.mp split with ⟨rest, first, last⟩ | ⟨rest, first, last⟩
  · exact .inl ⟨rest, first, last⟩
  · cases rest with
    | nil => exact .inl ⟨[], by simpa using first.symm, by simpa using last.symm⟩
    | cons y rest =>
      obtain ⟨rfl, _⟩ := List.cons.inj last
      exact .inr (by simp [first])

theorem Entered.expand {d : Decl} {nullable : Bool} {args : List Ty}
    (entered : Entered ct target visited ((path, .declared d nullable args) :: pending))
    (other : d.id ≠ target.id) :
    Entered ct target (d.id :: visited)
      ((ct.supertypes d).map (fun s => (d.id :: path, d.supertypeAt args s)) ++ pending) where
  missing := List.not_mem_cons_of_ne_of_not_mem (Ne.symm other) entered.missing
  inside := by
    intro x member
    rcases List.mem_append.mp member with new | old
    · obtain ⟨s, _, rfl⟩ := List.mem_map.mp new
      exact List.cons_subset_cons _ (entered.inside _ List.mem_cons_self)
    · exact List.subset_cons_of_subset _ (entered.inside x (List.mem_cons_of_mem _ old))
  closed := by
    intro before x after split id member outside id' step
    rcases split_append split with ⟨rest, rfl, rfl⟩ | new
    · rcases List.mem_cons.mp member with rfl | old
      · obtain ⟨s, d', entry, use, rfl⟩ := step
        have uses : (d.supertypeAt args s).decl? = some d' := d.decl?_supertypeAt args use
        refine .inr ⟨(d.id :: path, d.supertypeAt args s), ?_, d', uses, rfl⟩
        exact List.mem_append_left _ (List.mem_map.mpr ⟨s, entry, rfl⟩)
      · rcases entered.closed (_ :: rest) x after rfl id old outside id' step with
          known | ⟨y, place, d', use, rfl⟩
        · exact .inl (List.mem_cons_of_mem _ known)
        · rcases List.mem_cons.mp place with rfl | later
          · obtain rfl : d = d' := Option.some.inj use
            exact .inl List.mem_cons_self
          · exact .inr ⟨y, List.mem_append_right _ later, d', use, rfl⟩
    · obtain ⟨s, _, rfl⟩ := List.mem_map.mp new
      have old : id ∈ visited :=
        (List.mem_cons.mp member).resolve_left fun same => outside (same ▸ List.mem_cons_self)
      have before : id ∉ path := fun onPath => outside (List.mem_cons_of_mem _ onPath)
      exact .inl (List.mem_cons_of_mem _ (entered.head_closed old before step))

/-- What has been entered before is passed over, and the search that remembers its way only comes to
nothing there. -/
theorem findSupertype_eq_findSome? (declared : ct.DeclaredSupertypes)
    (entered : Entered ct target visited pending) :
    ct.findSupertype target visited (pending.map (·.2))
      = pending.findSome? fun x => ct.searchAlong target x.1 x.2 := by
  generalize types : pending.map (·.2) = ts
  induction visited, ts using findSupertype.induct ct target generalizing pending with
  | case1 visited =>
    obtain rfl := List.map_eq_nil_iff.mp types
    rw [findSupertype, List.findSome?_nil]
  | case2 visited d nullable args ts arrived =>
    obtain ⟨⟨path, t⟩, rest, rfl, rfl, rfl⟩ := List.map_eq_cons_iff.mp types
    rw [findSupertype, if_pos arrived, List.findSome?_cons, searchAlong,
      if_pos (beq_iff_eq.mp arrived)]
  | case3 visited d nullable args ts other known ih =>
    obtain ⟨⟨path, t⟩, rest, rfl, rfl, rfl⟩ := List.map_eq_cons_iff.mp types
    have within : ∀ d', (Ty.declared d nullable args).decl? = some d' → d'.id ∈ visited := by
      intro d' use
      obtain rfl : d = d' := Option.some.inj use
      exact known
    have nothing : ct.searchAlong target path (.declared d nullable args) = none := by
      refine searchAlong_of_closed declared entered.missing ?_ path _ (List.Subset.refl _) within
      exact fun id member outside id' step => entered.head_closed member outside step
    rw [findSupertype, if_neg other, if_pos known, List.findSome?_cons, nothing]
    exact ih (entered.skip within) rfl
  | case4 visited d nullable args ts other fresh ih =>
    obtain ⟨⟨path, t⟩, rest, rfl, rfl, rfl⟩ := List.map_eq_cons_iff.mp types
    have other' : d.id ≠ target.id := fun same => other (beq_iff_eq.mpr same)
    have fresh' : d.id ∉ path := fun onPath => fresh (entered.inside _ List.mem_cons_self onPath)
    have steps : (ct.supertypes d).map (Ty.instantiate (.declared d nullable args))
        = (ct.supertypes d).map (d.supertypeAt args) :=
      List.map_congr_left fun s _ => d.instantiate_eq_supertypeAt nullable args s
    have next := ih (entered.expand other') (by simp [steps, Function.comp_def])
    rw [findSupertype, if_neg other, if_neg fresh, next, List.findSome?_append,
      List.findSome?_map, List.findSome?_cons, searchAlong_of_fresh other' fresh',
      Function.comp_def]
    cases (ct.supertypes d).findSome? fun s =>
      ct.searchAlong target (d.id :: path) (d.supertypeAt args s) <;> rfl
  | case5 visited t ts other ih =>
    obtain ⟨⟨path, t⟩, rest, rfl, rfl, rfl⟩ := List.map_eq_cons_iff.mp types
    have useless : ∀ d', t.decl? = some d' → d'.id ∈ visited := by
      intro d' use
      obtain ⟨nullable, args, rfl⟩ := Ty.eq_of_decl? use
      exact absurd rfl (other d' nullable args)
    have nothing : ct.searchAlong target path t = none := by
      rw [searchAlong]
      exact other
    rw [List.findSome?_cons, nothing, findSupertype]
    · exact ih (entered.skip useless) rfl
    · exact other

theorem lift?_eq_searchAlong (declared : ct.DeclaredSupertypes) (t : Ty) (target : Decl) :
    ct.lift? t target = ct.searchAlong target [] t := by
  have start : Entered ct target [] [([], t)] :=
    { missing := List.not_mem_nil
      inside := fun x member => by
        obtain rfl := List.mem_singleton.mp member
        exact List.Subset.refl _
      closed := fun _ _ _ _ _ member => by cases member }
  have found := findSupertype_eq_findSome? declared start
  rw [List.findSome?_cons] at found
  change ct.lift? t target = _ at found
  rw [found]
  cases ct.searchAlong target [] t <;> rfl

/-- A type is lifted along the first simple route, and not lifted only if there is no route. -/
theorem lifts_along_first_route (declared : ct.DeclaredSupertypes) (d : Decl) (nullable : Bool)
    (args : List Ty) (target : Decl) :
    (ct.lift? (.declared d nullable args) target = none ↔
      ¬ Relation.ReflTransGen ct.Extends d.id target.id) ∧
    ct.lift? (.declared d nullable args) target
      = ct.searchAlong target [] (.declared d nullable args) ∧
    ∀ u, ct.lift? (.declared d nullable args) target = some u ↔
      ∃ route, ct.FirstRoute target [] d route ∧
        ct.along (.declared d nullable args) route = some u := by
  have result := searchAlong_spec declared [] (.declared d nullable args)
    (List.not_mem_nil (a := target.id)) rfl
  rw [lift?_eq_searchAlong declared]
  refine ⟨searchAlong_eq_none_iff declared rfl, rfl, fun u => ?_⟩
  cases found : ct.searchAlong target [] (.declared d nullable args) with
  | none =>
    rw [found] at result
    constructor
    · intro something
      cases something
    · rintro ⟨route, first, _⟩
      exact absurd first.simple (result route)
  | some u' =>
    rw [found] at result
    obtain ⟨route, first, arrives⟩ := result
    constructor
    · intro same
      obtain rfl := Option.some.inj same
      exact ⟨route, first, arrives⟩
    · rintro ⟨route', first', arrives'⟩
      obtain rfl : route = route' :=
        List.le_antisymm (first.first route' first'.simple) (first'.first route first.simple)
      exact arrives.symm.trans arrives'

end ClassTable

namespace Sample

def shared : TyVar := ⟨0, "S", .parameter, false⟩

def looping : TyVar := ⟨1, "L", .parameter, false⟩

def passing : TyVar := ⟨2, "P", .parameter, false⟩

def sharedDecl : Decl := ⟨1, "Shared", false, [shared]⟩

def loopingDecl : Decl := ⟨2, "Looping", false, [looping]⟩

def passingDecl : Decl := ⟨3, "Passing", false, [passing]⟩

def goalDecl : Decl := ⟨4, "Goal", false, [⟨3, "G", .parameter, false⟩]⟩

/-- A class with two supertypes, of which the first leads back to the class and the second to the
first one and to the goal. -/
def diamond : ClassTable :=
  .ofLists [ClassTable.object, sharedDecl, loopingDecl, passingDecl, goalDecl]
    ([0, 1, 2, 3].map fun id => (id, ⟨ClassTable.top, none⟩))
    [(1, [.of loopingDecl [.var shared], .of passingDecl [(Ty.var shared).toNullable]]),
      (2, [.of sharedDecl [.array (.var looping) false]]),
      (3, [.of loopingDecl [], .of goalDecl [.var passing]])]

theorem supertypes_diamond {id : UInt32} {s : Ty} (recorded : s ∈ diamond.supertypesOf id) :
    (id, s) ∈ [(1, .of loopingDecl [.var shared]),
      (1, .of passingDecl [(Ty.var shared).toNullable]),
      (2, .of sharedDecl [.array (.var looping) false]), (3, .of loopingDecl []),
      (3, .of goalDecl [.var passing])] := by
  have ids : diamond.subtypeIds = [1, 2, 3] := rfl
  have known : id = 1 ∨ id = 2 ∨ id = 3 := by
    have member := ClassTable.mem_subtypeIds (List.ne_nil_of_mem recorded)
    simpa [ids] using member
  rcases known with rfl | rfl | rfl
  · rcases List.mem_pair.mp recorded with rfl | rfl <;> simp
  · obtain rfl := List.mem_singleton.mp recorded
    simp
  · rcases List.mem_pair.mp recorded with rfl | rfl <;> simp

theorem lift?_diamond (t : Ty) :
    diamond.lift? (.of sharedDecl [t]) goalDecl = some (.of goalDecl [t.toNullable]) ∧
    diamond.lift? (.of passingDecl [t]) sharedDecl = some (.of sharedDecl []) := by
  have first : diamond.supertypes sharedDecl
      = [.of loopingDecl [.var shared], .of passingDecl [(Ty.var shared).toNullable]] := rfl
  have second : diamond.supertypes loopingDecl
      = [.of sharedDecl [.array (.var looping) false]] := rfl
  have third : diamond.supertypes passingDecl
      = [.of loopingDecl [], .of goalDecl [.var passing]] := rfl
  have generic : loopingDecl.isGeneric = true := rfl
  constructor
  · simp +decide [ClassTable.lift?, ClassTable.findSupertype, Ty.of, first, second, third,
      Ty.instantiate, Ty.isRaw, Ty.subst, Ty.substAll]
    rfl
  · simp +decide [ClassTable.lift?, ClassTable.findSupertype, Ty.of, second, third, generic,
      Ty.instantiate, Ty.isRaw, Ty.subst, Ty.substAll]

/-- The second route goes on from a raw supertype, and stays raw. -/
theorem lifts_along_first_route_diamond :
    diamond.DeclaredSupertypes ∧
    diamond.lift? (.of sharedDecl [.of ClassTable.object []]) goalDecl
      = some (.of goalDecl [ClassTable.top]) ∧
    (∃ route, diamond.FirstRoute goalDecl [] sharedDecl route ∧
      diamond.along (.of sharedDecl [.of ClassTable.object []]) route
        = some (.of goalDecl [ClassTable.top])) ∧
    diamond.lift? (.of passingDecl [ClassTable.top]) sharedDecl = some (.of sharedDecl []) ∧
    ∃ route, diamond.FirstRoute sharedDecl [] passingDecl route ∧
      diamond.along (.of passingDecl [ClassTable.top]) route = some (.of sharedDecl []) := by
  have declared : diamond.DeclaredSupertypes := by
    intro id s recorded
    have entry := supertypes_diamond recorded
    simp only [List.mem_cons, Prod.mk.injEq, List.not_mem_nil, or_false] at entry
    rcases entry with ⟨_, rfl⟩ | ⟨_, rfl⟩ | ⟨_, rfl⟩ | ⟨_, rfl⟩ | ⟨_, rfl⟩ <;> exact ⟨_, rfl⟩
  have lifted := ClassTable.lifts_along_first_route declared sharedDecl false
    [.of ClassTable.object []] goalDecl
  have raised := ClassTable.lifts_along_first_route declared passingDecl false
    [ClassTable.top] sharedDecl
  have value := (lift?_diamond (.of ClassTable.object [])).1
  have raw := (lift?_diamond ClassTable.top).2
  exact ⟨declared, value, (lifted.2.2 _).mp value, raw, (raised.2.2 _).mp raw⟩

end Sample

end NullabilityCasts
