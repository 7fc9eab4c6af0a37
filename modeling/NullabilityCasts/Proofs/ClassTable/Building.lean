import NullabilityCasts.ClassTable.Builder
import Mathlib.Data.List.Nodup

/-!
# Tables that were built

A table answers for all that was handed out while it was built, in whatever order it was asked for:
everything handed out is as it was asked for and has an id of its own, every declaration and every
variable is found again, and bounds and supertypes are those that were asked for.
-/

set_option autoImplicit false

namespace NullabilityCasts

/-- The ids of the elements count up from `first`. -/
def Numbered {α : Type} (id : α → UInt32) (first : UInt32) (l : List α) : Prop :=
  l.map id = (List.range l.length).map fun i => first + UInt32.ofNat i

namespace Numbered

variable {α : Type} {id : α → UInt32} {first : UInt32} {l l' : List α}

theorem nil : Numbered id first ([] : List α) := rfl

theorem singleton {a : α} (same : id a = first) : Numbered id first [a] := by
  simp [Numbered, same]

theorem append (start : Numbered id first l)
    (later : Numbered id (first + UInt32.ofNat l.length) l') : Numbered id first (l ++ l') := by
  unfold Numbered at start later ⊢
  have shift : (fun i => first + UInt32.ofNat l.length + UInt32.ofNat i)
      = fun i => first + UInt32.ofNat (l.length + i) := by
    funext i
    rw [UInt32.ofNat_add, UInt32.add_assoc]
  rw [List.map_append, start, later, shift, List.length_append, List.range_add, List.map_append,
    List.map_map]
  rfl

theorem nodup (numbered : Numbered id first l) (few : l.length ≤ UInt32.size) :
    (l.map id).Nodup := by
  rw [numbered]
  refine List.Nodup.map_on ?_ List.nodup_range
  intro m inM n inN same
  have equal := congrArg UInt32.toNat ((UInt32.add_right_inj first).mp same)
  rw [List.mem_range] at inM inN
  rwa [UInt32.toNat_ofNat_of_lt' (by omega), UInt32.toNat_ofNat_of_lt' (by omega)] at equal

/-- Where the ids count up from zero, each is the position of its element. -/
theorem getElem?_id (numbered : Numbered id 0 l) (few : l.length ≤ UInt32.size) {a : α}
    (member : a ∈ l) : l[(id a).toNat]? = some a := by
  obtain ⟨i, inside, rfl⟩ := List.mem_iff_getElem.mp member
  have same : id l[i] = UInt32.ofNat i := by
    have each := congrArg (fun ids => ids[i]?) numbered
    simpa [inside] using each
  rw [same, UInt32.toNat_ofNat_of_lt' (by omega), List.getElem?_eq_getElem inside]

end Numbered

namespace ClassTable

inductive Request where
  | addClass (qualifiedName : String) (params : List String)
  | addAnonymous (qualifiedName : String)
  | newParameter (name : String) (upper : Option Ty)
  | newWildcard (upper lower : Option Ty)
  | newCapture (upper lower : Option Ty)
  | setUpper (v : TyVar) (upper : Ty)
  | recordSupertype (d : Decl) (supertype : Ty)

/-- A request with the declarations and the variables that were handed out for it. -/
structure Exchange where
  request : Request
  decls : List Decl := []
  vars : List TyVar := []

namespace Request

/-- The nullable form of the root type, written out. -/
def unlimited : Ty := .declared ⟨0, "java.lang.Object", false, []⟩ true []

def given : Request → Bounds
  | newParameter _ upper => ⟨upper.getD unlimited, none⟩
  | newWildcard upper lower | newCapture upper lower => ⟨upper.getD unlimited, lower⟩
  | _ => ⟨unlimited, none⟩

def upperFor? (id : UInt32) : Request → Option Ty
  | setUpper v upper => if v.id = id then some upper else none
  | _ => none

def supertypeFor? (id : UInt32) : Request → Option Ty
  | recordSupertype d supertype => if d.id = id then some supertype else none
  | _ => none

/-- What is handed out for a request is what it asks for. The parameters of a declaration are handed
out with it. -/
inductive Grants : Request → List Decl → List TyVar → Prop where
  | addClass (id : UInt32) {name : String} {params : List String} {vars : List TyVar}
      (named : vars.map TyVar.name = params)
      (plain : ∀ v ∈ vars, v.kind = .parameter ∧ v.nullable = false) :
      Grants (.addClass name params) [⟨id, name, false, vars⟩] vars
  | addAnonymous (id : UInt32) {name : String} :
      Grants (.addAnonymous name) [⟨id, name, true, []⟩] []
  | newParameter (id : UInt32) {name : String} {upper : Option Ty} :
      Grants (.newParameter name upper) [] [⟨id, name, .parameter, false⟩]
  | newWildcard (id : UInt32) {upper lower : Option Ty} :
      Grants (.newWildcard upper lower) [] [⟨id, "?", .wildcard, false⟩]
  | newCapture (id : UInt32) {upper lower : Option Ty} :
      Grants (.newCapture upper lower) [] [⟨id, "capture#" ++ toString id, .capture, false⟩]
  | setUpper {v : TyVar} {upper : Ty} : Grants (.setUpper v upper) [] []
  | recordSupertype {d : Decl} {supertype : Ty} : Grants (.recordSupertype d supertype) [] []

end Request

namespace Builder

def answer (b : Builder) (r : Request) : Exchange × Builder :=
  match r with
  | .addClass qualifiedName params =>
    let (d, b) := b.addClass qualifiedName params
    (⟨r, [d], d.params⟩, b)
  | .addAnonymous qualifiedName =>
    let (d, b) := b.addAnonymous qualifiedName
    (⟨r, [d], d.params⟩, b)
  | .newParameter name upper =>
    let (v, b) := b.newParameter name upper
    (⟨r, [], [v]⟩, b)
  | .newWildcard upper lower =>
    let (v, b) := b.newWildcard upper lower
    (⟨r, [], [v]⟩, b)
  | .newCapture upper lower =>
    let (v, b) := b.newCapture upper lower
    (⟨r, [], [v]⟩, b)
  | .setUpper v upper => (⟨r, [], []⟩, b.setUpper v upper)
  | .recordSupertype d supertype => (⟨r, [], []⟩, b.recordSupertype d supertype)

def answerAll (b : Builder) : List Request → List Exchange × Builder
  | [] => ([], b)
  | r :: later =>
    let (x, b) := b.answer r
    let (history, b) := b.answerAll later
    (x :: history, b)

theorem answerAll_cons (b : Builder) (r : Request) (later : List Request) :
    b.answerAll (r :: later) = ((b.answer r).1 :: ((b.answer r).2.answerAll later).1,
      ((b.answer r).2.answerAll later).2) := rfl

end Builder

def history (requests : List Request) : List Exchange := (Builder.start.answerAll requests).1

def built (requests : List Request) : ClassTable := (Builder.start.answerAll requests).2.build

namespace Exchange

def declsOf (history : List Exchange) : List Decl := history.flatMap decls

def varsOf (history : List Exchange) : List TyVar := history.flatMap vars

def lastUpper (id : UInt32) (initial : Ty) (history : List Exchange) : Ty :=
  (history.filterMap fun x => x.request.upperFor? id).getLastD initial

theorem lastUpper_concat (id : UInt32) (initial : Ty) (history : List Exchange) (x : Exchange) :
    lastUpper id initial (history ++ [x])
      = (x.request.upperFor? id).getD (lastUpper id initial history) := by
  unfold lastUpper
  rw [List.filterMap_append]
  cases upper : x.request.upperFor? id <;> simp [upper]

end Exchange

open Exchange

def latest (name : String) (decls : List Decl) : Option Decl :=
  decls.reverse.find? (·.qualifiedName == name)

theorem latest_singleton (name : String) (d : Decl) :
    latest name [d] = if d.qualifiedName = name then some d else none := by
  by_cases same : d.qualifiedName = name <;> simp [latest, same]

theorem latest_append (name : String) (decls decls' : List Decl) :
    latest name (decls ++ decls') = (latest name decls').or (latest name decls) := by
  rw [latest, List.reverse_append, List.find?_append]
  rfl

theorem latest_eq_some_iff {name : String} {decls : List Decl} {d : Decl} :
    latest name decls = some d ↔ d.qualifiedName = name ∧ ∃ before after,
      decls = before ++ d :: after ∧ ∀ e ∈ after, e.qualifiedName ≠ name := by
  rw [latest, List.find?_eq_some_iff_append]
  constructor
  · rintro ⟨same, after, before, split, none⟩
    refine ⟨by simpa using same, before.reverse, after.reverse, ?_, ?_⟩
    · have reversed := congrArg List.reverse split
      simpa using reversed
    · simpa using none
  · rintro ⟨same, before, after, split, none⟩
    exact ⟨by simpa using same, after.reverse, before.reverse, by simp [split], by simpa using none⟩

theorem latest_eq_none_iff {name : String} {decls : List Decl} :
    latest name decls = none ↔ ∀ d ∈ decls, d.qualifiedName ≠ name := by
  simp [latest, List.find?_eq_none]

theorem ite_compare {κ α : Type} [Ord κ] [Std.LawfulEqOrd κ] {k k' : κ} [Decidable (k = k')]
    (x y : α) : (if compare k k' = .eq then x else y) = if k = k' then x else y := by
  simp only [Std.LawfulEqCmp.compare_eq_iff_eq]

theorem idByName_insert (ids : Std.TreeMap String UInt32) (d : Decl) (name : String) :
    (ids.insert d.qualifiedName d.id)[name]?
      = ((latest name [d]).map Decl.id).or ids[name]? := by
  rw [Std.TreeMap.getElem?_insert, ite_compare, latest_singleton]
  by_cases same : d.qualifiedName = name
  · rw [if_pos same, if_pos same]
    rfl
  · rw [if_neg same, if_neg same]
    rfl

namespace Builder

theorem bounds?_newVariable (b : Builder) (name : String) (kind : VarKind) (upper lower : Option Ty)
    (id : UInt32) : (b.newVariable name kind upper lower).2.bounds? id
      = if b.nextVariable = id then some ⟨upper.getD top, lower⟩ else b.bounds? id := by
  change (b.boundsById.insert b.nextVariable ⟨upper.getD top, lower⟩)[id]? = _
  rw [Std.TreeMap.getElem?_insert, ite_compare]
  rfl

theorem bounds?_setUpper (b : Builder) (v : TyVar) (upper : Ty) (id : UInt32) :
    (b.setUpper v upper).bounds? id = if v.id = id
      then (b.bounds? id).map fun bounds => { bounds with upper := upper } else b.bounds? id := by
  change (b.boundsById.modify v.id _)[id]? = _
  rw [Std.TreeMap.getElem?_modify, ite_compare]
  by_cases same : v.id = id
  · rw [if_pos same, if_pos same, same]
    rfl
  · rw [if_neg same, if_neg same]
    rfl

theorem supertypesOf_recordSupertype (b : Builder) (d : Decl) (supertype : Ty) (id : UInt32) :
    (b.recordSupertype d supertype).supertypesOf id
      = if d.id = id then b.supertypesOf id ++ [supertype] else b.supertypesOf id := by
  change (b.supertypesById.alter d.id _).getD id [] = _
  rw [Std.TreeMap.getD_alter, ite_compare]
  by_cases same : d.id = id
  · rw [if_pos same, if_pos same, same, supertypesOf, Std.TreeMap.getD_eq_getD_getElem?]
    rfl
  · rw [if_neg same, if_neg same]
    rfl

structure Answered (b : Builder) (r : Request) (x : Exchange) (b' : Builder) : Prop where
  request : x.request = r
  grants : r.Grants x.decls x.vars
  decls : b'.decls = b.decls ++ x.decls
  declIds : Numbered Decl.id (UInt32.ofNat b.decls.length) x.decls
  names : ∀ name, b'.idByName[name]? = ((latest name x.decls).map Decl.id).or b.idByName[name]?
  varIds : Numbered TyVar.id b.nextVariable x.vars
  counter : b'.nextVariable = b.nextVariable + UInt32.ofNat x.vars.length
  created : ∀ v ∈ x.vars, b'.bounds? v.id = some r.given
  /-- Nothing but an upper bound changes for a variable that is not created. -/
  kept : ∀ id, (∀ v ∈ x.vars, v.id ≠ id) → b'.bounds? id
    = (b.bounds? id).map fun bounds => { bounds with upper := (r.upperFor? id).getD bounds.upper }
  supertypes : ∀ id, b'.supertypesOf id = b.supertypesOf id ++ (r.supertypeFor? id).toList

/-- Only variables are created, all with the same bounds. -/
structure Created (b : Builder) (given : Bounds) (vars : List TyVar) (b' : Builder) : Prop where
  decls : b'.decls = b.decls
  idByName : b'.idByName = b.idByName
  supertypesById : b'.supertypesById = b.supertypesById
  varIds : Numbered TyVar.id b.nextVariable vars
  counter : b'.nextVariable = b.nextVariable + UInt32.ofNat vars.length
  created : ∀ v ∈ vars, b'.bounds? v.id = some given
  kept : ∀ id, (∀ v ∈ vars, v.id ≠ id) → b'.bounds? id = b.bounds? id

theorem created_newVariable (b : Builder) (name : String) (kind : VarKind)
    (upper lower : Option Ty) : Created b ⟨upper.getD top, lower⟩
      [(b.newVariable name kind upper lower).1] (b.newVariable name kind upper lower).2 where
  decls := rfl
  idByName := rfl
  supertypesById := rfl
  varIds := Numbered.singleton rfl
  counter := rfl
  created := by
    intro v member
    obtain rfl := List.mem_singleton.mp member
    rw [bounds?_newVariable]
    exact if_pos rfl
  kept := by
    intro id other
    rw [bounds?_newVariable]
    exact if_neg (other _ (List.mem_singleton_self _))

namespace Created

variable {b b₁ b₂ : Builder} {given : Bounds} {vars vars' : List TyVar}

theorem nil : Created b given [] b where
  decls := rfl
  idByName := rfl
  supertypesById := rfl
  varIds := Numbered.nil
  counter := (UInt32.add_zero _).symm
  created := fun _ member => nomatch member
  kept := fun _ _ => rfl

theorem append (first : Created b given vars b₁) (later : Created b₁ given vars' b₂) :
    Created b given (vars ++ vars') b₂ where
  decls := later.decls.trans first.decls
  idByName := later.idByName.trans first.idByName
  supertypesById := later.supertypesById.trans first.supertypesById
  varIds := first.varIds.append (first.counter ▸ later.varIds)
  counter := by
    rw [later.counter, first.counter, List.length_append, UInt32.ofNat_add, UInt32.add_assoc]
  created := by
    intro v member
    by_cases again : ∃ w ∈ vars', w.id = v.id
    · obtain ⟨w, within, same⟩ := again
      rw [← same]
      exact later.created w within
    · have apart : ∀ w ∈ vars', w.id ≠ v.id := fun w within same => again ⟨w, within, same⟩
      rw [later.kept v.id apart]
      exact first.created v ((List.mem_append.mp member).resolve_right fun within =>
        apart v within rfl)
  kept := by
    intro id other
    rw [later.kept id fun v member => other v (List.mem_append_right _ member)]
    exact first.kept id fun v member => other v (List.mem_append_left _ member)

end Created

theorem created_newParameters (b : Builder) (names : List String) :
    Created b ⟨top, none⟩ (b.newParameters names).1 (b.newParameters names).2 := by
  induction names generalizing b with
  | nil => exact .nil
  | cons name names ih =>
    exact (created_newVariable b name .parameter none none).append
      (ih (b.newParameter name none).2)

theorem idByName_addDecl (b : Builder) (qualifiedName : String) (anonymous : Bool)
    (params : List String) (name : String) :
    (b.addDecl qualifiedName anonymous params).2.idByName[name]?
      = ((latest name [(b.addDecl qualifiedName anonymous params).1]).map Decl.id).or
        b.idByName[name]? := by
  rw [← (created_newParameters b params).idByName]
  exact idByName_insert _ (b.addDecl qualifiedName anonymous params).1 name

theorem newParameters_named (b : Builder) (names : List String) :
    (b.newParameters names).1.map TyVar.name = names ∧
      ∀ v ∈ (b.newParameters names).1, v.kind = .parameter ∧ v.nullable = false := by
  induction names generalizing b with
  | nil => exact ⟨rfl, fun _ member => nomatch member⟩
  | cons name names ih =>
    obtain ⟨named, plain⟩ := ih (b.newParameter name none).2
    exact ⟨congrArg (name :: ·) named, List.forall_mem_cons.mpr ⟨⟨rfl, rfl⟩, plain⟩⟩

section Answers

variable {b b' : Builder} {r : Request} {vars : List TyVar}

theorem Created.kept_without (created : Created b r.given vars b')
    (noUpper : ∀ id, r.upperFor? id = none) (id : UInt32) (other : ∀ v ∈ vars, v.id ≠ id) :
    b'.bounds? id = (b.bounds? id).map fun bounds =>
      { bounds with upper := (r.upperFor? id).getD bounds.upper } := by
  rw [created.kept id other, noUpper]
  exact Option.map_id'.symm

theorem Created.answered (created : Created b r.given vars b') (grants : r.Grants [] vars)
    (noUpper : ∀ id, r.upperFor? id = none) (noSupertype : ∀ id, r.supertypeFor? id = none) :
    Answered b r ⟨r, [], vars⟩ b' where
  request := rfl
  grants := grants
  decls := created.decls.trans (List.append_nil _).symm
  declIds := Numbered.nil
  names := by
    intro name
    rw [created.idByName]
    rfl
  varIds := created.varIds
  counter := created.counter
  created := created.created
  kept := created.kept_without noUpper
  supertypes := by
    intro id
    rw [noSupertype, supertypesOf, supertypesOf, created.supertypesById]
    exact (List.append_nil _).symm

theorem answered_addDecl (b : Builder) (qualifiedName : String) (anonymous : Bool)
    (params : List String)
    (grants : r.Grants [(b.addDecl qualifiedName anonymous params).1]
      (b.addDecl qualifiedName anonymous params).1.params) (given : r.given = ⟨top, none⟩)
    (noUpper : ∀ id, r.upperFor? id = none) (noSupertype : ∀ id, r.supertypeFor? id = none) :
    Answered b r
      ⟨r, [(b.addDecl qualifiedName anonymous params).1],
        (b.addDecl qualifiedName anonymous params).1.params⟩
      (b.addDecl qualifiedName anonymous params).2 := by
  have created : Created b r.given (b.newParameters params).1 (b.newParameters params).2 :=
    given ▸ created_newParameters b params
  have position : (b.addDecl qualifiedName anonymous params).1.id
      = UInt32.ofNat b.decls.length :=
    congrArg (fun decls : List Decl => UInt32.ofNat decls.length) created.decls
  exact
    { request := rfl
      grants := grants
      decls := congrArg (· ++ _) created.decls
      declIds := Numbered.singleton position
      names := idByName_addDecl b qualifiedName anonymous params
      varIds := created.varIds
      counter := created.counter
      created := created.created
      kept := created.kept_without noUpper
      supertypes := by
        intro id
        rw [noSupertype, supertypesOf, supertypesOf, ← created.supertypesById]
        exact (List.append_nil _).symm }

theorem answered_setUpper (b : Builder) (v : TyVar) (upper : Ty) :
    Answered b (.setUpper v upper) ⟨.setUpper v upper, [], []⟩ (b.setUpper v upper) where
  request := rfl
  grants := .setUpper
  decls := (List.append_nil _).symm
  declIds := Numbered.nil
  names := fun _ => rfl
  varIds := Numbered.nil
  counter := (UInt32.add_zero _).symm
  created := fun _ member => nomatch member
  kept := by
    intro id _
    rw [bounds?_setUpper, Request.upperFor?]
    by_cases same : v.id = id
    · rw [if_pos same, if_pos same]
      rfl
    · rw [if_neg same, if_neg same]
      exact Option.map_id'.symm
  supertypes := fun _ => (List.append_nil _).symm

theorem answered_recordSupertype (b : Builder) (d : Decl) (supertype : Ty) :
    Answered b (.recordSupertype d supertype) ⟨.recordSupertype d supertype, [], []⟩
      (b.recordSupertype d supertype) where
  request := rfl
  grants := .recordSupertype
  decls := (List.append_nil _).symm
  declIds := Numbered.nil
  names := fun _ => rfl
  varIds := Numbered.nil
  counter := (UInt32.add_zero _).symm
  created := fun _ member => nomatch member
  kept := fun _ _ => Option.map_id'.symm
  supertypes := by
    intro id
    rw [supertypesOf_recordSupertype, Request.supertypeFor?]
    by_cases same : d.id = id
    · rw [if_pos same, if_pos same]
      rfl
    · rw [if_neg same, if_neg same]
      exact (List.append_nil _).symm

end Answers

theorem answered (b : Builder) (r : Request) : Answered b r (b.answer r).1 (b.answer r).2 := by
  cases r with
  | addClass qualifiedName params =>
    obtain ⟨named, plain⟩ := newParameters_named b params
    exact answered_addDecl b qualifiedName false params (.addClass _ named plain) rfl
      (fun _ => rfl) (fun _ => rfl)
  | addAnonymous qualifiedName =>
    exact answered_addDecl b qualifiedName true [] (.addAnonymous _) rfl
      (fun _ => rfl) (fun _ => rfl)
  | newParameter name upper =>
    exact (created_newVariable b name .parameter upper none).answered (.newParameter _)
      (fun _ => rfl) (fun _ => rfl)
  | newWildcard upper lower =>
    exact (created_newVariable b "?" .wildcard upper lower).answered (.newWildcard _)
      (fun _ => rfl) (fun _ => rfl)
  | newCapture upper lower =>
    exact (created_newVariable b _ .capture upper lower).answered (.newCapture _)
      (fun _ => rfl) (fun _ => rfl)
  | setUpper v upper => exact answered_setUpper b v upper
  | recordSupertype d supertype => exact answered_recordSupertype b d supertype

/-- The positions, the maps and the counter of a builder agree with each other and with all that has
been handed out. -/
structure Represents (b : Builder) (history : List Exchange) : Prop where
  grants : ∀ x ∈ history, x.request.Grants x.decls x.vars
  decls : b.decls = object :: declsOf history
  declIds : Numbered Decl.id 0 b.decls
  names : ∀ name, b.idByName[name]? = (latest name b.decls).map Decl.id
  varIds : Numbered TyVar.id 0 (varsOf history)
  counter : b.nextVariable = UInt32.ofNat (varsOf history).length
  bounds : ∀ before x after, history = before ++ x :: after → ∀ v ∈ x.vars,
    b.bounds? v.id = some ⟨lastUpper v.id x.request.given.upper after, x.request.given.lower⟩
  absent : ∀ id, (∀ v ∈ varsOf history, v.id ≠ id) → b.bounds? id = none
  supertypes : ∀ id, b.supertypesOf id = history.filterMap fun x => x.request.supertypeFor? id

theorem represents_start : Represents start [] where
  grants := fun _ member => nomatch member
  decls := rfl
  declIds := Numbered.singleton rfl
  names := by
    intro name
    change (Std.TreeMap.ofList [(object.qualifiedName, object.id)])[name]?
      = (latest name [object]).map Decl.id
    rw [Std.TreeMap.ofList_singleton, idByName_insert, Std.TreeMap.getElem?_emptyc, Option.or_none]
  varIds := Numbered.nil
  counter := rfl
  bounds := by
    intro before x after split
    simp at split
  absent := fun _ _ => rfl
  supertypes := fun _ => rfl

section Runs

variable {b b' : Builder} {history : List Exchange} {r : Request} {x : Exchange}

theorem declsOf_concat (history : List Exchange) (x : Exchange) :
    declsOf (history ++ [x]) = declsOf history ++ x.decls := by
  simp [declsOf]

theorem varsOf_concat (history : List Exchange) (x : Exchange) :
    varsOf (history ++ [x]) = varsOf history ++ x.vars := by
  simp [varsOf]

/-- A request keeps a builder in step with its history, as long as there are ids left. -/
theorem represents_answered (stands : Represents b history) (step : Answered b r x b')
    (few : (varsOf (history ++ [x])).length ≤ UInt32.size) : Represents b' (history ++ [x]) := by
  rw [varsOf_concat] at few
  have numbered : Numbered TyVar.id 0 (varsOf history ++ x.vars) := by
    refine stands.varIds.append ?_
    rw [UInt32.zero_add, ← stands.counter]
    exact step.varIds
  have apart : ∀ v ∈ varsOf history, ∀ w ∈ x.vars, w.id ≠ v.id := by
    have distinct := numbered.nodup few
    rw [List.map_append] at distinct
    intro v old w new same
    exact (List.disjoint_of_nodup_append distinct) (List.mem_map_of_mem old)
      (same ▸ List.mem_map_of_mem new)
  constructor
  case grants =>
    intro y member
    rcases List.mem_append.mp member with old | new
    · exact stands.grants y old
    · obtain rfl := List.mem_singleton.mp new
      exact step.request ▸ step.grants
  case decls => rw [step.decls, stands.decls, declsOf_concat, List.cons_append]
  case declIds =>
    rw [step.decls]
    exact stands.declIds.append (by rw [UInt32.zero_add]; exact step.declIds)
  case names =>
    intro name
    rw [step.names, stands.names, step.decls, latest_append, Option.map_or]
  case varIds => exact varsOf_concat history x ▸ numbered
  case counter =>
    rw [step.counter, stands.counter, varsOf_concat, List.length_append, UInt32.ofNat_add]
  case bounds =>
    intro before y after split v created
    rcases after.eq_nil_or_concat' with rfl | ⟨after, z, rfl⟩
    · obtain ⟨rfl, last⟩ := List.append_inj' split rfl
      obtain rfl : x = y := List.head_eq_of_cons_eq last
      rw [step.created v created, step.request]
      rfl
    · have regroup := split.trans (List.append_assoc before (y :: after) [z]).symm
      obtain ⟨earlier, last⟩ := List.append_inj' regroup rfl
      obtain rfl : x = z := List.head_eq_of_cons_eq last
      have old : v ∈ varsOf history :=
        List.mem_flatMap.mpr ⟨y, earlier ▸ List.mem_append_right _ List.mem_cons_self, created⟩
      rw [step.kept v.id (apart v old), stands.bounds before y after earlier v created,
        lastUpper_concat, step.request]
      rfl
  case absent =>
    intro id unknown
    rw [varsOf_concat] at unknown
    rw [step.kept id fun v new => unknown v (List.mem_append_right _ new),
      stands.absent id fun v old => unknown v (List.mem_append_left _ old)]
    rfl
  case supertypes =>
    intro id
    rw [step.supertypes, stands.supertypes, List.filterMap_append, ← step.request]
    cases recorded : x.request.supertypeFor? id <;> simp [recorded]

theorem represents_answerAll (stands : Represents b history) (requests : List Request)
    (few : (varsOf (history ++ (b.answerAll requests).1)).length ≤ UInt32.size) :
    Represents (b.answerAll requests).2 (history ++ (b.answerAll requests).1) := by
  induction requests generalizing b history with
  | nil => exact (List.append_nil history).symm ▸ stands
  | cons r later ih =>
    have regroup : history ++ (b.answerAll (r :: later)).1
        = (history ++ [(b.answer r).1]) ++ ((b.answer r).2.answerAll later).1 := by
      rw [answerAll_cons, List.append_assoc]
      rfl
    rw [regroup] at few ⊢
    refine ih (represents_answered stands (answered b r) ?_) few
    refine Nat.le_trans ?_ few
    simp only [varsOf, List.flatMap_append, List.length_append]
    omega

end Runs

theorem requests_answerAll (b : Builder) (requests : List Request) :
    (b.answerAll requests).1.map Exchange.request = requests := by
  induction requests generalizing b with
  | nil => rfl
  | cons r later ih =>
    rw [answerAll_cons, List.map_cons, ih, (answered b r).request]

end Builder

open Builder

/-- What was handed out while a table was built is what it answers for. -/
structure AnswersFor (ct : ClassTable) (history : List Exchange) : Prop where
  grants : ∀ x ∈ history, x.request.Grants x.decls x.vars
  declIds : ((object :: declsOf history).map Decl.id).Nodup
  varIds : ((varsOf history).map TyVar.id).Nodup
  found : ∀ d ∈ object :: declsOf history, ct.decl? d.id = some d
  named : ∀ name d, ct.named name = .ok d ↔ d.qualifiedName = name ∧ ∃ before after,
    object :: declsOf history = before ++ d :: after ∧ ∀ e ∈ after, e.qualifiedName ≠ name
  unnamed : ∀ name, ct.named name = .error (.unknownDeclaration name) ↔
    ∀ d ∈ object :: declsOf history, d.qualifiedName ≠ name
  bounds : ∀ before x after, history = before ++ x :: after → ∀ v ∈ x.vars,
    ct.boundsOf v = .ok ⟨lastUpper v.id x.request.given.upper after, x.request.given.lower⟩
  unbound : ∀ v : TyVar, (∀ w ∈ varsOf history, w.id ≠ v.id) →
    ct.boundsOf v = .error (.unboundVariable v)
  supertypes : ∀ d, ct.supertypes d = history.filterMap fun x => x.request.supertypeFor? d.id

theorem named_eq_latest {b : Builder} {history : List Exchange} (stands : Represents b history)
    (few : b.decls.length ≤ UInt32.size) (name : String) :
    b.build.named name = match latest name b.decls with
      | some d => Except.ok d
      | none => Except.error (.unknownDeclaration name) := by
  have reached : (b.idByName[name]?).bind b.decl? = latest name b.decls := by
    rw [stands.names]
    cases found : latest name b.decls with
    | none => rfl
    | some d =>
      obtain ⟨_, before, after, split, _⟩ := latest_eq_some_iff.mp found
      exact stands.declIds.getElem?_id few (split ▸ List.mem_append_right _ List.mem_cons_self)
  change (match (b.idByName[name]?).bind b.decl? with
    | some d => Except.ok d
    | none => Except.error (Error.unknownDeclaration name)) = _
  rw [reached]

theorem answersFor_build {b : Builder} {history : List Exchange} (stands : Represents b history)
    (fewDecls : b.decls.length ≤ UInt32.size) (fewVars : (varsOf history).length ≤ UInt32.size) :
    AnswersFor b.build history where
  grants := stands.grants
  declIds := stands.decls ▸ stands.declIds.nodup fewDecls
  varIds := stands.varIds.nodup fewVars
  found := by
    intro d member
    exact stands.declIds.getElem?_id fewDecls (stands.decls.symm ▸ member)
  named := by
    intro name d
    rw [named_eq_latest stands fewDecls, ← stands.decls, ← latest_eq_some_iff]
    cases latest name b.decls <;> simp
  unnamed := by
    intro name
    rw [named_eq_latest stands fewDecls, ← stands.decls, ← latest_eq_none_iff]
    cases latest name b.decls <;> simp
  bounds := by
    intro before x after split v created
    have found : b.build.bounds? v.id = _ := stands.bounds before x after split v created
    rw [boundsOf, found]
  unbound := by
    intro v unknown
    have missing : b.build.bounds? v.id = none := stands.absent v.id unknown
    rw [boundsOf, missing]
  supertypes := fun d => stands.supertypes d.id

/-- A table answers for all that was handed out while it was built. -/
theorem built_answers (requests : List Request)
    (fewDecls : (declsOf (history requests)).length < UInt32.size)
    (fewVars : (varsOf (history requests)).length < UInt32.size) :
    (history requests).map Exchange.request = requests ∧
    AnswersFor (built requests) (history requests) := by
  have stands : Represents (start.answerAll requests).2 (history requests) :=
    represents_answerAll represents_start requests (Nat.le_of_lt fewVars)
  refine ⟨requests_answerAll start requests, answersFor_build stands ?_ (Nat.le_of_lt fewVars)⟩
  rw [stands.decls, List.length_cons]
  exact fewDecls

namespace Sample

def element : TyVar := ⟨0, "E", .parameter, false⟩

def bag : Decl := ⟨1, "Bag", false, [element]⟩

/-- A class and an anonymous one of the same name, with a bound of the first one set twice. -/
def redeclared : List Request :=
  [.addClass "Bag" ["E"], .newCapture none (some top), .setUpper element (.of object []),
    .addAnonymous "Bag", .setUpper element (.of bag [.var element]), .recordSupertype bag top]

theorem built_answers_redeclared :
    (declsOf (history redeclared)).length < UInt32.size ∧
    (varsOf (history redeclared)).length < UInt32.size ∧
    AnswersFor (built redeclared) (history redeclared) ∧
    (built redeclared).named "java.lang.Object" = .ok ⟨0, "java.lang.Object", false, []⟩ ∧
    (built redeclared).named "Bag" = .ok ⟨2, "Bag", true, []⟩ ∧
    (built redeclared).boundsOf element = .ok ⟨.of bag [.var element], none⟩ ∧
    (built redeclared).boundsOf ⟨1, "capture#1", .capture, false⟩
      = .ok ⟨.declared ⟨0, "java.lang.Object", false, []⟩ true [], some top⟩ ∧
    (built redeclared).supertypes bag = [top] := by
  have decls : declsOf (history redeclared) = [bag, ⟨2, "Bag", true, []⟩] := rfl
  have fewDecls : (declsOf (history redeclared)).length < UInt32.size := by
    rw [decls]
    decide
  have fewVars : (varsOf (history redeclared)).length < UInt32.size := by
    change 2 < UInt32.size
    decide
  have answers := (built_answers redeclared fewDecls fewVars).2
  refine ⟨fewDecls, fewVars, answers, ?_, ?_, ?_, ?_, answers.supertypes bag⟩
  · refine (answers.named "java.lang.Object" _).mpr
      ⟨rfl, [], [bag, ⟨2, "Bag", true, []⟩], ?_, ?_⟩
    · rw [decls]
      rfl
    · simp [bag]
  · refine (answers.named "Bag" _).mpr ⟨rfl, [object, bag], [], ?_, ?_⟩
    · rw [decls]
      rfl
    · simp
  · exact answers.bounds [] _ _ rfl element (List.mem_singleton.mpr rfl)
  · exact answers.bounds [_] _ _ rfl _ (List.mem_singleton.mpr rfl)

end Sample

end ClassTable

end NullabilityCasts
