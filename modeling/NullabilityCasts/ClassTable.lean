import NullabilityCasts.Error
import NullabilityCasts.Ty
import Std.Data.TreeMap

/-!
# Class tables

All declarations of one program, the bounds of its type variables and the supertypes of its
declarations. Declarations stand in the order of their creation, each at the position that its id
says; everything else is found by maps.
-/

set_option autoImplicit false

namespace NullabilityCasts

structure Bounds where
  upper : Ty
  lower : Option Ty

structure ClassTable where
  decls : List Decl
  /-- The id of the latest declaration of each name. -/
  idByName : Std.TreeMap String UInt32
  boundsById : Std.TreeMap UInt32 Bounds
  /-- The supertypes by the id of the declaration that extends or implements them, as recorded. -/
  supertypesById : Std.TreeMap UInt32 (List Ty)

namespace ClassTable

def object : Decl := ⟨0, "java.lang.Object", false, []⟩

/-- The nullable root type, which bounds every variable that has no other upper bound. -/
def top : Ty := .declared object true []

/-- A table of declarations, which are found by the names they have. -/
def ofLists (decls : List Decl) (bounds : List (UInt32 × Bounds))
    (supertypes : List (UInt32 × List Ty)) : ClassTable :=
  ⟨decls, .ofList (decls.map fun d => (d.qualifiedName, d.id)), .ofList bounds, .ofList supertypes⟩

def decl? (ct : ClassTable) (id : UInt32) : Option Decl := ct.decls[id.toNat]?

def named (ct : ClassTable) (qualifiedName : String) : Except Error Decl :=
  match ct.idByName[qualifiedName]?.bind ct.decl? with
  | some d => .ok d
  | none => .error (.unknownDeclaration qualifiedName)

def bounds? (ct : ClassTable) (id : UInt32) : Option Bounds := ct.boundsById[id]?

def variableIds (ct : ClassTable) : List UInt32 := ct.boundsById.keys

theorem mem_variableIds {ct : ClassTable} {id : UInt32} {b : Bounds} (h : ct.bounds? id = some b) :
    id ∈ ct.variableIds :=
  Std.TreeMap.mem_keys.mpr (Std.TreeMap.mem_iff_isSome_getElem?.mpr (Option.isSome_of_eq_some h))

def boundsOf (ct : ClassTable) (v : TyVar) : Except Violation Bounds :=
  match ct.bounds? v.id with
  | some b => .ok b
  | none => .error (.unboundVariable v)

def supertypesOf (ct : ClassTable) (id : UInt32) : List Ty := ct.supertypesById.getD id []

/-- The direct supertypes of a declaration over its own parameters, in the order of recording. -/
def supertypes (ct : ClassTable) (d : Decl) : List Ty := ct.supertypesOf d.id

def subtypeIds (ct : ClassTable) : List UInt32 := ct.supertypesById.keys

theorem mem_subtypeIds {ct : ClassTable} {id : UInt32} (h : ct.supertypesOf id ≠ []) :
    id ∈ ct.subtypeIds :=
  Std.TreeMap.mem_keys.mpr (Classical.byContradiction fun absent =>
    h (Std.TreeMap.getD_eq_fallback absent))

end ClassTable

end NullabilityCasts
