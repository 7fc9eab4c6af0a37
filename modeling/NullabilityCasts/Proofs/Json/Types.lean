import NullabilityCasts.Json.Expr
import Mathlib.Data.List.Basic

/-!
# Reading back what was written

A record is written with all its fields, and its reader finds each of them. What has no doubles in
it is always read back; a double is read back only if it is finite, and then bit for bit.
-/

set_option autoImplicit false

namespace NullabilityCasts

namespace Json

/-- What reading gives for a written value with the given doubles in it. -/
def readBack {α : Type} (doubles : List Double) (a : α) : Option α :=
  if doubles.all Double.isFinite then some a else none

section ReadBack

variable {α β : Type}

theorem readBack_nil (a : α) : readBack [] a = some a := rfl

theorem map_readBack (doubles : List Double) (a : α) (f : α → β) :
    (readBack doubles a).map f = readBack doubles (f a) := by
  unfold readBack
  split
  · rfl
  · rfl

theorem bind_readBack_some (doubles : List Double) (a : α) (f : α → β) :
    (readBack doubles a).bind (fun x => some (f x)) = readBack doubles (f a) := by
  rw [← map_readBack, Option.map_eq_bind]
  rfl

theorem bind_readBack (doubles : List Double) (later : α → List Double) (a : α) (f : α → β) :
    (readBack doubles a).bind (fun x => readBack (later x) (f x))
      = readBack (doubles ++ later a) (f a) := by
  unfold readBack
  by_cases finite : doubles.all Double.isFinite = true
  · simp [finite, List.all_append]
  · simp [finite, List.all_append]

end ReadBack

theorem uint32?_uint32 (n : UInt32) : (uint32 n).uint32? = some n := by
  simp [uint32, uint32?]

theorem uint64?_uint64 (n : UInt64) : (uint64 n).uint64? = some n := by
  simp [uint64, uint64?]

theorem int64?_int64 (n : Int64) : (int64 n).int64? = some n := by
  simp [int64, int64?]

theorem double?_ofDouble (x : Double) : (ofDouble x).double? = readBack [x] x := by
  unfold ofDouble readBack
  by_cases finite : x.isFinite = true
  · simp [finite, double?]
  · simp [finite, double?]

theorem char?_char (c : Char) : (char c).char? = some c := by
  simp [char, char?]

section Parts

variable {α : Type} {read : Json → Option α} {write : α → Json} {doubles : α → List Double}

theorem depth_le_depthAll {j : Json} {items : List Json} (member : j ∈ items) :
    j.depth ≤ depthAll items := by
  induction items with
  | nil => cases member
  | cons item rest ih =>
    rw [depthAll]
    rcases List.mem_cons.mp member with rfl | later
    · exact Nat.le_max_left _ _
    · exact Nat.le_trans (ih later) (Nat.le_max_right _ _)

theorem list?_arr_map {as : List α}
    (reads : ∀ a ∈ as, read (write a) = readBack (doubles a) a) :
    list? read (arr (as.map write)) = readBack (as.flatMap doubles) as := by
  change (as.map write).mapM read = _
  induction as with
  | nil => rfl
  | cons a rest ih =>
    obtain ⟨first, later⟩ := List.forall_mem_cons.mp reads
    rw [List.map_cons, List.mapM_cons, first, ih later]
    simp only [Option.bind_eq_bind, Option.pure_def, bind_readBack_some]
    exact bind_readBack _ _ _ _

theorem list?_of_depth {n : Nat} {as : List α}
    (reads : ∀ a, (write a).depth < n → read (write a) = readBack (doubles a) a)
    (fits : depthAll (as.map write) < n) :
    list? read (arr (as.map write)) = readBack (as.flatMap doubles) as := by
  refine list?_arr_map fun a member => reads a ?_
  exact Nat.lt_of_le_of_lt (depth_le_depthAll (List.mem_map_of_mem member)) fits

theorem list?_arr_map_some {as : List α} (reads : ∀ a ∈ as, read (write a) = some a) :
    list? read (arr (as.map write)) = some as := by
  have finite : ∀ a ∈ as, read (write a) = readBack ((fun _ => []) a) a := reads
  have none : (as.flatMap fun _ => []) = ([] : List Double) := List.flatMap_eq_nil_iff.mpr (by simp)
  rw [list?_arr_map finite, none, readBack_nil]

theorem list?_list (reads : ∀ a, read (write a) = some a) (as : List α) :
    list? read (list write as) = some as :=
  list?_arr_map_some fun a _ => reads a

theorem optional?_some {j : Json} (present : j ≠ null) :
    optional? read (some j) = (read j).map some := by
  cases j with
  | null => exact absurd rfl present
  | _ => rfl

theorem optional?_option {o : Option α} (present : ∀ a, write a ≠ null)
    (reads : ∀ a ∈ o, read (write a) = readBack (doubles a) a) :
    optional? read (some (option write o)) = readBack (o.toList.flatMap doubles) o := by
  cases o with
  | none => rfl
  | some a =>
    rw [option, optional?_some (present a), reads a rfl, map_readBack]
    simp

end Parts

end Json

open Json

theorem Ident.ofJson?_toJson (name : Ident) : ofJson? name.toJson = some name := by
  simp [toJson, ofJson?, fields?, str?]

theorem Span.ofJson?_toJson (s : Span) : ofJson? s.toJson = some s := by
  simp [toJson, ofJson?, fields?, List.lookup_cons, uint32?_uint32, uint64?_uint64]

theorem Primitive.ofJson?_toJson (p : Primitive) : ofJson? p.toJson = some p := by
  cases p <;> rfl

theorem VarKind.ofJson?_toJson (k : VarKind) : ofJson? k.toJson = some k := by
  cases k <;> rfl

theorem TyVar.ofJson?_toJson (v : TyVar) : ofJson? v.toJson = some v := by
  simp [toJson, ofJson?, fields?, List.lookup_cons, uint32?_uint32, str?, bool?,
    VarKind.ofJson?_toJson]

/-- A declaration is read back in full, not just its id. -/
theorem Decl.ofJson?_toJson (d : Decl) : ofJson? d.toJson = some d := by
  have params := list?_list TyVar.ofJson?_toJson d.params
  simp [toJson, ofJson?, fields?, List.lookup_cons, uint32?_uint32, str?, bool?, params]

namespace Ty

theorem read_toJson (n : Nat) (t : Ty) (fits : t.toJson.depth < n) : read n t.toJson = some t := by
  induction n generalizing t with
  | zero => omega
  | succ n ih =>
    have list (ts : List Ty) (fits : depthAll (toJsons ts) < n) :
        list? (read n) (arr (toJsons ts)) = some ts := by
      rw [toJsons_eq] at fits ⊢
      refine list?_arr_map_some fun t member => ih t ?_
      exact Nat.lt_of_le_of_lt (depth_le_depthAll (List.mem_map_of_mem member)) fits
    cases t with
    | prim p => simp [toJson, read, variant, variant?, Primitive.ofJson?_toJson]
    | declared d nullable args =>
      simp only [toJson, variant, depth, depthEntries, depthEntry] at fits
      have argsRead := list args (by omega)
      simp [toJson, read, variant, variant?, fields?, List.lookup_cons, Decl.ofJson?_toJson, bool?,
        argsRead]
    | array component nullable =>
      simp only [toJson, variant, depth, depthEntries, depthEntry] at fits
      have componentRead := ih component (by omega)
      simp [toJson, read, variant, variant?, fields?, List.lookup_cons, bool?, componentRead]
    | var v => simp [toJson, read, variant, variant?, TyVar.ofJson?_toJson]
    | union members =>
      simp only [toJson, variant, depth, depthEntries, depthEntry] at fits
      have membersRead := list members (by omega)
      simp [toJson, read, variant, variant?, fields?, membersRead]
    | inter members =>
      simp only [toJson, variant, depth, depthEntries, depthEntry] at fits
      have membersRead := list members (by omega)
      simp [toJson, read, variant, variant?, fields?, membersRead]

theorem ofJson?_toJson (t : Ty) : ofJson? t.toJson = some t :=
  read_toJson _ t (Nat.lt_succ_self _)

end Ty

theorem FieldSig.ofJson?_toJson (f : FieldSig) : ofJson? f.toJson = some f := by
  simp [toJson, ofJson?, fields?, List.lookup_cons, Ident.ofJson?_toJson, Ty.ofJson?_toJson, bool?]

theorem MethodSig.ofJson?_toJson (m : MethodSig) : ofJson? m.toJson = some m := by
  have params := list?_list Ty.ofJson?_toJson m.params
  simp [toJson, ofJson?, fields?, List.lookup_cons, Ident.ofJson?_toJson, Ty.ofJson?_toJson, bool?,
    params]

end NullabilityCasts
