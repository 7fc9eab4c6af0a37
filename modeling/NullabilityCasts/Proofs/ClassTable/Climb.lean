import NullabilityCasts.ClassTable.Supertype

/-!
# Climbing the hierarchy

The search for a supertype as a plain recursion, which goes up from each recorded supertype in turn
and is only held up by entering no declaration twice. It finds what the search with a list of
pending types finds, and it goes no deeper than there are recorded supertypes, however types grow on
the way.
-/

set_option autoImplicit false

namespace NullabilityCasts

namespace ClassTable

variable {ct : ClassTable} {target : Decl} {entered : List UInt32}

abbrev Found := Option Ty × List UInt32

def firstFound (climb : List UInt32 → Ty → Option Found) (entered : List UInt32) :
    List Ty → Option Found
  | [] => some (none, entered)
  | t :: rest =>
    (climb entered t).bind fun
      | (none, entered') => firstFound climb entered' rest
      | found => some found

/-- The climb from a type to `target`, cut off where it would be more than `steps` types deep. -/
def climb (ct : ClassTable) (target : Decl) : Nat → List UInt32 → Ty → Option Found
  | 0, _, _ => none
  | steps + 1, entered, t =>
    match t with
    | .declared d nullable args =>
      if d.id == target.id then some (some (.declared d nullable args), entered)
      else if d.id ∈ entered then some (none, entered)
      else
        firstFound (ct.climb target steps) (d.id :: entered)
          ((ct.supertypes d).map (Ty.instantiate (.declared d nullable args)))
    | _ => some (none, entered)

/-- What the climbs from `ts` come to is what the search comes to when it turns to them next. -/
structure Climbed (ct : ClassTable) (target : Decl) (entered : List UInt32) (ts : List Ty)
    (r : Found) : Prop where
  grows : entered ⊆ r.2
  finds : ∀ pending, ct.findSupertype target entered (ts ++ pending)
    = r.1.or (ct.findSupertype target r.2 pending)

theorem climbed_nil (ct : ClassTable) (target : Decl) (entered : List UInt32) :
    Climbed ct target entered [] (none, entered) where
  grows := List.Subset.refl entered
  finds _ := rfl

theorem Climbed.cons {t : Ty} {ts : List Ty} {entered' : List UInt32} {r : Found}
    (first : Climbed ct target entered [t] (none, entered'))
    (rest : Climbed ct target entered' ts r) : Climbed ct target entered (t :: ts) r where
  grows := List.Subset.trans first.grows rest.grows
  finds pending := (first.finds (ts ++ pending)).trans (rest.finds pending)

theorem Climbed.found {t u : Ty} {entered' : List UInt32}
    (first : Climbed ct target entered [t] (some u, entered')) (ts : List Ty) :
    Climbed ct target entered (t :: ts) (some u, entered') where
  grows := first.grows
  finds pending := first.finds (ts ++ pending)

theorem firstFound_ends {step : List UInt32 → Ty → Option Found} (ts : List Ty)
    (each : ∀ entered', entered ⊆ entered' → ∀ t ∈ ts,
      ∃ r, step entered' t = some r ∧ Climbed ct target entered' [t] r) :
    ∃ r, firstFound step entered ts = some r ∧ Climbed ct target entered ts r := by
  induction ts generalizing entered with
  | nil => exact ⟨_, rfl, climbed_nil ct target entered⟩
  | cons t ts ih =>
    obtain ⟨⟨found, entered'⟩, answered, first⟩ :=
      each entered (List.Subset.refl entered) t List.mem_cons_self
    rw [firstFound, answered, Option.bind_some]
    cases found with
    | some u => exact ⟨_, rfl, first.found ts⟩
    | none =>
      obtain ⟨r, answered', rest⟩ := ih fun entered'' more t' member =>
        each entered'' (List.Subset.trans first.grows more) t' (List.mem_cons_of_mem t member)
      exact ⟨r, answered', first.cons rest⟩

/-- Each step up enters a declaration with recorded supertypes that had not been entered before. -/
theorem climb_ends {steps : Nat} (room : unvisited ct.subtypeIds entered < steps) (t : Ty) :
    ∃ r, ct.climb target steps entered t = some r ∧ Climbed ct target entered [t] r := by
  induction steps generalizing entered t with
  | zero => exact absurd room (Nat.not_lt_zero _)
  | succ steps ih =>
    cases t with
    | declared d nullable args =>
      rw [climb]
      by_cases arrived : (d.id == target.id) = true
      · rw [if_pos arrived]
        refine ⟨_, rfl, List.Subset.refl entered, fun pending => ?_⟩
        rw [List.singleton_append, findSupertype, if_pos arrived]
        rfl
      by_cases known : d.id ∈ entered
      · rw [if_neg arrived, if_pos known]
        refine ⟨_, rfl, List.Subset.refl entered, fun pending => ?_⟩
        rw [List.singleton_append, findSupertype, if_neg arrived, if_pos known]
        rfl
      rw [if_neg arrived, if_neg known]
      have each : ∀ entered', d.id :: entered ⊆ entered' →
          ∀ t ∈ (ct.supertypes d).map (Ty.instantiate (.declared d nullable args)),
            ∃ r, ct.climb target steps entered' t = some r ∧ Climbed ct target entered' [t] r := by
        intro entered' more t member
        obtain ⟨s, recorded, rfl⟩ := List.mem_map.mp member
        have extending : d.id ∈ ct.subtypeIds := mem_subtypeIds (List.ne_nil_of_mem recorded)
        have fewer := unvisited_cons_lt extending known
        have still := @unvisited_le_of_subset ct.subtypeIds _ _ more
        exact ih (by omega) _
      obtain ⟨r, answered, above⟩ := firstFound_ends _ each
      refine ⟨r, answered, ?_, fun pending => ?_⟩
      · exact List.Subset.trans (List.subset_cons_self d.id entered) above.grows
      · rw [List.singleton_append, findSupertype, if_neg arrived, if_neg known]
        exact above.finds pending
    | _ =>
      refine ⟨_, rfl, List.Subset.refl entered, fun pending => ?_⟩
      rw [List.singleton_append, findSupertype]
      · rfl
      · exact fun _ _ _ => Ty.noConfusion

/-- With a step for each recorded supertype and one more, the climb comes to its end. -/
theorem climb_eq_lift? {steps : Nat} (room : ct.subtypeIds.length < steps) (t : Ty)
    (target : Decl) : (ct.climb target steps [] t).map (·.1) = some (ct.lift? t target) := by
  have within : unvisited ct.subtypeIds [] < steps := Nat.lt_of_le_of_lt List.countP_le_length room
  obtain ⟨r, answered, climbed⟩ :
      ∃ r, ct.climb target steps [] t = some r ∧ Climbed ct target [] [t] r := climb_ends within t
  have finds := climbed.finds []
  rw [answered, Option.map_some, lift?]
  rw [List.append_nil, findSupertype, Option.or_none] at finds
  rw [finds]

end ClassTable

end NullabilityCasts
