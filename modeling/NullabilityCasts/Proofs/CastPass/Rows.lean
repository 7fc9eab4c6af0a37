import NullabilityCasts.Proofs.CastPass.OwnType
import NullabilityCasts.Proofs.CastPass.Rerun

/-!
# Arrays among the remaining arguments

A remaining argument of a variadic method that already has the component type of the last parameter
is left alone, except in one place. Where the component is an array itself and the argument stands
alone, it is taken for the array of all remaining arguments, and may be cast to the type of that.
-/

set_option autoImplicit false

namespace NullabilityCasts

namespace Ty

/-- All levels of an array type, down to what it is an array of, admit null or all forbid it. What a
wildcard or capture stands for is not known to do either. -/
def evenly (nullable : Bool) : Ty → Bool
  | .array component n => n == nullable && component.evenly nullable
  | t => !t.isOpen && t.isNullable == nullable

theorem evenly_of_not_isArray {t : Ty} (element : t.isArray = false) (nullable : Bool) :
    t.evenly nullable = (!t.isOpen && t.isNullable == nullable) := by
  cases t with
  | array component n => cases element
  | _ => rfl

end Ty

namespace ClassTable

variable (ct : ClassTable) (strictness : Strictness)

theorem argumentsDisagree_element {t : Ty} (element : t.isArray = false) (component : Ty)
    (nullable : Bool) :
    ct.argumentsDisagree strictness t (.array component nullable) = pure false := by
  cases t with
  | array component' n => cases element
  | _ => rfl

/-- Against an array of itself an array is compared level by level, each with the next one further
out. At the end what it is an array of meets an array. -/
theorem argumentsDisagree_row (inner : Ty) (n nullable : Bool) :
    ct.argumentsDisagree strictness (.array inner n) (.array (.array inner n) nullable)
      = pure (!inner.evenly n) := by
  rw [argumentsDisagree_array]
  cases isArray : inner.isArray with
  | false =>
    rw [argumentsDisagree_element ct strictness isArray, Ty.evenly_of_not_isArray isArray]
    change (if (inner.isOpen && true || inner.isNullable != n) = true then pure true
      else pure false) = pure (!(!inner.isOpen && inner.isNullable == n))
    cases inner.isOpen <;> cases inner.isNullable <;> cases n <;> rfl
  | true =>
    cases inner with
    | array inner' n' =>
      have outermost : (Ty.array inner' n').outerDisagrees (.array (.array inner' n') n)
          = (n' != n) := by
        simp [Ty.outerDisagrees, Ty.isOpen, Ty.isNullable]
      rw [outermost, argumentsDisagree_row inner' n' n, Ty.evenly]
      cases n <;> cases n' <;> rfl
    | _ => cases isArray

variable {ct strictness}

theorem castNeeded_row {inner : Ty} {n nullable d : Bool}
    (denotable : ct.isDenotable (.array (.array inner n) nullable) = .ok d)
    (gaps : List ArityGap) :
    (ct.castNeeded strictness (.array inner n) (.array (.array inner n) nullable)).run gaps
      = .ok (d && (n && !nullable || !inner.evenly n), gaps) := by
  rw [castNeeded_of_denotable denotable, argumentsDisagree_row]
  change (if d = true then if (n && !nullable) = true then _ else _ else _) = _
  cases d <;> cases n <;> cases nullable <;> rfl

/-- A value of an array type is cast where it is taken for an array of such values. -/
structure WholeNeedsCast (ct : ClassTable) (component : Ty) (nullable : Bool) : Prop where
  denotable : ct.isDenotable (.array component nullable) = .ok true
  disagrees : ∃ inner n, component = .array inner n ∧
    (n = true ∧ nullable = false ∨ inner.evenly n = false)

theorem castNeeded_whole_iff {inner : Ty} {n nullable : Bool} :
    (∃ gaps, (ct.castNeeded strictness (.array inner n) (.array (.array inner n) nullable)).run []
      = .ok (true, gaps)) ↔ ct.WholeNeedsCast (.array inner n) nullable := by
  constructor
  · rintro ⟨gaps, needed⟩
    have denotable := isDenotable_of_castNeeded_true needed
    rw [castNeeded_row denotable] at needed
    have disagrees : (true && (n && !nullable || !inner.evenly n)) = true :=
      congrArg Prod.fst (Except.ok.inj needed)
    exact ⟨denotable, inner, n, rfl, by simpa using disagrees⟩
  · rintro ⟨denotable, inner', n', same, disagrees⟩
    obtain ⟨rfl, rfl⟩ := Ty.array.inj same
    have needed : (true && (n && !nullable || !inner.evenly n)) = true := by
      simpa using disagrees
    exact ⟨[], by rw [castNeeded_row denotable, needed]⟩

end ClassTable

/-- The value in the slot is one of the `count` arguments of a variadic method, it stands in the
place of the last parameter or behind it, and it has the component type of that parameter. -/
structure Slot.HoldsComponent (s : Slot) (m : MethodSig) (count : Nat) (component : Ty)
    (nullable : Bool) : Prop where
  argument : ∃ position, s.place = .argument m count position ∧ m.params.length - 1 ≤ position
  variadic : m.isVariadic = true
  last : m.params.getLast? = some (.array component nullable)
  closed : component.isOpen = false
  own : s.actual = component

section HoldsComponent

variable {ct : ClassTable} {strictness : Strictness} {s : Slot} {m : MethodSig} {count : Nat}
  {component target : Ty} {nullable : Bool}

theorem Slot.HoldsComponent.takesCast (holds : s.HoldsComponent m count component nullable) :
    s.kind.takesCast = true := by
  obtain ⟨position, place, _⟩ := holds.argument
  rw [kind, place]
  rfl

theorem Slot.HoldsComponent.inferred (holds : s.HoldsComponent m count component nullable) :
    s.inferred = if count = m.params.length && component.isArray
      then .ok (.array component nullable) else .ok component := by
  obtain ⟨position, place, behind⟩ := holds.argument
  have parameter : m.params[m.params.length - 1]? = some (.array component nullable) :=
    List.getLast?_eq_getElem?.symm.trans holds.last
  change s.place.expects s.actual = _
  rw [place, holds.own, Place.expects_argument,
    MethodSig.expected_of_variadic count holds.variadic behind parameter]

theorem CastPass.cast_component_iff (holds : s.HoldsComponent m count component nullable) :
    cast ct strictness s = some target ↔ target = .array component nullable ∧
      count = m.params.length ∧ ct.WholeNeedsCast component nullable := by
  have expects := holds.inferred
  -- An array that stands alone is compared with an array of its own type, all else with itself.
  by_cases whole : (count = m.params.length && component.isArray) = true
  · obtain ⟨all, isArray⟩ : count = m.params.length ∧ component.isArray = true := by
      simpa using whole
    rw [if_pos whole] at expects
    have projected : ct.project (.array component nullable) = .ok (.array component nullable) :=
      ClassTable.project_of_not_isOpen (Ty.isOpen_array component nullable)
    cases component with
    | array inner n =>
      rw [cast_eq_some_iff, holds.own]
      constructor
      · rintro ⟨_, inferred, gaps, expects', projected', needed⟩
        obtain rfl := Except.ok.inj (expects.symm.trans expects')
        obtain rfl := Except.ok.inj (projected.symm.trans projected')
        exact ⟨rfl, all, ClassTable.castNeeded_whole_iff.mp ⟨gaps, needed⟩⟩
      · rintro ⟨rfl, _, needs⟩
        obtain ⟨gaps, needed⟩ := ClassTable.castNeeded_whole_iff.mpr needs
        exact ⟨holds.takesCast, _, gaps, expects, projected, needed⟩
    | _ => cases isArray
  · rw [if_neg whole, ← holds.own] at expects
    rw [cast_own_iff holds.takesCast expects (.inl rfl)]
    constructor
    · intro forbids
      have isOpen : component.isOpen = true := holds.own ▸ forbids.isOpen
      rw [holds.closed] at isOpen
      cases isOpen
    · rintro ⟨_, rfl, needs⟩
      obtain ⟨inner, n, rfl, _⟩ := needs.disagrees
      exact absurd (by simp [Ty.isArray]) whole

end HoldsComponent

/-- Of the remaining arguments of the component type, a successful run casts exactly those that are
taken for the array of all of them and whose type then disagrees with that of the array. -/
theorem CastPass.run_casts_component_iff {strictness : Strictness} {u : SourceUnit}
    (succeeds : (run strictness u).failure = none) :
    (run strictness u).unit = u.withCasts (cast u.types.table strictness) ∧
      ∀ s ∈ u.slots, ∀ (m : MethodSig) (count : Nat) (component : Ty) (nullable : Bool),
        s.HoldsComponent m count component nullable →
        ∀ target, cast u.types.table strictness s = some target ↔
          target = .array component nullable ∧ count = m.params.length ∧
            u.types.table.WholeNeedsCast component nullable := by
  refine ⟨run_unit_of_succeeds succeeds, ?_⟩
  intro s _ m count component nullable holds target
  exact cast_component_iff holds

def Sample.all : MethodSig :=
  { method "all" [.array (.array (str true) false) false] Ty.void with isVariadic := true }

def Sample.singleRow : SourceUnit := unit
  [.initializer [.expr (Expr.invoke none all [use "row" (.array (str true) false)])]]

def Sample.row : Slot := ⟨.argument all 1 0, .array (str true) false⟩

theorem Sample.row_holds : row.HoldsComponent all 1 (.array (str true) false) false where
  argument := ⟨0, rfl, Nat.zero_le _⟩
  variadic := rfl
  last := rfl
  closed := rfl
  own := rfl

theorem CastPass.run_casts_component_iff_singleRow :
    (run .strict Sample.singleRow).failure = none ∧ Sample.row ∈ Sample.singleRow.slots ∧
    Sample.row.HoldsComponent Sample.all 1 (.array (Sample.str true) false) false ∧
    (cast Sample.table .strict Sample.row
        = some (.array (.array (Sample.str true) false) false) ↔
      Sample.table.WholeNeedsCast (.array (Sample.str true) false) false) := by
  have succeeds : (run .strict Sample.singleRow).failure = none := by cbv
  have member : Sample.row ∈ Sample.singleRow.slots := List.mem_singleton.mpr rfl
  have casts := (run_casts_component_iff succeeds).2 Sample.row member Sample.all 1
    (.array (Sample.str true) false) false Sample.row_holds
    (.array (.array (Sample.str true) false) false)
  refine ⟨succeeds, member, Sample.row_holds, casts.trans ?_⟩
  constructor
  · exact fun needs => needs.2.2
  · exact fun needs => ⟨rfl, rfl, needs⟩

/-- The row has the component type of the parameter, and is cast to the type of the whole table. -/
theorem CastPass.run_casts_singleRow : (run .strict Sample.singleRow).failure = none ∧
    (run .strict Sample.singleRow).unit = Sample.singleRow.withCasts (cast Sample.table .strict) ∧
    Sample.row ∈ Sample.singleRow.slots ∧
    Sample.row.HoldsComponent Sample.all 1 (.array (Sample.str true) false) false ∧
    cast Sample.table .strict Sample.row
      = some (.array (.array (Sample.str true) false) false) := by
  have succeeds : (run .strict Sample.singleRow).failure = none := by cbv
  have member : Sample.row ∈ Sample.singleRow.slots := List.mem_singleton.mpr rfl
  exact ⟨succeeds, run_unit_of_succeeds succeeds, member, Sample.row_holds, by cbv⟩

end NullabilityCasts
