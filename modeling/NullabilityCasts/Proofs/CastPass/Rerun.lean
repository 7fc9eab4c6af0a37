import NullabilityCasts.Proofs.CastPass.Placement
import NullabilityCasts.Proofs.ClassTable.Agreement

/-!
# Second runs

What a run leaves behind has nothing to cast, except in one place. An argument that stands for one
of the remaining arguments of a variadic method can become an array by its cast, and is then taken
for the array of all of them.
-/

set_option autoImplicit false

namespace NullabilityCasts

theorem Ty.isOpen_array (component : Ty) (nullable : Bool) :
    (Ty.array component nullable).isOpen = false := rfl

namespace Slot

def withActual (s : Slot) (actual : Ty) : Slot := { s with actual := actual }

/-- A value of type `target` in the slot stands for all remaining arguments of a variadic method,
where the value in it now stands for one of them. The type expected of it is then `whole`. -/
structure TakenWhole (s : Slot) (target whole : Ty) : Prop where
  before : s.actual.isArray = false
  after : target.isArray = true
  variadic : ∃ m position component nullable, s.place = .argument m m.params.length position ∧
    m.isVariadic = true ∧ m.params.length - 1 ≤ position ∧
    m.params[m.params.length - 1]? = some (.array component nullable) ∧
    whole = .array component nullable

theorem inferred_of_takenWhole {s : Slot} {target whole : Ty} (taken : s.TakenWhole target whole) :
    (s.withActual target).inferred = .ok whole := by
  obtain ⟨m, position, component, nullable, place, variadic, last, parameter, rfl⟩ :=
    taken.variadic
  change s.place.expects target = _
  rw [place, Place.expects_argument, MethodSig.expected_of_variadic _ variadic last parameter]
  simp [taken.after]

theorem isOpen_of_takenWhole {s : Slot} {target whole : Ty} (taken : s.TakenWhole target whole) :
    whole.isOpen = false := by
  obtain ⟨m, position, component, nullable, _, _, _, _, rfl⟩ := taken.variadic
  rfl

theorem takesCast_of_takenWhole {s : Slot} {target whole : Ty}
    (taken : s.TakenWhole target whole) : s.kind.takesCast = true := by
  obtain ⟨m, position, component, nullable, place, _⟩ := taken.variadic
  rw [kind, place]
  rfl

/-- A slot that holds the projection of what it expects still expects the same, unless what it holds
is now taken for a whole array. -/
theorem inferred_withActual {ct : ClassTable} {s : Slot} {inferred target : Ty}
    (takes : s.kind.takesCast = true) (expects : s.inferred = .ok inferred)
    (projected : ct.project inferred = .ok target) :
    (s.withActual target).inferred = .ok inferred ∨ ∃ whole, s.TakenWhole target whole := by
  obtain ⟨place, actual⟩ := s
  cases place with
  | typed kind expected => exact .inl expects
  | qualifier => cases takes
  | returned span result =>
    cases result with
    | none => cases expects
    | some result => exact .inl expects
  | argument m count position =>
    have now : m.expected count position actual = .ok inferred :=
      (Place.expects_argument m count position actual).symm.trans expects
    by_cases same : m.expected count position actual = m.expected count position target
    · exact .inl ((Place.expects_argument m count position target).trans (same.symm.trans now))
    obtain ⟨rfl, variadic, last, component, nullable, parameter⟩ :=
      MethodSig.variadic_of_expected_ne same
    have differs : actual.isArray ≠ target.isArray :=
      fun equal => same (m.expected_congr _ _ equal)
    cases before : actual.isArray with
    | false =>
      have after : target.isArray = true := by
        cases holds : target.isArray with
        | true => rfl
        | false => exact absurd (before.trans holds.symm) differs
      exact .inr ⟨_, before, after, m, position, component, nullable, rfl, variadic, last,
        parameter, rfl⟩
    | true =>
      -- The slot expects the array itself, which is its own projection, so both are arrays.
      rw [MethodSig.expected_of_variadic _ variadic last parameter] at now
      simp only [before, decide_true, Bool.and_self, ↓reduceIte, Except.ok.injEq] at now
      subst now
      rw [ClassTable.project_of_not_isOpen (Ty.isOpen_array component nullable)] at projected
      obtain rfl := Except.ok.inj projected
      exact absurd before differs

end Slot

namespace CastPass

variable {strictness : Strictness} {u : SourceUnit}

structure Idle (strictness : Strictness) (u : SourceUnit) : Prop where
  succeeds : (run strictness u).failure = none
  unit : (run strictness u).unit = u
  counted : ∃ log, (run strictness u).log = log ++ [.castsCounted name 0 u.path]

theorem idle_iff :
    Idle strictness u ↔
      ∀ site ∈ u.sites, (rule u.types.table strictness).atSite site = .ok none := by
  constructor
  · intro idle site member
    obtain ⟨log, ran⟩ := run_of_succeeds idle.succeeds
    obtain ⟨log', counted⟩ := idle.counted
    rw [ran] at counted
    -- The log ends with the number of casts, which is therefore zero.
    have last := (List.append_inj' counted rfl).2
    have noCasts : (u.slots.countP fun s => (cast u.types.table strictness s).isSome) = 0 := by
      simpa using last
    obtain ⟨decision, decided⟩ := run_succeeds_iff.mp idle.succeeds site member
    cases site with
    | violation v => cases decided
    | slot s =>
      have unneeded := List.countP_eq_zero.mp noCasts s (SourceUnit.mem_slots.mpr member)
      have chosen : cast u.types.table strictness s = decision := CastRule.cast_of_atSlot decided
      rw [chosen] at unneeded
      cases decision with
      | none => exact decided
      | some target => simp at unneeded
  · intro settled
    have succeeds : (run strictness u).failure = none :=
      run_succeeds_iff.mpr fun site member => ⟨none, settled site member⟩
    have noCast : ∀ s ∈ u.slots, cast u.types.table strictness s = none := fun s member =>
      CastRule.cast_of_atSlot (settled (.slot s) (SourceUnit.mem_slots.mp member))
    obtain ⟨log, ran⟩ := run_of_succeeds succeeds
    refine ⟨succeeds, ?_, log, ?_⟩
    · rw [ran]
      exact u.withCasts_of_noneCast noCast
    · have noCasts : (u.slots.countP fun s => (cast u.types.table strictness s).isSome) = 0 := by
        rw [List.countP_eq_zero]
        intro s member
        simp [noCast s member]
      rw [ran, noCasts]

/-- The cast that the slot gets, if it gets one, is not followed by another. -/
def Steady (ct : ClassTable) (strictness : Strictness) (s : Slot) : Prop :=
  ∀ target whole, cast ct strictness s = some target → s.TakenWhole target whole →
    ∃ gaps, (ct.castNeeded strictness target whole).run [] = .ok (false, gaps)

section AfterCast

variable {ct : ClassTable} {s : Slot}

theorem atSlot_withActual {inferred target actual : Ty} (takes : s.kind.takesCast = true)
    (expects : (s.withActual actual).inferred = .ok inferred)
    (projected : ct.project inferred = .ok target) :
    (rule ct strictness).atSlot (s.withActual actual) =
      ((ct.castNeeded strictness actual target).run []).map fun answer =>
        if answer.1 then some target else none := by
  rw [CastRule.atSlot_of_inferred expects]
  exact rule_of_project takes projected actual

/-- A value that has been cast to the projection of what its slot still expects stays as it is. -/
theorem atSlot_target {inferred target : Ty} {answer : Bool × List ArityGap}
    (takes : s.kind.takesCast = true) (expects : (s.withActual target).inferred = .ok inferred)
    (projected : ct.project inferred = .ok target)
    (answered : (ct.castNeeded strictness s.actual target).run [] = .ok answer) :
    (rule ct strictness).atSlot (s.withActual target) = .ok none := by
  obtain ⟨d, denotable⟩ := ClassTable.isDenotable_of_castNeeded answered
  rw [atSlot_withActual takes expects projected, ClassTable.castNeeded_self denotable]
  rfl

theorem atSlot_takenWhole_iff {target whole : Ty} (taken : s.TakenWhole target whole) :
    (rule ct strictness).atSlot (s.withActual target) = .ok none ↔
      ∃ gaps, (ct.castNeeded strictness target whole).run [] = .ok (false, gaps) := by
  rw [atSlot_withActual (Slot.takesCast_of_takenWhole taken) (Slot.inferred_of_takenWhole taken)
    (ClassTable.project_of_not_isOpen (Slot.isOpen_of_takenWhole taken))]
  cases answered : (ct.castNeeded strictness target whole).run [] with
  | error v => simp [Except.map]
  | ok answer =>
    obtain ⟨needed, gaps⟩ := answer
    cases needed <;> simp [Except.map]

theorem afterCasts_settled_iff
    (decided : (rule ct strictness).atSlot s = .ok (cast ct strictness s)) :
    (∀ site ∈ Site.afterCasts (cast ct strictness) (.slot s),
      (rule ct strictness).atSite site = .ok none) ↔ Steady ct strictness s := by
  cases chosen : cast ct strictness s with
  | none =>
    simp only [Site.afterCasts, chosen, List.mem_singleton, forall_eq]
    constructor
    · intro _ target whole casts
      rw [chosen] at casts
      cases casts
    · intro _
      rw [CastRule.atSite, decided, chosen]
  | some target =>
    obtain ⟨takes, inferred, gaps, expects, projected, answered⟩ := cast_eq_some_iff.mp chosen
    have keeps : rule ct strictness .castOperand target s.actual = .ok none :=
      rule_keeps rfl target s.actual
    have operand : (rule ct strictness).atSite (.typed .castOperand target s.actual) = .ok none :=
      keeps
    simp only [Site.afterCasts, chosen, List.mem_cons, List.not_mem_nil, or_false,
      forall_eq_or_imp, forall_eq, operand, true_and]
    change (rule ct strictness).atSlot (s.withActual target) = .ok none ↔ _
    constructor
    · intro settled target' whole casts taken
      obtain rfl : target = target' := Option.some.inj (chosen.symm.trans casts)
      exact (atSlot_takenWhole_iff taken).mp settled
    · intro steady
      rcases Slot.inferred_withActual takes expects projected with same | ⟨whole, taken⟩
      · exact atSlot_target takes same projected answered
      · exact (atSlot_takenWhole_iff taken).mpr (steady target whole chosen taken)

end AfterCast

/-- A second run finds nothing to do exactly when no argument that has become an array by its cast
needs a further cast to be taken for all remaining arguments. -/
theorem run_again_idle_iff (succeeds : (run strictness u).failure = none) :
    Idle strictness (run strictness u).unit ↔
      ∀ s ∈ u.slots, Steady u.types.table strictness s := by
  obtain ⟨log, ran⟩ := run_of_succeeds succeeds
  rw [ran, idle_iff, SourceUnit.sites_withCasts]
  change (∀ site ∈ u.sites.flatMap (Site.afterCasts (cast u.types.table strictness)),
    (rule u.types.table strictness).atSite site = .ok none) ↔ _
  constructor
  · intro settled s member
    refine (afterCasts_settled_iff (atSlot_of_succeeds succeeds member)).mp ?_
    intro site inside
    exact settled site
      (List.mem_flatMap.mpr ⟨.slot s, SourceUnit.mem_slots.mp member, inside⟩)
  · intro steady site member
    obtain ⟨origin, inside, left⟩ := List.mem_flatMap.mp member
    cases origin with
    | violation v =>
      obtain ⟨decision, decided⟩ := run_succeeds_iff.mp succeeds _ inside
      cases decided
    | slot s =>
      have slot := SourceUnit.mem_slots.mpr inside
      exact (afterCasts_settled_iff (atSlot_of_succeeds succeeds slot)).mpr (steady s slot)
        site left

end CastPass

def Sample.spread : SourceUnit := unit
  [.initializer [.expr (Expr.invoke none
    { method "all" [.array (.array (str true) false) false] Ty.void with isVariadic := true }
    [use "row" (.var ⟨0, "capture#0", .capture, true⟩)])]]

theorem CastPass.run_again_idle_iff_spread : (run .strict Sample.spread).failure = none ∧
    (Idle .strict (run .strict Sample.spread).unit ↔
      ∀ s ∈ Sample.spread.slots, Steady Sample.table .strict s) := by
  have succeeds : (run .strict Sample.spread).failure = none := by cbv
  exact ⟨succeeds, run_again_idle_iff succeeds⟩

/-- The row is cast to an array and then, as an array, to the type of the whole table. -/
theorem CastPass.run_again_casts_spread : (run .strict Sample.spread).failure = none ∧
    (∃ log, (run .strict (run .strict Sample.spread).unit).log
      = log ++ [.castsCounted name 1 "Main.java"]) ∧
    ¬ Idle .strict (run .strict Sample.spread).unit := by
  have succeeds : (run .strict Sample.spread).failure = none := by cbv
  have again : (run .strict (run .strict Sample.spread).unit).failure = none := by cbv
  have one : ((run .strict Sample.spread).unit.slots.countP fun s =>
      (cast (run .strict Sample.spread).unit.types.table .strict s).isSome) = 1 := by cbv
  have path : (run .strict Sample.spread).unit.path = "Main.java" := by cbv
  obtain ⟨log, ran⟩ := run_of_succeeds again
  have counted : (run .strict (run .strict Sample.spread).unit).log
      = log ++ [.castsCounted name 1 "Main.java"] := by
    rw [ran, one, path]
  refine ⟨succeeds, ⟨log, counted⟩, ?_⟩
  intro idle
  obtain ⟨log', uncounted⟩ := idle.counted
  rw [counted] at uncounted
  have last := (List.append_inj' uncounted rfl).2
  simp at last

end NullabilityCasts
