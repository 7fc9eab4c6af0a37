import NullabilityCasts.Proofs.CastPass.Placement
import NullabilityCasts.Proofs.ClassTable.Agreement

/-!
# Slots of the type of their value

A value that flows into a slot of its own type, or of the nullable form of it, is cast in one case
only: it is of an open variable that admits null, and the bound written in place of the variable
does not.
-/

set_option autoImplicit false

namespace NullabilityCasts

namespace ClassTable

/-- The bound written in place of an open variable forbids the null that its use admits. -/
structure ForbidsNull (ct : ClassTable) (t target : Ty) : Prop where
  isOpen : t.isOpen = true
  nullable : t.isNullable = true
  projected : ct.project t = .ok target
  denotable : ct.isDenotable target = .ok true
  nonNull : target.isNullable = false

variable {ct : ClassTable} {strictness : Strictness}

theorem castNeeded_own_of_not_isOpen {t inferred target : Ty} {needed : Bool}
    {gaps gaps' : List ArityGap} (closed : t.isOpen = false)
    (own : inferred = t ∨ inferred = t.toNullable) (projected : ct.project inferred = .ok target)
    (answered : (ct.castNeeded strictness t target).run gaps = .ok (needed, gaps')) :
    needed = false := by
  obtain ⟨d, denotable⟩ := isDenotable_of_castNeeded answered
  rcases own with rfl | rfl
  · rw [project_of_not_isOpen closed] at projected
    obtain rfl := Except.ok.inj projected
    rw [castNeeded_self denotable] at answered
    exact (congrArg Prod.fst (Except.ok.inj answered)).symm
  · rw [project_of_not_isOpen ((Ty.isOpen_toNullable t).trans closed)] at projected
    obtain rfl := Except.ok.inj projected
    rw [castNeeded_toNullable denotable] at answered
    exact (congrArg Prod.fst (Except.ok.inj answered)).symm

theorem project_own_iff {t inferred target : Ty} (isOpen : t.isOpen = true)
    (own : inferred = t ∨ inferred = t.toNullable) :
    ct.project inferred = .ok target ↔ ct.project t = .ok target := by
  rcases own with rfl | rfl
  · rfl
  · exact project_toNullable_iff isOpen

end ClassTable

namespace CastPass

variable {strictness : Strictness} {u : SourceUnit}

theorem cast_own_iff {ct : ClassTable} {s : Slot} {inferred target : Ty}
    (takes : s.kind.takesCast = true) (expects : s.inferred = .ok inferred)
    (own : inferred = s.actual ∨ inferred = s.actual.toNullable) :
    cast ct strictness s = some target ↔ ct.ForbidsNull s.actual target := by
  constructor
  · intro chosen
    obtain ⟨_, inferred', gaps, expects', projected, needed⟩ := cast_eq_some_iff.mp chosen
    obtain rfl : inferred = inferred' := Except.ok.inj (expects.symm.trans expects')
    have denotable := ClassTable.isDenotable_of_castNeeded_true needed
    cases isOpen : s.actual.isOpen with
    | false =>
      have unneeded := ClassTable.castNeeded_own_of_not_isOpen isOpen own projected needed
      cases unneeded
    | true =>
      rw [ClassTable.castNeeded_of_isOpen isOpen denotable] at needed
      have outermost : (true && (s.actual.isNullable && !target.isNullable)) = true :=
        congrArg Prod.fst (Except.ok.inj needed)
      have flags : s.actual.isNullable = true ∧ target.isNullable = false := by
        simpa using outermost
      exact ⟨isOpen, flags.1, (ClassTable.project_own_iff isOpen own).mp projected, denotable,
        flags.2⟩
  · intro forbids
    refine cast_eq_some_iff.mpr ⟨takes, inferred, [], expects, ?_, ?_⟩
    · exact (ClassTable.project_own_iff forbids.isOpen own).mpr forbids.projected
    · rw [ClassTable.castNeeded_of_isOpen forbids.isOpen forbids.denotable, forbids.nullable,
        forbids.nonNull]
      rfl

/-- Of the slots that expect the type of their value, or the nullable form of it, a successful run
casts at exactly those whose value may be the null that its bound forbids. -/
theorem run_casts_own_iff (succeeds : (run strictness u).failure = none) :
    (run strictness u).unit = u.withCasts (cast u.types.table strictness) ∧
      ∀ s ∈ u.slots, s.kind.takesCast = true →
        s.inferred = .ok s.actual ∨ s.inferred = .ok s.actual.toNullable →
        ∀ target, cast u.types.table strictness s = some target ↔
          u.types.table.ForbidsNull s.actual target := by
  constructor
  · obtain ⟨log, ran⟩ := run_of_succeeds succeeds
    rw [ran]
  · intro s _ takes own target
    rcases own with same | widened
    · exact cast_own_iff takes same (.inl rfl)
    · exact cast_own_iff takes widened (.inr rfl)

end CastPass

def Sample.copier : SourceUnit := unit
  [.field ⟨⟨"copy"⟩, .var ⟨1, "capture#1", .capture, true⟩, false⟩
    (some (use "value" (.var ⟨1, "capture#1", .capture, true⟩)))]

def Sample.copied : Slot :=
  ⟨.typed .fieldInitializer (.var ⟨1, "capture#1", .capture, true⟩),
    .var ⟨1, "capture#1", .capture, true⟩⟩

theorem CastPass.run_casts_own_iff_copier : (run .strict Sample.copier).failure = none ∧
    Sample.copied ∈ Sample.copier.slots ∧ Sample.copied.kind.takesCast = true ∧
    Sample.copied.inferred = .ok Sample.copied.actual ∧
    (cast Sample.table .strict Sample.copied = some (Sample.str false) ↔
      Sample.table.ForbidsNull Sample.copied.actual (Sample.str false)) := by
  have succeeds : (run .strict Sample.copier).failure = none := by cbv
  have member : Sample.copied ∈ Sample.copier.slots := List.mem_singleton.mpr rfl
  exact ⟨succeeds, member, rfl, rfl,
    (run_casts_own_iff succeeds).2 Sample.copied member rfl (.inl rfl) (Sample.str false)⟩

theorem CastPass.run_casts_copied : (run .strict Sample.copier).failure = none ∧
    (run .strict Sample.copier).unit = Sample.copier.withCasts (cast Sample.table .strict) ∧
    Sample.copied ∈ Sample.copier.slots ∧ Sample.copied.kind.takesCast = true ∧
    Sample.copied.inferred = .ok Sample.copied.actual ∧
    cast Sample.table .strict Sample.copied = some (Sample.str false) := by
  have succeeds : (run .strict Sample.copier).failure = none := by cbv
  obtain ⟨log, ran⟩ := run_of_succeeds succeeds
  have member : Sample.copied ∈ Sample.copier.slots := List.mem_singleton.mpr rfl
  have unit : (run .strict Sample.copier).unit
      = Sample.copier.withCasts (cast Sample.table .strict) := by
    rw [ran]
    rfl
  exact ⟨succeeds, unit, member, rfl, rfl, by cbv⟩

end NullabilityCasts
