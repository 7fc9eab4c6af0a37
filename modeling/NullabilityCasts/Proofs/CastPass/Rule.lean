import NullabilityCasts.CastPass
import NullabilityCasts.Proofs.Conversion.Outcome

/-!
# The rule of the cast pass

What the cast pass does at a slot is a rule on the kind of the conversion and its two types. So the
outcome of a whole run can be read off the unit that it is given.
-/

set_option autoImplicit false

namespace NullabilityCasts

/-- Values that flow into a slot are cast. Objects whose members are used, operands of casts and
conditions are not. -/
def ConversionKind.takesCast : ConversionKind → Bool
  | .assignment | .fieldInitializer | .returned | .argument => true
  | .qualifier | .castOperand | .condition => false

namespace CastPass

def rule (ct : ClassTable) (strictness : Strictness) : CastRule := fun kind inferred actual =>
  if kind.takesCast then
    (ct.project inferred).bind fun target =>
      ((ct.castNeeded strictness actual target).run []).map fun answer =>
        if answer.1 then some target else none
  else .ok none

def cast (ct : ClassTable) (strictness : Strictness) (s : Slot) : Option Ty :=
  (rule ct strictness).cast s

section Policy

variable {ct : ClassTable} {strictness : Strictness}

theorem rule_keeps {kind : ConversionKind} (keeps : kind.takesCast = false) (inferred actual : Ty) :
    rule ct strictness kind inferred actual = .ok none := by
  rw [rule, keeps]
  rfl

theorem rule_of_project {kind : ConversionKind} (takes : kind.takesCast = true)
    {inferred target : Ty} (projected : ct.project inferred = .ok target) (actual : Ty) :
    rule ct strictness kind inferred actual =
      ((ct.castNeeded strictness actual target).run []).map fun answer =>
        if answer.1 then some target else none := by
  rw [rule, takes, projected]
  rfl

theorem rule_ok_cases {kind : ConversionKind} {inferred actual : Ty} {decision : Option Ty}
    (takes : kind.takesCast = true)
    (decided : rule ct strictness kind inferred actual = .ok decision) :
    ∃ target needed gaps, ct.project inferred = .ok target ∧
      (ct.castNeeded strictness actual target).run [] = .ok (needed, gaps) ∧
      decision = if needed then some target else none := by
  cases projected : ct.project inferred with
  | error v =>
    rw [rule, takes, projected] at decided
    cases decided
  | ok target =>
    rw [rule_of_project takes projected] at decided
    cases answered : (ct.castNeeded strictness actual target).run [] with
    | error v =>
      rw [answered] at decided
      cases decided
    | ok answer =>
      obtain ⟨needed, gaps⟩ := answer
      rw [answered] at decided
      exact ⟨target, needed, gaps, rfl, answered, (Except.ok.inj decided).symm⟩

theorem rule_error_cases {kind : ConversionKind} {inferred actual : Ty} {v : Violation}
    (takes : kind.takesCast = true)
    (undecided : rule ct strictness kind inferred actual = .error v) :
    ct.project inferred = .error v ∨ ∃ target, ct.project inferred = .ok target ∧
      (ct.castNeeded strictness actual target).run [] = .error v := by
  cases projected : ct.project inferred with
  | error v' =>
    rw [rule, takes, projected] at undecided
    obtain rfl : v' = v := Except.error.inj undecided
    exact .inl rfl
  | ok target =>
    rw [rule_of_project takes projected] at undecided
    cases answered : (ct.castNeeded strictness actual target).run [] with
    | error v' =>
      rw [answered] at undecided
      obtain rfl : v' = v := Except.error.inj undecided
      exact .inr ⟨target, rfl, answered⟩
    | ok answer =>
      rw [answered] at undecided
      cases undecided

theorem handle_keeps {kind : ConversionKind} (keeps : kind.takesCast = false) :
    (policy ct strictness).handle kind = .keep := by
  cases kind <;> first | rfl | cases keeps

theorem handle_takes {kind : ConversionKind} (takes : kind.takesCast = true) :
    (policy ct strictness).handle kind = insertCast ct strictness := by
  cases kind <;> first | rfl | cases takes

theorem insertCast_of_answer {inferred target : Ty} {e : Expr} {needed : Bool}
    {gaps : List ArityGap} (projected : ct.project inferred = .ok target)
    (answered : (ct.castNeeded strictness e.ty target).run [] = .ok (needed, gaps)) (actual : Ty)
    (tally : Tally) :
    ∃ tally', insertCast ct strictness inferred actual e tally
        = (.ok (e.castIf (if needed then some target else none)), tally') ∧
      tally'.inserted = tally.inserted + if needed then 1 else 0 := by
  simp only [insertCast, projected, answered]
  cases needed <;> exact ⟨_, rfl, rfl⟩

theorem insertCast_of_unprojected {inferred : Ty} {v : Violation}
    (unprojected : ct.project inferred = .error v) (actual : Ty) (e : Expr) (tally : Tally) :
    insertCast ct strictness inferred actual e tally = (.error (.internal v), tally) := by
  simp only [insertCast, unprojected]

theorem insertCast_of_unanswered {inferred target : Ty} {e : Expr} {v : Violation}
    (projected : ct.project inferred = .ok target)
    (unanswered : (ct.castNeeded strictness e.ty target).run [] = .error v) (actual : Ty)
    (tally : Tally) :
    insertCast ct strictness inferred actual e tally = (.error (.internal v), tally) := by
  simp only [insertCast, projected, unanswered]

theorem policy_obeys : (policy ct strictness).Obeys (rule ct strictness) Tally.inserted where
  accepts {kind inferred e target} tally decided := by
    cases takes : kind.takesCast with
    | false =>
      rw [rule_keeps takes] at decided
      obtain rfl := Except.ok.inj decided
      rw [handle_keeps takes]
      exact ⟨tally, rfl, rfl⟩
    | true =>
      obtain ⟨projection, needed, gaps, projected, answered, rfl⟩ := rule_ok_cases takes decided
      obtain ⟨tally', returned, counted⟩ := insertCast_of_answer projected answered e.ty tally
      rw [handle_takes takes]
      refine ⟨tally', returned, counted.trans ?_⟩
      cases needed <;> rfl
  refuses {kind inferred e v} tally undecided := by
    cases takes : kind.takesCast with
    | false =>
      rw [rule_keeps takes] at undecided
      cases undecided
    | true =>
      rw [handle_takes takes]
      rcases rule_error_cases takes undecided with unprojected | ⟨target, projected, unanswered⟩
      · exact ⟨tally, insertCast_of_unprojected unprojected e.ty e tally⟩
      · exact ⟨tally, insertCast_of_unanswered projected unanswered e.ty tally⟩

end Policy

theorem run_of_walk {strictness : Strictness} {u u' : SourceUnit} {w : Walk Tally}
    (walked : u.walk (policy u.types.table strictness) (Walk.start ⟨0, []⟩) = (u', w)) :
    run strictness u = match w.failure with
      | some e => ⟨u', some e, w.memory.log⟩
      | none => ⟨u', none, w.memory.log ++ [.castsCounted name w.memory.inserted u.path]⟩ := by
  cases failed : w.failure with
  | some e => simp only [run, StateT.run, walked, failed]
  | none => simp only [run, StateT.run, walked, failed]

/-- A run fails with the first violation among the decisions at the sites of the unit, or it makes
the casts decided on and logs their number last. -/
theorem run_outcome (strictness : Strictness) (u : SourceUnit) :
    match (rule u.types.table strictness).atSites u.sites with
    | .ok _ => ∃ log, run strictness u = ⟨u.withCasts (cast u.types.table strictness), none,
        log ++ [.castsCounted name
          (u.slots.countP fun s => (cast u.types.table strictness s).isSome) u.path]⟩
    | .error v => (run strictness u).failure = some (.internal v) := by
  have obeys : (policy u.types.table strictness).Obeys (rule u.types.table strictness)
      Tally.inserted := policy_obeys
  have outcome := u.walk_outcome obeys ⟨0, []⟩
  cases decided : (rule u.types.table strictness).atSites u.sites with
  | error v =>
    rw [decided] at outcome
    cases walked : u.walk (policy u.types.table strictness) (Walk.start ⟨0, []⟩) with
    | mk u' w =>
      rw [walked] at outcome
      have failed : w.failure = some (.internal v) := outcome
      rw [run_of_walk walked, failed]
  | ok casts =>
    rw [decided] at outcome
    obtain ⟨tally, walked, counted⟩ := outcome
    refine ⟨tally.log, ?_⟩
    rw [run_of_walk walked]
    change (⟨_, none, tally.log ++ [.castsCounted name tally.inserted u.path]⟩ : PassRun) = _
    rw [counted, Nat.zero_add, CastRule.countP_of_atSites decided]
    rfl

theorem run_succeeds_iff {strictness : Strictness} {u : SourceUnit} :
    (run strictness u).failure = none ↔
      ∀ site ∈ u.sites, ∃ target, (rule u.types.table strictness).atSite site = .ok target := by
  rw [← CastRule.atSites_ok_iff]
  have outcome := run_outcome strictness u
  cases decided : (rule u.types.table strictness).atSites u.sites with
  | error v =>
    rw [decided] at outcome
    simp [outcome]
  | ok casts =>
    rw [decided] at outcome
    obtain ⟨log, ran⟩ := outcome
    simp [ran]

theorem run_of_succeeds {strictness : Strictness} {u : SourceUnit}
    (succeeds : (run strictness u).failure = none) :
    ∃ log, run strictness u = ⟨u.withCasts (cast u.types.table strictness), none,
      log ++ [.castsCounted name
        (u.slots.countP fun s => (cast u.types.table strictness s).isSome) u.path]⟩ := by
  have outcome := run_outcome strictness u
  obtain ⟨casts, decided⟩ := CastRule.atSites_ok_iff.mpr (run_succeeds_iff.mp succeeds)
  rw [decided] at outcome
  exact outcome

theorem run_unit_of_succeeds {strictness : Strictness} {u : SourceUnit}
    (succeeds : (run strictness u).failure = none) :
    (run strictness u).unit = u.withCasts (cast u.types.table strictness) := by
  obtain ⟨log, ran⟩ := run_of_succeeds succeeds
  rw [ran]

end CastPass

end NullabilityCasts
