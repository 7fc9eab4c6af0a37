import NullabilityCasts.Proofs.CastPass.Rule
import NullabilityCasts.Proofs.ClassTable.Correspondence
import NullabilityCasts.Proofs.ClassTable.LowerBounds
import NullabilityCasts.Proofs.Conversion.Reached

/-!
# Runs on whatever unit

However ill-formed a unit is, a run ends, and if it fails then with a violation that it has found.
This needs a class table in which no variable leads back to itself through lower bounds.
-/

set_option autoImplicit false

namespace NullabilityCasts

namespace ClassTable

variable {ct : ClassTable}

theorem correspondingArguments_cases {source target : Ty} {pairs : List (Ty × Ty)}
    (found : ct.correspondingArguments source target = .ok pairs) :
    pairs = [] ∨ ∃ lifted, (lifted = source ∨ ∃ d, ct.lift? source d = some lifted) ∧
      lifted.arguments.length = target.arguments.length ∧
      pairs = lifted.arguments.zip target.arguments := by
  rcases correspondingArguments_ok_cases found with
    none | ⟨seen, ⟨_, d, _, _, ⟨_, same⟩ | ⟨_, lifted⟩⟩ | ⟨same, _⟩, zipped⟩
  · exact .inl none
  · exact .inr ⟨seen, .inl same, zipped⟩
  · exact .inr ⟨seen, .inr ⟨d, lifted⟩, zipped⟩
  · exact .inr ⟨seen, .inl same, zipped⟩

theorem loopFree_expected (m : MethodSig) (count position : Nat) (actual : Ty) :
    LoopFree (m.expected count position actual) := by
  unfold MethodSig.expected
  dsimp only
  split
  · split
    · split <;> exact loopFree_ok _
    · exact loopFree_error_iff.mpr fun _ => Violation.noConfusion
    · exact loopFree_error_iff.mpr fun _ => Violation.noConfusion
  · split
    · exact loopFree_ok _
    · exact loopFree_error_iff.mpr fun _ => Violation.noConfusion

theorem loopFree_expects (place : Place) (actual : Ty) : LoopFree (place.expects actual) := by
  cases place with
  | typed kind inferred => exact loopFree_ok inferred
  | qualifier => exact loopFree_ok actual
  | argument m count position =>
    rw [Place.expects_argument]
    exact loopFree_expected m count position actual
  | returned span result =>
    cases result with
    | some result => exact loopFree_ok result
    | none => exact loopFree_error_iff.mpr fun _ => Violation.noConfusion

end ClassTable

namespace CastRule

variable {rule : CastRule}

theorem violation?_of_atSite {site : Site} {decision : Option Ty}
    (decided : rule.atSite site = .ok decision) : site.violation? = none := by
  cases site with
  | violation v => cases decided
  | slot s =>
    cases expects : s.inferred with
    | ok inferred => rw [Site.violation?, expects]
    | error v =>
      rw [atSite, atSlot, expects] at decided
      cases decided

theorem first_undecided {sites : List Site} {v : Violation}
    (stops : rule.atSites sites = .error v) :
    ∃ before site after, sites = before ++ site :: after ∧ Site.violations before = [] ∧
      rule.atSite site = .error v := by
  induction sites with
  | nil => cases stops
  | cons site rest ih =>
    rw [atSites, List.mapM_cons] at stops
    cases decided : rule.atSite site with
    | error v' =>
      rw [decided] at stops
      obtain rfl : v' = v := Except.error.inj stops
      exact ⟨[], site, rest, rfl, rfl, decided⟩
    | ok decision =>
      have later : rule.atSites rest = .error v := by
        rw [decided] at stops
        rw [atSites]
        cases remaining : rest.mapM rule.atSite with
        | error v' =>
          rw [remaining] at stops
          exact stops
        | ok decisions =>
          rw [remaining] at stops
          cases stops
      obtain ⟨before, site', after, rfl, passed, undecided⟩ := ih later
      refine ⟨site :: before, site', after, rfl, ?_, undecided⟩
      simpa [Site.violations, violation?_of_atSite decided] using passed

end CastRule

namespace CastPass

open ClassTable

variable {ct : ClassTable} {strictness : Strictness}

theorem loopFree_rule (acyclic : ct.LowerAcyclic) (kind : ConversionKind) (inferred actual : Ty) :
    LoopFree (rule ct strictness kind inferred actual) := by
  cases takes : kind.takesCast with
  | false =>
    rw [rule_keeps takes]
    exact loopFree_ok none
  | true =>
    cases undecided : rule ct strictness kind inferred actual with
    | ok decision => exact loopFree_ok decision
    | error v =>
      refine loopFree_error_iff.mpr ?_
      rcases rule_error_cases takes undecided with unprojected | ⟨target, _, unanswered⟩
      · have projection : LoopFree (ct.project inferred) := loopFree_projectFrom [] inferred
        rw [unprojected] at projection
        exact loopFree_error_iff.mp projection
      · have answer := loopFree_castNeeded acyclic strictness actual target []
        rw [unanswered] at answer
        exact loopFree_error_iff.mp answer

theorem loopFree_atSite (acyclic : ct.LowerAcyclic) {site : Site} (regular : site.Regular) :
    LoopFree ((rule ct strictness).atSite site) := by
  cases site with
  | violation v =>
    refine loopFree_error_iff.mpr ?_
    rcases regular with ⟨m, count, _, rfl⟩ | ⟨span, ty, rfl⟩
    · exact fun _ => Violation.noConfusion
    · exact fun _ => Violation.noConfusion
  | slot s =>
    have expected : LoopFree s.inferred := loopFree_expects s.place s.actual
    cases expects : s.inferred with
    | error v =>
      rw [expects] at expected
      rw [CastRule.atSite, CastRule.atSlot, expects]
      exact loopFree_error_iff.mpr (loopFree_error_iff.mp expected)
    | ok inferred =>
      rw [CastRule.atSite, CastRule.atSlot_of_inferred expects]
      exact loopFree_rule acyclic s.kind inferred s.actual

/-- A run that neither goes on forever nor reaches for what is not there. -/
structure Safe (strictness : Strictness) (u : SourceUnit) : Prop where
  /-- A loop of lower bounds is never reported, so the check for denotable types always ends. -/
  outcome : (run strictness u).failure = none ∨
    ∃ v, (run strictness u).failure = some (.internal v) ∧ ∀ w, v ≠ .lowerBoundLoop w
  /-- The argument in each slot that a run may come to has a parameter. -/
  parameters : ∀ before m count position actual after,
    u.sites = before ++ .slot ⟨.argument m count position, actual⟩ :: after →
      Site.violations before = [] →
        m.paramIndex position < m.params.length ∧
          m.expected count position actual ≠ .error (m.countViolation count)
  pairs : ∀ source target pairs,
    u.types.table.correspondingArguments source target = .ok pairs → pairs = [] ∨
      ∃ lifted, (lifted = source ∨ ∃ d, u.types.table.lift? source d = some lifted) ∧
        lifted.arguments.length = target.arguments.length ∧
        pairs = lifted.arguments.zip target.arguments

theorem run_safe (strictness : Strictness) (u : SourceUnit)
    (acyclic : u.types.table.LowerAcyclic) : Safe strictness u where
  outcome := by
    have outcome := run_outcome strictness u
    cases decided : (rule u.types.table strictness).atSites u.sites with
    | ok casts =>
      rw [decided] at outcome
      obtain ⟨log, ran⟩ := outcome
      exact .inl (by rw [ran])
    | error v =>
      rw [decided] at outcome
      obtain ⟨before, site, after, sites, passed, undecided⟩ := CastRule.first_undecided decided
      have all := SourceUnit.regular_sites u
      rw [sites] at all
      have free : LoopFree ((rule u.types.table strictness).atSite site) :=
        loopFree_atSite acyclic (all.regular passed)
      rw [undecided] at free
      exact .inr ⟨v, outcome, loopFree_error_iff.mp free⟩
  parameters := by
    intro before m count position actual after sites passed
    have all := SourceUnit.regular_sites u
    rw [sites] at all
    have inside : m.paramIndex position < m.params.length := all.regular passed
    refine ⟨inside, fun missing => ?_⟩
    have outside := (m.expected_eq_countViolation_iff count position actual).mp missing
    omega
  pairs := fun _ _ _ found => correspondingArguments_cases found

end CastPass

namespace Sample

def captured : TyVar := ⟨0, "capture#0", .capture, false⟩

def superCaptured : TyVar := ⟨1, "?", .wildcard, false⟩

def bounded : ClassTable :=
  .ofLists [ClassTable.object]
    [(0, ⟨ClassTable.top, none⟩), (1, ⟨ClassTable.top, some (.var captured)⟩)] []

theorem lowerAcyclic_bounded : bounded.LowerAcyclic := by
  refine ClassTable.lowerAcyclic_of_rank UInt32.toNat fun id id' leads => ?_
  obtain ⟨b, lower, found, below, mentioned⟩ := leads
  have ids : bounded.variableIds = [0, 1] := rfl
  have known : id = 0 ∨ id = 1 := by
    have member := ClassTable.mem_variableIds found
    rwa [ids, List.mem_pair] at member
  rcases known with rfl | rfl
  · obtain rfl := Option.some.inj found
    cases below
  · obtain rfl := Option.some.inj found
    obtain rfl := Option.some.inj below
    obtain rfl : id' = 0 := List.mem_singleton.mp mentioned
    decide

/-- A method that takes any number of arguments but has no parameter for them. -/
def collect : MethodSig := ⟨⟨"collect"⟩, [], Ty.void, true, false, true⟩

def overfull : SourceUnit :=
  ⟨"Main.java", ⟨0, bounded⟩, [⟨⟨1, "Main", false, []⟩, [.initializer
    [.expr (.invoke none collect [.localVar ⟨.null, .var superCaptured⟩ ⟨"value"⟩])]]⟩]⟩

theorem run_safe_overfull :
    overfull.types.table.LowerAcyclic ∧ CastPass.Safe .strict overfull ∧
    (CastPass.run .strict overfull).failure
      = some (.internal (.argumentCount 1 ⟨"collect"⟩ true 0)) :=
  ⟨lowerAcyclic_bounded, CastPass.run_safe .strict overfull lowerAcyclic_bounded, rfl⟩

end Sample

end NullabilityCasts
