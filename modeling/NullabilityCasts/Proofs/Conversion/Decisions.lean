import NullabilityCasts.Proofs.Conversion.Failed
import NullabilityCasts.Proofs.Conversion.Casts

/-!
# Walks with a policy of casts

Of a policy that decides on a cast by the kind of the conversion and its two types alone, a walk can
be foretold from the sites of the unit: it fails with the first site that has no decision, and else
leaves the unit with exactly the casts decided on.
-/

set_option autoImplicit false

namespace NullabilityCasts

/-- From the kind, the expected and the actual type of a conversion to the target of its cast, if it
gets one. -/
abbrev CastRule := ConversionKind → (inferred actual : Ty) → Except Violation (Option Ty)

namespace CastRule

def atSlot (rule : CastRule) (s : Slot) : Except Violation (Option Ty) :=
  s.inferred.bind fun inferred => rule s.kind inferred s.actual

def atSite (rule : CastRule) : Site → Except Violation (Option Ty)
  | .slot s => rule.atSlot s
  | .violation v => .error v

def atSites (rule : CastRule) (sites : List Site) : Except Violation (List (Option Ty)) :=
  sites.mapM rule.atSite

def cast (rule : CastRule) (s : Slot) : Option Ty :=
  match rule.atSlot s with
  | .ok cast => cast
  | .error _ => none

theorem atSlot_of_inferred {rule : CastRule} {s : Slot} {inferred : Ty}
    (expects : s.inferred = .ok inferred) : rule.atSlot s = rule s.kind inferred s.actual := by
  rw [atSlot, expects]
  rfl

theorem cast_of_atSlot {rule : CastRule} {s : Slot} {target : Option Ty}
    (decided : rule.atSlot s = .ok target) : rule.cast s = target := by
  rw [cast, decided]

theorem atSites_singleton (rule : CastRule) (site : Site) :
    rule.atSites [site] = (rule.atSite site).map ([·]) := by
  rw [atSites, List.mapM_cons, List.mapM_nil]
  cases rule.atSite site <;> rfl

theorem atSites_append_ok {rule : CastRule} {first later : List Site} {casts : List (Option Ty)}
    (decided : rule.atSites first = .ok casts) :
    rule.atSites (first ++ later) = (rule.atSites later).map (casts ++ ·) := by
  rw [atSites] at decided
  rw [atSites, atSites, List.mapM_append, decided]
  cases later.mapM rule.atSite <;> rfl

theorem atSites_append_error {rule : CastRule} {first later : List Site} {v : Violation}
    (decided : rule.atSites first = .error v) : rule.atSites (first ++ later) = .error v := by
  rw [atSites] at decided
  rw [atSites, List.mapM_append, decided]
  rfl

theorem atSites_ok_iff {rule : CastRule} {sites : List Site} :
    (∃ casts, rule.atSites sites = .ok casts) ↔
      ∀ site ∈ sites, ∃ target, rule.atSite site = .ok target := by
  induction sites with
  | nil => simp [atSites, pure, Except.pure]
  | cons site rest ih =>
    rw [List.forall_mem_cons, ← ih, atSites, atSites, List.mapM_cons]
    cases rule.atSite site with
    | error v => simp [bind, Except.bind]
    | ok target => cases rest.mapM rule.atSite <;> simp [bind, Except.bind, pure, Except.pure]

theorem countP_of_atSites {rule : CastRule} {sites : List Site} {casts : List (Option Ty)}
    (decided : rule.atSites sites = .ok casts) :
    casts.countP Option.isSome
      = (sites.filterMap Site.slot?).countP fun s => (rule.cast s).isSome := by
  induction sites generalizing casts with
  | nil =>
    cases decided
    rfl
  | cons site rest ih =>
    rw [atSites, List.mapM_cons] at decided
    cases atSite : rule.atSite site with
    | error v =>
      rw [atSite] at decided
      cases decided
    | ok target =>
      cases later : rest.mapM rule.atSite with
      | error v =>
        rw [atSite, later] at decided
        cases decided
      | ok casts' =>
        rw [atSite, later] at decided
        obtain rfl : target :: casts' = casts := Except.ok.inj decided
        cases site with
        | violation v => cases atSite
        | slot s =>
          have chosen : rule.cast s = target := cast_of_atSlot atSite
          rw [List.countP_cons, ih later, List.filterMap_cons, Site.slot?, List.countP_cons, chosen]

end CastRule

variable {σ : Type}

/-- The policy does what the rule says, and `count` is the number of casts it has made. -/
structure Policy.Obeys (p : Policy σ) (rule : CastRule) (count : σ → Nat) : Prop where
  accepts : ∀ {kind : ConversionKind} {inferred : Ty} {e : Expr} {cast : Option Ty} (memory : σ),
    rule kind inferred e.ty = .ok cast → ∃ memory',
      p.handle kind inferred e.ty e memory = (.ok (e.castIf cast), memory') ∧
        count memory' = count memory + cast.toList.length
  refuses : ∀ {kind : ConversionKind} {inferred : Ty} {e : Expr} {v : Violation} (memory : σ),
    rule kind inferred e.ty = .error v → ∃ memory',
      p.handle kind inferred e.ty e memory = (.error (.internal v), memory')

namespace Step

class KeepsFailure {α : Type} (step : Step σ α) : Prop where
  keeps : ∀ (w : Walk σ) (e : Error), w.failure = some e → (step w).2.failure = some e

theorem Inert.keepsFailure {α : Type} {step : Step σ α} {a : α} (inert : Inert step a) :
    KeepsFailure step where
  keeps w e failed := by
    rw [inert w (failed ▸ rfl)]
    exact failed

instance {α β : Type} (step : Step σ α) (next : α → Step σ β) [first : KeepsFailure step]
    [later : ∀ a, KeepsFailure (next a)] : KeepsFailure (step >>= next) where
  keeps w e failed := (later (step w).1).keeps (step w).2 e (first.keeps w e failed)

instance {α : Type} (a : α) : KeepsFailure (pure a : Step σ α) := (inert_pure a).keepsFailure

instance (m : MethodSig) (count : Nat) : KeepsFailure (checkCount m count : Step σ Unit) :=
  (inert_checkCount m count).keepsFailure

instance (p : Policy σ) (kind : ConversionKind) (inferred : Ty) (e : Expr) :
    KeepsFailure (settle p kind inferred e) :=
  (inert_settle p kind inferred e).keepsFailure

instance (p : Policy σ) (m : MethodSig) (count position : Nat) (e : Expr) :
    KeepsFailure (settleArgument p m count position e) :=
  (inert_settleArgument p m count position e).keepsFailure

instance (p : Policy σ) (span : Span) (e : Expr) : KeepsFailure (settleReturned p span e) :=
  (inert_settleReturned p span e).keepsFailure

instance (p : Policy σ) (e : Expr) : KeepsFailure (e.walk p) :=
  (Expr.inert_walk p e).keepsFailure

instance (p : Policy σ) (m : MethodSig) (count position : Nat) (args : List Expr) :
    KeepsFailure (Expr.walkArguments p m count position args) :=
  (Expr.inert_walkArguments p m count position args).keepsFailure

instance (p : Policy σ) (component : Ty) (elements : List Expr) :
    KeepsFailure (Expr.walkElements p component elements) :=
  (Expr.inert_walkElements p component elements).keepsFailure

instance (p : Policy σ) (body : List Stmt) : KeepsFailure (Stmt.walkAll p body) :=
  (Stmt.inert_walkAll p body).keepsFailure

instance (p : Policy σ) (members : List Member) : KeepsFailure (Member.walkAll p members) :=
  (Member.inert_walkAll p members).keepsFailure

instance (p : Policy σ) (classes : List ClassDef) : KeepsFailure (ClassDef.walkAll p classes) :=
  (ClassDef.inert_walkAll p classes).keepsFailure

/-- The outcome of a step without a failure before it, inside a body with the given result type. The
sites have a first violation, which is then the failure, or the step returns `a` and has counted the
casts decided on. -/
def Foretold {α : Type} (rule : CastRule) (count : σ → Nat) (result : Option Ty) (step : Step σ α)
    (sites : List Site) (a : α) : Prop :=
  ∀ w : Walk σ, w.failure = none → w.results.head?.join = result →
    match rule.atSites sites with
    | .ok casts => ∃ memory, step w = (a, { w with memory := memory }) ∧
        count memory = count w.memory + casts.countP Option.isSome
    | .error v => (step w).2.failure = some (.internal v)

section Foretold

variable {rule : CastRule} {count : σ → Nat} {result : Option Ty}

theorem foretold_pure {α : Type} (a : α) :
    Foretold rule count result (pure a : Step σ α) [] a :=
  fun w _ _ => ⟨w.memory, rfl, rfl⟩

theorem Foretold.bind {α β : Type} {step : Step σ α} {next : α → Step σ β} {a : α} {b : β}
    {sites sites' : List Site} [keeps : ∀ x, KeepsFailure (next x)]
    (first : Foretold rule count result step sites a)
    (later : Foretold rule count result (next a) sites' b) :
    Foretold rule count result (step >>= next) (sites ++ sites') b := by
  intro w started inside
  have before := first w started inside
  change match rule.atSites (sites ++ sites') with
    | .ok casts => ∃ memory, next (step w).1 (step w).2 = (b, { w with memory := memory }) ∧
        count memory = count w.memory + casts.countP Option.isSome
    | .error v => (next (step w).1 (step w).2).2.failure = some (.internal v)
  cases decided : rule.atSites sites with
  | error v =>
    rw [decided] at before
    rw [CastRule.atSites_append_error decided]
    -- What comes later cannot clear the failure.
    exact (keeps _).keeps _ _ before
  | ok casts =>
    rw [decided] at before
    obtain ⟨memory, returned, counted⟩ := before
    have after := later { w with memory := memory } started inside
    rw [CastRule.atSites_append_ok decided, returned]
    cases decided' : rule.atSites sites' with
    | error v =>
      rw [decided'] at after
      exact after
    | ok casts' =>
      rw [decided'] at after
      obtain ⟨memory', returned', counted'⟩ := after
      refine ⟨memory', returned', ?_⟩
      rw [counted', counted, List.countP_append]
      omega

theorem Foretold.map {α β : Type} {step : Step σ α} {a : α} {sites : List Site} (f : α → β)
    (first : Foretold rule count result step sites a) :
    Foretold rule count result (step >>= fun x => pure (f x)) sites (f a) := by
  have filled : Foretold rule count result (step >>= fun x => pure (f x)) (sites ++ []) (f a) :=
    first.bind (foretold_pure (f a))
  rwa [List.append_nil] at filled

theorem foretold_violate (v : Violation) :
    Foretold rule count result (violate v : Step σ Unit) [.violation v] () := by
  intro w started _
  change (violate v w).2.failure = _
  simp [violate, fail, started]

theorem foretold_checkCount (m : MethodSig) (passed : Nat) :
    Foretold rule count result (checkCount m passed : Step σ Unit) (m.countSites passed) () := by
  rw [checkCount, m.countSites_eq]
  split
  · exact foretold_pure ()
  · exact foretold_violate _

variable {p : Policy σ}

theorem foretold_settle (obeys : p.Obeys rule count) (s : Slot) {inferred : Ty} {e : Expr}
    (expects : s.inferred = .ok inferred) (typed : e.ty = s.actual) :
    Foretold rule count result (settle p s.kind inferred e) [.slot s] (e.castIf (rule.cast s)) := by
  intro w started _
  have atSlot : rule.atSlot s = rule s.kind inferred e.ty := by
    rw [CastRule.atSlot_of_inferred expects, typed]
  rw [CastRule.atSites_singleton, CastRule.atSite]
  cases decided : rule s.kind inferred e.ty with
  | error v =>
    obtain ⟨memory, refused⟩ := obeys.refuses w.memory decided
    rw [atSlot, decided]
    change (settle p s.kind inferred e w).2.failure = _
    simp only [settle, started, refused]
  | ok target =>
    obtain ⟨memory, accepted, counted⟩ := obeys.accepts w.memory decided
    rw [atSlot, decided, CastRule.cast_of_atSlot (atSlot.trans decided)]
    refine ⟨memory, ?_, ?_⟩
    · simp only [settle, started, accepted]
    · rw [counted]
      cases target <;> rfl

theorem foretold_settleTyped (obeys : p.Obeys rule count) {kind : ConversionKind}
    {inferred inferred' actual : Ty} {e : Expr} (expects : inferred' = inferred)
    (typed : e.ty = actual) :
    Foretold rule count result (settle p kind inferred' e) [.typed kind inferred actual]
      (e.castIf (rule.cast ⟨.typed kind inferred, actual⟩)) := by
  subst expects
  exact foretold_settle obeys ⟨.typed kind inferred', actual⟩ rfl typed

/-- A slot that expects no type at all ends the walk before the policy sees it. -/
theorem foretold_slotViolation (s : Slot) {v : Violation} (a : Expr)
    (expects : s.inferred = .error v) :
    Foretold rule count result (do violate v; pure a : Step σ Expr) [.slot s]
      (a.castIf (rule.cast s)) := by
  intro w started _
  rw [CastRule.atSites_singleton, CastRule.atSite, CastRule.atSlot, expects]
  change (violate v w).2.failure = _
  simp [violate, fail, started]

theorem foretold_settleArgument (obeys : p.Obeys rule count) (m : MethodSig) (passed position : Nat)
    {e : Expr} {actual : Ty} (typed : e.ty = actual) :
    Foretold rule count result (settleArgument p m passed position e)
      [.slot ⟨.argument m passed position, actual⟩]
      (e.castIf (rule.cast ⟨.argument m passed position, actual⟩)) := by
  subst typed
  unfold settleArgument
  have inferred : Slot.inferred ⟨.argument m passed position, e.ty⟩
      = m.expected passed position e.ty := Place.expects_argument m passed position e.ty
  cases expects : m.expected passed position e.ty with
  | ok ty => exact foretold_settle obeys _ (inferred.trans expects) rfl
  | error v => exact foretold_slotViolation _ e (inferred.trans expects)

theorem foretold_settleReturned (obeys : p.Obeys rule count) (span : Span) {e : Expr} {actual : Ty}
    (typed : e.ty = actual) :
    Foretold rule count result (settleReturned p span e) [.slot ⟨.returned span result, actual⟩]
      (e.castIf (rule.cast ⟨.returned span result, actual⟩)) := by
  intro w started inside
  cases result with
  | some expected =>
    have top : ∃ outer, w.results = some expected :: outer := by
      cases results : w.results with
      | nil => simp [results] at inside
      | cons first outer =>
        rw [results] at inside
        exact ⟨outer, congrArg (· :: outer) inside⟩
    obtain ⟨outer, top⟩ := top
    have settled : settleReturned p span e w = settle p .returned expected e w := by
      rw [settleReturned, top]
    rw [settled]
    exact foretold_settle obeys ⟨.returned span (some expected), actual⟩ rfl typed w started inside
  | none =>
    have violated : settleReturned p span e w
        = (do violate (.returnOutsideMethod span); pure e : Step σ Expr) w := by
      unfold settleReturned
      split
      · rename_i expected outer results
        simp [results] at inside
      · rfl
    have ends : Foretold rule count none
        (do violate (.returnOutsideMethod span); pure e : Step σ Expr)
        [.slot ⟨.returned span none, actual⟩]
        (e.castIf (rule.cast ⟨.returned span none, actual⟩)) :=
      foretold_slotViolation ⟨.returned span none, actual⟩ e rfl
    rw [violated]
    exact ends w started inside

theorem foretold_inBody {α : Type} {step : Step σ α} {sites : List Site} {a : α}
    (inner : Option Ty) (inside : Foretold rule count inner step sites a) :
    Foretold rule count result (inBody inner step) sites a := by
  intro w started _
  have body := inside { w with results := inner :: w.results } started rfl
  rw [inBody_apply]
  cases decided : rule.atSites sites with
  | error v =>
    rw [decided] at body
    exact body
  | ok casts =>
    rw [decided] at body
    obtain ⟨memory, returned, counted⟩ := body
    refine ⟨memory, ?_, counted⟩
    rw [returned]
    rfl

end Foretold

end Step

end NullabilityCasts
