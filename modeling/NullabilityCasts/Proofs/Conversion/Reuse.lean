import NullabilityCasts.Proofs.Conversion.Follow

/-!
# Walks that go on

One walk may visit unit after unit. Whatever has become of a unit, the walk has left all the bodies
that it entered there, and takes along no more than the memory of its policy.
-/

set_option autoImplicit false

namespace NullabilityCasts

variable {σ : Type}

structure Visited where
  unit : SourceUnit
  failure : Option Error

namespace Step

/-- The bodies that enclose what comes after the step are those that enclosed the step. -/
def KeepsResults {α : Type} (step : Step σ α) : Prop :=
  ∀ w : Walk σ, (step w).2.results = w.results

theorem keepsResults_of_follows {α : Type} {p : Policy σ} {step : Step σ α}
    (follows : ∀ result, ∃ stops fill, Follows p result step stops fill) : KeepsResults step := by
  intro w
  obtain ⟨stops, fill, steps⟩ := follows w.results.head?.join
  cases failed : w.failure with
  | none => rw [(steps.told w [] failed rfl).state]
  | some e =>
    have isSome : w.failure.isSome := by
      rw [failed]
      rfl
    rw [steps.inert w isSome]

end Step

open Step

theorem Expr.keepsResults_walk (p : Policy σ) (e : Expr) : KeepsResults (e.walk p) :=
  keepsResults_of_follows fun _ => ⟨_, _, follows_walk e⟩

theorem Stmt.keepsResults_walk (p : Policy σ) (s : Stmt) : KeepsResults (s.walk p) :=
  keepsResults_of_follows fun _ => ⟨_, _, follows_walk s⟩

theorem Member.keepsResults_walk (p : Policy σ) (m : Member) : KeepsResults (m.walk p) :=
  keepsResults_of_follows fun _ => ⟨_, _, follows_walk m⟩

theorem ClassDef.keepsResults_walk (p : Policy σ) (c : ClassDef) : KeepsResults (c.walk p) :=
  keepsResults_of_follows fun _ => ⟨_, _, (Member.follows_walkAll c.members).map _⟩

namespace SourceUnit

theorem keepsResults_walk (p : Policy σ) (u : SourceUnit) : KeepsResults (u.walk p) := by
  intro w
  rw [walk_from]

/-- A walk in progress does with the next unit what a new one does that is given its memory. -/
theorem walk_eq_start (p : Policy σ) (u : SourceUnit) (w : Walk σ) :
    u.walk p w = ((u.walk p (Walk.start w.memory)).1,
      { (u.walk p (Walk.start w.memory)).2 with results := w.results }) := by
  rw [walk_from, walk_eq_follow]

/-- Visits the units one after another in one walk, which goes on after a unit that has failed. -/
def visitAll (p : Policy σ) : List SourceUnit → Step σ (List Visited)
  | [] => pure []
  | u :: rest => do
    let unit ← u.walk p
    let failure ← modifyGet fun w => (w.failure, w)
    let visited ← visitAll p rest
    pure (⟨unit, failure⟩ :: visited)

/-- Visits each unit in a walk of its own, which starts with the memory that the one before has
left. -/
def visitEach (p : Policy σ) : List SourceUnit → σ → List Visited × σ
  | [], memory => ([], memory)
  | u :: rest, memory =>
    let (unit, w) := u.walk p (Walk.start memory)
    let (visited, memory) := visitEach p rest w.memory
    (⟨unit, w.failure⟩ :: visited, memory)

variable (p : Policy σ)

theorem visitAll_cons (u : SourceUnit) (rest : List SourceUnit) (w : Walk σ) :
    visitAll p (u :: rest) w =
      (⟨(u.walk p w).1, (u.walk p w).2.failure⟩ :: (visitAll p rest (u.walk p w).2).1,
        (visitAll p rest (u.walk p w).2).2) := rfl

theorem visitEach_cons (u : SourceUnit) (rest : List SourceUnit) (memory : σ) :
    visitEach p (u :: rest) memory =
      (⟨(u.walk p (Walk.start memory)).1, (u.walk p (Walk.start memory)).2.failure⟩ ::
          (visitEach p rest (u.walk p (Walk.start memory)).2.memory).1,
        (visitEach p rest (u.walk p (Walk.start memory)).2.memory).2) := rfl

theorem keepsResults_visitAll (units : List SourceUnit) : KeepsResults (visitAll p units) := by
  intro w
  induction units generalizing w with
  | nil => rfl
  | cons u rest ih =>
    rw [visitAll_cons]
    change (visitAll p rest (u.walk p w).2).2.results = w.results
    rw [ih, keepsResults_walk]

theorem visitAll_apply (units : List SourceUnit) (w : Walk σ) :
    ((visitAll p units w).1, (visitAll p units w).2.memory) = visitEach p units w.memory := by
  induction units generalizing w with
  | nil => rfl
  | cons u rest ih =>
    have later := ih (u.walk p w).2
    have first := u.walk_eq_start p w
    have memory : (u.walk p w).2.memory = (u.walk p (Walk.start w.memory)).2.memory := by
      rw [first]
    have failure : (u.walk p w).2.failure = (u.walk p (Walk.start w.memory)).2.failure := by
      rw [first]
    have unit : (u.walk p w).1 = (u.walk p (Walk.start w.memory)).1 := by
      rw [first]
    rw [memory] at later
    rw [visitAll_cons, visitEach_cons, ← later, unit, failure]

/-- Units that are visited in one walk, whatever it has gone through before, come out as if each had
been visited in a walk of its own, with the same failures and the same memory at the end. Every
visit leaves the bodies that it enters, however it ends. -/
theorem visitAll_eq_visitEach (units : List SourceUnit) (w : Walk σ) :
    (visitAll p units w).1 = (visitEach p units w.memory).1 ∧
    (visitAll p units w).2.memory = (visitEach p units w.memory).2 ∧
    (visitAll p units w).2.results = w.results ∧
    (∀ u : SourceUnit, KeepsResults (u.walk p)) ∧ (∀ c : ClassDef, KeepsResults (c.walk p)) ∧
    (∀ m : Member, KeepsResults (m.walk p)) ∧ (∀ s : Stmt, KeepsResults (s.walk p)) ∧
    (∀ e : Expr, KeepsResults (e.walk p)) := by
  have both := visitAll_apply p units w
  refine ⟨congrArg Prod.fst both, congrArg Prod.snd both, keepsResults_visitAll p units w,
    keepsResults_walk p, ClassDef.keepsResults_walk p, Member.keepsResults_walk p,
    Stmt.keepsResults_walk p, Expr.keepsResults_walk p⟩

end SourceUnit

end NullabilityCasts
