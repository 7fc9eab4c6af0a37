import NullabilityCasts.Proofs.ClassTable.Termination
import Mathlib.Data.Finset.Basic

/-!
# Marks are only borrowed

The check for denotable types over a set of marks, with all its ways out. It marks a variable
between the checks of its two bounds, looks the second bound up with the mark already set, and takes
the mark away when the check of that bound is over. Whenever it has an answer, the marks are those
that it was given.
-/

set_option autoImplicit false

namespace NullabilityCasts

namespace ClassTable

variable {ct : ClassTable} {seen : List UInt32} {depth : Nat} {r : Outcome}

abbrev Left := Except Violation Bool × Finset UInt32

def Left.andThen (r : Left) (next : Finset UInt32 → Option Left) : Option Left :=
  match r with
  | (.ok true, marks) => next marks
  | stopped => some stopped

def allOver (check : Finset UInt32 → Ty → Option Left) (marks : Finset UInt32) :
    List Ty → Option Left
  | [] => some (.ok true, marks)
  | t :: rest => (check marks t).bind fun r => r.andThen fun marks' => allOver check marks' rest

/-- Marks a variable, checks its upper bound and takes the mark away. Without a bound to check the
mark would stay. -/
def aboveOver (ct : ClassTable) (check : Finset UInt32 → Ty → Option Left) (v : TyVar)
    (marks : Finset UInt32) : Option Left :=
  match ct.boundsOf v with
  | .error violation => some (.error violation, insert v.id marks)
  | .ok b => (check (insert v.id marks) b.upper).map fun above => (above.1, above.2.erase v.id)

/-- The check as a recursion cut off at a depth, which looks the bounds of a variable up anew for
each of them. -/
def denotableOver (ct : ClassTable) : Nat → Finset UInt32 → Ty → Option Left
  | 0, _, _ => none
  | depth + 1, marks, t =>
    match t with
    | .prim _ => some (.ok true, marks)
    | .union _ | .inter _ => some (.ok false, marks)
    | .declared d _ args =>
      if d.anonymous then some (.ok false, marks)
      else allOver (ct.denotableOver depth) marks args
    | .array component _ => ct.denotableOver depth marks component
    | .var v =>
      if !v.isOpen then some (.ok true, marks)
      else if v.id ∈ marks then some (.ok true, marks)
      else
        match ct.boundsOf v with
        | .error violation => some (.error violation, marks)
        | .ok b =>
          (allOver (ct.denotableOver depth) marks b.lower.toList).bind fun r =>
            r.andThen (ct.aboveOver (ct.denotableOver depth) v)

theorem allOver_singleton (check : Finset UInt32 → Ty → Option Left) (marks : Finset UInt32)
    (t : Ty) : allOver check marks [t] = check marks t := by
  have stays (r : Left) : (r.andThen fun marks' => some (.ok true, marks')) = some r := by
    unfold Left.andThen
    split <;> rfl
  simp only [allOver, stays, Option.bind_fun_some]

theorem allDenotableFrom_singleton (lows : List UInt32) (t : Ty) :
    (ct.allDenotableFrom seen lows [t]).val = (ct.denotableFrom seen lows t).val := by
  rw [allDenotableFrom_cons]
  split
  · rename_i marks first
    rw [first, allDenotableFrom]
    rfl
  · rfl

/-- What a check does first: it answers at once, goes through the parts of the type, or turns to the
bounds of a variable. -/
inductive Turn (ct : ClassTable) (seen : List UInt32) : Ty → Prop where
  | answer {t : Ty} (a : Except Violation Bool)
      (plain : ∀ depth, ct.denotableWithin (depth + 1) seen t = some (a, seen))
      (onSet : ∀ depth, ct.denotableOver (depth + 1) seen.toFinset t = some (a, seen.toFinset))
      (watched : ∀ lows, (ct.denotableFrom seen lows t).val = (a, seen)) : Turn ct seen t
  | parts {t : Ty} (ts : List Ty)
      (plain : ∀ depth, ct.denotableWithin (depth + 1) seen t
        = oneByOne (ct.denotableWithin depth) seen ts)
      (onSet : ∀ depth, ct.denotableOver (depth + 1) seen.toFinset t
        = allOver (ct.denotableOver depth) seen.toFinset ts)
      (watched : ∀ lows, (ct.denotableFrom seen lows t).val
        = (ct.allDenotableFrom seen lows ts).val) : Turn ct seen t
  | bounds {v : TyVar} {b : Bounds} (isOpen : v.isOpen = true) (fresh : v.id ∉ seen)
      (found : ct.bounds? v.id = some b) : Turn ct seen (.var v)

theorem boundsOf_of_found {v : TyVar} {b : Bounds} (found : ct.bounds? v.id = some b) :
    ct.boundsOf v = .ok b := by
  rw [boundsOf, found]

theorem turn (ct : ClassTable) (seen : List UInt32) (t : Ty) : Turn ct seen t := by
  cases t with
  | prim p =>
    exact .answer (.ok true) (fun _ => rfl) (fun _ => rfl) fun _ => by rw [denotableFrom]; rfl
  | union members =>
    exact .answer (.ok false) (fun _ => rfl) (fun _ => rfl) fun _ => by rw [denotableFrom]; rfl
  | inter members =>
    exact .answer (.ok false) (fun _ => rfl) (fun _ => rfl) fun _ => by rw [denotableFrom]; rfl
  | declared d nullable args =>
    by_cases anonymous : d.anonymous = true
    · refine .answer (.ok false) (fun _ => ?_) (fun _ => ?_) fun _ => ?_
      · rw [denotableWithin, if_pos anonymous]
      · rw [denotableOver, if_pos anonymous]
      · rw [denotableFrom, if_pos anonymous]
        rfl
    · refine .parts args (fun _ => ?_) (fun _ => ?_) fun _ => ?_
      · rw [denotableWithin, if_neg anonymous]
      · rw [denotableOver, if_neg anonymous]
      · rw [denotableFrom, if_neg anonymous]
  | array component nullable =>
    refine .parts [component] (fun _ => ?_) (fun _ => ?_) fun _ => ?_
    · rw [denotableWithin, oneByOne_singleton]
    · rw [denotableOver, allOver_singleton]
    · rw [denotableFrom, allDenotableFrom_singleton]
  | var v =>
    by_cases closed : (!v.isOpen) = true
    · refine .answer (.ok true) (fun _ => ?_) (fun _ => ?_) fun _ => ?_
      · rw [denotableWithin, if_pos closed]
      · rw [denotableOver, if_pos closed]
      · rw [denotableFrom, if_pos closed]
        rfl
    by_cases marked : v.id ∈ seen
    · refine .answer (.ok true) (fun _ => ?_) (fun _ => ?_) fun _ => ?_
      · rw [denotableWithin, if_neg closed, if_pos marked]
      · rw [denotableOver, if_neg closed, if_pos (List.mem_toFinset.mpr marked)]
      · rw [denotableFrom, if_neg closed, dif_pos marked]
        rfl
    have isOpen : v.isOpen = true := by simpa using closed
    cases found : ct.bounds? v.id with
    | none =>
      refine .answer (.error (.unboundVariable v)) (denotableWithin_unbound isOpen marked found)
        (fun _ => ?_) fun _ => denotableFrom_unbound isOpen marked found
      have fresh : v.id ∉ seen.toFinset := fun member => marked (List.mem_toFinset.mp member)
      have missing : ct.boundsOf v = .error (.unboundVariable v) := by rw [boundsOf, found]
      rw [denotableOver, if_neg closed, if_neg fresh, missing]
    | some b => exact .bounds isOpen marked found

theorem Outcome.andThen_cases {next : List UInt32 → Option Outcome} {r' : Outcome}
    (returns : r.andThen next = some r') :
    (∃ marks, r = (.ok true, marks) ∧ next marks = some r') ∨
      (∀ marks, r ≠ (.ok true, marks)) ∧ r = r' := by
  unfold Outcome.andThen at returns
  split at returns
  · rename_i marks
    exact .inl ⟨marks, rfl, returns⟩
  · rename_i stopped
    exact .inr ⟨fun marks same => stopped marks same, Option.some.inj returns⟩

theorem oneByOne_cons_cases {check : List UInt32 → Ty → Option Outcome} {t : Ty} {ts : List Ty}
    (returns : oneByOne check seen (t :: ts) = some r) :
    (∃ marks, check seen t = some (.ok true, marks) ∧ oneByOne check marks ts = some r) ∨
      check seen t = some r ∧ ∀ marks, r ≠ (.ok true, marks) := by
  obtain ⟨first, here, later⟩ := Option.bind_eq_some_iff.mp returns
  rcases Outcome.andThen_cases later with ⟨marks, rfl, rest⟩ | ⟨stopped, rfl⟩
  · exact .inl ⟨marks, here, rest⟩
  · exact .inr ⟨here, stopped⟩

theorem oneByOne_marks {check : List UInt32 → Ty → Option Outcome}
    (each : ∀ seen t r, check seen t = some r → r.2 = seen) {ts : List Ty}
    (returns : oneByOne check seen ts = some r) : r.2 = seen := by
  induction ts generalizing seen with
  | nil => exact (Option.some.inj returns) ▸ rfl
  | cons t ts ih =>
    rcases oneByOne_cons_cases returns with ⟨marks, first, rest⟩ | ⟨only, _⟩
    · exact (ih rest).trans (each seen t _ first)
    · exact each seen t r only

theorem oneByOne_mono {check check' : List UInt32 → Ty → Option Outcome}
    (each : ∀ seen t r, check seen t = some r → check' seen t = some r) {ts : List Ty}
    (returns : oneByOne check seen ts = some r) : oneByOne check' seen ts = some r := by
  induction ts generalizing seen with
  | nil => exact returns
  | cons t ts ih =>
    rw [oneByOne]
    rcases oneByOne_cons_cases returns with ⟨marks, first, rest⟩ | ⟨only, stopped⟩
    · rw [each seen t _ first]
      exact ih rest
    · rw [each seen t r only]
      exact Outcome.andThen_of_stopped stopped _

theorem denotableWithin_var_cases {v : TyVar} {b : Bounds} (isOpen : v.isOpen = true)
    (fresh : v.id ∉ seen) (found : ct.bounds? v.id = some b)
    (returns : ct.denotableWithin (depth + 1) seen (.var v) = some r) :
    (∃ marks above, oneByOne (ct.denotableWithin depth) seen b.lower.toList
        = some (.ok true, marks) ∧
      ct.denotableWithin depth (v.id :: marks) b.upper = some above ∧
      r = (above.1, above.2.erase v.id)) ∨
    oneByOne (ct.denotableWithin depth) seen b.lower.toList = some r ∧
      ∀ marks, r ≠ (.ok true, marks) := by
  rw [denotableWithin_var isOpen fresh found] at returns
  obtain ⟨below, lower, next⟩ := Option.bind_eq_some_iff.mp returns
  rcases Outcome.andThen_cases next with ⟨marks, rfl, rest⟩ | ⟨stopped, rfl⟩
  · obtain ⟨above, upper, rfl⟩ := Option.map_eq_some_iff.mp rest
    exact .inl ⟨marks, above, lower, upper, rfl⟩
  · exact .inr ⟨lower, stopped⟩

theorem denotableWithin_marks {t : Ty} (returns : ct.denotableWithin depth seen t = some r) :
    r.2 = seen := by
  induction depth generalizing seen t r with
  | zero => cases returns
  | succ depth ih =>
    cases turn ct seen t with
    | answer a plain =>
      rw [plain] at returns
      exact (Option.some.inj returns) ▸ rfl
    | parts ts plain =>
      rw [plain] at returns
      exact oneByOne_marks (fun _ _ _ => ih) returns
    | bounds isOpen fresh found =>
      rcases denotableWithin_var_cases isOpen fresh found returns with
        ⟨marks, above, lower, upper, rfl⟩ | ⟨lower, _⟩
      · obtain rfl : marks = seen := oneByOne_marks (fun _ _ _ => ih) lower
        change above.2.erase _ = marks
        rw [ih upper, List.erase_cons_head]
      · exact oneByOne_marks (fun _ _ _ => ih) lower

def Outcome.left (r : Outcome) : Left := (r.1, r.2.toFinset)

theorem Outcome.left_andThen {next : List UInt32 → Option Outcome}
    {nextOver : Finset UInt32 → Option Left}
    (same : ∀ marks, r = (.ok true, marks) → nextOver marks.toFinset = (next marks).map left) :
    r.left.andThen nextOver = (r.andThen next).map left := by
  obtain ⟨a, marks⟩ := r
  cases a with
  | error violation => rfl
  | ok d =>
    cases d with
    | false => rfl
    | true => exact same marks rfl

theorem allOver_toFinset {check : List UInt32 → Ty → Option Outcome}
    {checkOver : Finset UInt32 → Ty → Option Left}
    (each : ∀ seen t, checkOver seen.toFinset t = (check seen t).map Outcome.left)
    (seen : List UInt32) (ts : List Ty) :
    allOver checkOver seen.toFinset ts = (oneByOne check seen ts).map Outcome.left := by
  induction ts generalizing seen with
  | nil => rfl
  | cons t ts ih =>
    rw [allOver, oneByOne, each]
    cases check seen t with
    | none => rfl
    | some r => exact Outcome.left_andThen fun marks _ => ih marks

theorem denotableOver_var {v : TyVar} {b : Bounds} (isOpen : v.isOpen = true)
    (fresh : v.id ∉ seen) (found : ct.bounds? v.id = some b) (depth : Nat) :
    ct.denotableOver (depth + 1) seen.toFinset (.var v)
      = (allOver (ct.denotableOver depth) seen.toFinset b.lower.toList).bind fun r =>
          r.andThen (ct.aboveOver (ct.denotableOver depth) v) := by
  have fresh' : v.id ∉ seen.toFinset := fun member => fresh (List.mem_toFinset.mp member)
  rw [denotableOver, isOpen, if_neg (by decide), if_neg fresh', boundsOf_of_found found]

/-- A mark is only ever set on a variable without one. So taking it away leaves the marks that were
there before, and as a set they are those of the check over a list. -/
theorem denotableOver_toFinset (depth : Nat) (seen : List UInt32) (t : Ty) :
    ct.denotableOver depth seen.toFinset t
      = (ct.denotableWithin depth seen t).map Outcome.left := by
  induction depth generalizing seen t with
  | zero => rfl
  | succ depth ih =>
    cases turn ct seen t with
    | answer a plain onSet =>
      rw [plain, onSet]
      rfl
    | parts ts plain onSet =>
      rw [plain, onSet]
      exact allOver_toFinset ih seen ts
    | @bounds v b isOpen fresh found =>
      rw [denotableOver_var isOpen fresh found, denotableWithin_var isOpen fresh found,
        allOver_toFinset ih]
      cases lower : oneByOne (ct.denotableWithin depth) seen b.lower.toList with
      | none => rfl
      | some r =>
        refine Outcome.left_andThen fun marks same => ?_
        obtain rfl : marks = seen := by
          have left := oneByOne_marks (fun _ _ _ => denotableWithin_marks) lower
          rwa [same] at left
        rw [aboveOver, boundsOf_of_found found, ← List.toFinset_cons]
        change (ct.denotableOver depth (v.id :: marks).toFinset b.upper).map _ = _
        rw [ih]
        cases upper : ct.denotableWithin depth (v.id :: marks) b.upper with
        | none => rfl
        | some above =>
          have left : above.2 = v.id :: marks := denotableWithin_marks upper
          have fresh' : v.id ∉ marks.toFinset := fun member => fresh (List.mem_toFinset.mp member)
          change some (above.1, above.2.toFinset.erase v.id)
            = some (above.1, (above.2.erase v.id).toFinset)
          rw [left, List.erase_cons_head, List.toFinset_cons, Finset.erase_insert fresh']

theorem denotableWithin_succ {t : Ty} (returns : ct.denotableWithin depth seen t = some r) :
    ct.denotableWithin (depth + 1) seen t = some r := by
  induction depth generalizing seen t r with
  | zero => cases returns
  | succ depth ih =>
    cases turn ct seen t with
    | answer a plain =>
      rw [plain] at returns ⊢
      exact returns
    | parts ts plain =>
      rw [plain] at returns ⊢
      exact oneByOne_mono (fun _ _ _ => ih) returns
    | bounds isOpen fresh found =>
      rw [denotableWithin_var isOpen fresh found]
      rcases denotableWithin_var_cases isOpen fresh found returns with
        ⟨marks, above, lower, upper, rfl⟩ | ⟨lower, stopped⟩
      · rw [oneByOne_mono (fun _ _ _ => ih) lower]
        change (ct.denotableWithin (depth + 1) (_ :: marks) _).map _ = _
        rw [ih upper]
        rfl
      · rw [oneByOne_mono (fun _ _ _ => ih) lower]
        exact Outcome.andThen_of_stopped stopped _

/-- The recursion returns from no check of a variable in `lows` that is cut off at the depth. -/
def Unreturned (ct : ClassTable) (seen lows : List UInt32) (depth : Nat) : Prop :=
  ∀ v : TyVar, v.isOpen = true → v.id ∈ lows → ct.denotableWithin depth seen (.var v) = none

theorem Unreturned.of_succ {lows : List UInt32} (unreturned : ct.Unreturned seen lows (depth + 1)) :
    ct.Unreturned seen lows depth := by
  intro v isOpen low
  cases returns : ct.denotableWithin depth seen (.var v) with
  | none => rfl
  | some r => exact (denotableWithin_succ returns).symm.trans (unreturned v isOpen low)

/-- All that counts of a variable with bounds is its id. -/
theorem Unreturned.cons {lows : List UInt32} {v : TyVar} {b : Bounds}
    (unreturned : ct.Unreturned seen lows depth) (isOpen : v.isOpen = true) (fresh : v.id ∉ seen)
    (found : ct.bounds? v.id = some b) (own : ct.denotableWithin depth seen (.var v) = none) :
    ct.Unreturned seen (v.id :: lows) depth := by
  intro w isOpen' low
  rcases List.mem_cons.mp low with same | earlier
  · cases depth with
    | zero => rfl
    | succ depth =>
      rw [← own, denotableWithin_var isOpen fresh found,
        denotableWithin_var isOpen' (same ▸ fresh) (same ▸ found), same]
  · exact unreturned w isOpen' earlier

theorem allDenotableFrom_of_within {lows : List UInt32}
    (each : ∀ t r, ct.denotableWithin depth seen t = some r →
      (ct.denotableFrom seen lows t).val = r) {ts : List Ty}
    (returns : oneByOne (ct.denotableWithin depth) seen ts = some r) :
    (ct.allDenotableFrom seen lows ts).val = r := by
  induction ts with
  | nil =>
    obtain rfl := Option.some.inj returns
    rw [allDenotableFrom]
    rfl
  | cons t ts ih =>
    rcases oneByOne_cons_cases returns with ⟨marks, first, rest⟩ | ⟨only, stopped⟩
    · obtain rfl : marks = seen := denotableWithin_marks first
      rw [allDenotableFrom_cons, each t _ first]
      exact ih rest
    · have here : (ct.denotableFrom seen lows t).val = r := each t r only
      rw [allDenotableFrom_cons_of_stopped ts fun marks => here ▸ stopped marks, here]

/-- Where the plain recursion returns, the check that watches lower bounds has the same answer: what
it reports as a loop is a check that the recursion does not come back from. -/
theorem denotableFrom_of_within {lows : List UInt32} {t : Ty}
    (returns : ct.denotableWithin depth seen t = some r)
    (unreturned : ct.Unreturned seen lows depth) : (ct.denotableFrom seen lows t).val = r := by
  induction depth generalizing seen lows t r with
  | zero => cases returns
  | succ depth ih =>
    cases turn ct seen t with
    | answer a plain _ watched =>
      rw [plain] at returns
      exact (watched lows).trans (Option.some.inj returns)
    | parts ts plain _ watched =>
      rw [plain] at returns
      rw [watched]
      exact allDenotableFrom_of_within (fun _ _ here => ih here unreturned.of_succ) returns
    | @bounds v b isOpen fresh found =>
      cases own : ct.denotableWithin depth seen (.var v) with
      | some r' =>
        -- A smaller depth would do as well.
        have same : some r' = some r := (denotableWithin_succ own).symm.trans returns
        exact Option.some.inj same ▸ ih own unreturned.of_succ
      | none =>
        have straight : v.id ∉ lows := by
          intro low
          rw [unreturned v isOpen low] at returns
          cases returns
        have below {r' : Outcome}
            (lower : oneByOne (ct.denotableWithin depth) seen b.lower.toList = some r') :
            (ct.lowerDenotableFrom seen lows v b found).val = r' := by
          cases limit : b.lower with
          | none =>
            rw [limit] at lower
            rw [lowerDenotableFrom_unlimited found limit]
            exact Option.some.inj lower
          | some t =>
            rw [limit, Option.toList_some, oneByOne_singleton] at lower
            rw [lowerDenotableFrom_limited found limit, if_neg straight]
            exact ih lower (unreturned.of_succ.cons isOpen fresh found own)
        rcases denotableWithin_var_cases isOpen fresh found returns with
          ⟨marks, above, lower, upper, rfl⟩ | ⟨lower, stopped⟩
        · have next : (ct.denotableFrom (v.id :: marks) [] b.upper).val = above :=
            ih upper fun _ _ low => by cases low
          rw [denotableFrom_var isOpen fresh found, below lower]
          change ((ct.denotableFrom (v.id :: marks) [] b.upper).val.1,
            (ct.denotableFrom (v.id :: marks) [] b.upper).val.2.erase v.id) = _
          rw [next]
        · have ends (marks : List UInt32) :
              (ct.lowerDenotableFrom seen lows v b found).val ≠ (.ok true, marks) :=
            below lower ▸ stopped marks
          rw [denotableFrom_var_of_stopped isOpen fresh found ends, below lower]

theorem denotable_of_within {t : Ty} (returns : ct.denotableWithin depth seen t = some r) :
    ct.denotable t seen = r :=
  denotableFrom_of_within returns fun _ _ low => by cases low

/-- Whenever the check has an answer, be it a violation from deep inside, it leaves the marks that
it was given; and over a list of the same marks it has the same answer. -/
theorem denotableOver_restores {marks left : Finset UInt32} {t : Ty}
    {answer : Except Violation Bool}
    (returns : ct.denotableOver depth marks t = some (answer, left)) :
    left = marks ∧ ∀ seen : List UInt32, seen.toFinset = marks →
      ct.denotable t seen = (answer, seen) := by
  have onList (seen : List UInt32) (same : seen.toFinset = marks) :
      left = marks ∧ ct.denotable t seen = (answer, seen) := by
    rw [← same, denotableOver_toFinset] at returns
    obtain ⟨r, plain, answered⟩ := Option.map_eq_some_iff.mp returns
    obtain ⟨rfl, rfl⟩ := Prod.mk.inj answered
    have kept : r.2 = seen := denotableWithin_marks plain
    refine ⟨kept ▸ same, ?_⟩
    rw [denotable_of_within plain]
    exact Prod.ext rfl kept
  exact ⟨(onList marks.toList marks.toList_toFinset).1, fun seen same => (onList seen same).2⟩

end ClassTable

namespace Sample

/-- The missing bound is found out with two variables marked, and both marks are taken away. -/
theorem denotableOver_restores_tangle :
    tangle.denotableOver 7 {5} (.var filler) = some (.error (.unboundVariable absent), {5}) ∧
    tangle.denotable (.var filler) [5] = (.error (.unboundVariable absent), [5]) ∧
    tangle.denotableOver 7 {5, 7} (.var filler) = some (.ok true, {5, 7}) ∧
    tangle.denotable (.var filler) [7, 5] = (.ok true, [7, 5]) := by
  have fails : tangle.denotableOver 7 {5} (.var filler)
      = some (.error (.unboundVariable absent), {5}) := rfl
  have holds : tangle.denotableOver 7 {5, 7} (.var filler) = some (.ok true, {5, 7}) := rfl
  exact ⟨fails, (ClassTable.denotableOver_restores fails).2 [5] rfl, holds,
    (ClassTable.denotableOver_restores holds).2 [7, 5] (by decide)⟩

end Sample

end NullabilityCasts
