import NullabilityCasts.Proofs.ClassTable.LowerBounds
import NullabilityCasts.Proofs.Depth

/-!
# The end of the check for denotable types

The check as a plain recursion that does not watch lower bounds: only marks and the structure of the
types hold it up. It ends where lower bounds alone lead no variable back to itself, however upper
bounds loop and whatever bounds are missing.
-/

set_option autoImplicit false

namespace NullabilityCasts

namespace ClassTable

variable {ct : ClassTable} {seen : List UInt32}

abbrev Outcome := Except Violation Bool × List UInt32

/-- Goes on with the marks that are left if all has been denotable so far. -/
def Outcome.andThen (r : Outcome) (next : List UInt32 → Option Outcome) : Option Outcome :=
  match r with
  | (.ok true, seen) => next seen
  | stopped => some stopped

def oneByOne (check : List UInt32 → Ty → Option Outcome) (seen : List UInt32) :
    List Ty → Option Outcome
  | [] => some (.ok true, seen)
  | t :: rest => (check seen t).bind fun r => r.andThen fun seen' => oneByOne check seen' rest

/-- The check as a recursion cut off at a depth: a lower bound is checked with the marks as they
are, an upper bound with a mark on its variable. -/
def denotableWithin (ct : ClassTable) : Nat → List UInt32 → Ty → Option Outcome
  | 0, _, _ => none
  | depth + 1, seen, t =>
    match t with
    | .prim _ => some (.ok true, seen)
    | .union _ | .inter _ => some (.ok false, seen)
    | .declared d _ args =>
      if d.anonymous then some (.ok false, seen)
      else oneByOne (ct.denotableWithin depth) seen args
    | .array component _ => ct.denotableWithin depth seen component
    | .var v =>
      if !v.isOpen then some (.ok true, seen)
      else if v.id ∈ seen then some (.ok true, seen)
      else
        match ct.bounds? v.id with
        | none => some (.error (.unboundVariable v), seen)
        | some b =>
          (oneByOne (ct.denotableWithin depth) seen b.lower.toList).bind fun r =>
            r.andThen fun seen' =>
              (ct.denotableWithin depth (v.id :: seen') b.upper).map fun above =>
                (above.1, above.2.erase v.id)

section Steps

variable {f : Nat → Option Outcome} {g : Nat → List UInt32 → Option Outcome} {r : Outcome}

theorem endsWith_andThen (first : EndsWith f (.ok true, seen))
    (next : EndsWith (fun depth => g depth seen) r) :
    EndsWith (fun depth => (f depth).bind fun r => r.andThen (g depth)) r :=
  first.bind next

theorem Outcome.andThen_of_stopped (stopped : ∀ marks, r ≠ (.ok true, marks))
    (next : List UInt32 → Option Outcome) : r.andThen next = some r := by
  unfold Outcome.andThen
  split
  · exact absurd rfl (stopped _)
  · rfl

theorem endsWith_andThen_of_stopped (first : EndsWith f r)
    (stopped : ∀ marks, r ≠ (.ok true, marks)) :
    EndsWith (fun depth => (f depth).bind fun r => r.andThen (g depth)) r := by
  refine first.bind (g := fun depth r => r.andThen (g depth)) ?_
  simp only [Outcome.andThen_of_stopped stopped]
  exact EndsWith.pure r

end Steps

theorem denotableFrom_unbound {lows : List UInt32} {v : TyVar} (isOpen : v.isOpen = true)
    (fresh : v.id ∉ seen) (missing : ct.bounds? v.id = none) :
    (ct.denotableFrom seen lows (.var v)).val = (.error (.unboundVariable v), seen) := by
  rw [denotableFrom, isOpen, if_neg (by decide), dif_neg fresh]
  split
  · rfl
  · rename_i b found
    rw [missing] at found
    cases found

theorem denotableWithin_unbound {v : TyVar} (isOpen : v.isOpen = true) (fresh : v.id ∉ seen)
    (missing : ct.bounds? v.id = none) (depth : Nat) :
    ct.denotableWithin (depth + 1) seen (.var v) = some (.error (.unboundVariable v), seen) := by
  rw [denotableWithin, isOpen, if_neg (by decide), if_neg fresh, missing]

theorem denotableWithin_var {v : TyVar} {b : Bounds} (isOpen : v.isOpen = true)
    (fresh : v.id ∉ seen) (found : ct.bounds? v.id = some b) (depth : Nat) :
    ct.denotableWithin (depth + 1) seen (.var v)
      = (oneByOne (ct.denotableWithin depth) seen b.lower.toList).bind fun r =>
          r.andThen fun seen' =>
            (ct.denotableWithin depth (v.id :: seen') b.upper).map fun above =>
              (above.1, above.2.erase v.id) := by
  rw [denotableWithin, isOpen, if_neg (by decide), if_neg fresh, found]

theorem lowerDenotableFrom_unlimited {lows : List UInt32} {v : TyVar} {b : Bounds}
    (found : ct.bounds? v.id = some b) (unlimited : b.lower = none) :
    (ct.lowerDenotableFrom seen lows v b found).val = (.ok true, seen) := by
  rw [lowerDenotableFrom]
  split
  · rfl
  · rename_i lower below
    rw [unlimited] at below
    cases below

theorem lowerDenotableFrom_limited {lows : List UInt32} {v : TyVar} {b : Bounds} {lower : Ty}
    (found : ct.bounds? v.id = some b) (below : b.lower = some lower) :
    (ct.lowerDenotableFrom seen lows v b found).val
      = if v.id ∈ lows then (.error (.lowerBoundLoop v), seen)
        else (ct.denotableFrom seen (v.id :: lows) lower).val := by
  rw [lowerDenotableFrom]
  split
  · rename_i unlimited
    rw [below] at unlimited
    cases unlimited
  · rename_i lower' below'
    obtain rfl : lower = lower' := Option.some.inj (below.symm.trans below')
    split <;> rfl

theorem oneByOne_singleton (check : List UInt32 → Ty → Option Outcome) (t : Ty) :
    oneByOne check seen [t] = check seen t := by
  have stays (r : Outcome) : (r.andThen fun seen' => some (.ok true, seen')) = some r := by
    unfold Outcome.andThen
    split <;> rfl
  simp only [oneByOne, stays, Option.bind_fun_some]

/-- The check that watches lower bounds does the same, unless it comes to a loop of them. -/
theorem endsWith_denotableFrom (lows : List UInt32) (t : Ty) :
    LoopFree (ct.denotableFrom seen lows t).val.1 →
      EndsWith (fun depth => ct.denotableWithin depth seen t)
        (ct.denotableFrom seen lows t).val := by
  -- along the recursion of the watched check, which has a measure where the plain one has none
  refine denotableFrom.induct ct
    (fun seen lows t => LoopFree (ct.denotableFrom seen lows t).val.1 →
      EndsWith (fun depth => ct.denotableWithin depth seen t) (ct.denotableFrom seen lows t).val)
    (fun seen lows v b found => LoopFree (ct.lowerDenotableFrom seen lows v b found).val.1 →
      EndsWith (fun depth => oneByOne (ct.denotableWithin depth) seen b.lower.toList)
        (ct.lowerDenotableFrom seen lows v b found).val)
    (fun seen lows ts => LoopFree (ct.allDenotableFrom seen lows ts).val.1 →
      EndsWith (fun depth => oneByOne (ct.denotableWithin depth) seen ts)
        (ct.allDenotableFrom seen lows ts).val)
    ?prim ?union ?inter ?anonymous ?declared ?array ?closed ?marked ?unbound ?above ?stopped
    ?unlimited ?loop ?lower ?none ?next ?last seen lows t
  case prim =>
    intro seen lows p _
    rw [denotableFrom]
    exact (EndsWith.pure _).succ fun _ => rfl
  case union =>
    intro seen lows members _
    rw [denotableFrom]
    exact (EndsWith.pure _).succ fun _ => rfl
  case inter =>
    intro seen lows members _
    rw [denotableFrom]
    exact (EndsWith.pure _).succ fun _ => rfl
  case anonymous =>
    intro seen lows d nullable args anonymous _
    rw [denotableFrom, if_pos anonymous]
    exact (EndsWith.pure _).succ fun _ => by rw [denotableWithin, if_pos anonymous]; rfl
  case declared =>
    intro seen lows d nullable args named ih free
    rw [denotableFrom, if_neg named] at free ⊢
    exact (ih free).succ fun _ => by rw [denotableWithin, if_neg named]
  case array =>
    intro seen lows component nullable ih free
    rw [denotableFrom] at free ⊢
    exact (ih free).succ fun _ => rfl
  case closed =>
    intro seen lows v closed _
    rw [denotableFrom, if_pos closed]
    exact (EndsWith.pure _).succ fun _ => by rw [denotableWithin, if_pos closed]; rfl
  case marked =>
    intro seen lows v isOpen marked _
    rw [denotableFrom, if_neg isOpen, dif_pos marked]
    exact (EndsWith.pure _).succ fun _ => by rw [denotableWithin, if_neg isOpen, if_pos marked]; rfl
  case unbound =>
    intro seen lows v isOpen fresh missing _
    have isOpen : v.isOpen = true := by simpa using isOpen
    rw [denotableFrom_unbound isOpen fresh missing]
    exact (EndsWith.pure _).succ (denotableWithin_unbound isOpen fresh missing)
  case above =>
    intro seen lows v isOpen fresh b found seen' kept lower ihLower ihAbove free
    have isOpen : v.isOpen = true := by simpa using isOpen
    have below := ihLower (by rw [lower]; exact loopFree_ok true)
    rw [lower] at below
    rw [denotableFrom_var isOpen fresh found, lower] at free ⊢
    exact (endsWith_andThen below ((ihAbove free).map _)).succ
      (denotableWithin_var isOpen fresh found)
  case stopped =>
    intro seen lows v isOpen fresh b found stopped ih free
    have isOpen : v.isOpen = true := by simpa using isOpen
    have ends := Marked.val_ne_of_stopped stopped
    rw [denotableFrom_var_of_stopped isOpen fresh found ends] at free ⊢
    exact (endsWith_andThen_of_stopped (ih free) ends).succ (denotableWithin_var isOpen fresh found)
  case unlimited =>
    intro seen lows v b found unlimited _
    rw [lowerDenotableFrom_unlimited found unlimited, unlimited]
    exact EndsWith.pure _
  case loop =>
    intro seen lows v b found lower below looping free
    rw [lowerDenotableFrom_limited found below, if_pos looping] at free
    exact absurd rfl (free v)
  case lower =>
    intro seen lows v b found lower below straight _ ih free
    rw [lowerDenotableFrom_limited found below, if_neg straight] at free ⊢
    rw [below]
    simp only [Option.toList_some, oneByOne_singleton]
    exact ih free
  case none =>
    intro seen lows _
    rw [allDenotableFrom]
    exact EndsWith.pure _
  case next =>
    intro seen lows t rest seen' kept first ihFirst ihRest free
    have before := ihFirst (by rw [first]; exact loopFree_ok true)
    rw [first] at before
    rw [allDenotableFrom_cons, first] at free ⊢
    exact endsWith_andThen before (ihRest free)
  case last =>
    intro seen lows t rest stopped ih free
    have ends := Marked.val_ne_of_stopped stopped
    rw [allDenotableFrom_cons_of_stopped rest ends] at free ⊢
    exact endsWith_andThen_of_stopped (ih free) ends

/-- Where lower bounds lead no variable back to itself, the check ends whatever the type and the
marks are, with or without an answer for a missing bound. -/
theorem denotable_ends (acyclic : ct.LowerAcyclic) (t : Ty) (seen : List UInt32) :
    EndsWith (fun depth => ct.denotableWithin depth seen t) (ct.denotable t seen) :=
  endsWith_denotableFrom [] t (loopFree_denotable acyclic t seen)

/-- A variable that is its own lower bound keeps the recursion going at every depth. -/
theorem denotableWithin_of_own_lower {v : TyVar} {b : Bounds} (isOpen : v.isOpen = true)
    (fresh : v.id ∉ seen) (found : ct.bounds? v.id = some b) (own : b.lower = some (.var v))
    (depth : Nat) : ct.denotableWithin depth seen (.var v) = none := by
  induction depth with
  | zero => rfl
  | succ depth ih =>
    rw [denotableWithin_var isOpen fresh found, own, Option.toList_some, oneByOne_singleton, ih]
    rfl

end ClassTable

namespace Sample

def absent : TyVar := ⟨7, "capture#7", .capture, false⟩

/-- A capture that is bounded by boxes of a wildcard, which has arrays of the capture as its lower
bound and a variable without bounds as its upper bound. -/
def tangle : ClassTable :=
  .ofLists [ClassTable.object, box]
    [(0, ⟨ClassTable.top, none⟩), (1, ⟨.of box [.var filler], none⟩),
      (2, ⟨.var absent, some (.array (.var content) false)⟩)] []

theorem lowerAcyclic_tangle : tangle.LowerAcyclic := by
  refine ClassTable.lowerAcyclic_of_rank UInt32.toNat fun id id' leads => ?_
  obtain ⟨b, lower, found, below, mentioned⟩ := leads
  have ids : tangle.variableIds = [0, 1, 2] := rfl
  have known : id = 0 ∨ id = 1 ∨ id = 2 := by
    have member := ClassTable.mem_variableIds found
    simpa [ids] using member
  rcases known with rfl | rfl | rfl
  · obtain rfl := Option.some.inj found
    cases below
  · obtain rfl := Option.some.inj found
    cases below
  · obtain rfl := Option.some.inj found
    obtain rfl := Option.some.inj below
    obtain rfl : id' = 1 := List.mem_singleton.mp mentioned
    decide

theorem denotable_ends_tangle : tangle.LowerAcyclic ∧
    tangle.denotableWithin 7 [] (.var filler) = some (.error (.unboundVariable absent), []) ∧
    EndsWith (fun depth => tangle.denotableWithin depth [] (.var filler))
      (tangle.denotable (.var filler) []) :=
  ⟨lowerAcyclic_tangle, rfl, ClassTable.denotable_ends lowerAcyclic_tangle (.var filler) []⟩

end Sample

end NullabilityCasts
