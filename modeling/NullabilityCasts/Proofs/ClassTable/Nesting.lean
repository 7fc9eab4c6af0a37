import NullabilityCasts.Proofs.ClassTable.Climb
import NullabilityCasts.Proofs.ClassTable.Correspondence

/-!
# The depth of a comparison

The comparison of two types goes into the arguments of the target, and into those of what the
source is lifted to. Lifting may make the source larger with each level, without end where a
supertype nests its own declaration; but the target gets smaller, and so the comparison goes no
deeper than the target is nested.
-/

set_option autoImplicit false

namespace NullabilityCasts

namespace Ty

mutual

/-- How many types that are compared are nested in each other, where the outermost one counts. The
members of a union or of an intersection are not compared. -/
def levels : Ty → Nat
  | .declared _ _ args => argumentLevels args + 1
  | .array component _ => levels component + 1
  | .prim _ | .var _ | .union _ | .inter _ => 1

def argumentLevels : List Ty → Nat
  | [] => 0
  | t :: rest => max (levels t) (argumentLevels rest)

end

theorem levels_le_argumentLevels {t : Ty} {ts : List Ty} (member : t ∈ ts) :
    t.levels ≤ argumentLevels ts := by
  induction ts with
  | nil => cases member
  | cons first rest ih =>
    rcases List.mem_cons.mp member with rfl | later
    · exact Nat.le_max_left _ _
    · exact Nat.le_trans (ih later) (Nat.le_max_right _ _)

theorem levels_pos (t : Ty) : 0 < t.levels := by
  cases t with
  | declared d nullable args => exact Nat.succ_pos _
  | array component nullable => exact Nat.succ_pos _
  | _ => exact Nat.one_pos

theorem levels_lt_of_mem_arguments {part t : Ty} (member : part ∈ t.arguments) :
    part.levels < t.levels := by
  cases t with
  | declared d nullable args => exact Nat.lt_succ_of_le (levels_le_argumentLevels member)
  | array component nullable =>
    obtain rfl := List.mem_singleton.mp member
    exact Nat.lt_succ_self _
  | _ => cases member

end Ty

/-- Whether one of the pairs compares as true. Those after it are not compared. -/
def anyPair {m : Type → Type} [Monad m] (compare : Ty → Ty → m Bool) : List (Ty × Ty) → m Bool
  | [] => pure false
  | (source, target) :: rest => do
    if ← compare source target then pure true else anyPair compare rest

theorem anyPair_congr {m : Type → Type} [Monad m] {compare compare' : Ty → Ty → m Bool}
    {pairs : List (Ty × Ty)}
    (agree : ∀ pair ∈ pairs, compare pair.1 pair.2 = compare' pair.1 pair.2) :
    anyPair compare pairs = anyPair compare' pairs := by
  induction pairs with
  | nil => rfl
  | cons pair rest ih =>
    obtain ⟨here, later⟩ := List.forall_mem_cons.mp agree
    rw [anyPair, anyPair, here, ih later]

theorem anyPair_singleton {m : Type → Type} [Monad m] [LawfulMonad m] (compare : Ty → Ty → m Bool)
    (source target : Ty) : anyPair compare [(source, target)] = compare source target := by
  have last : (fun disagrees => if disagrees = true then pure true else anyPair compare [])
      = (pure : Bool → m Bool) := by
    funext disagrees
    cases disagrees <;> rfl
  rw [anyPair, last, bind_pure]

/-- A comparison that has no answer where its recursion is cut off. -/
abbrev CutOff (α : Type) := StateT (List ArityGap) (ExceptT Violation Option) α

namespace CutOff

variable {α β : Type}

def unanswered : CutOff α := fun _ => ExceptT.mk none

def ofOption : Option α → CutOff α
  | some a => pure a
  | none => unanswered

def entire (c : Compared α) : CutOff α := fun gaps => ExceptT.mk (some (c.run gaps))

theorem entire_bind (c : Compared α) (next : α → Compared β) :
    entire (c >>= next) = entire c >>= fun a => entire (next a) := by
  funext gaps
  change ExceptT.mk (some ((c >>= next).run gaps)) = _
  rw [StateT.run_bind]
  change _ = entire c gaps >>= fun result => entire (next result.1) result.2
  cases answered : c.run gaps with
  | ok result =>
    have here : entire c gaps = pure result := congrArg (ExceptT.mk ∘ some) answered
    rw [here]
    rfl
  | error violation =>
    have here : entire c gaps = throw violation := congrArg (ExceptT.mk ∘ some) answered
    rw [here]
    rfl

theorem entire_anyPair (compare : Ty → Ty → Compared Bool) (pairs : List (Ty × Ty)) :
    entire (anyPair compare pairs) = anyPair (fun s t => entire (compare s t)) pairs := by
  induction pairs with
  | nil => rfl
  | cons pair rest ih =>
    rw [anyPair, anyPair, entire_bind, ← ih]
    congr 1
    funext disagrees
    cases disagrees <;> rfl

end CutOff

namespace ClassTable

variable {ct : ClassTable} {strictness : Strictness}

/-- A gap leaves no pairs to go on with, if it is passed over. -/
theorem pairs_bind_congr {α : Type} {found : Except ArityGap (List (Ty × Ty))}
    {next next' : List (Ty × Ty) → Compared α} (without : next [] = next' [])
    (agree : ∀ pairs, found = .ok pairs → next pairs = next' pairs) :
    strictness.pairs found >>= next = strictness.pairs found >>= next' := by
  cases found with
  | ok pairs => exact agree pairs rfl
  | error gap =>
    cases strictness with
    | strict => rfl
    | lossy =>
      change (modify _ >>= fun _ => next []) = modify _ >>= fun _ => next' []
      rw [without]

theorem anyDisagree_eq_anyPair {sources targets : List Ty}
    (lengths : sources.length = targets.length) :
    ct.anyDisagree strictness sources targets
      = anyPair (ct.argumentDisagrees strictness) (sources.zip targets) := by
  induction sources generalizing targets with
  | nil =>
    obtain rfl := List.length_eq_zero_iff.mp lengths.symm
    rfl
  | cons source sources ih =>
    cases targets with
    | nil => cases lengths
    | cons target targets =>
      have rest := ih (Nat.succ.inj lengths)
      rw [anyDisagree, List.zip_cons_cons, anyPair, argumentDisagrees, ← rest]
      cases source.outerDisagrees target <;> rfl

theorem argumentsDisagree_eq_anyPair (source target : Ty) :
    ct.argumentsDisagree strictness source target
      = strictness.pairs (ct.correspondingArguments source target) >>=
          anyPair (ct.argumentDisagrees strictness) := by
  cases target with
  | declared d nullable args =>
    rw [argumentsDisagree]
    refine pairs_bind_congr ?_ fun pairs found => ?_
    · cases args <;> rfl
    rcases correspondingArguments_ok_cases found with rfl | ⟨seen, _, lengths, rfl⟩
    · cases args <;> rfl
    · rw [List.map_fst_zip (Nat.le_of_eq lengths)]
      exact anyDisagree_eq_anyPair lengths
  | array component nullable =>
    rw [argumentsDisagree]
    refine pairs_bind_congr rfl fun pairs found => ?_
    rcases correspondingArguments_ok_cases found with rfl | ⟨seen, _, lengths, rfl⟩
    · rfl
    · obtain ⟨part, only⟩ := List.length_eq_one_iff.mp lengths
      rw [only, Ty.arguments, List.zip_cons_cons, List.zip_nil_left, anyPair_singleton]
      rfl
  | _ => cases source <;> rfl

/-- Only arguments of the second type itself are compared with. -/
theorem mem_arguments_of_corresponding {source target : Ty} {pairs : List (Ty × Ty)}
    {pair : Ty × Ty} (found : ct.correspondingArguments source target = .ok pairs)
    (member : pair ∈ pairs) : pair.2 ∈ target.arguments := by
  rcases correspondingArguments_ok_cases found with rfl | ⟨seen, _, _, rfl⟩
  · cases member
  · exact (List.of_mem_zip member).2

/-- The corresponding parts of two types, where the climb from the first to the declaration of the
second may be cut off. -/
def correspondingWithin (ct : ClassTable) (steps : Nat) (source target : Ty) :
    Option (Except ArityGap (List (Ty × Ty))) :=
  match source, target with
  | .array _ _, .array _ _ => some (source.zipArguments target)
  | .declared d _ args, .declared d' _ _ =>
    if d.id == d'.id then some (source.zipArguments target)
    else if !args.isEmpty && args.length != d.arity then
      some (.error ⟨source, target, args.length, d.arity⟩)
    else
      (ct.climb d' steps [] source).map fun
        | (some lifted, _) => lifted.zipArguments target
        | (none, _) => .ok []
  | _, _ => some (.ok [])

def outerFirst (inside : Ty → Ty → CutOff Bool) (source target : Ty) : CutOff Bool :=
  if source.outerDisagrees target then pure true else inside source target

/-- The comparison of the arguments as a plain recursion, cut off where more than `depth` of these
comparisons would be inside of each other. -/
def argumentsDisagreeWithin (ct : ClassTable) (strictness : Strictness) (steps : Nat) :
    Nat → Ty → Ty → CutOff Bool
  | 0, _, _ => .unanswered
  | depth + 1, source, target => do
    let found ← CutOff.ofOption (ct.correspondingWithin steps source target)
    let pairs ← CutOff.entire (strictness.pairs found)
    anyPair (outerFirst (ct.argumentsDisagreeWithin strictness steps depth)) pairs

def argumentDisagreesWithin (ct : ClassTable) (strictness : Strictness) (steps depth : Nat) :
    Ty → Ty → CutOff Bool :=
  outerFirst (ct.argumentsDisagreeWithin strictness steps depth)

theorem outerFirst_of_entire {inside : Ty → Ty → CutOff Bool} {source target : Ty}
    (whole : inside source target = CutOff.entire (ct.argumentsDisagree strictness source target)) :
    outerFirst inside source target
      = CutOff.entire (ct.argumentDisagrees strictness source target) := by
  rw [outerFirst, argumentDisagrees, whole]
  split <;> rfl

section Ends

variable {steps : Nat} (room : ct.subtypeIds.length < steps)

include room

theorem correspondingWithin_eq (source target : Ty) :
    ct.correspondingWithin steps source target
      = some (ct.correspondingArguments source target) := by
  unfold correspondingWithin
  split
  · rfl
  · rename_i d nullable args d' nullable' args'
    rw [correspondingArguments]
    by_cases same : (d.id == d'.id) = true
    · rw [if_pos same, if_pos same]
    by_cases misshapen : (!args.isEmpty && args.length != d.arity) = true
    · rw [if_neg same, if_pos misshapen, if_neg same, if_pos misshapen]
    obtain ⟨⟨found, entered⟩, climbed, lifted⟩ :=
      Option.map_eq_some_iff.mp (climb_eq_lift? room (.declared d nullable args) d')
    rw [if_neg same, if_neg misshapen, if_neg same, if_neg misshapen, climbed, ← lifted]
    cases found <;> rfl
  · rename_i others others'
    rw [correspondingArguments]
    · exact others
    · exact others'

theorem argumentsDisagreeWithin_eq {depth : Nat} {source target : Ty}
    (deep : target.levels ≤ depth) :
    ct.argumentsDisagreeWithin strictness steps depth source target
      = CutOff.entire (ct.argumentsDisagree strictness source target) := by
  induction depth generalizing source target with
  | zero => exact absurd target.levels_pos (Nat.not_lt.mpr deep)
  | succ depth ih =>
    rw [argumentsDisagreeWithin, correspondingWithin_eq room, argumentsDisagree_eq_anyPair,
      CutOff.entire_bind]
    cases found : ct.correspondingArguments source target with
    | error gap => cases strictness <;> rfl
    | ok pairs =>
      change anyPair _ pairs = CutOff.entire (anyPair (ct.argumentDisagrees strictness) pairs)
      rw [CutOff.entire_anyPair]
      refine anyPair_congr fun pair member => ?_
      have smaller : pair.2.levels < target.levels :=
        Ty.levels_lt_of_mem_arguments (mem_arguments_of_corresponding found member)
      exact outerFirst_of_entire (ih (by omega))

/-- The comparison ends, strict or lossy. It is not cut off where as many comparisons as the target
has levels may be inside of each other, and a climb may be deeper than there are recorded
supertypes. How large the source becomes on the way does not count. -/
theorem comparison_ends_within_levels {depth : Nat} {source target : Ty}
    (deep : target.levels ≤ depth) (gaps : List ArityGap) :
    ((ct.argumentsDisagreeWithin strictness steps depth source target).run gaps).run
        = some ((ct.argumentsDisagree strictness source target).run gaps) ∧
      ((ct.argumentDisagreesWithin strictness steps depth source target).run gaps).run
        = some ((ct.argumentDisagrees strictness source target).run gaps) := by
  have inside : ct.argumentsDisagreeWithin strictness steps depth source target
      = CutOff.entire (ct.argumentsDisagree strictness source target) :=
    argumentsDisagreeWithin_eq room deep
  rw [argumentDisagreesWithin, outerFirst_of_entire inside, inside]
  exact ⟨rfl, rfl⟩

end Ends

end ClassTable

namespace Sample

def growing : TyVar := ⟨0, "E", .parameter, false⟩

def growDecl : Decl := ⟨1, "Grow", false, [growing]⟩

def cell : TyVar := ⟨1, "F", .parameter, false⟩

def cellDecl : Decl := ⟨2, "Cell", false, [cell]⟩

def grow (t : Ty) : Ty := .of growDecl [t]

def cellOf (t : Ty) : Ty := .of cellDecl [t]

/-- Two classes that extend each other, the first one nested in itself twice. -/
def expansive : ClassTable :=
  .ofLists [ClassTable.object, growDecl, cellDecl]
    [(0, ⟨ClassTable.top, none⟩), (1, ⟨ClassTable.top, none⟩)]
    [(1, [cellOf (grow (grow (.var growing)))]), (2, [grow (.var cell)])]

/-- What is left to compare has a smaller target and a larger source. -/
theorem correspondingArguments_expansive (t u : Ty) :
    expansive.correspondingArguments (grow t) (cellOf u) = .ok [(grow (grow t), u)] := by
  have room : expansive.subtypeIds.length < 3 := by decide
  have within : expansive.correspondingWithin 3 (grow t) (cellOf u)
      = some (.ok [(grow (grow t), u)]) := rfl
  have whole := ClassTable.correspondingWithin_eq room (grow t) (cellOf u)
  exact Option.some.inj (whole.symm.trans within)

def plain : Ty := .of ClassTable.object []

def tower : Ty := cellOf (cellOf (cellOf plain))

theorem comparison_ends_within_levels_expansive :
    expansive.subtypeIds.length < 3 ∧ tower.levels ≤ 4 ∧
    expansive.correspondingArguments (grow plain) tower
      = .ok [(grow (grow plain), cellOf (cellOf plain))] ∧
    ((expansive.argumentsDisagreeWithin .strict 3 3 (grow plain) tower).run []).run = none ∧
    ((expansive.argumentsDisagreeWithin .strict 3 4 (grow plain) tower).run []).run
      = some (.ok (false, [])) ∧
    (expansive.argumentsDisagree .strict (grow plain) tower).run [] = .ok (false, []) := by
  have room : expansive.subtypeIds.length < 3 := by decide
  have deep : tower.levels ≤ 4 := by decide
  have answered : ((expansive.argumentsDisagreeWithin .strict 3 4 (grow plain) tower).run []).run
      = some (.ok (false, [])) := rfl
  have ends := (ClassTable.comparison_ends_within_levels room deep []).1.symm.trans answered
  exact ⟨room, deep, correspondingArguments_expansive plain _, rfl, answered, Option.some.inj ends⟩

end Sample

end NullabilityCasts
