import NullabilityCasts.ClassTable.Mismatch
import NullabilityCasts.ClassTable.Projection

/-!
# Types that agree in their arguments

A type agrees with itself and with its nullable form in all its arguments, and an open variable has
no arguments to disagree in. So a value never needs a cast to its own type; and from an open
variable it needs one only where the outermost nullability asks for it.
-/

set_option autoImplicit false

namespace NullabilityCasts

namespace Ty

theorem outerDisagrees_self (t : Ty) : t.outerDisagrees t = false := by
  simp [outerDisagrees]

mutual

theorem isNullable_toNullable (t : Ty) (nullable : t.isNullable = true) :
    t.toNullable.isNullable = true := by
  cases t with
  | prim p => cases nullable
  | declared d n args => rfl
  | array component n => rfl
  | var v => rfl
  | union members => exact anyNullable_withNullabilities members nullable
  | inter members => exact allNullable_withNullabilities members nullable

theorem anyNullable_withNullabilities (ts : List Ty) (nullable : anyNullable ts = true) :
    anyNullable (withNullabilities true ts) = true := by
  cases ts with
  | nil => cases nullable
  | cons t rest =>
    rw [anyNullable, Bool.or_eq_true] at nullable
    rw [withNullabilities, anyNullable, Bool.or_eq_true]
    exact nullable.imp (isNullable_toNullable t) (anyNullable_withNullabilities rest)

theorem allNullable_withNullabilities (ts : List Ty) (nullable : allNullable ts = true) :
    allNullable (withNullabilities true ts) = true := by
  cases ts with
  | nil => rfl
  | cons t rest =>
    rw [allNullable, Bool.and_eq_true] at nullable
    rw [withNullabilities, allNullable, Bool.and_eq_true]
    exact nullable.imp (isNullable_toNullable t) (allNullable_withNullabilities rest)

end

theorem isOpen_toNullable (t : Ty) : t.toNullable.isOpen = t.isOpen := by
  cases t <;> rfl

end Ty

namespace ClassTable

variable (ct : ClassTable) (strictness : Strictness)

theorem zipArguments_of_length {s t : Ty} (lengths : s.arguments.length = t.arguments.length) :
    s.zipArguments t = .ok (s.arguments.zip t.arguments) := by
  unfold Ty.zipArguments
  dsimp only
  split
  · rename_i none
    rcases Bool.or_eq_true _ _ |>.mp none with first | second
    · rw [List.isEmpty_iff.mp first, List.zip_nil_left]
    · rw [List.isEmpty_iff.mp second, List.zip_nil_right]
  · rfl

theorem argumentsDisagree_declared {d d' : Decl} (ids : d.id = d'.id) {args args' : List Ty}
    (lengths : args.length = args'.length) (nullable nullable' : Bool) :
    ct.argumentsDisagree strictness (.declared d nullable args) (.declared d' nullable' args')
      = ct.anyDisagree strictness args args' := by
  have pairs : ct.correspondingArguments (.declared d nullable args) (.declared d' nullable' args')
      = .ok (args.zip args') := by
    simp only [correspondingArguments, ids, beq_self_eq_true, ↓reduceIte]
    exact zipArguments_of_length lengths
  rw [argumentsDisagree, pairs]
  change ct.anyDisagree strictness ((args.zip args').map (·.1)) args' = _
  rw [List.map_fst_zip (Nat.le_of_eq lengths)]

theorem argumentsDisagree_array (component component' : Ty) (nullable nullable' : Bool) :
    ct.argumentsDisagree strictness (.array component nullable) (.array component' nullable')
      = if component.outerDisagrees component' then pure true
        else ct.argumentsDisagree strictness component component' := by
  have pairs : ct.correspondingArguments (.array component nullable) (.array component' nullable')
      = .ok [(component, component')] := rfl
  rw [argumentsDisagree, pairs]
  rfl

mutual

theorem argumentsDisagree_self (t : Ty) : ct.argumentsDisagree strictness t t = pure false := by
  cases t with
  | declared d nullable args =>
    rw [argumentsDisagree_declared ct strictness rfl rfl]
    exact anyDisagree_self args
  | array component nullable =>
    rw [argumentsDisagree_array, Ty.outerDisagrees_self]
    exact argumentsDisagree_self component
  | _ => rfl

theorem anyDisagree_self (ts : List Ty) : ct.anyDisagree strictness ts ts = pure false := by
  cases ts with
  | nil => rfl
  | cons t rest =>
    rw [anyDisagree, Ty.outerDisagrees_self, argumentsDisagree_self t]
    exact anyDisagree_self rest

end

theorem argumentsDisagree_toNullable (t : Ty) :
    ct.argumentsDisagree strictness t t.toNullable = pure false := by
  cases t with
  | declared d nullable args =>
    exact (argumentsDisagree_declared ct strictness rfl rfl nullable true).trans
      (anyDisagree_self ct strictness args)
  | array component nullable =>
    change ct.argumentsDisagree strictness (.array component nullable) (.array component true) = _
    rw [argumentsDisagree_array, Ty.outerDisagrees_self]
    exact argumentsDisagree_self ct strictness component
  | _ => rfl

theorem argumentsDisagree_var (v : TyVar) (target : Ty) :
    ct.argumentsDisagree strictness (.var v) target = pure false := by
  cases target with
  | declared d nullable args =>
    rw [argumentsDisagree]
    change ct.anyDisagree strictness [] args = _
    cases args <;> rfl
  | _ => rfl

variable {ct strictness}

theorem castNeeded_of_denotable {source target : Ty} {d : Bool}
    (denotable : ct.isDenotable target = .ok d) (gaps : List ArityGap) :
    (ct.castNeeded strictness source target).run gaps =
      if d then
        if source.isNullable && !target.isNullable then .ok (true, gaps)
        else (ct.argumentsDisagree strictness source target).run gaps
      else .ok (false, gaps) := by
  rw [castNeeded, denotable]
  cases d with
  | false => rfl
  | true => cases source.isNullable && !target.isNullable <;> rfl

theorem castNeeded_of_violation {source target : Ty} {v : Violation}
    (undecided : ct.isDenotable target = .error v) (gaps : List ArityGap) :
    (ct.castNeeded strictness source target).run gaps = .error v := by
  rw [castNeeded, undecided]
  rfl

/-- A comparison that has an answer has settled that the target is denotable, or that it is not. -/
theorem isDenotable_of_castNeeded {source target : Ty} {gaps : List ArityGap}
    {answer : Bool × List ArityGap}
    (answered : (ct.castNeeded strictness source target).run gaps = .ok answer) :
    ∃ d, ct.isDenotable target = .ok d := by
  cases denotable : ct.isDenotable target with
  | ok d => exact ⟨d, rfl⟩
  | error v =>
    rw [castNeeded_of_violation denotable gaps] at answered
    cases answered

theorem isDenotable_of_castNeeded_true {source target : Ty} {gaps gaps' : List ArityGap}
    (needed : (ct.castNeeded strictness source target).run gaps = .ok (true, gaps')) :
    ct.isDenotable target = .ok true := by
  obtain ⟨d, denotable⟩ := isDenotable_of_castNeeded needed
  cases d with
  | true => exact denotable
  | false =>
    rw [castNeeded_of_denotable denotable gaps] at needed
    cases needed

theorem castNeeded_self {t : Ty} {d : Bool} (denotable : ct.isDenotable t = .ok d)
    (gaps : List ArityGap) : (ct.castNeeded strictness t t).run gaps = .ok (false, gaps) := by
  rw [castNeeded_of_denotable denotable, argumentsDisagree_self, Bool.and_not_self]
  cases d <;> rfl

theorem castNeeded_toNullable {t : Ty} {d : Bool} (denotable : ct.isDenotable t.toNullable = .ok d)
    (gaps : List ArityGap) :
    (ct.castNeeded strictness t t.toNullable).run gaps = .ok (false, gaps) := by
  have widens : (t.isNullable && !t.toNullable.isNullable) = false := by
    cases nullable : t.isNullable with
    | false => rfl
    | true => simp [Ty.isNullable_toNullable t nullable]
  rw [castNeeded_of_denotable denotable, argumentsDisagree_toNullable, widens]
  cases d <;> rfl

theorem castNeeded_of_isOpen {source target : Ty} {d : Bool} (isOpen : source.isOpen = true)
    (denotable : ct.isDenotable target = .ok d) (gaps : List ArityGap) :
    (ct.castNeeded strictness source target).run gaps
      = .ok (d && (source.isNullable && !target.isNullable), gaps) := by
  rw [castNeeded_of_denotable denotable]
  cases source with
  | var v =>
    rw [argumentsDisagree_var]
    cases d <;> cases (Ty.var v).isNullable && !target.isNullable <;> rfl
  | _ => cases isOpen

theorem project_of_not_isOpen {t : Ty} (closed : t.isOpen = false) : ct.project t = .ok t := by
  cases t with
  | var v =>
    change v.isOpen = false at closed
    rw [project, projectFrom, closed]
    rfl
  | _ => rw [project, projectFrom]; exact fun v => Ty.noConfusion

/-- Where there is a projection, the nullability of the variable has no part in it. -/
theorem project_toNullable_iff {t target : Ty} (isOpen : t.isOpen = true) :
    ct.project t.toNullable = .ok target ↔ ct.project t = .ok target := by
  cases t with
  | var v =>
    change ct.projectFrom [] (.var { v with nullable := true }) = _ ↔ ct.projectFrom [] (.var v) = _
    have again : ({ v with nullable := true } : TyVar).isOpen = true := isOpen
    have now : v.isOpen = true := isOpen
    -- After the first step both go on from one and the same bound.
    rw [projectFrom, projectFrom]
    simp only [again, now, Bool.not_true, Bool.false_eq_true, ↓reduceIte, List.not_mem_nil]
    cases found : ct.bounds? v.id with
    | none => simp
    | some b => rfl
  | _ => cases isOpen

end ClassTable

end NullabilityCasts
