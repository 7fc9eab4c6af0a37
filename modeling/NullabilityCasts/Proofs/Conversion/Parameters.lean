import NullabilityCasts.Conversion.Walk

/-!
# Parameters and their arguments

Which parameter an argument is for, told from the declaration of the method alone: the leading
parameters take one argument each, and the last parameter of a variadic method those that remain.
This is what a walk expects of arguments, and all else about its expectations is said here too.
-/

set_option autoImplicit false

namespace NullabilityCasts.MethodSig

def leading (m : MethodSig) : List Ty := if m.isVariadic then m.params.dropLast else m.params

/-- The parameter that takes all remaining arguments. -/
def remaining? (m : MethodSig) : Option Ty := if m.isVariadic then m.params.getLast? else none

/-- A variadic method takes any number of remaining arguments, none included, but it must have a
parameter for them. -/
def Takes (m : MethodSig) (count : Nat) : Prop :=
  if m.isVariadic then m.remaining?.isSome ∧ m.leading.length ≤ count
  else count = m.leading.length

instance (m : MethodSig) (count : Nat) : Decidable (m.Takes count) :=
  inferInstanceAs (Decidable (if m.isVariadic then m.remaining?.isSome ∧ m.leading.length ≤ count
    else count = m.leading.length))

/-- The type that the argument at `position` of `count` arguments is passed as, for an argument of
type `actual`. -/
def parameterFor (m : MethodSig) (count position : Nat) (actual : Ty) : Except Violation Ty :=
  match m.leading[position]? with
  | some ty => .ok ty
  | none =>
    match m.remaining?, actual with
    -- An array is passed through if no other argument remains.
    | some (.array component nullable), .array _ _ =>
      .ok (if count = m.leading.length + 1 then .array component nullable else component)
    | some (.array component _), _ => .ok component
    | some ty, _ => .error (.variadicParameter m.name ty)
    | none, _ => .error (.argumentCount count m.name m.isVariadic m.params.length)

theorem remaining_cases (m : MethodSig) :
    (m.remaining? = none ∧ m.leading = m.params ∧ (m.isVariadic = true → m.params = [])) ∨
      ∃ last, m.remaining? = some last ∧ m.isVariadic = true ∧ m.params = m.leading ++ [last] := by
  unfold leading remaining?
  cases m.isVariadic with
  | false => exact .inl ⟨rfl, rfl, fun variadic => by cases variadic⟩
  | true =>
    rcases List.eq_nil_or_concat m.params with none | ⟨leading, last, params⟩
    · simp [none]
    · exact .inr ⟨last, by simp [params]⟩

theorem takes_iff (m : MethodSig) (count : Nat) : m.Takes count ↔ m.accepts count = true := by
  unfold Takes accepts
  rcases m.remaining_cases with ⟨none, leading, bare⟩ | ⟨last, remaining, variadic, params⟩
  · cases variadic : m.isVariadic with
    | false => simp [leading]
    | true => simp [none, bare variadic]
  · simp [remaining, variadic, params]

theorem parameterFor_eq_expected (m : MethodSig) (count position : Nat) (actual : Ty) :
    m.parameterFor count position actual = m.expected count position actual := by
  unfold parameterFor expected
  rcases m.remaining_cases with ⟨none, leading, bare⟩ | ⟨last, remaining, variadic, params⟩
  · rw [leading, none]
    cases variadic : m.isVariadic with
    | false => cases found : m.params[position]? <;> simp [countViolation, variadic]
    | true => simp [bare variadic, countViolation, variadic]
  · have final : m.params.length - 1 = m.leading.length := by simp [params]
    have total : m.params.length = m.leading.length + 1 := by simp [params]
    have atEnd : m.params[m.leading.length]? = some last := by simp [params]
    simp only [final, variadic, Bool.true_and, decide_eq_true_eq, atEnd, remaining]
    by_cases behind : m.leading.length ≤ position
    · rw [if_pos behind, List.getElem?_eq_none behind]
      cases last with
      | array component nullable =>
        cases actual with
        | array inner n =>
          by_cases alone : count = m.leading.length + 1 <;> simp [total, alone, Ty.isArray]
        | _ => simp [Ty.isArray]
      | _ => rfl
    · have before : position < m.leading.length := Nat.lt_of_not_le behind
      rw [if_neg behind, params, List.getElem?_append_left before]
      simp [before]

theorem expected_congr (m : MethodSig) (count position : Nat) {actual actual' : Ty}
    (same : actual.isArray = actual'.isArray) :
    m.expected count position actual = m.expected count position actual' := by
  unfold expected
  rw [same]

theorem expected_of_variadic {m : MethodSig} (count : Nat) {position : Nat} {component : Ty}
    {nullable : Bool} (variadic : m.isVariadic = true) (last : m.params.length - 1 ≤ position)
    (parameter : m.params[m.params.length - 1]? = some (.array component nullable)) (actual : Ty) :
    m.expected count position actual =
      if count = m.params.length && actual.isArray then .ok (.array component nullable)
      else .ok component := by
  simp only [expected, variadic, last, parameter, decide_true, Bool.and_self, ↓reduceIte]

/-- Where the type expected of an argument hangs on the argument, the argument is the last one of a
variadic method and may stand for the whole array. -/
theorem variadic_of_expected_ne {m : MethodSig} {count position : Nat} {actual actual' : Ty}
    (differs : m.expected count position actual ≠ m.expected count position actual') :
    count = m.params.length ∧ m.isVariadic = true ∧ m.params.length - 1 ≤ position ∧
      ∃ component nullable, m.params[m.params.length - 1]? = some (.array component nullable) := by
  unfold expected at differs
  by_cases inTail : (m.isVariadic && decide (m.params.length - 1 ≤ position)) = true
  · have bounds : m.isVariadic = true ∧ m.params.length - 1 ≤ position := by simpa using inTail
    simp only [inTail, ↓reduceIte] at differs
    cases parameter : m.params[m.params.length - 1]? with
    | none => simp [parameter] at differs
    | some ty =>
      cases ty with
      | array component nullable =>
        by_cases all : count = m.params.length
        · exact ⟨all, bounds.1, bounds.2, component, nullable, rfl⟩
        · simp [parameter, all] at differs
      | _ => simp [parameter] at differs
  · simp only [inTail, Bool.false_eq_true, ↓reduceIte, ne_eq, not_true_eq_false] at differs

/-- The parameter that the argument at `position` is for. -/
def paramIndex (m : MethodSig) (position : Nat) : Nat :=
  let last := m.params.length - 1
  if m.isVariadic && last ≤ position then last else position

theorem expected_eq_countViolation_iff (m : MethodSig) (count position : Nat) (actual : Ty) :
    m.expected count position actual = .error (m.countViolation count)
      ↔ m.params.length ≤ m.paramIndex position := by
  unfold expected paramIndex
  by_cases last : m.isVariadic && decide (m.params.length - 1 ≤ position)
  · simp only [last, if_true]
    cases found : m.params[m.params.length - 1]? with
    | none => exact iff_of_true rfl (List.getElem?_eq_none_iff.mp found)
    | some ty =>
      obtain ⟨inside, _⟩ := List.getElem?_eq_some_iff.mp found
      have answered : ¬ m.params.length ≤ m.params.length - 1 := by omega
      cases ty with
      | array component nullable =>
        dsimp only
        split
        · exact iff_of_false (fun same => by cases same) answered
        · exact iff_of_false (fun same => by cases same) answered
      | _ => exact iff_of_false (fun same => by cases Except.error.inj same) answered
  · simp only [last]
    cases found : m.params[position]? with
    | none => exact iff_of_true rfl (List.getElem?_eq_none_iff.mp found)
    | some ty =>
      obtain ⟨inside, _⟩ := List.getElem?_eq_some_iff.mp found
      exact iff_of_false (fun same => by cases same) (Nat.not_le.mpr inside)

theorem paramIndex_lt {m : MethodSig} {count position : Nat} (accepted : m.accepts count = true)
    (inside : position < count) : m.paramIndex position < m.params.length := by
  unfold accepts at accepted
  unfold paramIndex
  cases variadic : m.isVariadic with
  | false =>
    simp only [variadic, Bool.false_eq_true, if_false, beq_iff_eq] at accepted
    simp only [Bool.false_and, Bool.false_eq_true, if_false]
    omega
  | true =>
    simp only [variadic, if_true, Bool.and_eq_true, decide_eq_true_eq] at accepted
    simp only [Bool.true_and, decide_eq_true_eq]
    split
    · omega
    · omega

end NullabilityCasts.MethodSig
