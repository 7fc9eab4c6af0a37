/-!
# Recursions cut off at a depth

A recursion without a measure is written with a bound on its depth, and has no answer where the
bound is too small. It ends if it has an answer from some depth on.
-/

set_option autoImplicit false

namespace NullabilityCasts

/-- From some depth on the answer is `a`. -/
def EndsWith {α : Type} (f : Nat → Option α) (a : α) : Prop :=
  ∃ least, ∀ depth, least ≤ depth → f depth = some a

namespace EndsWith

variable {α β : Type} {f f' : Nat → Option α} {a a' : α}

theorem pure (a : α) : EndsWith (fun _ => some a) a := ⟨0, fun _ _ => rfl⟩

theorem unique (ends : EndsWith f a) (ends' : EndsWith f a') : a = a' := by
  obtain ⟨least, enough⟩ := ends
  obtain ⟨least', enough'⟩ := ends'
  have here : f (max least least') = some a := enough _ (Nat.le_max_left least least')
  have here' : f (max least least') = some a' := enough' _ (Nat.le_max_right least least')
  exact Option.some.inj (here.symm.trans here')

/-- One level of the recursion takes one from the depth. -/
theorem succ (ends : EndsWith f' a) (step : ∀ depth, f (depth + 1) = f' depth) : EndsWith f a := by
  obtain ⟨least, enough⟩ := ends
  refine ⟨least + 1, fun depth bound => ?_⟩
  obtain ⟨below, rfl⟩ : ∃ below, depth = below + 1 := ⟨depth - 1, by omega⟩
  rw [step below]
  exact enough below (by omega)

theorem bind {g : Nat → α → Option β} {b : β} (ends : EndsWith f a)
    (next : EndsWith (fun depth => g depth a) b) :
    EndsWith (fun depth => (f depth).bind (g depth)) b := by
  obtain ⟨least, enough⟩ := ends
  obtain ⟨least', enough'⟩ := next
  refine ⟨max least least', fun depth bound => ?_⟩
  have first : f depth = some a := enough depth (Nat.le_trans (Nat.le_max_left _ _) bound)
  change (f depth).bind (g depth) = some b
  rw [first]
  exact enough' depth (Nat.le_trans (Nat.le_max_right _ _) bound)

theorem map (g : α → β) (ends : EndsWith f a) : EndsWith (fun depth => (f depth).map g) (g a) := by
  obtain ⟨least, enough⟩ := ends
  refine ⟨least, fun depth bound => ?_⟩
  change (f depth).map g = some (g a)
  rw [enough depth bound, Option.map_some]

theorem succ_bind {f : Nat → Option β} {first : Nat → Option α} {g : Nat → α → Option β} {b : β}
    (step : ∀ depth, f (depth + 1) = (first depth).bind (g depth)) (ends : EndsWith first a)
    (next : EndsWith (fun depth => g depth a) b) : EndsWith f b :=
  (ends.bind next).succ step

end EndsWith

end NullabilityCasts
