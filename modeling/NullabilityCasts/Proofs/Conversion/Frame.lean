import NullabilityCasts.Proofs.Conversion.Record

/-!
# What a walk leaves behind

A walk changes the slots that it makes calls for, and nothing else. It leaves in them what the calls
leave, and every call is handed what the unit holds there, with what the calls for the slots inside
it have left.
-/

set_option autoImplicit false

namespace NullabilityCasts

variable {σ : Type}

namespace Call

/-- After the calls `before`, a call hands over what stands at the next stop, with the contents that
the calls for the stops inside it have left. -/
def HandsOver (stops : List Stop) (before : List Call) (call : Call) : Prop :=
  ∃ place e earlier inside, stops[before.length]? = some (.slot place e) ∧
    e.stops <:+ stops.take before.length ∧ before = earlier ++ inside ∧
    inside.length = e.stops.length ∧ call.handed = e.filled (inside.map left)

/-- Either all slots that were reached hold what the policy has answered, and only a violation can
have ended the walk, or the last of them holds the placeholder because its call was refused. -/
def Answered (sites : List Site) (calls : List Call) (failure : Option Error) : Prop :=
  ((∀ call ∈ calls, call.reply = .ok call.left) ∧
      failure = (Site.violations sites).head?.map .internal) ∨
    ∃ before call err, calls = before ++ [call] ∧
      (∀ earlier ∈ before, earlier.reply = .ok earlier.left) ∧
      call.reply = .error err ∧ call.left = .placeholder ∧ failure = some err

theorem reply_of_accepted {call : Call} (accepted : ∃ e, call.reply = .ok e) :
    call.reply = .ok call.left := by
  obtain ⟨e, replied⟩ := accepted
  rw [left, replied]

theorem left_of_refused {call : Call} {err : Error} (replied : call.reply = .error err) :
    call.left = .placeholder := by
  rw [left, replied]

theorem Along.answered {sites : List Site} {calls : List Call} {failure : Option Error}
    (along : Along sites calls failure) : Answered sites calls failure := by
  by_cases accepted : ∀ call ∈ calls, ∃ e, call.reply = .ok e
  · exact .inl ⟨fun call made => reply_of_accepted (accepted call made),
      (along.complete accepted).2⟩
  · obtain ⟨call, refused⟩ := Classical.not_forall.mp accepted
    obtain ⟨made, unanswered⟩ := Classical.not_imp.mp refused
    cases replied : call.reply with
    | ok e => exact absurd ⟨e, replied⟩ unanswered
    | error err =>
      obtain ⟨before, after, parts⟩ := List.append_of_mem made
      obtain ⟨rfl, ended⟩ := along.refused before call after err parts replied
      refine .inr ⟨before, call, err, parts, ?_, replied, left_of_refused replied, ended⟩
      intro earlier inside
      cases answer : earlier.reply with
      | ok e => rw [left, answer]
      | error err' =>
        -- A call that is refused is the last one, and this one is not.
        obtain ⟨first, later, rfl⟩ := List.append_of_mem inside
        have split : calls = first ++ earlier :: (later ++ [call]) := by
          rw [parts, List.append_assoc, List.cons_append]
        have last := (along.refused first earlier _ err' split answer).1
        simp at last

theorem handsOver_of_filled {stops : List Stop} {before : List Call} {call : Call} {place : Place}
    {e : Expr} (insideOut : Stop.InsideOut stops)
    (stop : stops[before.length]? = some (.slot place e))
    (handed : call.handed = e.filled (lastContents e.stops.length before)) :
    call.HandsOver stops before := by
  obtain ⟨reached, found⟩ := List.getElem?_eq_some_iff.mp stop
  have split : stops = stops.take before.length
      ++ .slot place e :: stops.drop (before.length + 1) := by
    rw [← found, List.getElem_cons_drop, List.take_append_drop]
  have within := insideOut _ place e _ split
  have enough : e.stops.length ≤ before.length := by
    have shorter := within.length_le
    rwa [List.length_take_of_le (Nat.le_of_lt reached)] at shorter
  refine ⟨place, e, before.take (before.length - e.stops.length),
    before.drop (before.length - e.stops.length), stop, within, ?_, ?_, handed⟩
  · rw [List.take_append_drop]
  · rw [List.length_drop]
    omega

end Call

namespace SourceUnit

variable (p : Policy σ) (u : SourceUnit) (memory : σ)

theorem handsOver_calls {before after : List Call} {call : Call}
    (parts : u.calls p memory = before ++ call :: after) : call.HandsOver u.stops before := by
  rw [calls_eq] at parts
  obtain ⟨place, e, stop, handed⟩ := p.handed_follow [] memory u.stops parts
  exact Call.handsOver_of_filled u.insideOut_stops stop handed

theorem walk_eq_self_of_keeps (keeps : p.Keeps) : (u.walk p (Walk.start memory)).1 = u := by
  rw [walk_eq_follow]
  apply u.filled_of_kept p memory
  intro call made
  obtain ⟨memory', reply⟩ := p.reply_follow made
  rw [reply]
  exact keeps _ _ _ _ _

/-- What a walk leaves of a unit is the unit with its slots filled with what the calls leave. A slot
for which no call was made is filled with nothing. -/
theorem walk_filled :
    (u.walk p (Walk.start memory)).1 = u.filled ((u.calls p memory).map Call.left) ∧
    (∀ before call after, u.calls p memory = before ++ call :: after →
      call.HandsOver u.stops before) ∧
    Call.Answered u.sites (u.calls p memory) (u.walk p (Walk.start memory)).2.failure ∧
    (p.Keeps → (u.walk p (Walk.start memory)).1 = u) ∧
    u.filled [] = u := by
  refine ⟨?_, ?_, ?_, u.walk_eq_self_of_keeps p memory, u.filled_nil⟩
  · rw [calls_eq, walk_eq_follow]
    rfl
  · exact fun before call after parts => u.handsOver_calls p memory parts
  · exact (u.along_calls p memory).answered

end SourceUnit

namespace Sample

theorem calls_choice : ∃ parts whole, parts.length = 3 ∧
    choice.calls wrap 0 = parts ++ [whole] := by
  have called : choice.calls wrap 0 ≠ [] := List.cons_ne_nil _ _
  exact ⟨(choice.calls wrap 0).dropLast, (choice.calls wrap 0).getLast called, rfl,
    (List.dropLast_concat_getLast called).symm⟩

theorem keeps_default : ({} : Policy Unit).Keeps := by
  intro kind inferred actual e memory
  cases kind <;> rfl

end Sample

open Sample in
theorem SourceUnit.walk_filled_choice :
    (∃ parts whole, parts.length = 3 ∧ choice.calls wrap 0 = parts ++ [whole] ∧
      whole.HandsOver choice.stops parts) ∧
    ({} : Policy Unit).Keeps ∧ (choice.walk {} (Walk.start ())).2.failure.isSome ∧
    (choice.walk {} (Walk.start ())).1 = choice := by
  obtain ⟨parts, whole, three, made⟩ := calls_choice
  exact ⟨⟨parts, whole, three, made, (choice.walk_filled wrap 0).2.1 parts whole [] made⟩,
    keeps_default, rfl, (choice.walk_filled {} ()).2.2.2.1 keeps_default⟩

end NullabilityCasts
