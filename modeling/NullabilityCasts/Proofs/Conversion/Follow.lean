import NullabilityCasts.Proofs.Conversion.Failed
import NullabilityCasts.Proofs.Conversion.Calls

/-!
# Walks follow the stops

A walk hands the stops of what it visits to its policy, one by one, and leaves behind what it visits
with the contents that the calls have left. The main statement is `SourceUnit.walk_from`; the others
are one for each kind of node.
-/

set_option autoImplicit false

namespace NullabilityCasts

variable {σ : Type}

namespace Step

/-- What a step that starts without a failure, inside a body with the given result type, has to do
with the calls for its stops. -/
structure Told {α : Type} (p : Policy σ) (step : Step σ α) (stops : List Stop) (fill : Filling α)
    (earlier : List Call) (w : Walk σ) : Prop where
  state : (step w).2 = ⟨(p.follow earlier w.memory stops).memory, w.results,
    (p.follow earlier w.memory stops).failure⟩
  /-- The contents left by the calls are used up, and no others unless the step fails. -/
  value : ∀ later, (p.follow earlier w.memory stops).failure = none ∨ later = [] →
    fill ((p.follow earlier w.memory stops).contents ++ later) = ((step w).1, later)
  kept : (∀ call ∈ (p.follow earlier w.memory stops).calls, call.reply = .ok call.handed) →
    (step w).1 = (fill []).1

structure Follows {α : Type} (p : Policy σ) (result : Option Ty) (step : Step σ α)
    (stops : List Stop) (fill : Filling α) : Prop where
  inert : Inert step (fill []).1
  spent : (fill []).2 = []
  told : ∀ (w : Walk σ) (earlier : List Call), w.failure = none → w.results.head?.join = result →
    Told p step stops fill earlier w

section Follows

variable {p : Policy σ} {result : Option Ty}

theorem Told.returned {α : Type} {step : Step σ α} {stops : List Stop} {fill : Filling α}
    {earlier : List Call} {w : Walk σ} (told : Told p step stops fill earlier w) :
    fill (p.follow earlier w.memory stops).contents = ((step w).1, []) := by
  have all := told.value [] (.inr rfl)
  rwa [List.append_nil] at all

theorem follows_pure {α : Type} (a : α) : Follows p result (pure a : Step σ α) [] (pure a) where
  inert := inert_pure a
  spent := rfl
  told w earlier started _ := by
    refine ⟨?_, fun later _ => rfl, fun _ => rfl⟩
    change w = ⟨w.memory, w.results, none⟩
    rw [← started]

section Bind

variable {α β : Type} {step : Step σ α} {next : α → Step σ β} {stops stops' : List Stop}
  {fill : Filling α} {fill' : α → Filling β} {earlier : List Call} {w : Walk σ}

theorem bind_nil (spent : (fill []).2 = []) : (fill >>= fill') [] = fill' (fill []).1 [] := by
  change fill' (fill []).1 (fill []).2 = _
  rw [spent]

theorem Told.bind_of_failure {e : Error} (first : Told p step stops fill earlier w)
    (spent : (fill []).2 = []) (ended : (p.follow earlier w.memory stops).failure = some e)
    (inert : Inert (next (step w).1) (fill' (step w).1 []).1)
    (spent' : (fill' (step w).1 []).2 = []) :
    Told p (step >>= next) (stops ++ stops') (fill >>= fill') earlier w := by
  have split := p.follow_append earlier w.memory stops stops'
  rw [Account.andThen_of_failure ended] at split
  have failed : (step w).2.failure.isSome := by
    rw [first.state, ended]
    rfl
  have stays : (step >>= next) w = ((fill' (step w).1 []).1, (step w).2) :=
    inert (step w).2 failed
  refine ⟨?_, ?_, ?_⟩
  · rw [stays, split]
    exact first.state
  · intro contents last
    rw [split] at last ⊢
    rcases last with succeeds | rfl
    · rw [ended] at succeeds
      cases succeeds
    · rw [stays, List.append_nil]
      change fill' (fill _).1 (fill _).2 = _
      rw [first.returned]
      exact Prod.ext rfl spent'
  · intro kept
    rw [split] at kept
    rw [stays, bind_nil spent, first.kept kept]

theorem Told.bind_of_success (first : Told p step stops fill earlier w)
    (spent : (fill []).2 = []) (ended : (p.follow earlier w.memory stops).failure = none)
    (later : Told p (next (step w).1) stops' (fill' (step w).1)
      (earlier ++ (p.follow earlier w.memory stops).calls)
      ⟨(p.follow earlier w.memory stops).memory, w.results, none⟩) :
    Told p (step >>= next) (stops ++ stops') (fill >>= fill') earlier w := by
  have split := p.follow_append earlier w.memory stops stops'
  rw [Account.andThen_of_success ended] at split
  have walked : (step >>= next) w = next (step w).1 (step w).2 := rfl
  rw [first.state, ended] at walked
  refine ⟨?_, ?_, ?_⟩
  · rw [walked, split]
    exact later.state
  · intro contents last
    rw [split] at last ⊢
    rw [walked, Account.contents_after, List.append_assoc]
    change fill' (fill (Account.contents _ ++ _)).1 (fill (Account.contents _ ++ _)).2 = _
    rw [first.value _ (.inl ended)]
    exact later.value contents last
  · intro kept
    rw [split] at kept
    rw [walked, bind_nil spent,
      ← first.kept fun call made => kept call (List.mem_append_left _ made)]
    exact later.kept fun call made => kept call (List.mem_append_right _ made)

theorem Follows.bind (first : Follows p result step stops fill)
    (later : ∀ contents, Follows p result (next (fill contents).1) stops'
      (fill' (fill contents).1)) :
    Follows p result (step >>= next) (stops ++ stops') (fill >>= fill') where
  inert := by
    rw [bind_nil first.spent]
    exact first.inert.bind (later []).inert
  spent := by
    rw [bind_nil first.spent]
    exact (later []).spent
  told w earlier started inside := by
    have before := first.told w earlier started inside
    have rest := later (p.follow earlier w.memory stops).contents
    rw [before.returned] at rest
    cases ended : (p.follow earlier w.memory stops).failure with
    | some e => exact before.bind_of_failure first.spent ended rest.inert rest.spent
    | none => exact before.bind_of_success first.spent ended (rest.told _ _ rfl inside)

end Bind

theorem settle_of_makes {place : Place} {e : Expr} {earlier : List Call} {call : Call} {w : Walk σ}
    {memory : σ} (started : w.failure = none)
    (makes : p.Makes earlier w.memory place e call memory) :
    settle p place.kind call.conversion.inferred call.handed w = (call.left, ⟨memory, w.results,
      match call.reply with
      | .ok _ => none
      | .error err => some err⟩) := by
  have typed : call.handed.ty = e.ty := makes.handed ▸ e.ty_filled _
  unfold settle Call.left
  rw [started, typed, makes.answer]
  cases call.reply <;> rfl

/-- The step hands an expression to the policy as the contents of a slot at `place`. -/
structure Settles (p : Policy σ) (result : Option Ty) (settled : Expr → Step σ Expr) (place : Place)
    (actual : Ty) : Prop where
  inert : ∀ e, Inert (settled e) e
  settles : ∀ (e : Expr) (w : Walk σ), e.ty = actual → w.failure = none →
    w.results.head?.join = result → settled e w =
      match place.expects actual with
      | .ok inferred => settle p place.kind inferred e w
      | .error v => (e, { w with failure := some (.internal v) })

theorem Settles.told {settled : Expr → Step σ Expr} {place : Place} {e handed : Expr}
    {earlier : List Call} {w : Walk σ} (settles : Settles p result settled place e.ty)
    (started : w.failure = none) (inside : w.results.head?.join = result)
    (filled : e.filled (Call.lastContents e.stops.length earlier) = handed) :
    Told p (settled handed) [.slot place e] (Filling.next handed) earlier w := by
  have typed : handed.ty = e.ty := filled ▸ e.ty_filled _
  have settled := settles.settles handed w typed started inside
  rcases p.violates_or_makes earlier w.memory place e with ⟨v, fails⟩ | ⟨call, memory, makes⟩
  · have ended : p.follow earlier w.memory [.slot place e] = ⟨[], some (.internal v), w.memory⟩ :=
      Policy.follow_of_violation (Stop.violation?_of_expects fails) []
    rw [fails] at settled
    refine ⟨?_, ?_, ?_⟩
    · rw [settled, ended]
    · intro contents last
      rw [ended] at last ⊢
      rcases last with succeeds | rfl
      · cases succeeds
      · rw [settled]
        rfl
    · intro _
      rw [settled]
      rfl
  · obtain rfl : call.handed = handed := makes.handed.trans filled
    rw [makes.expects] at settled
    have left := settled.trans (settle_of_makes started makes)
    cases replied : call.reply with
    | error err =>
      have ended := Policy.follow_of_refused makes replied []
      rw [replied] at left
      refine ⟨?_, ?_, ?_⟩
      · rw [left, ended]
      · intro contents last
        rw [ended] at last ⊢
        rcases last with succeeds | rfl
        · cases succeeds
        · rw [left]
          rfl
      · intro kept
        rw [ended] at kept
        have unchanged := kept call (List.mem_singleton_self call)
        rw [replied] at unchanged
        cases unchanged
    | ok e' =>
      have goesOn := Policy.follow_of_accepted makes replied []
      rw [replied] at left
      refine ⟨?_, ?_, ?_⟩
      · rw [left, goesOn]
        rfl
      · intro contents _
        rw [left, goesOn]
        rfl
      · intro kept
        rw [goesOn] at kept
        have unchanged := kept call List.mem_cons_self
        rw [left, Call.left, unchanged]
        rfl

theorem Follows.slot {walk : Step σ Expr} {settled : Expr → Step σ Expr} {place : Place} {e : Expr}
    (inside : Follows p result walk e.stops e.fill)
    (settles : Settles p result settled place e.ty) :
    Follows p result (walk >>= settled) (e.stops ++ [.slot place e])
      (e.fill >>= Filling.next) where
  inert := by
    rw [bind_nil inside.spent]
    exact inside.inert.bind (settles.inert _)
  spent := by
    rw [bind_nil inside.spent]
    rfl
  told w earlier started within := by
    have before := inside.told w earlier started within
    cases ended : (p.follow earlier w.memory e.stops).failure with
    | some err => exact before.bind_of_failure inside.spent ended (settles.inert _) rfl
    | none =>
      refine before.bind_of_success inside.spent ended (settles.told rfl within ?_)
      rw [Call.lastContents_append earlier (p.length_follow ended)]
      exact congrArg Prod.fst before.returned

theorem Follows.slot_bind {α : Type} {walk : Step σ Expr} {settled : Expr → Step σ Expr}
    {next : Expr → Step σ α} {place : Place} {e : Expr} {stops : List Stop}
    {fill : Expr → Filling α} (inside : Follows p result walk e.stops e.fill)
    (settles : Settles p result settled place e.ty)
    (later : ∀ content, Follows p result (next content) stops (fill content)) :
    Follows p result (walk >>= fun e => settled e >>= next) (e.stops ++ .slot place e :: stops)
      (e.fill >>= fun e => Filling.next e >>= fill) := by
  have both := (inside.slot settles).bind fun contents => later _
  rw [bind_assoc, List.append_assoc, bind_assoc] at both
  exact both

theorem settles_settle (kind : ConversionKind) (inferred actual : Ty) :
    Settles p result (settle p kind inferred) (.typed kind inferred) actual where
  inert := inert_settle p kind inferred
  settles _ _ _ _ _ := rfl

theorem settles_qualifier (actual : Ty) :
    Settles p result (fun e => settle p .qualifier e.ty e) .qualifier actual where
  inert e := inert_settle p .qualifier e.ty e
  settles e w typed _ _ := by
    subst typed
    rfl

theorem violate_of_started {w : Walk σ} (started : w.failure = none) (v : Violation) :
    (violate v w).2 = { w with failure := some (.internal v) } := by
  simp [violate, fail, started]

theorem settles_argument (m : MethodSig) (count position : Nat) (actual : Ty) :
    Settles p result (settleArgument p m count position) (.argument m count position) actual where
  inert := inert_settleArgument p m count position
  settles e w typed started _ := by
    subst typed
    unfold settleArgument
    rw [Place.expects_argument]
    cases m.expected count position e.ty with
    | ok inferred => rfl
    | error v => exact congrArg (Prod.mk e) (violate_of_started started v)

theorem settles_returned (span : Span) (actual : Ty) :
    Settles p result (settleReturned p span) (.returned span result) actual where
  inert := inert_settleReturned p span
  settles e w _ started inside := by
    unfold settleReturned
    cases results : w.results with
    | nil =>
      rw [results] at inside
      subst inside
      change (e, (violate (.returnOutsideMethod span) w).2) = _
      rw [violate_of_started started, results]
      rfl
    | cons first outer =>
      rw [results] at inside
      obtain rfl : first = result := inside
      cases first with
      | none =>
        change (e, (violate (.returnOutsideMethod span) w).2) = _
        rw [violate_of_started started, results]
        rfl
      | some expected => rfl

theorem follows_violate (v : Violation) :
    Follows p result (violate v : Step σ Unit) [.violation v] (pure ()) where
  inert := inert_fail _
  spent := rfl
  told w earlier started _ := by
    refine ⟨violate_of_started started v, ?_, fun _ => rfl⟩
    intro later last
    rcases last with succeeds | rfl
    · cases succeeds
    · rfl

theorem follows_checkCount (m : MethodSig) (count : Nat) :
    Follows p result (checkCount m count : Step σ Unit) (m.countStops count) (pure ()) := by
  rw [checkCount, m.countStops_eq]
  split
  · exact follows_pure ()
  · exact follows_violate _

theorem Follows.checked {α : Type} {step : Step σ α} {stops : List Stop} {fill : Filling α}
    (m : MethodSig) (count : Nat) (later : Follows p result step stops fill) :
    Follows p result (checkCount m count >>= fun _ => step) (m.countStops count ++ stops) fill := by
  have both : Follows p result (checkCount m count >>= fun _ => step) (m.countStops count ++ stops)
      (pure () >>= fun _ => fill) := (follows_checkCount m count).bind fun _ => later
  rwa [pure_bind] at both

theorem Follows.map {α β : Type} {step : Step σ α} {stops : List Stop} {fill : Filling α}
    (f : α → β) (first : Follows p result step stops fill) :
    Follows p result (step >>= fun a => pure (f a)) stops (fill >>= fun a => pure (f a)) := by
  have filled : Follows p result (step >>= fun a => pure (f a)) (stops ++ [])
      (fill >>= fun a => pure (f a)) := first.bind fun _ => follows_pure _
  rwa [List.append_nil] at filled

/-- The steps of a body run inside its own result type, whatever is around it. -/
theorem Follows.inBody {α : Type} {step : Step σ α} {stops : List Stop} {fill : Filling α}
    (inner : Option Ty) (body : Follows p inner step stops fill) :
    Follows p result (inBody inner step) stops fill where
  inert := inert_inBody inner body.inert
  spent := body.spent
  told w earlier started _ := by
    have told := body.told { w with results := inner :: w.results } earlier started rfl
    refine ⟨?_, told.value, told.kept⟩
    rw [inBody_apply, told.state]
    rfl

end Follows

end Step

open Step

namespace Expr

variable {p : Policy σ} {result : Option Ty}

mutual

theorem follows_walk (e : Expr) : Follows p result (e.walk p) e.stops e.fill := by
  cases e with
  | literal i value => exact follows_pure _
  | localVar i name => exact follows_pure _
  | this i => exact follows_pure _
  | field i qualifier f => exact (follows_walkQualifier qualifier).map _
  | call i qualifier m args =>
    exact (follows_walkQualifier qualifier).bind fun _ =>
      ((follows_walkArguments m args.length 0 args).map _).checked m args.length
  | new i m args => exact ((follows_walkArguments m args.length 0 args).map _).checked m args.length
  | assign i target value =>
    refine (follows_walk target).bind fun contents => ?_
    have typed : (target.fill contents).1.ty = target.ty := target.ty_filled contents
    rw [typed]
    exact (follows_walk value).slot_bind (settles_settle _ _ _) fun _ => follows_pure _
  | cast i operand target =>
    exact (follows_walk operand).slot_bind (settles_settle _ _ _) fun _ => follows_pure _
  | binary i op left right =>
    exact (follows_walk left).bind fun _ => (follows_walk right).map _
  | unary i op operand => exact (follows_walk operand).map _
  | conditional i condition whenTrue whenFalse =>
    exact (follows_walk condition).slot_bind (settles_settle _ _ _) fun _ =>
      (follows_walk whenTrue).slot_bind (settles_settle _ _ _) fun _ =>
        (follows_walk whenFalse).slot_bind (settles_settle _ _ _) fun _ => follows_pure _
  | arrayLit i elements =>
    obtain ⟨span, ty⟩ := i
    cases ty with
    | array component nullable => exact (follows_walkElements component elements).map _
    | _ => exact (follows_violate _).map _
  | index i array position =>
    exact (follows_walk array).bind fun _ => (follows_walk position).map _

theorem follows_walkQualifier (qualifier : Option Expr) :
    Follows p result (walkQualifier p qualifier) (qualifierStops qualifier)
      (fillOption qualifier) := by
  cases qualifier with
  | none => exact follows_pure _
  | some e =>
    exact (follows_walk e).slot_bind (settles_qualifier _) fun _ => follows_pure _

theorem follows_walkArguments (m : MethodSig) (count position : Nat) (args : List Expr) :
    Follows p result (walkArguments p m count position args) (argumentStops m count position args)
      (fillList args) := by
  cases args with
  | nil => exact follows_pure _
  | cons arg rest =>
    exact (follows_walk arg).slot_bind (settles_argument m count position _) fun _ =>
      (follows_walkArguments m count (position + 1) rest).map _

theorem follows_walkElements (component : Ty) (elements : List Expr) :
    Follows p result (walkElements p component elements) (elementStops component elements)
      (fillList elements) := by
  cases elements with
  | nil => exact follows_pure _
  | cons element rest =>
    exact (follows_walk element).slot_bind (settles_settle _ _ _) fun _ =>
      (follows_walkElements component rest).map _

end

theorem follows_walkSlot (kind : ConversionKind) (inferred : Ty) (e : Expr) :
    Follows p result (e.walkSlot p kind inferred) (e.slotStops kind inferred) e.fillSlot :=
  (follows_walk e).slot (settles_settle kind inferred e.ty)

theorem follows_walkOptionalSlot (kind : ConversionKind) (inferred : Ty) (slot : Option Expr) :
    Follows p result (walkOptionalSlot p kind inferred slot) (optionalSlotStops kind inferred slot)
      (fillOption slot) := by
  cases slot with
  | none => exact follows_pure _
  | some e => exact (follows_walkSlot kind inferred e).map _

end Expr

namespace Stmt

variable {p : Policy σ} {result : Option Ty}

mutual

theorem follows_walk (s : Stmt) : Follows p result (s.walk p) (s.stops result) s.fill := by
  cases s with
  | declare span name ty init => exact (Expr.follows_walkOptionalSlot _ ty init).map _
  | expr e => exact (Expr.follows_walk e).map _
  | ret span value =>
    cases value with
    | none => exact follows_pure _
    | some e =>
      exact (Expr.follows_walk e).slot_bind (settles_returned span _) fun _ => follows_pure _
  | ifThen condition body =>
    exact (Expr.follows_walkSlot _ _ condition).bind fun _ => (follows_walkAll body).map _
  | ifThenElse condition body otherwise =>
    exact (Expr.follows_walkSlot _ _ condition).bind fun _ =>
      (follows_walkAll body).bind fun _ => (follows_walkAll otherwise).map _
  | «while» condition body =>
    exact (Expr.follows_walkSlot _ _ condition).bind fun _ => (follows_walkAll body).map _
  | block body => exact (follows_walkAll body).map _
  | throw e => exact (Expr.follows_walk e).map _

theorem follows_walkAll (body : List Stmt) :
    Follows p result (walkAll p body) (allStops result body) (fillAll body) := by
  cases body with
  | nil => exact follows_pure _
  | cons s rest => exact (follows_walk s).bind fun _ => (follows_walkAll rest).map _

end

end Stmt

namespace Member

variable {p : Policy σ} {result : Option Ty}

mutual

theorem follows_walk (m : Member) : Follows p result (m.walk p) m.stops m.fill := by
  cases m with
  | field sig init => exact (Expr.follows_walkOptionalSlot _ _ init).map _
  | method sig params body =>
    cases body with
    | none => exact follows_pure _
    | some body => exact ((Stmt.follows_walkAll body).inBody _).map _
  | initializer body => exact ((Stmt.follows_walkAll body).inBody _).map _
  | nested decl members => exact (follows_walkAll members).map _

theorem follows_walkAll (members : List Member) :
    Follows p result (walkAll p members) (allStops members) (fillAll members) := by
  cases members with
  | nil => exact follows_pure _
  | cons m rest => exact (follows_walk m).bind fun _ => (follows_walkAll rest).map _

end

end Member

theorem ClassDef.follows_walkAll {p : Policy σ} {result : Option Ty} (classes : List ClassDef) :
    Follows p result (walkAll p classes)
      (classes.flatMap fun c => Member.allStops c.members) (fillAll classes) := by
  induction classes with
  | nil => exact follows_pure _
  | cons c rest ih =>
    have first : Follows p result (c.walk p) (Member.allStops c.members) c.fill :=
      (Member.follows_walkAll c.members).map _
    exact first.bind fun _ => ih.map _

namespace SourceUnit

variable (p : Policy σ) (u : SourceUnit) (memory : σ)

def account : Account σ := p.follow [] memory u.stops

/-- A walk through a unit is no more than the calls for its stops: they leave the contents of its
slots, the memory of the policy and the failure. What came before in the walk is not looked at. -/
theorem walk_from (w : Walk σ) :
    u.walk p w = (u.filled (u.account p w.memory).contents,
      ⟨(u.account p w.memory).memory, w.results, (u.account p w.memory).failure⟩) := by
  have told := (ClassDef.follows_walkAll u.classes).told (p := p) { w with failure := none } [] rfl
    rfl
  have walked : u.walk p w
      = ({ u with classes := (ClassDef.walkAll p u.classes { w with failure := none }).1 },
        (ClassDef.walkAll p u.classes { w with failure := none }).2) := rfl
  rw [walked, told.state, filled, account]
  exact congrArg (fun classes => (({ u with classes := classes } : SourceUnit), _))
    (congrArg Prod.fst told.returned).symm

theorem walk_eq_follow :
    u.walk p (Walk.start memory) = (u.filled (u.account p memory).contents,
      ⟨(u.account p memory).memory, [], (u.account p memory).failure⟩) :=
  u.walk_from p (Walk.start memory)

/-- A walk that has failed before returns the unit as it is, and fills its slots with nothing. -/
theorem filled_nil : u.filled [] = u := by
  have failed : (⟨(), [], some (.other "")⟩ : Walk Unit).failure.isSome := rfl
  have asGiven := ClassDef.inert_walkAll {} u.classes _ failed
  have follows : Follows {} none (ClassDef.walkAll ({} : Policy Unit) u.classes) _ _ :=
    ClassDef.follows_walkAll u.classes
  have asFilled := follows.inert _ failed
  rw [asGiven] at asFilled
  rw [filled, ← congrArg Prod.fst asFilled]

/-- Where every call leaves the expression that it was handed, the unit stays as it is. -/
theorem filled_of_kept
    (kept : ∀ call ∈ (u.account p memory).calls, call.reply = .ok call.handed) :
    u.filled (u.account p memory).contents = u := by
  have told := (ClassDef.follows_walkAll u.classes).told (p := p) (Walk.start memory) [] rfl rfl
  have same : (ClassDef.fillAll u.classes (u.account p memory).contents).1
      = (ClassDef.fillAll u.classes []).1 :=
    (congrArg Prod.fst told.returned).trans (told.kept kept)
  rw [filled, same]
  exact u.filled_nil

end SourceUnit

end NullabilityCasts
