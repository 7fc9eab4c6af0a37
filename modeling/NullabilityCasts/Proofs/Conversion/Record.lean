import NullabilityCasts.ClassTable.Builder
import NullabilityCasts.Proofs.Conversion.Follow

/-!
# The record of a walk

A policy can keep a record of the calls that are made to it, and a walk does not notice. So what a
walk asks of its policy is known from the unit as it is given: the calls go along its sites,
whatever the policy answers, up to the first violation or the first call that is refused.
-/

set_option autoImplicit false

namespace NullabilityCasts

variable {σ : Type}

structure Recorded (σ : Type) where
  memory : σ
  calls : List Call

def Handler.recorded (kind : ConversionKind) (handler : Handler σ) : Handler (Recorded σ) :=
  fun inferred actual e r =>
    let (reply, memory) := handler inferred actual e r.memory
    (reply, ⟨memory, r.calls ++ [⟨⟨kind, inferred, actual⟩, e, reply⟩]⟩)

namespace Policy

def recorded (p : Policy σ) : Policy (Recorded σ) where
  assignment := p.assignment.recorded .assignment
  fieldInitializer := p.fieldInitializer.recorded .fieldInitializer
  returned := p.returned.recorded .returned
  argument := p.argument.recorded .argument
  qualifier := p.qualifier.recorded .qualifier
  castOperand := p.castOperand.recorded .castOperand
  condition := p.condition.recorded .condition

variable (p : Policy σ)

theorem handle_recorded (kind : ConversionKind) :
    p.recorded.handle kind = (p.handle kind).recorded kind := by
  cases kind <;> rfl

variable {p} in
theorem Makes.recorded {earlier calls : List Call} {memory memory' : σ} {place : Place} {e : Expr}
    {call : Call} (makes : p.Makes earlier memory place e call memory') :
    p.recorded.Makes earlier ⟨memory, calls⟩ place e call ⟨memory', calls ++ [call]⟩ where
  expects := makes.expects
  conversion := makes.conversion
  handed := makes.handed
  answer := by
    rw [handle_recorded, Handler.recorded, makes.answer, ← makes.conversion]

theorem follow_recorded (earlier calls : List Call) (memory : σ) (stops : List Stop) :
    p.recorded.follow earlier ⟨memory, calls⟩ stops =
      ⟨(p.follow earlier memory stops).calls, (p.follow earlier memory stops).failure,
        ⟨(p.follow earlier memory stops).memory,
          calls ++ (p.follow earlier memory stops).calls⟩⟩ := by
  refine p.follow_induction (motive := fun earlier memory stops a => ∀ calls : List Call,
    p.recorded.follow earlier ⟨memory, calls⟩ stops
      = ⟨a.calls, a.failure, ⟨a.memory, calls ++ a.calls⟩⟩) ?nil ?violation ?refused ?accepted
    earlier memory stops calls
  case nil =>
    intro earlier memory calls
    rw [follow, List.append_nil]
  case violation =>
    intro earlier memory stop rest v found calls
    rw [follow_of_violation found, List.append_nil]
  case refused =>
    intro earlier memory place e rest call memory' err makes replied calls
    rw [follow_of_refused makes.recorded replied]
  case accepted =>
    intro earlier memory place e rest call memory' e' makes replied ih calls
    rw [follow_of_accepted makes.recorded replied, ih]
    simp only [Account.after, List.append_assoc]

def Accepts : Prop :=
  ∀ kind inferred actual e memory, ∃ e', (p.handle kind inferred actual e memory).1 = .ok e'

def Keeps : Prop :=
  ∀ kind inferred actual e memory, (p.handle kind inferred actual e memory).1 = .ok e

end Policy

namespace SourceUnit

variable (p : Policy σ) (u : SourceUnit) (memory : σ)

def calls : List Call := (u.walk p.recorded (Walk.start ⟨memory, []⟩)).2.memory.calls

theorem account_recorded :
    u.account p.recorded ⟨memory, []⟩ = ⟨(u.account p memory).calls, (u.account p memory).failure,
      ⟨(u.account p memory).memory, (u.account p memory).calls⟩⟩ :=
  p.follow_recorded [] [] memory u.stops

theorem calls_eq : u.calls p memory = (u.account p memory).calls := by
  rw [calls, walk_eq_follow, account_recorded]

theorem walk_recorded :
    u.walk p.recorded (Walk.start ⟨memory, []⟩) = ((u.walk p (Walk.start memory)).1,
      ⟨⟨(u.walk p (Walk.start memory)).2.memory, u.calls p memory⟩,
        (u.walk p (Walk.start memory)).2.results, (u.walk p (Walk.start memory)).2.failure⟩) := by
  rw [calls_eq, walk_eq_follow, walk_eq_follow, account_recorded]
  rfl

theorem along_calls :
    Call.Along u.sites (u.calls p memory) (u.walk p (Walk.start memory)).2.failure := by
  rw [calls_eq, walk_eq_follow, ← u.map_site_stops]
  exact p.along_follow [] memory u.stops

theorem reply_calls {call : Call} (made : call ∈ u.calls p memory) :
    ∃ memory', call.reply = (p.handle call.conversion.kind call.conversion.inferred
      call.conversion.actual call.handed memory').1 := by
  rw [calls_eq] at made
  exact p.reply_follow made

/-- A walk asks its policy for the conversions at the sites of the unit as it is given, in their
order and each once, and for no others. The first call that is refused ends it, and so does the
first violation. -/
theorem walk_calls :
    u.walk p.recorded (Walk.start ⟨memory, []⟩) = ((u.walk p (Walk.start memory)).1,
      ⟨⟨(u.walk p (Walk.start memory)).2.memory, u.calls p memory⟩,
        (u.walk p (Walk.start memory)).2.results, (u.walk p (Walk.start memory)).2.failure⟩) ∧
    Call.Along u.sites (u.calls p memory) (u.walk p (Walk.start memory)).2.failure ∧
    (p.Accepts → ((u.walk p (Walk.start memory)).2.failure = none ↔
      Site.violations u.sites = [])) := by
  have along := u.along_calls p memory
  refine ⟨u.walk_recorded p memory, along, ?_⟩
  intro accepts
  have accepted : ∀ call ∈ u.calls p memory, ∃ e, call.reply = .ok e := by
    intro call made
    obtain ⟨memory', reply⟩ := u.reply_calls p memory made
    obtain ⟨e, answer⟩ := accepts call.conversion.kind call.conversion.inferred
      call.conversion.actual call.handed memory'
    exact ⟨e, reply.trans answer⟩
  rw [(along.complete accepted).2, Option.map_eq_none_iff, List.head?_eq_none_iff]

end SourceUnit

namespace Sample

def anything (name : String) : Expr := .localVar (Expr.fresh ClassTable.top) ⟨name⟩

/-- A choice that is assigned, and then a value returned from an initializer block. -/
def choice : SourceUnit :=
  ⟨"Main.java", ⟨0, ClassTable.empty⟩, [⟨ClassTable.object, [.initializer
    [.expr (Expr.assignTo (anything "chosen") (.conditional (Expr.fresh ClassTable.top)
      (Expr.ofBool true) (anything "first") (anything "second"))),
    .ret .null (some (anything "chosen"))]]⟩]⟩

def wrap : Policy Nat where
  conversion inferred _ e count := (.ok (e.castTo inferred), count + 1)

theorem accepts_wrap : wrap.Accepts := by
  intro kind inferred actual e count
  cases kind <;> exact ⟨_, rfl⟩

def present : Ty := .declared ClassTable.object false []

def format : MethodSig :=
  ⟨⟨"format"⟩, [.prim .int, .array present false], Ty.void, true, false, false⟩

/-- Calls with two remaining arguments, with an array in their place and without any arguments. -/
def formatted : SourceUnit :=
  ⟨"Main.java", ⟨0, ClassTable.empty⟩, [⟨ClassTable.object, [.initializer
    [.ifThen (anything "both")
      [.expr (Expr.invoke none format [anything "width", anything "first", anything "second"])],
    .expr (Expr.invoke none format
      [anything "width", .localVar (Expr.fresh (.array ClassTable.top false)) ⟨"values"⟩]),
    .expr (Expr.invoke none format []),
    .ret .null (some (anything "width"))]]⟩]⟩

end Sample

open Sample in
theorem SourceUnit.walk_calls_wrap : wrap.Accepts ∧
    Call.Along formatted.sites (formatted.calls wrap 0)
      (formatted.walk wrap (Walk.start 0)).2.failure ∧
    (formatted.calls wrap 0).map Call.conversion =
      [⟨.condition, .prim .boolean, ClassTable.top⟩, ⟨.argument, .prim .int, ClassTable.top⟩,
        ⟨.argument, present, ClassTable.top⟩, ⟨.argument, present, ClassTable.top⟩,
        ⟨.argument, .prim .int, ClassTable.top⟩,
        ⟨.argument, .array present false, .array ClassTable.top false⟩] ∧
    (formatted.walk wrap (Walk.start 0)).2.failure
      = some (.internal (.argumentCount 0 ⟨"format"⟩ true 2)) ∧
    Site.violations formatted.sites
      = [.argumentCount 0 ⟨"format"⟩ true 2, .returnOutsideMethod .null] ∧
    ((formatted.walk wrap (Walk.start 0)).2.failure = none ↔
      Site.violations formatted.sites = []) := by
  obtain ⟨_, along, succeeds⟩ := formatted.walk_calls wrap 0
  exact ⟨accepts_wrap, along, rfl, rfl, rfl, succeeds accepts_wrap⟩

end NullabilityCasts
