import NullabilityCasts.Proofs.Conversion.Contents

/-!
# Calls to a policy

Handing the stops of a unit to a policy, one by one: every slot makes a call, with the expression
that has the contents left by earlier calls in it, and the first failure ends it.
-/

set_option autoImplicit false

namespace NullabilityCasts

structure Conversion where
  kind : ConversionKind
  inferred : Ty
  actual : Ty

namespace Site

def violation? : Site → Option Violation
  | slot s =>
    match s.inferred with
    | .ok _ => none
    | .error v => some v
  | violation v => some v

def conversion? : Site → Option Conversion
  | slot s =>
    match s.inferred with
    | .ok inferred => some ⟨s.kind, inferred, s.actual⟩
    | .error _ => none
  | violation _ => none

def violations (sites : List Site) : List Violation := sites.filterMap violation?

/-- The conversions at the sites before the first violation. -/
def conversions (sites : List Site) : List Conversion :=
  (sites.takeWhile fun site => site.violation?.isNone).filterMap conversion?

theorem conversions_of_violation {site : Site} {v : Violation} (rest : List Site)
    (found : site.violation? = some v) : conversions (site :: rest) = [] := by
  simp [conversions, found]

theorem violation?_of_conversion {site : Site} {c : Conversion}
    (asks : site.conversion? = some c) : site.violation? = none := by
  cases site with
  | violation v => cases asks
  | slot s =>
    cases expects : s.inferred with
    | ok inferred => rw [violation?, expects]
    | error v =>
      rw [conversion?, expects] at asks
      cases asks

theorem conversions_of_conversion {site : Site} {c : Conversion} (rest : List Site)
    (asks : site.conversion? = some c) : conversions (site :: rest) = c :: conversions rest := by
  simp [conversions, violation?_of_conversion asks, asks]

theorem violations_of_conversion {site : Site} {c : Conversion} (rest : List Site)
    (asks : site.conversion? = some c) : violations (site :: rest) = violations rest := by
  simp [violations, violation?_of_conversion asks]

end Site

theorem Stop.violation?_of_expects {place : Place} {e : Expr} {v : Violation}
    (fails : place.expects e.ty = .error v) : (slot place e).site.violation? = some v := by
  have asks : Slot.inferred ⟨place, e.ty⟩ = .error v := fails
  rw [site, Site.violation?, asks]

structure Call where
  conversion : Conversion
  handed : Expr
  reply : Except Error Expr

namespace Call

def left (call : Call) : Expr :=
  match call.reply with
  | .ok e => e
  | .error _ => .placeholder

def lastContents (count : Nat) (calls : List Call) : List Expr :=
  (calls.drop (calls.length - count)).map left

theorem lastContents_append {count : Nat} (earlier : List Call) {calls : List Call}
    (all : calls.length = count) : lastContents count (earlier ++ calls) = calls.map left := by
  have start : (earlier ++ calls).length - count = earlier.length := by
    rw [List.length_append]
    omega
  rw [lastContents, start, List.drop_left]

/-- The calls go along the sites in order. If a call is refused it is the last one, and else they
reach the first violation. -/
structure Along (sites : List Site) (calls : List Call) (failure : Option Error) : Prop where
  inOrder : calls.map conversion <+: Site.conversions sites
  complete : (∀ call ∈ calls, ∃ e, call.reply = .ok e) →
    calls.map conversion = Site.conversions sites ∧
      failure = (Site.violations sites).head?.map .internal
  refused : ∀ before call after e, calls = before ++ call :: after → call.reply = .error e →
    after = [] ∧ failure = some e

namespace Along

theorem nil : Along [] [] none where
  inOrder := List.prefix_refl _
  complete _ := ⟨rfl, rfl⟩
  refused before call after _ parts _ := by simp at parts

theorem violation {site : Site} {v : Violation} (rest : List Site)
    (found : site.violation? = some v) : Along (site :: rest) [] (some (.internal v)) where
  inOrder := List.nil_prefix
  complete _ := by
    refine ⟨(Site.conversions_of_violation rest found).symm, ?_⟩
    simp [Site.violations, found]
  refused before call after _ parts _ := by simp at parts

theorem refusal {site : Site} {call : Call} {e : Error} (rest : List Site)
    (asks : site.conversion? = some call.conversion) (replied : call.reply = .error e) :
    Along (site :: rest) [call] (some e) where
  inOrder := by
    rw [Site.conversions_of_conversion rest asks]
    exact List.prefix_append [call.conversion] _
  complete accepted := by
    obtain ⟨e', answer⟩ := accepted call (List.mem_singleton_self call)
    rw [replied] at answer
    cases answer
  refused before call' after e' parts answer := by
    rcases List.singleton_eq_append_iff.mp parts with ⟨_, single⟩ | ⟨_, single⟩
    · obtain ⟨rfl, rfl⟩ := List.cons_eq_cons.mp single
      rw [replied] at answer
      exact ⟨rfl, congrArg some (Except.error.inj answer)⟩
    · cases single

theorem cons {site : Site} {rest : List Site} {call : Call} {calls : List Call}
    {failure : Option Error} {e : Expr} (asks : site.conversion? = some call.conversion)
    (replied : call.reply = .ok e) (along : Along rest calls failure) :
    Along (site :: rest) (call :: calls) failure where
  inOrder := by
    rw [Site.conversions_of_conversion rest asks]
    exact (List.prefix_cons_inj _).mpr along.inOrder
  complete accepted := by
    obtain ⟨all, ended⟩ := along.complete fun call' later =>
      accepted call' (List.mem_cons_of_mem call later)
    rw [Site.conversions_of_conversion rest asks, Site.violations_of_conversion rest asks]
    exact ⟨congrArg (call.conversion :: ·) all, ended⟩
  refused before call' after e' parts answer := by
    cases before with
    | nil =>
      obtain ⟨rfl, _⟩ := List.cons_eq_cons.mp parts
      rw [replied] at answer
      cases answer
    | cons first before =>
      obtain ⟨_, later⟩ := List.cons_eq_cons.mp parts
      exact along.refused before call' after e' later answer

end Along

end Call

structure Account (σ : Type) where
  calls : List Call
  failure : Option Error
  memory : σ

variable {σ : Type}

namespace Account

def contents (a : Account σ) : List Expr := a.calls.map Call.left

def after (calls : List Call) (a : Account σ) : Account σ := { a with calls := calls ++ a.calls }

theorem contents_after (calls : List Call) (a : Account σ) :
    (a.after calls).contents = calls.map Call.left ++ a.contents := List.map_append

def andThen (a : Account σ) (next : List Call → σ → Account σ) : Account σ :=
  match a.failure with
  | some _ => a
  | none => (next a.calls a.memory).after a.calls

theorem andThen_of_failure {a : Account σ} {e : Error} (failed : a.failure = some e)
    (next : List Call → σ → Account σ) : a.andThen next = a := by
  rw [andThen, failed]

theorem andThen_of_success {a : Account σ} (succeeds : a.failure = none)
    (next : List Call → σ → Account σ) :
    a.andThen next = (next a.calls a.memory).after a.calls := by
  rw [andThen, succeeds]

theorem andThen_after (calls : List Call) (a : Account σ) (next : List Call → σ → Account σ) :
    (a.after calls).andThen next = (a.andThen fun made => next (calls ++ made)).after calls := by
  cases failed : a.failure with
  | some e =>
    have still : (a.after calls).failure = some e := failed
    rw [andThen_of_failure still, andThen_of_failure failed]
  | none =>
    have still : (a.after calls).failure = none := failed
    rw [andThen_of_success still, andThen_of_success failed]
    simp [after]

end Account

namespace Policy

def callAt (p : Policy σ) (earlier : List Call) (memory : σ) (place : Place) (inferred : Ty)
    (e : Expr) : Call × σ :=
  let handed := e.filled (Call.lastContents e.stops.length earlier)
  let (reply, memory) := p.handle place.kind inferred e.ty handed memory
  (⟨⟨place.kind, inferred, e.ty⟩, handed, reply⟩, memory)

def follow (p : Policy σ) (earlier : List Call) (memory : σ) : List Stop → Account σ
  | [] => ⟨[], none, memory⟩
  | .violation v :: _ => ⟨[], some (.internal v), memory⟩
  | .slot place e :: rest =>
    match place.expects e.ty with
    | .error v => ⟨[], some (.internal v), memory⟩
    | .ok inferred =>
      let (call, memory) := p.callAt earlier memory place inferred e
      match call.reply with
      | .error err => ⟨[call], some err, memory⟩
      | .ok _ => (p.follow (earlier ++ [call]) memory rest).after [call]

variable (p : Policy σ)

/-- The slot asks for a type, and `call` is the call that is made for it. -/
structure Makes (earlier : List Call) (memory : σ) (place : Place) (e : Expr) (call : Call)
    (memory' : σ) : Prop where
  expects : place.expects e.ty = .ok call.conversion.inferred
  conversion : call.conversion = ⟨place.kind, call.conversion.inferred, e.ty⟩
  handed : call.handed = e.filled (Call.lastContents e.stops.length earlier)
  answer : p.handle place.kind call.conversion.inferred e.ty call.handed memory
    = (call.reply, memory')

variable {p} {earlier : List Call} {memory memory' : σ} {place : Place} {e : Expr} {call : Call}

theorem Makes.called (makes : p.Makes earlier memory place e call memory') :
    p.callAt earlier memory place call.conversion.inferred e = (call, memory') := by
  rw [callAt, ← makes.handed, makes.answer, ← makes.conversion]

theorem Makes.asks (makes : p.Makes earlier memory place e call memory') :
    (Stop.slot place e).site.conversion? = some call.conversion := by
  have expects : Slot.inferred ⟨place, e.ty⟩ = .ok call.conversion.inferred := makes.expects
  rw [Stop.site, Site.conversion?, expects]
  exact congrArg some makes.conversion.symm

theorem Makes.reply (makes : p.Makes earlier memory place e call memory') :
    call.reply = (p.handle call.conversion.kind call.conversion.inferred call.conversion.actual
      call.handed memory).1 := by
  have kind : call.conversion.kind = place.kind := congrArg Conversion.kind makes.conversion
  have actual : call.conversion.actual = e.ty := congrArg Conversion.actual makes.conversion
  rw [kind, actual, makes.answer]

variable (p) in
theorem violates_or_makes (earlier : List Call) (memory : σ) (place : Place) (e : Expr) :
    (∃ v, place.expects e.ty = .error v) ∨
      ∃ call memory', p.Makes earlier memory place e call memory' := by
  cases expects : place.expects e.ty with
  | error v => exact .inl ⟨v, rfl⟩
  | ok inferred =>
    exact .inr ⟨(p.callAt earlier memory place inferred e).1, _, expects, rfl, rfl, rfl⟩

theorem follow_of_violation {stop : Stop} {v : Violation} (found : stop.site.violation? = some v)
    (rest : List Stop) :
    p.follow earlier memory (stop :: rest) = ⟨[], some (.internal v), memory⟩ := by
  cases stop with
  | violation v' =>
    obtain rfl : v' = v := Option.some.inj found
    rfl
  | slot place e =>
    rcases p.violates_or_makes earlier memory place e with ⟨v', fails⟩ | ⟨call, memory', makes⟩
    · rw [Stop.violation?_of_expects fails] at found
      obtain rfl : v' = v := Option.some.inj found
      rw [follow, fails]
    · rw [Site.violation?_of_conversion makes.asks] at found
      cases found

theorem follow_of_refused (makes : p.Makes earlier memory place e call memory') {err : Error}
    (refused : call.reply = .error err) (rest : List Stop) :
    p.follow earlier memory (.slot place e :: rest) = ⟨[call], some err, memory'⟩ := by
  rw [follow, makes.expects]
  simp only [makes.called, refused]

theorem follow_of_accepted (makes : p.Makes earlier memory place e call memory') {e' : Expr}
    (accepted : call.reply = .ok e') (rest : List Stop) :
    p.follow earlier memory (.slot place e :: rest)
      = (p.follow (earlier ++ [call]) memory' rest).after [call] := by
  rw [follow, makes.expects]
  simp only [makes.called, accepted]

variable (p) in
/-- Induction along the stops: there are none left, the first is a violation, its call is refused,
or its call is accepted and the calls for the rest come after it. -/
theorem follow_induction {motive : List Call → σ → List Stop → Account σ → Prop}
    (nil : ∀ earlier memory, motive earlier memory [] ⟨[], none, memory⟩)
    (violation : ∀ earlier memory stop rest v, stop.site.violation? = some v →
      motive earlier memory (stop :: rest) ⟨[], some (.internal v), memory⟩)
    (refused : ∀ earlier memory place e rest call memory' err,
      p.Makes earlier memory place e call memory' → call.reply = .error err →
      motive earlier memory (.slot place e :: rest) ⟨[call], some err, memory'⟩)
    (accepted : ∀ earlier memory place e rest call memory' e',
      p.Makes earlier memory place e call memory' → call.reply = .ok e' →
      motive (earlier ++ [call]) memory' rest (p.follow (earlier ++ [call]) memory' rest) →
      motive earlier memory (.slot place e :: rest)
        ((p.follow (earlier ++ [call]) memory' rest).after [call]))
    (earlier : List Call) (memory : σ) (stops : List Stop) :
    motive earlier memory stops (p.follow earlier memory stops) := by
  induction stops generalizing earlier memory with
  | nil => exact nil earlier memory
  | cons stop rest ih =>
    cases stop with
    | violation v => exact violation _ _ _ _ v rfl
    | slot place e =>
      rcases p.violates_or_makes earlier memory place e with ⟨v, fails⟩ | ⟨call, memory', makes⟩
      · have found := Stop.violation?_of_expects fails
        rw [follow_of_violation found]
        exact violation _ _ _ _ v found
      · cases replied : call.reply with
        | error err =>
          rw [follow_of_refused makes replied]
          exact refused _ _ _ _ _ _ _ err makes replied
        | ok e' =>
          rw [follow_of_accepted makes replied]
          exact accepted _ _ _ _ _ _ _ e' makes replied (ih _ memory')

variable (p)

theorem follow_append (earlier : List Call) (memory : σ) (first later : List Stop) :
    p.follow earlier memory (first ++ later) = (p.follow earlier memory first).andThen
      fun calls memory => p.follow (earlier ++ calls) memory later := by
  refine p.follow_induction (motive := fun earlier memory first a =>
    p.follow earlier memory (first ++ later) = a.andThen fun calls memory =>
      p.follow (earlier ++ calls) memory later) ?nil ?violation ?refused ?accepted
    earlier memory first
  case nil =>
    intro earlier memory
    simp [Account.andThen, Account.after]
  case violation =>
    intro earlier memory stop rest v found
    exact follow_of_violation found (rest ++ later)
  case refused =>
    intro earlier memory place e rest call memory' err makes replied
    exact follow_of_refused makes replied (rest ++ later)
  case accepted =>
    intro earlier memory place e rest call memory' e' makes replied ih
    rw [List.cons_append, follow_of_accepted makes replied, ih, Account.andThen_after]
    simp only [List.append_assoc]

theorem length_follow {earlier : List Call} {memory : σ} {stops : List Stop}
    (succeeds : (p.follow earlier memory stops).failure = none) :
    (p.follow earlier memory stops).calls.length = stops.length := by
  refine p.follow_induction (motive := fun _ _ stops a =>
    a.failure = none → a.calls.length = stops.length) ?nil ?violation ?refused ?accepted
    earlier memory stops succeeds
  case nil => exact fun _ _ _ => rfl
  case violation => exact fun _ _ _ _ _ _ succeeds => nomatch succeeds
  case refused => exact fun _ _ _ _ _ _ _ _ _ _ succeeds => nomatch succeeds
  case accepted =>
    intro earlier memory place e rest call memory' e' makes replied ih succeeds
    exact congrArg Nat.succ (ih succeeds)

theorem along_follow (earlier : List Call) (memory : σ) (stops : List Stop) :
    Call.Along (stops.map Stop.site) (p.follow earlier memory stops).calls
      (p.follow earlier memory stops).failure := by
  refine p.follow_induction (motive := fun _ _ stops a =>
    Call.Along (stops.map Stop.site) a.calls a.failure) ?nil ?violation ?refused ?accepted
    earlier memory stops
  case nil => exact fun _ _ => .nil
  case violation =>
    intro earlier memory stop rest v found
    exact .violation _ found
  case refused =>
    intro earlier memory place e rest call memory' err makes replied
    exact .refusal _ makes.asks replied
  case accepted =>
    intro earlier memory place e rest call memory' e' makes replied ih
    exact ih.cons makes.asks replied

/-- Every call hands over what stands at its stop, filled with what the last calls have left. -/
theorem handed_follow (earlier : List Call) (memory : σ) (stops : List Stop)
    {before after : List Call} {call : Call}
    (parts : (p.follow earlier memory stops).calls = before ++ call :: after) :
    ∃ place e, stops[before.length]? = some (.slot place e) ∧
      call.handed = e.filled (Call.lastContents e.stops.length (earlier ++ before)) := by
  refine p.follow_induction (motive := fun earlier _ stops a => ∀ before : List Call,
    a.calls = before ++ call :: after → ∃ place e, stops[before.length]? = some (.slot place e) ∧
      call.handed = e.filled (Call.lastContents e.stops.length (earlier ++ before)))
    ?nil ?violation ?refused ?accepted earlier memory stops before parts
  case nil =>
    intro earlier memory before parts
    simp at parts
  case violation =>
    intro earlier memory stop rest v found before parts
    simp at parts
  case refused =>
    intro earlier memory place e rest made memory' err makes replied before parts
    cases before with
    | nil =>
      obtain ⟨rfl, _⟩ := List.cons_eq_cons.mp parts
      exact ⟨place, e, rfl, by rw [List.append_nil, makes.handed]⟩
    | cons first before => simp at parts
  case accepted =>
    intro earlier memory place e rest made memory' e' makes replied ih before parts
    cases before with
    | nil =>
      obtain ⟨rfl, _⟩ := List.cons_eq_cons.mp parts
      exact ⟨place, e, rfl, by rw [List.append_nil, makes.handed]⟩
    | cons first before =>
      obtain ⟨rfl, later⟩ := List.cons_eq_cons.mp parts
      obtain ⟨place', e'', stop, handed⟩ := ih before later
      refine ⟨place', e'', stop, ?_⟩
      rw [handed, List.append_assoc]
      rfl

theorem reply_follow {earlier : List Call} {memory : σ} {stops : List Stop} {call : Call}
    (made : call ∈ (p.follow earlier memory stops).calls) :
    ∃ memory', call.reply = (p.handle call.conversion.kind call.conversion.inferred
      call.conversion.actual call.handed memory').1 := by
  refine p.follow_induction (motive := fun _ _ _ a => call ∈ a.calls →
    ∃ memory', call.reply = (p.handle call.conversion.kind call.conversion.inferred
      call.conversion.actual call.handed memory').1) ?nil ?violation ?refused ?accepted
    earlier memory stops made
  case nil => exact fun _ _ made => nomatch made
  case violation => exact fun _ _ _ _ _ _ made => nomatch made
  case refused =>
    intro earlier memory place e rest call' memory' err makes replied made
    obtain rfl := List.mem_singleton.mp made
    exact ⟨memory, makes.reply⟩
  case accepted =>
    intro earlier memory place e rest call' memory' e' makes replied ih made
    rcases List.mem_cons.mp made with rfl | later
    · exact ⟨memory, makes.reply⟩
    · exact ih later

end Policy

end NullabilityCasts
