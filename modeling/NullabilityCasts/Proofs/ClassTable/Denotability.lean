import NullabilityCasts.ClassTable.Denotable
import Mathlib.Logic.Relation

/-!
# Denotable types

A type is denotable exactly if it leads to no type without a written form. The check cuts a cycle of
upper bounds where it comes back to a marked variable, and nothing gets lost by that: whatever a
variable leads to, it also leads to without coming back to itself.
-/

set_option autoImplicit false

namespace NullabilityCasts

namespace Ty

/-- A type without a written form, whatever it is made of. -/
def isNameless : Ty → Bool
  | .declared d _ _ => d.anonymous
  | .union _ | .inter _ => true
  | .prim _ | .array _ _ | .var _ => false

mutual

/-- The wildcards and captures that the check for denotable types comes to without following a
bound. -/
def openIds : Ty → List UInt32
  | .prim _ | .union _ | .inter _ => []
  | .declared d _ args => if d.anonymous then [] else allOpenIds args
  | .array component _ => openIds component
  | .var v => if v.isOpen then [v.id] else []

def allOpenIds : List Ty → List UInt32
  | [] => []
  | t :: rest => openIds t ++ allOpenIds rest

end

end Ty

namespace ClassTable

variable {ct : ClassTable} {seen : List UInt32}

/-- One type leads to another that is a part of it. A wildcard or capture leads to its bounds,
unless it is among the variables in `seen`. -/
inductive Leads (ct : ClassTable) (seen : List UInt32) : Ty → Ty → Prop where
  | argument {d : Decl} {nullable : Bool} {args : List Ty} {t : Ty}
      (named : d.anonymous = false) (member : t ∈ args) :
      Leads ct seen (.declared d nullable args) t
  | component (t : Ty) (nullable : Bool) : Leads ct seen (.array t nullable) t
  | bound {v : TyVar} {b : Bounds} {t : Ty} (isOpen : v.isOpen = true) (fresh : v.id ∉ seen)
      (found : ct.bounds? v.id = some b) (side : b.lower = some t ∨ b.upper = t) :
      Leads ct seen (.var v) t

def Reaches (ct : ClassTable) (seen : List UInt32) : Ty → Ty → Prop :=
  Relation.ReflTransGen (ct.Leads seen)

/-- All that the type leads to has a written form. -/
def Writable (ct : ClassTable) (seen : List UInt32) (t : Ty) : Prop :=
  ∀ u, ct.Reaches seen t u → u.isNameless = false

/-- One variable leads to another if its lower bound mentions it. -/
def LowerLeads (ct : ClassTable) (id id' : UInt32) : Prop :=
  ∃ b lower, ct.bounds? id = some b ∧ b.lower = some lower ∧ id' ∈ lower.openIds

def LowerLeadsOutside (ct : ClassTable) (seen : List UInt32) (id id' : UInt32) : Prop :=
  id ∉ seen ∧ ct.LowerLeads id id'

theorem Leads.of_cons {id : UInt32} {t u : Ty} (leads : ct.Leads (id :: seen) t u) :
    ct.Leads seen t u := by
  cases leads with
  | argument named member => exact .argument named member
  | component => exact .component _ _
  | bound isOpen fresh found side =>
    exact .bound isOpen (List.not_mem_of_not_mem_cons fresh) found side

theorem Reaches.of_cons {id : UInt32} {t u : Ty} (reaches : ct.Reaches (id :: seen) t u) :
    ct.Reaches seen t u := by
  have fewer : ct.Leads (id :: seen) ≤ ct.Leads seen := fun _ _ => Leads.of_cons
  exact Relation.ReflTransGen.mono fewer t u reaches

theorem LowerLeadsOutside.of_cons {id : UInt32} {low id' : UInt32}
    (leads : ct.LowerLeadsOutside (id :: seen) low id') : ct.LowerLeadsOutside seen low id' :=
  ⟨List.not_mem_of_not_mem_cons leads.1, leads.2⟩

/-- A way from `t` goes around the variable `id`, or goes around it after the last of its bounds
that it comes to. -/
theorem reaches_around {id : UInt32} {b : Bounds} (found : ct.bounds? id = some b) {t u : Ty}
    (reaches : ct.Reaches seen t u) :
    ct.Reaches (id :: seen) t u ∨
      ∃ side, (b.lower = some side ∨ b.upper = side) ∧ ct.Reaches (id :: seen) side u := by
  induction reaches using Relation.ReflTransGen.head_induction_on with
  | refl => exact .inl .refl
  | head leads _ ih =>
    rcases ih with around | later
    · cases leads with
      | argument named member => exact .inl (around.head (.argument named member))
      | component => exact .inl (around.head (.component _ _))
      | @bound v b' _ isOpen fresh found' side =>
        by_cases same : v.id = id
        · obtain rfl : b' = b := Option.some.inj (found'.symm.trans (same ▸ found))
          exact .inr ⟨_, side, around⟩
        · have outside : v.id ∉ id :: seen := List.not_mem_cons_of_ne_of_not_mem same fresh
          exact .inl (around.head (.bound isOpen outside found' side))
    · exact .inr later

theorem not_writable_of_isNameless {t : Ty} (nameless : t.isNameless = true) :
    ¬ ct.Writable seen t := by
  intro writable
  have named : t.isNameless = false := writable t .refl
  rw [nameless] at named
  cases named

theorem Writable.of_leads {t u : Ty} (writable : ct.Writable seen t) (leads : ct.Leads seen t u) :
    ct.Writable seen u :=
  fun u' reaches => writable u' (reaches.head leads)

theorem writable_iff {t : Ty} (named : t.isNameless = false) :
    ct.Writable seen t ↔ ∀ u, ct.Leads seen t u → ct.Writable seen u := by
  constructor
  · exact fun writable u => writable.of_leads
  · intro next u reaches
    rcases reaches.cases_head with rfl | ⟨t', leads, rest⟩
    · exact named
    · exact next t' leads u rest

theorem writable_declared_iff {d : Decl} {nullable : Bool} {args : List Ty}
    (named : d.anonymous = false) :
    ct.Writable seen (.declared d nullable args) ↔ ∀ t ∈ args, ct.Writable seen t := by
  have whole : (Ty.declared d nullable args).isNameless = false := named
  rw [writable_iff whole]
  constructor
  · exact fun next t member => next t (.argument named member)
  · intro all u leads
    cases leads with
    | argument _ member => exact all u member

theorem writable_array_iff {component : Ty} {nullable : Bool} :
    ct.Writable seen (.array component nullable) ↔ ct.Writable seen component := by
  have whole : (Ty.array component nullable).isNameless = false := rfl
  rw [writable_iff whole]
  constructor
  · exact fun next => next component (.component _ _)
  · intro inside u leads
    cases leads
    exact inside

/-- The lower bound is looked at with the same marks, and only the upper bound with a mark on the
variable. -/
theorem writable_var_iff {v : TyVar} {b : Bounds} (isOpen : v.isOpen = true) (fresh : v.id ∉ seen)
    (found : ct.bounds? v.id = some b) :
    ct.Writable seen (.var v) ↔
      (∀ lower, b.lower = some lower → ct.Writable seen lower) ∧
        ct.Writable (v.id :: seen) b.upper := by
  constructor
  · intro writable
    refine ⟨fun lower below => writable.of_leads (.bound isOpen fresh found (.inl below)), ?_⟩
    intro u reaches
    exact writable.of_leads (.bound isOpen fresh found (.inr rfl)) u reaches.of_cons
  · rintro ⟨below, above⟩
    rw [writable_iff rfl]
    intro t leads u reaches
    cases leads with
    | @bound _ b' _ _ _ found' side =>
      obtain rfl : b' = b := Option.some.inj (found'.symm.trans found)
      rcases side with lower | rfl
      · exact below t lower u reaches
      · rcases reaches_around found reaches with around | ⟨side, lower | rfl, around⟩
        · exact above u around
        · exact below side lower u around.of_cons
        · exact above u around

/-- From `t` the check comes to a variable that it cannot go through: the table has no bounds for
it, or its lower bounds lead back to it. -/
def Blocked (ct : ClassTable) (seen : List UInt32) (t : Ty) (violation : Violation) : Prop :=
  ∃ v : TyVar, ct.Reaches seen t (.var v) ∧ v.isOpen = true ∧ v.id ∉ seen ∧
    (violation = .unboundVariable v ∧ ct.bounds? v.id = none ∨
      violation = .lowerBoundLoop v ∧
        Relation.TransGen (ct.LowerLeadsOutside seen) v.id v.id)

theorem Blocked.head {t u : Ty} {violation : Violation} (leads : ct.Leads seen t u)
    (blocked : ct.Blocked seen u violation) : ct.Blocked seen t violation := by
  obtain ⟨v, reaches, rest⟩ := blocked
  exact ⟨v, reaches.head leads, rest⟩

theorem Blocked.of_cons {id : UInt32} {t : Ty} {violation : Violation}
    (blocked : ct.Blocked (id :: seen) t violation) : ct.Blocked seen t violation := by
  obtain ⟨v, reaches, isOpen, fresh, unbound | ⟨rfl, loop⟩⟩ := blocked
  · exact ⟨v, reaches.of_cons, isOpen, List.not_mem_of_not_mem_cons fresh, .inl unbound⟩
  · have fewer : ct.LowerLeadsOutside (id :: seen) ≤ ct.LowerLeadsOutside seen :=
      fun _ _ => LowerLeadsOutside.of_cons
    have outside := Relation.TransGen.mono fewer v.id v.id loop
    exact ⟨v, reaches.of_cons, isOpen, List.not_mem_of_not_mem_cons fresh, .inr ⟨rfl, outside⟩⟩

def LeadTo (ct : ClassTable) (seen lows ids : List UInt32) : Prop :=
  ∀ low ∈ lows, ∀ id ∈ ids, Relation.TransGen (ct.LowerLeadsOutside seen) low id

theorem LeadTo.nil (ids : List UInt32) : ct.LeadTo seen [] ids := fun _ member => by cases member

/-- Going through the lower bound of a variable keeps what leads to all that comes next. -/
theorem LeadTo.cons {lows : List UInt32} {v : TyVar} {b : Bounds} {lower : Ty}
    (lead : ct.LeadTo seen lows [v.id]) (fresh : v.id ∉ seen) (found : ct.bounds? v.id = some b)
    (below : b.lower = some lower) : ct.LeadTo seen (v.id :: lows) lower.openIds := by
  intro low member id mentioned
  have step : ct.LowerLeadsOutside seen v.id id := ⟨fresh, b, lower, found, below, mentioned⟩
  rcases List.mem_cons.mp member with rfl | earlier
  · exact .single step
  · exact (lead low earlier v.id (List.mem_singleton_self _)).tail step

section Equations

variable {lows : List UInt32}

theorem Marked.of_val {m : Marked seen} {r : Except Violation Bool × List UInt32}
    (same : m.val = r) : ∃ kept, m = ⟨r, kept⟩ := by
  subst same
  exact ⟨m.property, rfl⟩

theorem Marked.val_ne_of_stopped {m : Marked seen}
    (stopped : ∀ marks kept, m = ⟨(.ok true, marks), kept⟩ → False) (marks : List UInt32) :
    m.val ≠ (.ok true, marks) := by
  intro same
  obtain ⟨kept, whole⟩ := Marked.of_val same
  exact stopped marks kept whole

theorem denotableFrom_var {v : TyVar} {b : Bounds} (isOpen : v.isOpen = true)
    (fresh : v.id ∉ seen) (found : ct.bounds? v.id = some b) :
    (ct.denotableFrom seen lows (.var v)).val
      = match (ct.lowerDenotableFrom seen lows v b found).val with
        | (.ok true, seen') =>
          let above := ct.denotableFrom (v.id :: seen') [] b.upper
          (above.val.1, above.val.2.erase v.id)
        | stopped => stopped := by
  rw [denotableFrom]
  simp only [isOpen, Bool.not_true, Bool.false_eq_true, if_false, fresh, dite_false]
  split
  · rename_i missing
    rw [found] at missing
    cases missing
  · rename_i b' found'
    obtain rfl : b = b' := Option.some.inj (found.symm.trans found')
    split
    · rename_i seen' kept lower
      rw [lower]
    · rename_i stopped
      split
      · rename_i seen' lower
        exact absurd lower (Marked.val_ne_of_stopped stopped seen')
      · rfl

theorem denotableFrom_var_of_stopped {v : TyVar} {b : Bounds} (isOpen : v.isOpen = true)
    (fresh : v.id ∉ seen) (found : ct.bounds? v.id = some b)
    (stopped : ∀ marks, (ct.lowerDenotableFrom seen lows v b found).val ≠ (.ok true, marks)) :
    (ct.denotableFrom seen lows (.var v)).val
      = (ct.lowerDenotableFrom seen lows v b found).val := by
  rw [denotableFrom_var isOpen fresh found]
  split
  · rename_i marks lower
    exact absurd lower (stopped marks)
  · rfl

theorem allDenotableFrom_cons (t : Ty) (rest : List Ty) :
    (ct.allDenotableFrom seen lows (t :: rest)).val
      = match (ct.denotableFrom seen lows t).val with
        | (.ok true, seen') => (ct.allDenotableFrom seen' lows rest).val
        | stopped => stopped := by
  rw [allDenotableFrom]
  split
  · rename_i seen' kept first
    rw [first]
  · rename_i stopped
    split
    · rename_i seen' first
      exact absurd first (Marked.val_ne_of_stopped stopped seen')
    · rfl

theorem allDenotableFrom_cons_of_stopped {t : Ty} (rest : List Ty)
    (stopped : ∀ marks, (ct.denotableFrom seen lows t).val ≠ (.ok true, marks)) :
    (ct.allDenotableFrom seen lows (t :: rest)).val = (ct.denotableFrom seen lows t).val := by
  rw [allDenotableFrom_cons]
  split
  · rename_i marks first
    exact absurd first (stopped marks)
  · rfl

end Equations

/-- What a check comes to: it leaves the marks as they were, decides whether `writable` holds, and
only stops for a violation that is `blocking`. -/
structure Checked (seen : List UInt32) (writable : Prop) (blocking : Violation → Prop)
    (r : Except Violation Bool × List UInt32) : Prop where
  marks : r.2 = seen
  decides : ∀ d, r.1 = .ok d → (d = true ↔ writable)
  stops : ∀ v, r.1 = .error v → blocking v

section Checked

variable {writable writable' : Prop} {blocking blocking' : Violation → Prop}
  {r : Except Violation Bool × List UInt32}

theorem checked_true (holds : writable) : Checked seen writable blocking (.ok true, seen) where
  marks := rfl
  decides d same := by
    obtain rfl := Except.ok.inj same
    exact iff_of_true rfl holds
  stops v same := by cases same

theorem checked_false (fails : ¬ writable) : Checked seen writable blocking (.ok false, seen) where
  marks := rfl
  decides d same := by
    obtain rfl := Except.ok.inj same
    exact iff_of_false Bool.false_ne_true fails
  stops v same := by cases same

theorem checked_error {v : Violation} (blocked : blocking v) :
    Checked seen writable blocking (.error v, seen) where
  marks := rfl
  decides d same := by cases same
  stops v' same := Except.error.inj same ▸ blocked

theorem Checked.congr (check : Checked seen writable blocking r) (same : writable ↔ writable')
    (stops : ∀ v, blocking v → blocking' v) : Checked seen writable' blocking' r where
  marks := check.marks
  decides d decided := (check.decides d decided).trans same
  stops v stopped := stops v (check.stops v stopped)

theorem Checked.next {marks : List UInt32}
    (first : Checked seen writable blocking (.ok true, marks))
    (later : Checked seen writable' blocking' r) :
    Checked seen (writable ∧ writable') blocking' r where
  marks := later.marks
  decides d decided :=
    (later.decides d decided).trans
      (and_iff_right ((first.decides true rfl).mp rfl)).symm
  stops := later.stops

theorem Checked.stopped (first : Checked seen writable blocking r)
    (ends : ∀ marks, r ≠ (.ok true, marks)) : Checked seen (writable ∧ writable') blocking r where
  marks := first.marks
  decides d decided := by
    cases d with
    | true =>
      have same : r = (.ok true, r.2) := Prod.ext decided rfl
      exact absurd same (ends r.2)
    | false =>
      have fails : ¬ writable := fun holds => by
        cases (first.decides false decided).mpr holds
      exact iff_of_false Bool.false_ne_true fun both => fails both.1
  stops := first.stops

end Checked

/-- The variables whose lower bounds led to a type lead to all that it mentions. So if the check
stops at one of them, its lower bounds lead back to it. -/
theorem checked_denotableFrom (ct : ClassTable) (seen lows : List UInt32) (t : Ty) :
    Checked seen (ct.Writable seen t)
      (fun e => ct.LeadTo seen lows t.openIds → ct.Blocked seen t e)
      (ct.denotableFrom seen lows t).val := by
  refine denotableFrom.induct ct
    (fun seen lows t => Checked seen (ct.Writable seen t)
      (fun e => ct.LeadTo seen lows t.openIds → ct.Blocked seen t e)
      (ct.denotableFrom seen lows t).val)
    (fun seen lows v b found => v.isOpen = true → v.id ∉ seen →
      Checked seen (∀ lower, b.lower = some lower → ct.Writable seen lower)
        (fun e => ct.LeadTo seen lows [v.id] → ct.Blocked seen (.var v) e)
        (ct.lowerDenotableFrom seen lows v b found).val)
    (fun seen lows ts => Checked seen (∀ t ∈ ts, ct.Writable seen t)
      (fun e => ct.LeadTo seen lows (Ty.allOpenIds ts) → ∃ t ∈ ts, ct.Blocked seen t e)
      (ct.allDenotableFrom seen lows ts).val)
    ?prim ?union ?inter ?anonymous ?declared ?array ?closed ?marked ?unbound ?above ?stopped
    ?unlimited ?loop ?lower ?none ?next ?last seen lows t
  case prim =>
    intro seen lows p
    rw [denotableFrom]
    exact checked_true ((writable_iff rfl).mpr fun u leads => by cases leads)
  case union =>
    intro seen lows members
    rw [denotableFrom]
    exact checked_false (not_writable_of_isNameless rfl)
  case inter =>
    intro seen lows members
    rw [denotableFrom]
    exact checked_false (not_writable_of_isNameless rfl)
  case anonymous =>
    intro seen lows d nullable args anonymous
    rw [denotableFrom, if_pos anonymous]
    exact checked_false (not_writable_of_isNameless anonymous)
  case declared =>
    intro seen lows d nullable args named ih
    have whole : d.anonymous = false := by simpa using named
    rw [denotableFrom, if_neg named]
    refine ih.congr (writable_declared_iff whole).symm fun e blocked lead => ?_
    rw [Ty.openIds, if_neg named] at lead
    obtain ⟨t, member, inside⟩ := blocked lead
    exact inside.head (.argument whole member)
  case array =>
    intro seen lows component nullable ih
    rw [denotableFrom]
    refine ih.congr writable_array_iff.symm fun e blocked lead => ?_
    rw [Ty.openIds] at lead
    exact (blocked lead).head (.component _ _)
  case closed =>
    intro seen lows v closed
    rw [denotableFrom, if_pos closed]
    refine checked_true ((writable_iff rfl).mpr fun u leads => ?_)
    cases leads with
    | bound isOpen => simp [isOpen] at closed
  case marked =>
    intro seen lows v isOpen marked
    rw [denotableFrom, if_neg isOpen, dif_pos marked]
    refine checked_true ((writable_iff rfl).mpr fun u leads => ?_)
    cases leads with
    | bound _ fresh => exact absurd marked fresh
  case unbound =>
    intro seen lows v isOpen fresh missing
    rw [denotableFrom, if_neg isOpen, dif_neg fresh]
    split
    · exact checked_error fun _ => ⟨v, .refl, by simpa using isOpen, fresh, .inl ⟨rfl, missing⟩⟩
    · rename_i b found
      rw [missing] at found
      cases found
  case above =>
    intro seen lows v isOpen fresh b found seen' kept lower ihLower ihAbove
    have isOpen : v.isOpen = true := by simpa using isOpen
    have below := ihLower isOpen fresh
    rw [lower] at below
    obtain rfl : seen' = seen := below.marks
    rw [denotableFrom_var isOpen fresh found, lower]
    have above : Checked seen' (ct.Writable (v.id :: seen') b.upper)
        (fun e => ct.LeadTo seen' lows (Ty.var v).openIds → ct.Blocked seen' (.var v) e)
        ((ct.denotableFrom (v.id :: seen') [] b.upper).val.1,
          (ct.denotableFrom (v.id :: seen') [] b.upper).val.2.erase v.id) := by
      refine ⟨?_, ihAbove.decides, fun e stopped _ => ?_⟩
      · change List.erase _ _ = _
        rw [ihAbove.marks, List.erase_cons_head]
      · exact (ihAbove.stops e stopped (LeadTo.nil _)).of_cons.head
          (.bound isOpen fresh found (.inr rfl))
    exact (below.next above).congr (writable_var_iff isOpen fresh found).symm fun _ => id
  case stopped =>
    intro seen lows v isOpen fresh b found stopped ih
    have isOpen : v.isOpen = true := by simpa using isOpen
    have ends := Marked.val_ne_of_stopped stopped
    rw [denotableFrom_var_of_stopped isOpen fresh found ends]
    refine ((ih isOpen fresh).stopped ends).congr (writable_var_iff isOpen fresh found).symm
      fun e blocked lead => ?_
    rw [Ty.openIds, if_pos isOpen] at lead
    exact blocked lead
  case unlimited =>
    intro seen lows v b found unlimited _ _
    rw [lowerDenotableFrom]
    split
    · exact checked_true fun lower below => by
        rw [unlimited] at below
        cases below
    · rename_i lower below
      rw [unlimited] at below
      cases below
  case loop =>
    intro seen lows v b found lower below looping isOpen fresh
    rw [lowerDenotableFrom]
    split
    · rename_i unlimited
      rw [below] at unlimited
      cases unlimited
    · rw [dif_pos looping]
      exact checked_error fun lead => ⟨v, .refl, isOpen, fresh,
        .inr ⟨rfl, lead v.id looping v.id (List.mem_singleton_self _)⟩⟩
  case lower =>
    intro seen lows v b found lower below fresh' _ ih isOpen fresh
    rw [lowerDenotableFrom]
    split
    · rename_i unlimited
      rw [below] at unlimited
      cases unlimited
    · rename_i lower' below'
      obtain rfl : lower = lower' := Option.some.inj (below.symm.trans below')
      rw [dif_neg fresh']
      refine ih.congr ?_ fun e blocked lead => ?_
      · rw [below]
        simp
      · exact (blocked (lead.cons fresh found below)).head (.bound isOpen fresh found (.inl below))
  case none =>
    intro seen lows
    rw [allDenotableFrom]
    exact checked_true fun t member => by cases member
  case next =>
    intro seen lows t rest seen' kept first ihFirst ihRest
    rw [first] at ihFirst
    obtain rfl : seen' = seen := ihFirst.marks
    rw [allDenotableFrom_cons, first]
    refine (ihFirst.next ihRest).congr List.forall_mem_cons.symm
      fun e blocked lead => ?_
    rw [Ty.allOpenIds] at lead
    obtain ⟨t', member, inside⟩ := blocked fun low from' id mentioned =>
      lead low from' id (List.mem_append_right _ mentioned)
    exact ⟨t', List.mem_cons_of_mem t member, inside⟩
  case last =>
    intro seen lows t rest stopped ih
    have ends := Marked.val_ne_of_stopped stopped
    rw [allDenotableFrom_cons_of_stopped rest ends]
    refine (ih.stopped ends).congr List.forall_mem_cons.symm fun e blocked lead => ?_
    rw [Ty.allOpenIds] at lead
    refine ⟨t, List.mem_cons_self, blocked fun low from' id mentioned => ?_⟩
    exact lead low from' id (List.mem_append_left _ mentioned)

/-- Every variable that the check may come to from `t` has bounds, and none leads back to itself
through lower bounds alone. -/
structure Grounded (ct : ClassTable) (seen : List UInt32) (t : Ty) : Prop where
  bounded : ∀ v : TyVar, ct.Reaches seen t (.var v) → v.isOpen = true → v.id ∉ seen →
    (ct.bounds? v.id).isSome
  acyclic : ∀ v : TyVar, ct.Reaches seen t (.var v) → v.isOpen = true → v.id ∉ seen →
    ¬ Relation.TransGen (ct.LowerLeadsOutside seen) v.id v.id

theorem Grounded.not_blocked {t : Ty} (grounded : ct.Grounded seen t) (violation : Violation) :
    ¬ ct.Blocked seen t violation := by
  rintro ⟨v, reaches, isOpen, fresh, ⟨_, missing⟩ | ⟨_, loop⟩⟩
  · have found := grounded.bounded v reaches isOpen fresh
    rw [missing] at found
    cases found
  · exact grounded.acyclic v reaches isOpen fresh loop

theorem denotable_of_grounded {t : Ty} (grounded : ct.Grounded seen t) :
    ∃ d, (ct.denotable t seen).1 = .ok d ∧ (d = true ↔ ct.Writable seen t) := by
  have check : Checked seen _ _ (ct.denotable t seen) := checked_denotableFrom ct seen [] t
  cases answer : (ct.denotable t seen).1 with
  | ok d => exact ⟨d, rfl, check.decides d answer⟩
  | error v => exact absurd (check.stops v answer (LeadTo.nil _)) (grounded.not_blocked v)

/-- The check has an answer, and the answer is whether the type leads to no type without a written
form. -/
theorem denotable_iff_reaches (ct : ClassTable) (seen : List UInt32) (t : Ty)
    (grounded : ct.Grounded seen t) :
    ((ct.denotable t seen).1 = .ok true ↔
      ¬ ∃ u, ct.Reaches seen t u ∧ u.isNameless = true) ∧
    ((ct.denotable t seen).1 = .ok false ↔
      ∃ u, ct.Reaches seen t u ∧ u.isNameless = true) := by
  obtain ⟨d, answer, decides⟩ := denotable_of_grounded grounded
  have writable_iff_none :
      ct.Writable seen t ↔ ¬ ∃ u, ct.Reaches seen t u ∧ u.isNameless = true := by
    simp [Writable]
  rw [answer]
  cases d with
  | true =>
    have none := writable_iff_none.mp (decides.mp rfl)
    exact ⟨iff_of_true rfl none, iff_of_false (fun same => by cases same) none⟩
  | false =>
    have some : ¬ ¬ ∃ u, ct.Reaches seen t u ∧ u.isNameless = true := fun none =>
      Bool.false_ne_true (decides.mpr (writable_iff_none.mpr none))
    exact ⟨iff_of_false (fun same => by cases same) some,
      iff_of_true rfl (Classical.not_not.mp some)⟩

end ClassTable

namespace Sample

def box : Decl := ⟨1, "Box", false, [⟨0, "E", .parameter, false⟩]⟩

def content : TyVar := ⟨1, "capture#1", .capture, false⟩

def filler : TyVar := ⟨2, "?", .wildcard, false⟩

def lambda : Ty := .of ⟨2, "Outer$1", true, []⟩ []

/-- A capture that is bounded by boxes of a wildcard, which is itself bounded by the capture, and
from below by an anonymous class. -/
def boxes : ClassTable :=
  .ofLists [ClassTable.object, box, ⟨2, "Outer$1", true, []⟩]
    [(0, ⟨ClassTable.top, none⟩), (1, ⟨.of box [.var filler], none⟩),
      (2, ⟨.var content, some lambda⟩)] []

theorem reaches_boxes {u : Ty} (reaches : boxes.Reaches [] (.var content) u) :
    u = .var content ∨ u = .of box [.var filler] ∨ u = .var filler ∨ u = lambda := by
  induction reaches with
  | refl => exact .inl rfl
  | tail _ leads ih =>
    rcases ih with rfl | rfl | rfl | rfl
    · cases leads with
      | bound _ _ found side =>
        obtain rfl := Option.some.inj found
        rcases side with lower | rfl
        · cases lower
        · exact .inr (.inl rfl)
    · cases leads with
      | argument _ member =>
        obtain rfl := List.mem_singleton.mp member
        exact .inr (.inr (.inl rfl))
    · cases leads with
      | bound _ _ found side =>
        obtain rfl := Option.some.inj found
        rcases side with lower | rfl
        · exact .inr (.inr (.inr (Option.some.inj lower).symm))
        · exact .inl rfl
    · cases leads with
      | argument named _ => cases named

theorem grounded_boxes : boxes.Grounded [] (.var content) where
  bounded v reaches isOpen _ := by
    rcases reaches_boxes reaches with same | same | same | same
    · obtain rfl := Ty.var.inj same
      rfl
    · cases same
    · obtain rfl := Ty.var.inj same
      rfl
    · cases same
  acyclic v reaches isOpen _ loop := by
    -- The only lower bound is a class that cannot be named, and it mentions no variable.
    have leads : ∃ id, boxes.LowerLeads v.id id := by
      obtain ⟨id, ⟨_, leads⟩, _⟩ := Relation.TransGen.head'_iff.mp loop
      exact ⟨id, leads⟩
    obtain ⟨id, b, lower, found, below, mentioned⟩ := leads
    rcases reaches_boxes reaches with same | same | same | same
    · obtain rfl := Ty.var.inj same
      obtain rfl := Option.some.inj found
      cases below
    · cases same
    · obtain rfl := Ty.var.inj same
      obtain rfl := Option.some.inj found
      obtain rfl := Option.some.inj below
      cases mentioned
    · cases same

theorem denotable_iff_reaches_boxes : boxes.Grounded [] (.var content) ∧
    (∃ u, boxes.Reaches [] (.var content) u ∧ u.isNameless = true) ∧
    (boxes.denotable (.var content) []).1 = .ok false := by
  have toBox : boxes.Leads [] (.var content) (.of box [.var filler]) :=
    .bound rfl List.not_mem_nil rfl (.inr rfl)
  have toFiller : boxes.Leads [] (.of box [.var filler]) (.var filler) :=
    .argument rfl (List.mem_singleton_self _)
  have toLambda : boxes.Leads [] (.var filler) lambda :=
    .bound rfl List.not_mem_nil rfl (.inl rfl)
  have found : ∃ u, boxes.Reaches [] (.var content) u ∧ u.isNameless = true :=
    ⟨lambda, ((Relation.ReflTransGen.single toBox).tail toFiller).tail toLambda, rfl⟩
  exact ⟨grounded_boxes, found,
    (boxes.denotable_iff_reaches [] (.var content) grounded_boxes).2.mpr found⟩

end Sample

end NullabilityCasts
