import NullabilityCasts.Proofs.ClassTable.Agreement

/-!
# Chains of bounds

Projection goes along the chain in which each wildcard or capture is followed by the bound preferred
for it. It gives the first type on the chain that is neither, and fails where the chain comes back
to a variable or to one that the table does not know.
-/

set_option autoImplicit false

namespace NullabilityCasts

namespace ClassTable

variable {ct : ClassTable}

/-- The bound that comes after a variable: its lower bound if it has one, else its upper bound. -/
def Follows (ct : ClassTable) (v : TyVar) (t : Ty) : Prop :=
  ∃ b, ct.bounds? v.id = some b ∧ (b.lower = some t ∨ b.lower = none ∧ b.upper = t)

theorem follows_iff {v : TyVar} {b : Bounds} {t : Ty} (found : ct.bounds? v.id = some b) :
    ct.Follows v t ↔ b.preferred = t := by
  have only : ct.Follows v t ↔ b.lower = some t ∨ b.lower = none ∧ b.upper = t := by
    constructor
    · rintro ⟨b', found', side⟩
      obtain rfl : b = b' := Option.some.inj (found.symm.trans found')
      exact side
    · exact fun side => ⟨b, found, side⟩
  rw [only, Bounds.preferred]
  cases b.lower <;> simp

/-- The chain of bounds from a type to another one, through the wildcards and captures in `vs`. -/
inductive Chain (ct : ClassTable) : Ty → List TyVar → Ty → Prop where
  | here (t : Ty) : Chain ct t [] t
  | next {v : TyVar} {t u : Ty} {vs : List TyVar} (isOpen : v.isOpen = true)
      (follows : ct.Follows v t) (rest : Chain ct t vs u) : Chain ct (.var v) (v :: vs) u

/-- A chain that comes through no variable twice, and through none of those in `visited`. -/
structure SimpleChain (ct : ClassTable) (visited : List UInt32) (t : Ty) (vs : List TyVar)
    (u : Ty) : Prop where
  chain : ct.Chain t vs u
  simple : (vs.map TyVar.id).Nodup
  outside : ∀ v ∈ vs, v.id ∉ visited

def EndsIn (ct : ClassTable) (visited : List UInt32) (t : Ty) : Except Violation Ty → Prop
  | .ok u => ∃ vs, ct.SimpleChain visited t vs u ∧ u.isOpen = false
  | .error e => ∃ vs v, ct.SimpleChain visited t vs (.var v) ∧ v.isOpen = true ∧
      (e = .boundLoop v ∧ v.id ∈ vs.map TyVar.id ++ visited ∨
        e = .unboundVariable v ∧ v.id ∉ vs.map TyVar.id ++ visited ∧ ct.bounds? v.id = none)

variable {visited : List UInt32}

theorem SimpleChain.nil (visited : List UInt32) (t : Ty) : ct.SimpleChain visited t [] t :=
  ⟨.here t, List.nodup_nil, fun _ member => by cases member⟩

theorem simpleChain_cons_iff {v w : TyVar} {vs : List TyVar} {u : Ty} :
    ct.SimpleChain visited (.var v) (w :: vs) u ↔ v = w ∧ v.isOpen = true ∧ v.id ∉ visited ∧
      ∃ t, ct.Follows v t ∧ ct.SimpleChain (v.id :: visited) t vs u := by
  constructor
  · rintro ⟨chain, simple, outside⟩
    cases chain with
    | next isOpen follows rest =>
      obtain ⟨fresh, simple⟩ := List.nodup_cons.mp simple
      refine ⟨rfl, isOpen, outside v List.mem_cons_self, _, follows, rest, simple, ?_⟩
      intro v' member known
      rcases List.mem_cons.mp known with same | earlier
      · exact fresh (List.mem_map.mpr ⟨v', member, same⟩)
      · exact outside v' (List.mem_cons_of_mem _ member) earlier
  · rintro ⟨rfl, isOpen, fresh, t, follows, chain, simple, outside⟩
    refine ⟨.next isOpen follows chain, List.nodup_cons.mpr ⟨fun member => ?_, simple⟩, ?_⟩
    · obtain ⟨v', later, same⟩ := List.mem_map.mp member
      exact outside v' later (same ▸ List.mem_cons_self)
    · intro v' member
      rcases List.mem_cons.mp member with rfl | later
      · exact fresh
      · exact fun earlier => outside v' later (List.mem_cons_of_mem _ earlier)

theorem Chain.found {t u : Ty} {vs : List TyVar} (chain : ct.Chain t vs u) :
    ∀ v ∈ vs, ∃ b, ct.bounds? v.id = some b := by
  induction chain with
  | here t => exact fun _ member => by cases member
  | @next v t u vs isOpen follows rest ih =>
    obtain ⟨b, found, _⟩ := follows
    exact List.forall_mem_cons.mpr ⟨⟨b, found⟩, ih⟩

theorem eq_of_chain {t u : Ty} {vs : List TyVar} (closed : t.isOpen = false)
    (chain : ct.Chain t vs u) : vs = [] ∧ u = t := by
  cases chain with
  | here => exact ⟨rfl, rfl⟩
  | next isOpen _ _ =>
    rw [Ty.isOpen, isOpen] at closed
    cases closed

theorem endsIn_of_closed {t : Ty} (closed : t.isOpen = false) (r : Except Violation Ty) :
    ct.EndsIn visited t r ↔ r = .ok t := by
  constructor
  · intro ends
    cases r with
    | ok u =>
      obtain ⟨vs, chain, _⟩ := ends
      rw [(eq_of_chain closed chain.chain).2]
    | error e =>
      obtain ⟨vs, v, chain, isOpen, _⟩ := ends
      rw [← (eq_of_chain closed chain.chain).2, Ty.isOpen, isOpen] at closed
      cases closed
  · rintro rfl
    exact ⟨[], .nil visited t, closed⟩

theorem chain_of_stuck {v : TyVar} {vs : List TyVar} {u : Ty}
    (stuck : v.id ∉ visited → ct.bounds? v.id = none)
    (chain : ct.SimpleChain visited (.var v) vs u) : vs = [] ∧ u = .var v := by
  cases vs with
  | nil =>
    cases chain.chain
    exact ⟨rfl, rfl⟩
  | cons w vs =>
    obtain ⟨_, _, fresh, t, ⟨b, found, _⟩, _⟩ := simpleChain_cons_iff.mp chain
    rw [stuck fresh] at found
    cases found

/-- From a variable that the chain does not get past there is nothing to come to but an error. -/
theorem endsIn_of_stuck {v : TyVar} (isOpen : v.isOpen = true)
    (stuck : v.id ∉ visited → ct.bounds? v.id = none) (r : Except Violation Ty) :
    ct.EndsIn visited (.var v) r ↔
      r = .error (if v.id ∈ visited then .boundLoop v else .unboundVariable v) := by
  constructor
  · intro ends
    cases r with
    | ok u =>
      obtain ⟨vs, chain, closed⟩ := ends
      rw [(chain_of_stuck stuck chain).2, Ty.isOpen, isOpen] at closed
      cases closed
    | error e =>
      obtain ⟨vs, w, chain, _, cause⟩ := ends
      obtain ⟨rfl, same⟩ := chain_of_stuck stuck chain
      obtain rfl : w = v := Ty.var.inj same
      rcases cause with ⟨rfl, again⟩ | ⟨rfl, fresh, _⟩
      · exact congrArg Except.error (if_pos again).symm
      · exact congrArg Except.error (if_neg fresh).symm
  · rintro rfl
    refine ⟨[], v, .nil visited _, isOpen, ?_⟩
    by_cases again : v.id ∈ visited
    · exact .inl ⟨if_pos again, again⟩
    · exact .inr ⟨if_neg again, again, stuck again⟩

theorem endsIn_of_found {v : TyVar} {b : Bounds} (isOpen : v.isOpen = true) (fresh : v.id ∉ visited)
    (found : ct.bounds? v.id = some b) (r : Except Violation Ty) :
    ct.EndsIn visited (.var v) r ↔ ct.EndsIn (v.id :: visited) b.preferred r := by
  have onward {vs : List TyVar} {u : Ty} : ct.SimpleChain visited (.var v) (v :: vs) u ↔
      ct.SimpleChain (v.id :: visited) b.preferred vs u := by
    simp [simpleChain_cons_iff, isOpen, fresh, follows_iff found]
  have passed {vs : List TyVar} {w : TyVar} : w.id ∈ (v :: vs).map TyVar.id ++ visited ↔
      w.id ∈ vs.map TyVar.id ++ v.id :: visited := by
    simp [or_left_comm]
  constructor
  · intro ends
    cases r with
    | ok u =>
      obtain ⟨vs, chain, closed⟩ := ends
      cases vs with
      | nil =>
        cases chain.chain
        rw [Ty.isOpen, isOpen] at closed
        cases closed
      | cons w vs =>
        obtain rfl : v = w := (simpleChain_cons_iff.mp chain).1
        exact ⟨vs, onward.mp chain, closed⟩
    | error e =>
      obtain ⟨vs, w, chain, isOpen', cause⟩ := ends
      cases vs with
      | nil =>
        cases chain.chain
        rcases cause with ⟨_, again⟩ | ⟨_, _, missing⟩
        · exact absurd again fresh
        · rw [found] at missing
          cases missing
      | cons w' vs =>
        obtain rfl : v = w' := (simpleChain_cons_iff.mp chain).1
        rw [passed] at cause
        exact ⟨vs, w, onward.mp chain, isOpen', cause⟩
  · intro ends
    cases r with
    | ok u =>
      obtain ⟨vs, chain, closed⟩ := ends
      exact ⟨v :: vs, onward.mpr chain, closed⟩
    | error e =>
      obtain ⟨vs, w, chain, isOpen', cause⟩ := ends
      rw [← passed] at cause
      exact ⟨v :: vs, w, onward.mpr chain, isOpen', cause⟩

theorem projectFrom_eq_iff (visited : List UInt32) (t : Ty) (r : Except Violation Ty) :
    ct.projectFrom visited t = r ↔ ct.EndsIn visited t r := by
  induction visited, t using projectFrom.induct ct with
  | case1 visited v closed =>
    have closed' : v.isOpen = false := by simpa using closed
    rw [endsIn_of_closed (t := .var v) closed', projectFrom, if_pos closed, eq_comm]
  | case2 visited v isOpen again =>
    have isOpen' : v.isOpen = true := by simpa using isOpen
    rw [endsIn_of_stuck isOpen' fun fresh => absurd again fresh, if_pos again, projectFrom,
      if_neg isOpen, if_pos again, eq_comm]
  | case3 visited v isOpen fresh missing =>
    have isOpen' : v.isOpen = true := by simpa using isOpen
    rw [endsIn_of_stuck isOpen' fun _ => missing, if_neg fresh, projectFrom, if_neg isOpen,
      if_neg fresh, eq_comm]
    split
    · rfl
    · rename_i b found
      rw [missing] at found
      cases found
  | case4 visited v isOpen fresh b found ih =>
    have isOpen' : v.isOpen = true := by simpa using isOpen
    rw [endsIn_of_found isOpen' fresh found, ← ih, projectFrom, if_neg isOpen, if_neg fresh]
    split
    · rename_i missing
      rw [found] at missing
      cases missing
    · rename_i b' found'
      obtain rfl : b = b' := Option.some.inj (found.symm.trans found')
      rfl
  | case5 visited t other =>
    have closed : t.isOpen = false := by
      cases t with
      | var v => exact absurd rfl (other v)
      | _ => rfl
    rw [endsIn_of_closed closed, projectFrom, eq_comm]
    exact other

/-- Projection gives the first type on the chain that is no wildcard or capture, and is the identity
there. It fails if the chain comes to a variable a second time, or to one without bounds. -/
theorem project_end_of_chain (ct : ClassTable) (t : Ty) :
    (∀ u, ct.project t = .ok u ↔ ∃ vs, ct.SimpleChain [] t vs u ∧ u.isOpen = false) ∧
    (∀ u, ct.project t = .ok u → u.isOpen = false ∧ ct.project u = .ok u) ∧
    (∀ e, ct.project t = .error e ↔ ∃ vs v, ct.SimpleChain [] t vs (.var v) ∧ v.isOpen = true ∧
      (e = .boundLoop v ∧ v.id ∈ vs.map TyVar.id ∨
        e = .unboundVariable v ∧ ct.bounds? v.id = none)) ∧
    ((¬ ∃ vs u, ct.SimpleChain [] t vs u ∧ u.isOpen = false) → ∃ e, ct.project t = .error e) := by
  have ends {u : Ty} :
      ct.project t = .ok u ↔ ∃ vs, ct.SimpleChain [] t vs u ∧ u.isOpen = false :=
    projectFrom_eq_iff [] t (.ok u)
  refine ⟨fun _ => ends, ?_, ?_, ?_⟩
  · intro u projected
    obtain ⟨vs, _, closed⟩ := ends.mp projected
    exact ⟨closed, project_of_not_isOpen closed⟩
  · intro e
    rw [project, projectFrom_eq_iff, EndsIn]
    simp only [List.append_nil]
    constructor
    · rintro ⟨vs, v, chain, isOpen, loop | ⟨same, _, missing⟩⟩
      · exact ⟨vs, v, chain, isOpen, .inl loop⟩
      · exact ⟨vs, v, chain, isOpen, .inr ⟨same, missing⟩⟩
    · rintro ⟨vs, v, chain, isOpen, loop | ⟨same, missing⟩⟩
      · exact ⟨vs, v, chain, isOpen, .inl loop⟩
      · refine ⟨vs, v, chain, isOpen, .inr ⟨same, fun member => ?_, missing⟩⟩
        obtain ⟨w, earlier, equal⟩ := List.mem_map.mp member
        obtain ⟨b, found⟩ := chain.chain.found w earlier
        rw [equal, missing] at found
        cases found
  · intro nowhere
    cases outcome : ct.project t with
    | ok u =>
      obtain ⟨vs, reached⟩ := ends.mp outcome
      exact absurd ⟨vs, u, reached⟩ nowhere
    | error e => exact ⟨e, rfl⟩

end ClassTable

end NullabilityCasts
