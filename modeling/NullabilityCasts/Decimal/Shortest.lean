/-!
# Shortest decimals

The decimal with the fewest digits that rounds to a given binary fraction. All comparisons are
exact, on natural numbers.
-/

set_option autoImplicit false

namespace NullabilityCasts.Decimal

structure Scaled where
  significand : Nat
  exponent : Int
  deriving DecidableEq, Repr

def digitCount (n : Nat) : Nat := if n = 0 then 0 else (Nat.toDigits 10 n).length

/-- The least `p` with `num / den < 10 ^ p`, for a positive fraction. -/
def magnitude (num den : Nat) : Int :=
  if den ≤ num then digitCount (num / den)
  else 1 - (digitCount ((den + num - 1) / num - 1) : Int)

/-- A positive binary fraction `m * 2 ^ q` as it is rounded to: the numbers less than half a step
away belong to it, where the step down is half as long if `narrow`, and the two ends belong to it
if `m` is even. -/
structure Binary where
  m : Nat
  q : Int
  narrow : Bool
  deriving DecidableEq, Repr

namespace Binary

/-- The numerator and denominator of one unit of `m`, measured in units of `10 ^ e`. -/
def unit (x : Binary) (e : Int) : Nat × Nat :=
  (Nat.pow 2 x.q.toNat * Nat.pow 10 (-e).toNat, Nat.pow 2 (-x.q).toNat * Nat.pow 10 e.toNat)

def covers (x : Binary) (e : Int) (c : Nat) : Bool :=
  let (num, den) := x.unit e
  let low := (4 * x.m - if x.narrow then 1 else 2) * num
  let high := (4 * x.m + 2) * num
  let point := 4 * c * den
  if x.m % 2 = 0 then low ≤ point && point ≤ high else low < point && point < high

/-- The multiple of `10 ^ e` next to `x` that rounds to it. Of two it is the nearer one, and the
upper one if both are equally near. -/
def neighbour? (x : Binary) (e : Int) : Option Nat :=
  let (num, den) := x.unit e
  let below := x.m * num / den
  let above := below + 1
  match x.covers e below, x.covers e above with
  | true, true => if 2 * (x.m * num - below * den) < den then some below else some above
  | true, false => some below
  | false, true => some above
  | false, false => none

/-- The first grid with a multiple that rounds to `x`, from `digits` digits on. -/
def search (x : Binary) (position : Int) (digits : Nat) : Nat → Scaled
  | 0 =>
    let (num, den) := x.unit (position - digits)
    ⟨x.m * num / den, position - digits⟩
  | fuel + 1 =>
    match x.neighbour? (position - digits) with
    | some c => ⟨c, position - digits⟩
    | none => x.search position (digits + 1) fuel

/-- Seventeen digits tell any two doubles apart. -/
def shortest (x : Binary) : Scaled :=
  let (num, den) := x.unit 0
  x.search (magnitude (x.m * num) den) 1 17

end Binary

end NullabilityCasts.Decimal
