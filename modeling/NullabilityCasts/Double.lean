import NullabilityCasts.Decimal.Shortest

/-!
# Double-precision numbers

A number is its IEEE 754 bit pattern, so two zeros and all NaNs stay apart; `==` is the comparison
of the values.
-/

set_option autoImplicit false

namespace NullabilityCasts

structure Double where
  bits : UInt64
  deriving DecidableEq, Repr

namespace Double

def isNegative (x : Double) : Bool := x.bits >>> 63 == 1

def exponentBits (x : Double) : Nat := (x.bits >>> 52).toNat % 2048

def fractionBits (x : Double) : Nat := x.bits.toNat % Nat.pow 2 52

def isFinite (x : Double) : Bool := x.exponentBits < 2047

def isNaN (x : Double) : Bool := !x.isFinite && x.fractionBits != 0

def isZero (x : Double) : Bool := x.exponentBits == 0 && x.fractionBits == 0

/-- NaN differs from every number, itself included, and the two zeros are equal. -/
def sameValue (x y : Double) : Bool :=
  !x.isNaN && !y.isNaN && (x.bits == y.bits || x.isZero && y.isZero)

instance : BEq Double := ⟨sameValue⟩

/-- The number of the given sign with the absolute value `(2 ^ 52 + fraction) / 2 ^ 52` times
`2 ^ exponent`, or infinity beyond the greatest exponent. -/
def ofParts (negative : Bool) (exponent fraction : Nat) : Double :=
  let magnitude :=
    if exponent < 1024 then (exponent + 1023) * Nat.pow 2 52 + fraction else 2047 * Nat.pow 2 52
  ⟨UInt64.ofNat (magnitude + if negative then Nat.pow 2 63 else 0)⟩

/-- The nearest double; of two equally near ones the one with an even fraction. -/
def ofNat (negative : Bool) (n : Nat) : Double :=
  if n = 0 then ⟨if negative then 0x8000000000000000 else 0⟩
  else
    let top := n.log2
    if top ≤ 52 then ofParts negative top (n * Nat.pow 2 (52 - top) - Nat.pow 2 52)
    else
      let unit := Nat.pow 2 (top - 52)
      let whole := n / unit
      let rest := n % unit
      let rounded :=
        if 2 * rest > unit || (2 * rest == unit && whole % 2 == 1) then whole + 1 else whole
      if rounded = Nat.pow 2 53 then ofParts negative (top + 1) 0
      else ofParts negative top (rounded - Nat.pow 2 52)

def ofInt (n : Int) : Double := ofNat (n < 0 : Bool) n.natAbs

def magnitude (x : Double) : Decimal.Binary :=
  if x.exponentBits = 0 then ⟨x.fractionBits, -1074, false⟩
  else
    ⟨Nat.pow 2 52 + x.fractionBits, x.exponentBits - 1075,
      x.fractionBits == 0 && x.exponentBits != 1⟩

def zeros (n : Nat) : List Char := List.replicate n '0'

/-- The digits of a positive decimal, laid out without an exponent from 0.0001 up to 16 places
before the point, and with an exponent otherwise. Plain notation always has a fraction. -/
def layout (d : Decimal.Scaled) : List Char :=
  let all := Nat.toDigits 10 d.significand
  let digits := (all.reverse.dropWhile (· == '0')).reverse
  let point := d.exponent + all.length
  if point < -3 || 16 < point then
    let fraction := digits.drop 1
    digits.take 1 ++ (if fraction.isEmpty then [] else '.' :: fraction) ++ 'e' ::
      (toString (point - 1)).toList
  else if point ≤ 0 then '0' :: '.' :: zeros (-point).toNat ++ digits
  else
    let places := point.toNat
    if digits.length ≤ places then digits ++ zeros (places - digits.length) ++ ['.', '0']
    else digits.take places ++ '.' :: digits.drop places

def text (x : Double) : String :=
  if x.isNaN then "NaN"
  else
    let sign := if x.isNegative then "-" else ""
    if !x.isFinite then sign ++ "inf"
    else if x.isZero then sign ++ "0.0"
    else sign ++ String.ofList (layout x.magnitude.shortest)

instance : ToString Double := ⟨text⟩

end Double

end NullabilityCasts
