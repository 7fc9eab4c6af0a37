import NullabilityCasts.Double

/-!
# JSON values

Values with the readers for their parts. A record is written as an object and is also read from an
array of its fields in order; a choice between variants is written as an object with one entry or,
for a variant without data, as a string. A number that is written without fraction and exponent is
an integer.
-/

set_option autoImplicit false

namespace NullabilityCasts

inductive Json where
  | null
  | bool (value : Bool)
  | int (value : Int)
  | double (value : Double)
  | str (value : String)
  | arr (items : List Json)
  | obj (entries : List (String × Json))

namespace Json

mutual

def depth : Json → Nat
  | arr items => depthAll items + 1
  | obj entries => depthEntries entries + 1
  | _ => 0

def depthAll : List Json → Nat
  | [] => 0
  | j :: rest => max j.depth (depthAll rest)

def depthEntries : List (String × Json) → Nat
  | [] => 0
  | entry :: rest => max (depthEntry entry) (depthEntries rest)

def depthEntry : String × Json → Nat
  | (_, j) => j.depth

end

def bool? : Json → Option Bool
  | bool b => some b
  | _ => none

def str? : Json → Option String
  | str s => some s
  | _ => none

def char? : Json → Option Char
  | str s =>
    match s.toList with
    | [c] => some c
    | _ => none
  | _ => none

-- A number is read into a fixed width only if it stays the same number.

def uint32? : Json → Option UInt32
  | int n =>
    let x := UInt32.ofNat n.toNat
    if x.toNat = n then some x else none
  | _ => none

def uint64? : Json → Option UInt64
  | int n =>
    let x := UInt64.ofNat n.toNat
    if x.toNat = n then some x else none
  | _ => none

def int64? : Json → Option Int64
  | int n =>
    let x := Int64.ofInt n
    if x.toInt = n then some x else none
  | _ => none

/-- A double may be given as an integer. -/
def double? : Json → Option Double
  | double x => some x
  | int n => some (Double.ofInt n)
  | _ => none

def list? {α : Type} (read : Json → Option α) : Json → Option (List α)
  | arr items => items.mapM read
  | _ => none

def optional? {α : Type} (read : Json → Option α) : Option Json → Option (Option α)
  | none | some null => some none
  | some j => (read j).map some

/-- The fields of a record in the order of their names, none for a missing one. -/
def fields? (names : List String) : Json → Option (List (Option Json))
  | obj entries => some (names.map fun name => entries.lookup name)
  | arr items => if items.length = names.length then some (items.map some) else none
  | _ => none

def variant? : Json → Option (String × Option Json)
  | str name => some (name, none)
  | obj [(name, body)] => some (name, some body)
  | _ => none

def choice? {α : Type} (all : List α) (tag : α → String) (j : Json) : Option α :=
  match j.variant? with
  | some (name, none) | some (name, some null) => all.find? fun a => tag a == name
  | _ => none

def uint32 (n : UInt32) : Json := int n.toNat

def uint64 (n : UInt64) : Json := int n.toNat

def int64 (n : Int64) : Json := int n.toInt

/-- There is no number for NaN and the infinities. -/
def ofDouble (x : Double) : Json := if x.isFinite then double x else null

def char (c : Char) : Json := str c.toString

def option {α : Type} (write : α → Json) : Option α → Json
  | none => null
  | some a => write a

def list {α : Type} (write : α → Json) (as : List α) : Json := arr (as.map write)

def variant (name : String) (body : Json) : Json := obj [(name, body)]

end Json

end NullabilityCasts
