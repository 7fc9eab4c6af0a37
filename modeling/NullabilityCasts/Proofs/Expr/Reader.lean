import NullabilityCasts.Proofs.Depth
import NullabilityCasts.Proofs.Expr.AsRead
import Mathlib.Data.List.Basic

/-!
# A reader of written expressions

The reader goes through a text once and never back: what it does next depends on the characters
just ahead of it. A minus sign in front of a positive number is a part of the number for it, unless
the two are all there is between a pair of parentheses.
-/

set_option autoImplicit false

namespace NullabilityCasts.Expr.Reader

def isMark (c : Char) : Bool := c ∈ [' ', '.', ',', '(', ')', '[', ']']

def after? (mark : String) (s : List Char) : Option (List Char) := s.dropPrefix? mark.toList

/-- A word without marks that does not begin like a number or an operator. -/
def isWord : List Char → Bool
  | [] => false
  | c :: rest => c ≠ '!' && c ≠ '-' && !c.isDigit && (c :: rest).all fun c => !isMark c

def beginsNumber : List Char → Bool
  | c :: _ => c = '-' || c.isDigit
  | [] => false

/-- Numbers are written without leading zeros. -/
def beginsPositive : List Char → Bool
  | c :: _ => c ≠ '0' && c.isDigit
  | [] => false

def number : List Char → Int64
  | '-' :: digits => Int64.ofInt (-Nat.ofDigitChars 10 digits 0)
  | digits => Int64.ofInt (Nat.ofDigitChars 10 digits 0)

/-- The sign of an operator in front of its operand. -/
def sign? : List Char → Option (UnaryOp × List Char)
  | '!' :: later => some (.not, later)
  | '-' :: later => if beginsPositive later then none else some (.neg, later)
  | _ => none

def operator? (s : List Char) : Option (BinaryOp × List Char) :=
  BinaryOp.all.findSome? fun op =>
    (after? (" " ++ op.symbol ++ " ") s).map fun later => (op, later)

abbrev Reading := Option (Expr × List Char)

/-- An expression in parentheses is no bare number, so a sign in front of it is an operator. -/
def regrouped (e : Expr) : Expr :=
  if e.isCompound then e
  else (onNumber (fun value => some (-value)) e).elim e (unary blank .neg)

def place (qualifier : Option Expr) (word : List Char) : Expr :=
  match qualifier with
  | none => localVar blank ⟨String.ofList word⟩
  | some qualifier => field blank (some qualifier) (namedField ⟨String.ofList word⟩)

def continued (operand : List Char → Reading) (first : Expr) (s : List Char) : Reading :=
  match after? " ? " s with
  | some later =>
    (operand later).bind fun whenTrue =>
      (after? " : " whenTrue.2).bind fun later =>
        (operand later).map fun whenFalse =>
          (conditional blank first whenTrue.1 whenFalse.1, whenFalse.2)
  | none =>
    match operator? s with
    | some (op, later) =>
      (operand later).map fun second => (binary blank op first second.1, second.2)
    | none => some (first, s)

def assigned (bare : List Char → Reading) (target : Expr × List Char) : Reading :=
  match after? " = " target.2 with
  | some later => (bare later).map fun value => (assign blank target.1 value.1, value.2)
  | none => some target

def listed (arguments : List Char → Option (List Expr × List Char)) (arg : Expr × List Char) :
    Option (List Expr × List Char) :=
  match after? ", " arg.2 with
  | some later => (arguments later).map fun args => (arg.1 :: args.1, args.2)
  | none => (after? ")" arg.2).map fun rest => ([arg.1], rest)

mutual

/-- Reads an expression that stands alone. -/
def bare : Nat → List Char → Reading
  | 0, _ => none
  | depth + 1, s => (unassigned depth s).bind fun target => assigned (bare depth) target

/-- Reads an expression up to an equals sign. -/
def unassigned : Nat → List Char → Reading
  | 0, _ => none
  | depth + 1, s =>
    match sign? s with
    | some (op, later) => (operand depth later).map fun x => (unary blank op x.1, x.2)
    | none => (operand depth s).bind fun first => continued (operand depth) first.1 first.2

/-- Reads what is in parentheses, a number or a name, with all that is appended to it. -/
def operand : Nat → List Char → Reading
  | 0, _ => none
  | depth + 1, s =>
    match after? "(" s with
    | some inside =>
      (bare depth inside).bind fun x =>
        (after? ")" x.2).bind fun rest => suffixes depth (regrouped x.1) rest
    | none =>
      if beginsNumber s then
        suffixes depth (literal blank (.int (number (s.takeWhile fun c => !isMark c))))
          (s.dropWhile fun c => !isMark c)
      else member depth none s

def member : Nat → Option Expr → List Char → Reading
  | 0, _, _ => none
  | depth + 1, qualifier, s =>
    let word := s.takeWhile fun c => !isMark c
    let rest := s.dropWhile fun c => !isMark c
    match after? "(" rest with
    | some inside =>
      (arguments depth inside).bind fun args =>
        suffixes depth (call blank qualifier (namedMethod ⟨String.ofList word⟩) args.1) args.2
    | none => suffixes depth (place qualifier word) rest

def suffixes : Nat → Expr → List Char → Reading
  | 0, _, _ => none
  | depth + 1, e, s =>
    match after? "." s with
    | some later => member depth (some e) later
    | none =>
      match after? "[" s with
      | some inside =>
        (bare depth inside).bind fun position =>
          (after? "]" position.2).bind fun rest => suffixes depth (index blank e position.1) rest
      | none => some (e, s)

def arguments : Nat → List Char → Option (List Expr × List Char)
  | 0, _ => none
  | depth + 1, s =>
    match after? ")" s with
    | some rest => some ([], rest)
    | none => (bare depth s).bind fun arg => listed (arguments depth) arg

end

theorem after?_append (mark : String) (rest : List Char) :
    after? mark (mark.toList ++ rest) = some rest :=
  List.dropPrefix?_append_of_beq rest (beq_self_eq_true mark.toList)

def Begins (kind : Char → Bool) (rest : List Char) : Prop := ∀ c ∈ rest.head?, kind c = true

theorem begins_cons {kind : Char → Bool} {c : Char} (isKind : kind c = true) (rest : List Char) :
    Begins kind (c :: rest) := by
  rintro _ ⟨⟩
  exact isKind

theorem Begins.mono {kind kind' : Char → Bool} {rest : List Char} (begins : Begins kind rest)
    (wider : ∀ c, kind c = true → kind' c = true) : Begins kind' rest :=
  fun c front => wider c (begins c front)

theorem Begins.after? {kind : Char → Bool} {rest : List Char} (begins : Begins kind rest)
    {mark : String} (other : mark.toList.head?.any (fun c => !kind c) = true) :
    Reader.after? mark rest = none := by
  unfold Reader.after?
  cases shape : mark.toList with
  | nil =>
    rw [shape] at other
    cases other
  | cons m more =>
    rw [shape] at other
    have no : (!kind m) = true := other
    cases rest with
    | nil => rfl
    | cons c rest =>
      rw [List.dropPrefix?, if_neg]
      intro same
      cases beq_iff_eq.mp same
      rw [begins m rfl] at no
      cases no

theorem takeWhile_word {word rest : List Char} (unmarked : word.all (fun c => !isMark c) = true)
    (ends : Begins isMark rest) : (word ++ rest).takeWhile (fun c => !isMark c) = word := by
  rw [List.takeWhile_append_of_pos (List.all_eq_true.mp unmarked)]
  cases rest with
  | nil => exact List.append_nil word
  | cons c rest => rw [List.takeWhile_cons_of_neg (by rw [ends c rfl]; decide), List.append_nil]

theorem dropWhile_word {word rest : List Char} (unmarked : word.all (fun c => !isMark c) = true)
    (ends : Begins isMark rest) : (word ++ rest).dropWhile (fun c => !isMark c) = rest := by
  rw [List.dropWhile_append_of_pos (List.all_eq_true.mp unmarked)]
  cases rest with
  | nil => rfl
  | cons c rest => rw [List.dropWhile_cons_of_neg (by rw [ends c rfl]; decide)]

theorem sign?_cons {c : Char} (bang : c ≠ '!') (minus : c ≠ '-') (rest : List Char) :
    sign? (c :: rest) = none := by
  unfold sign?
  split
  · exact absurd (List.head_eq_of_cons_eq ‹_›) bang
  · exact absurd (List.head_eq_of_cons_eq ‹_›) minus
  · rfl

theorem isMark_of_isDigit {c : Char} (digit : c.isDigit = true) : isMark c = false := by
  cases marked : isMark c with
  | false => rfl
  | true =>
    have among := of_decide_eq_true marked
    simp only [List.mem_cons, List.not_mem_nil, or_false] at among
    rcases among with rfl | rfl | rfl | rfl | rfl | rfl | rfl <;> cases digit

theorem toDigits_of_pos {n : Nat} (positive : 0 < n) :
    ∃ c rest, Nat.toDigits 10 n = c :: rest ∧ c ≠ '0' := by
  induction n using Nat.strongRecOn with
  | ind n ih =>
    by_cases small : n < 10
    · refine ⟨n.digitChar, [], Nat.toDigits_of_lt_base small, ?_⟩
      rw [Ne, Nat.digitChar_eq_zero]
      omega
    · obtain ⟨c, rest, front, nonzero⟩ := ih (n / 10) (by omega) (by omega)
      refine ⟨c, rest ++ [(n % 10).digitChar], ?_, nonzero⟩
      rw [Nat.toDigits_of_base_le (by decide) (by omega), front, List.cons_append]

section Numbers

variable {value : Int64} {n : Nat}

theorem toList_of_ofNat (whole : value.toInt = n) :
    (toString value).toList = Nat.toDigits 10 n := by
  change (toString value.toInt).toList = _
  rw [whole]
  exact Nat.toList_repr

theorem toList_of_negSucc (below : value.toInt = Int.negSucc n) :
    (toString value).toList = '-' :: Nat.toDigits 10 (n + 1) := by
  change (toString value.toInt).toList = _
  rw [below]
  change ("-" ++ (n + 1).repr).toList = _
  rw [String.toList_append, Nat.toList_repr]
  rfl

theorem isDigit_toDigits (n : Nat) : ∀ c ∈ Nat.toDigits 10 n, c.isDigit = true :=
  fun _ member => Nat.isDigit_of_mem_toDigits (by decide) (by decide) member

theorem number_toDigits (n : Nat) : number (Nat.toDigits 10 n) = Int64.ofInt n := by
  have digits := isDigit_toDigits n
  unfold number
  split
  · rename_i shape
    rw [shape] at digits
    cases digits '-' List.mem_cons_self
  · rw [Nat.ofDigitChars_ten_toDigits]

theorem number_toString (value : Int64) : number (toString value).toList = value := by
  cases whole : value.toInt with
  | ofNat n => rw [toList_of_ofNat whole, number_toDigits, ← Int.ofNat_eq_natCast, ← whole,
      Int64.ofInt_toInt]
  | negSucc n =>
    rw [toList_of_negSucc whole, number, Nat.ofDigitChars_ten_toDigits]
    change Int64.ofInt (Int.negSucc n) = value
    rw [← whole, Int64.ofInt_toInt]

theorem unmarked_toString (value : Int64) :
    (toString value).toList.all (fun c => !isMark c) = true := by
  have unmarked (n : Nat) : (Nat.toDigits 10 n).all (fun c => !isMark c) = true := by
    rw [List.all_eq_true]
    intro c member
    rw [isMark_of_isDigit (isDigit_toDigits n c member)]
    rfl
  cases whole : value.toInt with
  | ofNat n => rw [toList_of_ofNat whole, unmarked]
  | negSucc n =>
    rw [toList_of_negSucc whole, List.all_cons, unmarked]
    rfl

theorem beginsNumber_toString (value : Int64) (rest : List Char) :
    beginsNumber ((toString value).toList ++ rest) = true := by
  cases whole : value.toInt with
  | ofNat n =>
    have digits := isDigit_toDigits n
    rw [toList_of_ofNat whole]
    cases shape : Nat.toDigits 10 n with
    | nil => exact absurd shape Nat.toDigits_ne_nil
    | cons c more =>
      rw [shape] at digits
      rw [List.cons_append, beginsNumber, digits c List.mem_cons_self, Bool.or_true]
  | negSucc n =>
    rw [toList_of_negSucc whole]
    rfl

theorem beginsPositive_toDigits (positive : 0 < n) (rest : List Char) :
    beginsPositive (Nat.toDigits 10 n ++ rest) = true := by
  obtain ⟨c, more, shape, nonzero⟩ := toDigits_of_pos positive
  have digit := isDigit_toDigits n c (by rw [shape]; exact List.mem_cons_self)
  rw [shape, List.cons_append, beginsPositive, digit, Bool.and_true]
  exact decide_eq_true nonzero

theorem isSome_lowered (value : Int64) : (lowered value).isSome = decide (0 < value.toInt) := by
  have positive : 0 < value ↔ 0 < value.toInt := Int64.lt_iff_toInt_lt
  unfold lowered
  split
  · exact (decide_eq_true (positive.mp ‹_›)).symm
  · exact (decide_eq_false fun above => absurd (positive.mpr above) ‹_›).symm

theorem beginsPositive_toString (value : Int64) (rest : List Char) :
    beginsPositive ((toString value).toList ++ rest) = (lowered value).isSome := by
  rw [isSome_lowered]
  cases whole : value.toInt with
  | ofNat n =>
    rw [toList_of_ofNat whole]
    cases n with
    | zero => rfl
    | succ n => rw [beginsPositive_toDigits (Nat.succ_pos n), Int.ofNat_eq_natCast,
        decide_eq_true (Int.natCast_pos.mpr (Nat.succ_pos n))]
  | negSucc n =>
    rw [toList_of_negSucc whole]
    rfl

theorem sign?_toString (value : Int64) (rest : List Char) :
    sign? ((toString value).toList ++ rest) = none := by
  cases whole : value.toInt with
  | ofNat n =>
    have digits := isDigit_toDigits n
    rw [toList_of_ofNat whole]
    cases shape : Nat.toDigits 10 n with
    | nil => exact absurd shape Nat.toDigits_ne_nil
    | cons c more =>
      have digit : Char.isDigit c = true := digits c (by rw [shape]; exact List.mem_cons_self)
      exact sign?_cons (by rintro rfl; cases digit) (by rintro rfl; cases digit) _
  | negSucc n =>
    rw [toList_of_negSucc whole, List.cons_append, sign?, beginsPositive_toDigits (Nat.succ_pos n)]
    rfl

end Numbers

end NullabilityCasts.Expr.Reader
