import NullabilityCasts.Proofs.Text.Escapes
import NullabilityCasts.Source.Layout
import Mathlib.Data.List.Basic

/-!
# Texts on one line

The written form of a type or an expression has no line break of its own: only the names in it could
bring one in, whatever its literals hold.
-/

set_option autoImplicit false

namespace NullabilityCasts

def OneLine (text : String) : Prop := '\n' ∉ text.toList

instance (text : String) : Decidable (OneLine text) :=
  inferInstanceAs (Decidable ('\n' ∉ text.toList))

namespace OneLine

theorem append {a b : String} (first : OneLine a) (later : OneLine b) : OneLine (a ++ b) := by
  unfold OneLine
  rw [String.toList_append, List.mem_append]
  exact not_or.mpr ⟨first, later⟩

theorem intercalate {separator : String} (between : OneLine separator) {texts : List String}
    (each : ∀ t ∈ texts, OneLine t) : OneLine (separator.intercalate texts) := by
  unfold OneLine
  rw [String.toList_intercalate]
  induction texts with
  | nil => exact List.not_mem_nil
  | cons t rest ih =>
    have later := ih fun t' member => each t' (List.mem_cons_of_mem t member)
    have first : '\n' ∉ t.toList := each t List.mem_cons_self
    cases rest with
    | nil => simpa using first
    | cons t' rest =>
      rw [List.map_cons, List.map_cons, List.intercalate_cons_cons]
      rw [List.mem_append, List.mem_append]
      exact not_or.mpr ⟨not_or.mpr ⟨first, between⟩, later⟩

end OneLine

theorem oneLine_nat (n : Nat) : OneLine (toString n) := by
  intro member
  change '\n' ∈ n.repr.toList at member
  rw [Nat.toList_repr] at member
  have digit := Nat.isDigit_of_mem_toDigits (by decide) (by decide) member
  cases digit

theorem oneLine_int (n : Int) : OneLine (toString n) := by
  cases n with
  | ofNat m => exact oneLine_nat m
  | negSucc m => exact OneLine.append (by decide) (oneLine_nat m.succ)

namespace Double

theorem newline_not_mem_zeros (n : Nat) : '\n' ∉ zeros n := by
  intro member
  cases List.eq_of_mem_replicate member

theorem newline_not_mem_layout (d : Decimal.Scaled) : '\n' ∉ layout d := by
  unfold layout
  dsimp only
  have whole : '\n' ∉ ((Nat.toDigits 10 d.significand).reverse.dropWhile (· == '0')).reverse := by
    intro member
    have inside := (List.dropWhile_sublist _).mem (List.mem_reverse.mp member)
    cases Nat.isDigit_of_mem_toDigits (by decide) (by decide) (List.mem_reverse.mp inside)
  generalize ((Nat.toDigits 10 d.significand).reverse.dropWhile (· == '0')).reverse = digits
    at whole ⊢
  generalize d.exponent + ((Nat.toDigits 10 d.significand).length : Int) = point
  have start (n : Nat) : '\n' ∉ digits.take n := fun member => whole (List.mem_of_mem_take member)
  have rest (n : Nat) : '\n' ∉ digits.drop n := fun member => whole (List.mem_of_mem_drop member)
  have exponent : '\n' ∉ (toString (point - 1)).toList := oneLine_int _
  have fraction : '\n' ∉ (if (digits.drop 1).isEmpty then [] else '.' :: digits.drop 1) := by
    split
    · exact List.not_mem_nil
    · exact List.not_mem_cons_of_ne_of_not_mem (by decide) (rest 1)
  split
  · simp only [List.mem_append, List.mem_cons, start, fraction, exponent]
    decide
  split
  · simp only [List.mem_append, List.mem_cons, newline_not_mem_zeros, whole]
    decide
  split
  · simp only [List.mem_append, List.mem_cons, newline_not_mem_zeros, whole]
    decide
  · simp only [List.mem_append, List.mem_cons, start, rest]
    decide

theorem oneLine_text (x : Double) : OneLine x.text := by
  have sign : OneLine (if x.isNegative then "-" else "") := by
    split <;> decide
  unfold text
  split
  · decide
  dsimp only
  split
  · exact sign.append (by decide)
  split
  · exact sign.append (by decide)
  · refine sign.append ?_
    unfold OneLine
    rw [String.toList_ofList]
    exact newline_not_mem_layout _

end Double

theorem oneLine_quoted {quote : Char} (isQuote : quote = '\'' ∨ quote = '"') (text : String) :
    OneLine (Text.quoted quote text) := by
  have mark : OneLine quote.toString := by
    rcases isQuote with rfl | rfl <;> decide
  refine (mark.append fun member => ?_).append mark
  have visible := (Text.escape_quotable isQuote text).visible '\n' member
  cases visible

theorem Literal.oneLine_text (value : Literal) : OneLine value.text := by
  cases value with
  | null => decide
  | bool b => cases b <;> decide
  | int n => exact oneLine_int n.toInt
  | double x => exact x.oneLine_text
  | char c => exact oneLine_quoted (.inl rfl) c.toString
  | str s => exact oneLine_quoted (.inr rfl) s

namespace Ty

mutual

def names : Ty → List String
  | .prim _ => []
  | .declared d _ args => d.simpleName :: allNames args
  | .array component _ => names component
  | .var v => [v.name]
  | .union members | .inter members => allNames members

def allNames : List Ty → List String
  | [] => []
  | t :: rest => names t ++ allNames rest

end

theorem oneLine_nullableMark (nullable : Bool) : OneLine (nullableMark nullable) := by
  cases nullable <;> decide

theorem oneLine_var {v : TyVar} (named : OneLine v.name) :
    OneLine v.text := by
  unfold TyVar.text
  split
  · exact named.append (oneLine_nullableMark _)
  · decide
  · exact OneLine.append (by decide) (oneLine_nat v.id.toNat)

mutual

theorem oneLine_text (t : Ty) (named : ∀ name ∈ t.names, OneLine name) : OneLine t.text := by
  cases t with
  | prim p => cases p <;> decide
  | declared d nullable args =>
    rw [names] at named
    obtain ⟨own, inside⟩ := List.forall_mem_cons.mp named
    cases args with
    | nil => exact own.append (oneLine_nullableMark nullable)
    | cons arg args =>
      have each : OneLine (", ".intercalate (texts (arg :: args))) :=
        OneLine.intercalate (by decide) (oneLine_texts (arg :: args) inside)
      exact (((own.append (by decide)).append each).append (by decide)).append
        (oneLine_nullableMark nullable)
  | array component nullable =>
    exact ((oneLine_text component named).append (by decide)).append (oneLine_nullableMark nullable)
  | var v => exact oneLine_var (named v.name (List.mem_singleton_self _))
  | union members => exact OneLine.intercalate (by decide) (oneLine_texts members named)
  | inter members => exact OneLine.intercalate (by decide) (oneLine_texts members named)

theorem oneLine_texts (ts : List Ty) (named : ∀ name ∈ allNames ts, OneLine name) :
    ∀ text ∈ texts ts, OneLine text := by
  cases ts with
  | nil => exact fun _ member => by cases member
  | cons t rest =>
    rw [allNames] at named
    obtain ⟨first, later⟩ := List.forall_mem_append.mp named
    exact List.forall_mem_cons.mpr ⟨oneLine_text t first, oneLine_texts rest later⟩

end

end Ty

namespace Expr

mutual

def names : Expr → List String
  | literal _ _ | this _ => []
  | localVar _ name => [name.name]
  | field _ qualifier f => f.name.name :: qualifierNames qualifier
  | call _ qualifier m args => m.name.name :: (qualifierNames qualifier ++ allNames args)
  | new i _ args => i.ty.names ++ allNames args
  | assign _ target value => names target ++ names value
  | cast _ operand target => target.names ++ names operand
  | binary _ _ left right => names left ++ names right
  | unary _ _ operand => names operand
  | conditional _ condition whenTrue whenFalse =>
    names condition ++ (names whenTrue ++ names whenFalse)
  | arrayLit _ elements => allNames elements
  | index _ array position => names array ++ names position

def qualifierNames : Option Expr → List String
  | none => []
  | some qualifier => names qualifier

def allNames : List Expr → List String
  | [] => []
  | e :: rest => names e ++ allNames rest

end

theorem oneLine_enclose {e : Expr} {text : String} (inside : OneLine text) :
    OneLine (enclose e text) := by
  unfold enclose
  split
  · exact (OneLine.append (by decide) inside).append (by decide)
  · exact inside

theorem oneLine_list {texts : List String} (each : ∀ t ∈ texts, OneLine t) :
    OneLine (", ".intercalate texts) :=
  OneLine.intercalate (by decide) each

mutual

theorem oneLine_text (e : Expr) (named : ∀ name ∈ e.names, OneLine name) : OneLine e.text := by
  cases e with
  | literal i value => exact value.oneLine_text
  | localVar i name => exact named name.name (List.mem_singleton_self _)
  | this i => exact (by decide : OneLine "this")
  | field i qualifier f =>
    obtain ⟨own, before⟩ := List.forall_mem_cons.mp named
    exact (oneLine_qualifierText qualifier before).append own
  | call i qualifier m args =>
    obtain ⟨own, inside⟩ := List.forall_mem_cons.mp named
    obtain ⟨before, within⟩ := List.forall_mem_append.mp inside
    exact ((((oneLine_qualifierText qualifier before).append own).append (by decide)).append
      (oneLine_list (oneLine_texts args within))).append (by decide)
  | new i m args =>
    obtain ⟨ty, within⟩ := List.forall_mem_append.mp named
    exact (((OneLine.append (by decide) (i.ty.oneLine_text ty)).append (by decide)).append
      (oneLine_list (oneLine_texts args within))).append (by decide)
  | assign i target value =>
    obtain ⟨left, right⟩ := List.forall_mem_append.mp named
    exact ((oneLine_text target left).append (by decide)).append (oneLine_text value right)
  | cast i operand target =>
    obtain ⟨ty, inside⟩ := List.forall_mem_append.mp named
    exact ((OneLine.append (by decide) (target.oneLine_text ty)).append (by decide)).append
      (oneLine_enclose (oneLine_text operand inside))
  | binary i op left right =>
    obtain ⟨first, later⟩ := List.forall_mem_append.mp named
    have symbol : OneLine op.symbol := by cases op <;> decide
    exact ((((oneLine_enclose (oneLine_text left first)).append (by decide)).append symbol).append
      (by decide)).append (oneLine_enclose (oneLine_text right later))
  | unary i op operand =>
    have symbol : OneLine op.symbol := by cases op <;> decide
    exact symbol.append (oneLine_enclose (oneLine_text operand named))
  | conditional i condition whenTrue whenFalse =>
    obtain ⟨first, later⟩ := List.forall_mem_append.mp named
    obtain ⟨second, third⟩ := List.forall_mem_append.mp later
    exact ((((oneLine_enclose (oneLine_text condition first)).append (by decide)).append
      (oneLine_enclose (oneLine_text whenTrue second))).append (by decide)).append
      (oneLine_enclose (oneLine_text whenFalse third))
  | arrayLit i elements =>
    exact (OneLine.append (by decide) (oneLine_list (oneLine_texts elements named))).append
      (by decide)
  | index i array position =>
    obtain ⟨before, within⟩ := List.forall_mem_append.mp named
    exact (((oneLine_enclose (oneLine_text array before)).append (by decide)).append
      (oneLine_text position within)).append (by decide)

theorem oneLine_qualifierText (qualifier : Option Expr)
    (named : ∀ name ∈ qualifierNames qualifier, OneLine name) :
    OneLine (qualifierText qualifier) := by
  cases qualifier with
  | none => exact (by decide : OneLine "")
  | some e => exact (oneLine_enclose (oneLine_text e named)).append (by decide)

theorem oneLine_texts (es : List Expr) (named : ∀ name ∈ allNames es, OneLine name) :
    ∀ text ∈ texts es, OneLine text := by
  cases es with
  | nil => exact fun _ member => by cases member
  | cons e rest =>
    obtain ⟨first, later⟩ := List.forall_mem_append.mp named
    exact List.forall_mem_cons.mpr ⟨oneLine_text e first, oneLine_texts rest later⟩

end

end Expr

end NullabilityCasts
