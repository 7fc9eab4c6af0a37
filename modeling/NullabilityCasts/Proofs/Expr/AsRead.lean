import NullabilityCasts.Expr.Text

/-!
# Trees as their text shows them

A minus sign in front of a number may be an operator or belong to the number. Where an expression
stands alone nothing tells the two apart, since the operand of the sign is written without
parentheses, and a reader takes the sign for a part of the number.
-/

set_option autoImplicit false

namespace NullabilityCasts.Expr

def blank : Info := fresh Ty.void

def namedField (name : Ident) : FieldSig := ⟨name, Ty.void, false⟩

def namedMethod (name : Ident) : MethodSig := ⟨name, [], Ty.void, false, false, false⟩

mutual

/-- The tree without what its text leaves out, such as the types and the places of its nodes. Every
expression that stands alone in it, and is no operand, goes through `bare`. -/
def rebuilt (bare : Expr → Expr) : Expr → Expr
  | literal _ value => literal blank value
  | localVar _ name => localVar blank name
  | this _ => this blank
  | field _ qualifier f => field blank (rebuiltQualifier bare qualifier) (namedField f.name)
  | call _ qualifier method args =>
    call blank (rebuiltQualifier bare qualifier) (namedMethod method.name) (rebuiltAll bare args)
  | new info method args => new (fresh info.ty) (namedMethod method.name) (rebuiltAll bare args)
  | assign _ target value => assign blank (bare (rebuilt bare target)) (bare (rebuilt bare value))
  | cast _ operand target => cast blank (rebuilt bare operand) target
  | binary _ op left right => binary blank op (rebuilt bare left) (rebuilt bare right)
  | unary _ op operand => unary blank op (rebuilt bare operand)
  | conditional _ condition whenTrue whenFalse =>
    conditional blank (rebuilt bare condition) (rebuilt bare whenTrue) (rebuilt bare whenFalse)
  | arrayLit _ elements => arrayLit blank (rebuiltAll bare elements)
  | index _ array position => index blank (rebuilt bare array) (bare (rebuilt bare position))

def rebuiltQualifier (bare : Expr → Expr) : Option Expr → Option Expr
  | none => none
  | some qualifier => some (rebuilt bare qualifier)

def rebuiltAll (bare : Expr → Expr) : List Expr → List Expr
  | [] => []
  | e :: rest => bare (rebuilt bare e) :: rebuiltAll bare rest

end

def written : Expr → Expr := rebuilt id

/-- The expression with another number in front, if its text begins with a number. -/
def onNumber (change : Int64 → Option Int64) : Expr → Option Expr
  | literal info (.int value) => (change value).map fun other => literal info (.int other)
  | field info (some qualifier) f =>
    (onNumber change qualifier).map fun other => field info (some other) f
  | call info (some qualifier) method args =>
    (onNumber change qualifier).map fun other => call info (some other) method args
  | index info array position =>
    (onNumber change array).map fun other => index info other position
  | _ => none

/-- Numbers that are written with a sign are not written with another. -/
def lowered (value : Int64) : Option Int64 := if 0 < value then some (-value) else none

/-- The minus sign in front of a positive number belongs to the number. -/
def foldMinus : Expr → Expr
  | unary info .neg operand => (onNumber lowered operand).getD (unary info .neg operand)
  | e => e

/-- What the text of the expression shows of its tree. -/
def asRead (e : Expr) : Expr := foldMinus (rebuilt foldMinus e)

theorem toInt_neg_of_pos {value : Int64} (positive : 0 < value) :
    (-value).toInt = -value.toInt := by
  have above : (0 : Int64).toInt < value.toInt := Int64.lt_iff_toInt_lt.mp positive
  have below := value.toInt_lt
  rw [Int64.toInt_zero] at above
  rw [Int64.toInt_neg]
  exact Int.bmod_eq_of_le (by omega) (by omega)

theorem toString_neg {value : Int64} (positive : 0 < value) :
    toString (-value) = "-" ++ toString value := by
  have above : (0 : Int64).toInt < value.toInt := Int64.lt_iff_toInt_lt.mp positive
  obtain ⟨m, shape⟩ : ∃ m : Nat, value.toInt = m + 1 := ⟨value.toInt.toNat - 1, by
    rw [Int64.toInt_zero] at above
    omega⟩
  change toString (-value).toInt = "-" ++ toString value.toInt
  rw [toInt_neg_of_pos positive, shape]
  rfl

theorem enclose_of_not_isCompound {e : Expr} (simple : e.isCompound = false) (shown : String) :
    enclose e shown = shown := by
  rw [enclose, simple, if_neg (by decide)]

/-- The sign joins the text of a number that it belongs to. -/
theorem text_onNumber {e other : Expr} (changed : onNumber lowered e = some other) :
    other.text = "-" ++ e.text ∧ e.isCompound = false ∧ other.isCompound = false := by
  -- a change reaches through qualifiers and arrays only, which are written without parentheses
  have front {e other : Expr} (both : other.text = "-" ++ e.text ∧ e.isCompound = false ∧
      other.isCompound = false) : enclose other other.text = "-" ++ enclose e e.text := by
    rw [enclose_of_not_isCompound both.2.1, enclose_of_not_isCompound both.2.2, both.1]
  fun_induction onNumber lowered e generalizing other with
  | case1 info value =>
    obtain ⟨value', low, rfl⟩ := Option.map_eq_some_iff.mp changed
    unfold lowered at low
    split at low
    · cases low
      exact ⟨toString_neg ‹_›, rfl, rfl⟩
    · cases low
  | case2 info qualifier f ih =>
    obtain ⟨qualifier', low, rfl⟩ := Option.map_eq_some_iff.mp changed
    refine ⟨?_, rfl, rfl⟩
    rw [text, text, qualifierText, qualifierText, front (ih low)]
    simp only [String.append_assoc]
  | case3 info qualifier method args ih =>
    obtain ⟨qualifier', low, rfl⟩ := Option.map_eq_some_iff.mp changed
    refine ⟨?_, rfl, rfl⟩
    rw [text, text, qualifierText, qualifierText, front (ih low)]
    simp only [String.append_assoc]
  | case4 info array position ih =>
    obtain ⟨array', low, rfl⟩ := Option.map_eq_some_iff.mp changed
    refine ⟨?_, rfl, rfl⟩
    rw [text, text, front (ih low)]
    simp only [String.append_assoc]
  | case5 => cases changed

theorem text_foldMinus (e : Expr) : (foldMinus e).text = e.text := by
  fun_cases foldMinus e with
  | case1 info operand =>
    cases changed : onNumber lowered operand with
    | none => rfl
    | some other =>
      obtain ⟨shown, simple, -⟩ := text_onNumber changed
      rw [Option.getD_some, shown, text, enclose_of_not_isCompound simple]
      rfl
  | case2 => rfl

theorem isCompound_rebuilt (bare : Expr → Expr) (e : Expr) :
    (rebuilt bare e).isCompound = e.isCompound := by
  cases e <;> rfl

section Rebuilt

variable {bare : Expr → Expr}

theorem enclose_rebuilt {e : Expr} (same : (rebuilt bare e).text = e.text) :
    enclose (rebuilt bare e) (rebuilt bare e).text = enclose e e.text := by
  rw [enclose, enclose, same, isCompound_rebuilt]

mutual

theorem text_rebuilt (keeps : ∀ e, (bare e).text = e.text) (e : Expr) :
    (rebuilt bare e).text = e.text := by
  cases e with
  | literal info value => rfl
  | localVar info name => rfl
  | this info => rfl
  | field info qualifier f =>
    rw [rebuilt, text, text, qualifierText_rebuilt keeps]
    rfl
  | call info qualifier method args =>
    rw [rebuilt, text, text, qualifierText_rebuilt keeps, texts_rebuilt keeps]
    rfl
  | new info method args =>
    rw [rebuilt, text, text, texts_rebuilt keeps]
    rfl
  | assign info target value =>
    rw [rebuilt, text, text, keeps, keeps, text_rebuilt keeps, text_rebuilt keeps]
  | cast info operand target =>
    rw [rebuilt, text, text, enclose_rebuilt (text_rebuilt keeps operand)]
  | binary info op left right =>
    rw [rebuilt, text, text, enclose_rebuilt (text_rebuilt keeps left),
      enclose_rebuilt (text_rebuilt keeps right)]
  | unary info op operand =>
    rw [rebuilt, text, text, enclose_rebuilt (text_rebuilt keeps operand)]
  | conditional info condition whenTrue whenFalse =>
    rw [rebuilt, text, text, enclose_rebuilt (text_rebuilt keeps condition),
      enclose_rebuilt (text_rebuilt keeps whenTrue), enclose_rebuilt (text_rebuilt keeps whenFalse)]
  | arrayLit info elements => rw [rebuilt, text, text, texts_rebuilt keeps]
  | index info array position =>
    rw [rebuilt, text, text, enclose_rebuilt (text_rebuilt keeps array), keeps, text_rebuilt keeps]

theorem qualifierText_rebuilt (keeps : ∀ e, (bare e).text = e.text) (qualifier : Option Expr) :
    qualifierText (rebuiltQualifier bare qualifier) = qualifierText qualifier := by
  cases qualifier with
  | none => rfl
  | some qualifier =>
    rw [rebuiltQualifier, qualifierText, qualifierText,
      enclose_rebuilt (text_rebuilt keeps qualifier)]

theorem texts_rebuilt (keeps : ∀ e, (bare e).text = e.text) (es : List Expr) :
    texts (rebuiltAll bare es) = texts es := by
  cases es with
  | nil => rfl
  | cons e rest => rw [rebuiltAll, texts, texts, keeps, text_rebuilt keeps, texts_rebuilt keeps]

end

end Rebuilt

theorem text_asRead (e : Expr) : e.asRead.text = e.text := by
  rw [asRead, text_foldMinus, text_rebuilt text_foldMinus]

theorem onNumber_lowered {e other : Expr} (changed : onNumber lowered e = some other) :
    onNumber (fun value => some (-value)) other = some e := by
  fun_induction onNumber lowered e generalizing other with
  | case1 info value =>
    obtain ⟨value', low, rfl⟩ := Option.map_eq_some_iff.mp changed
    unfold lowered at low
    split at low
    · cases low
      rw [onNumber, Option.map_some, Int64.neg_neg]
    · cases low
  | case2 info qualifier f ih =>
    obtain ⟨qualifier', low, rfl⟩ := Option.map_eq_some_iff.mp changed
    rw [onNumber, ih low, Option.map_some]
  | case3 info qualifier method args ih =>
    obtain ⟨qualifier', low, rfl⟩ := Option.map_eq_some_iff.mp changed
    rw [onNumber, ih low, Option.map_some]
  | case4 info array position ih =>
    obtain ⟨array', low, rfl⟩ := Option.map_eq_some_iff.mp changed
    rw [onNumber, ih low, Option.map_some]
  | case5 => cases changed

end NullabilityCasts.Expr
