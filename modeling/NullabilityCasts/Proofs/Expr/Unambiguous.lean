import NullabilityCasts.Proofs.Expr.ReadBack

/-!
# Written expressions are unambiguous up to signs of numbers

The reader gives every written expression back as its text shows it. So two expressions have the
same text only if they are the same tree, but for minus signs that stand alone in front of a number.
-/

set_option autoImplicit false

namespace NullabilityCasts.Expr

open Reader

variable {e e' : Expr}

def isAssign : Expr → Bool
  | assign .. => true
  | _ => false

/-- An expression of operators, calls, accesses, names and whole numbers. Its names are words, as
all identifiers are. -/
inductive Plain : Expr → Prop
  | number (info : Info) (value : Int64) : Plain (literal info (.int value))
  | localVar (info : Info) {name : Ident} (named : isWord name.name.toList = true) :
    Plain (localVar info name)
  | field (info : Info) {qualifier : Expr} {f : FieldSig} (inside : Plain qualifier)
    (named : isWord f.name.name.toList = true) : Plain (field info (some qualifier) f)
  | call (info : Info) {method : MethodSig} {args : List Expr}
    (named : isWord method.name.name.toList = true) (inside : ∀ arg ∈ args, Plain arg) :
    Plain (call info none method args)
  | callOn (info : Info) {qualifier : Expr} {method : MethodSig} {args : List Expr}
    (receiver : Plain qualifier) (named : isWord method.name.name.toList = true)
    (inside : ∀ arg ∈ args, Plain arg) : Plain (call info (some qualifier) method args)
  | assign (info : Info) {target value : Expr} (unassigned : target.isAssign = false)
    (place : Plain target) (stored : Plain value) : Plain (assign info target value)
  | binary (info : Info) (op : BinaryOp) {left right : Expr} (first : Plain left)
    (second : Plain right) : Plain (binary info op left right)
  | unary (info : Info) (op : UnaryOp) {operand : Expr} (inside : Plain operand) :
    Plain (unary info op operand)
  | conditional (info : Info) {condition whenTrue whenFalse : Expr} (asked : Plain condition)
    (first : Plain whenTrue) (second : Plain whenFalse) :
    Plain (conditional info condition whenTrue whenFalse)
  | index (info : Info) {array position : Expr} (outside : Plain array) (inside : Plain position) :
    Plain (index info array position)

structure Readable (e : Expr) : Prop where
  operand : OperandText (enclose e e.text).toList (rebuilt foldMinus e)
  unassigned : e.isAssign = false → UnassignedText e.text.toList e.asRead
  bare : BareText e.text.toList e.asRead

theorem regrouped_asRead (compound : e.isCompound = true) :
    regrouped e.asRead = rebuilt foldMinus e := by
  rw [← isCompound_rebuilt foldMinus] at compound
  unfold asRead
  cases e with
  | unary info op operand =>
    cases op with
    | not => rfl
    | neg =>
      rw [rebuilt, foldMinus]
      cases changed : onNumber lowered (rebuilt foldMinus operand) with
      | none => rfl
      | some other =>
        -- what has been joined is not compound, so the parentheses tell that a sign was applied
        obtain ⟨-, -, simple⟩ := text_onNumber changed
        rw [Option.getD_some, regrouped, simple, if_neg (by decide), onNumber_lowered changed]
        rfl
  | cast | binary | assign | conditional => rfl
  | literal | localVar | this | field | call | new | arrayLit | index => cases compound

theorem asRead_of_not_isCompound (simple : e.isCompound = false) :
    e.asRead = rebuilt foldMinus e := by
  cases e <;> first | rfl | cases simple

theorem Readable.of_operand (simple : e.isCompound = false)
    (text : OperandText e.text.toList (rebuilt foldMinus e)) : Readable e where
  operand := by rwa [enclose_of_not_isCompound simple]
  unassigned _ := by
    rw [asRead_of_not_isCompound simple]
    exact text.unassigned
  bare := by
    rw [asRead_of_not_isCompound simple]
    exact text.unassigned.bare

theorem Readable.of_bare (compound : e.isCompound = true)
    (unassigned : e.isAssign = false → UnassignedText e.text.toList e.asRead)
    (bare : BareText e.text.toList e.asRead) : Readable e where
  operand := by
    have same := regrouped_asRead compound
    have whole := bare.enclosed (by rw [same, isCompound_rebuilt, compound])
    rw [enclose, if_pos compound, String.toList_append, String.toList_append, List.append_assoc,
      ← same]
    exact whole
  unassigned := unassigned
  bare := bare

theorem Readable.of_unassigned (compound : e.isCompound = true)
    (text : UnassignedText e.text.toList e.asRead) : Readable e :=
  .of_bare compound (fun _ => text) text.bare

theorem argumentsText_of_readable {args : List Expr} (each : ∀ arg ∈ args, Readable arg) :
    ArgumentsText (", ".intercalate (texts args)).toList (rebuiltAll foldMinus args) := by
  rw [String.toList_intercalate]
  induction args with
  | nil => exact argumentsText_nil
  | cons arg rest ih =>
    obtain ⟨first, later⟩ := List.forall_mem_cons.mp each
    cases rest with
    | nil =>
      rw [texts, texts, List.map_singleton, List.intercalate_singleton]
      exact first.bare.single
    | cons arg' rest =>
      rw [texts, texts, List.map_cons, List.map_cons, List.intercalate_cons_cons, List.append_assoc]
      exact first.bare.cons (ih later)

/-- An expression without operators is read as an operand, and so as what stands alone. One with
operators is read as what stands alone, and so, in parentheses, as an operand. -/
theorem Plain.readable (plain : Plain e) : Readable e := by
  induction plain with
  | number info value => exact .of_operand rfl (operandText_toString value)
  | @localVar info name named =>
    have whole := operandText_localVar named
    rw [String.ofList_toList] at whole
    exact .of_operand rfl whole
  | @field info qualifier f _ named ih =>
    have whole := ih.operand.field named
    rw [String.ofList_toList, ← List.append_assoc, ← String.toList_append, ← String.toList_append]
      at whole
    exact .of_operand rfl whole
  | @call info method args named _ ih =>
    have whole := operandText_call named (argumentsText_of_readable ih)
    rw [String.ofList_toList] at whole
    refine .of_operand rfl ?_
    simp only [text, qualifierText, String.empty_append, String.toList_append, List.append_assoc]
    exact whole
  | @callOn info qualifier method args _ named _ ihOn ih =>
    have whole := ihOn.operand.call named (argumentsText_of_readable ih)
    rw [String.ofList_toList] at whole
    refine .of_operand rfl ?_
    simp only [text, qualifierText, String.toList_append, List.append_assoc]
    exact whole
  | @assign info target value unassigned _ _ ihTarget ihValue =>
    have whole := (ihTarget.unassigned unassigned).assign ihValue.bare
    rw [← List.append_assoc, ← String.toList_append, ← String.toList_append] at whole
    exact .of_bare rfl (fun no => by cases no) whole
  | @binary info op left right _ _ ihLeft ihRight =>
    have whole := ihLeft.operand.binary op ihRight.operand
    refine .of_unassigned rfl ?_
    simp only [text, String.toList_append, List.append_assoc]
    exact whole
  | @unary info op operand _ ih =>
    have whole := ih.operand.unary op
    rw [← String.toList_append] at whole
    exact .of_unassigned rfl whole
  | @conditional info condition whenTrue whenFalse _ _ _ ihCondition ihTrue ihFalse =>
    have whole := ihCondition.operand.conditional ihTrue.operand ihFalse.operand
    refine .of_unassigned rfl ?_
    simp only [text, String.toList_append, List.append_assoc]
    exact whole
  | @index info array position _ _ ihArray ihPosition =>
    have whole := ihArray.operand.index ihPosition.bare
    refine .of_operand rfl ?_
    simp only [text, String.toList_append, List.append_assoc]
    exact whole

/-- The text shows the tree but for minus signs that stand alone in front of a number: it shows them
as parts of the numbers. -/
theorem text_eq_iff (plain : Plain e) (plain' : Plain e') :
    (e.text = e'.text ↔ e.asRead = e'.asRead) ∧
    (e.asRead = e.written → e'.asRead = e'.written →
      (e.text = e'.text ↔ e.written = e'.written)) := by
  have read : e.text = e'.text ↔ e.asRead = e'.asRead := by
    constructor
    · intro same
      have closed : Closes [] := fun _ front => by cases front
      have back := plain.readable.bare.reads [] closed
      have back' := plain'.readable.bare.reads [] closed
      rw [← same] at back'
      exact congrArg Prod.fst (back.unique back')
    · intro same
      rw [← text_asRead e, ← text_asRead e', same]
  exact ⟨read, fun joined joined' => by rw [← joined, ← joined', read]⟩

namespace Sample

/-- Uses an offset where it stands alone, as an index and as an argument. -/
def shifted (offset : Expr) : Expr :=
  assignTo (index (fresh (.prim .int)) (localVar (fresh (.prim .int)) ⟨"row"⟩) offset)
    (invoke none ⟨⟨"f"⟩, [.prim .int], .prim .int, false, false, true⟩ [offset])

theorem plain_shifted {offset : Expr} (plain : Plain offset) : Plain (shifted offset) :=
  .assign _ rfl (.index _ (.localVar _ (by decide)) plain)
    (.call _ (by decide) fun _ member => by rwa [List.mem_singleton.mp member])

theorem text_eq_iff_shifted :
    Plain (shifted (apply .neg (ofInt 5))) ∧ Plain (shifted (ofInt (-5))) ∧
    Plain (shifted (ofInt 5)) ∧
    (shifted (apply .neg (ofInt 5))).text = "row[-5] = f(-5)" ∧
    (shifted (apply .neg (ofInt 5))).text = (shifted (ofInt (-5))).text ∧
    ((shifted (ofInt 5)).text = (shifted (ofInt (-5))).text ↔
      (shifted (ofInt 5)).written = (shifted (ofInt (-5))).written) := by
  have applied : Plain (shifted (apply .neg (ofInt 5))) :=
    plain_shifted (.unary _ .neg (.number _ 5))
  have below : Plain (shifted (ofInt (-5))) := plain_shifted (.number _ (-5))
  have above : Plain (shifted (ofInt 5)) := plain_shifted (.number _ 5)
  exact ⟨applied, below, above, by decide, (text_eq_iff applied below).1.mpr rfl,
    (text_eq_iff above below).2 rfl rfl⟩

/-- A negative number and the sign applied to a positive one have the same text. -/
theorem same_text_of_other_tree :
    ¬ ∀ e e' : Expr, Plain e → Plain e' → e.text = e'.text → e.written = e'.written := by
  intro faithful
  have same := faithful (ofInt (-5)) (apply .neg (ofInt 5)) (.number _ (-5))
    (.unary _ .neg (.number _ 5)) (by decide)
  cases same

end Sample

end NullabilityCasts.Expr
