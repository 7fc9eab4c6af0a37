import NullabilityCasts.Proofs.Expr.Reader

/-!
# Texts that are read back

How the reader goes through the text of a part, whatever follows it: through an operand, which may
grow at its end by accesses, calls and indices, through operands joined by operators, and through
what stands in parentheses.
-/

set_option autoImplicit false

namespace NullabilityCasts.Expr.Reader

/-- After an operand, with more of it to come or not. -/
abbrev Follows : List Char → Prop := Begins fun c => c ∈ [' ', '.', ',', ')', '[', ']']

/-- After a whole operand. -/
abbrev Stops : List Char → Prop := Begins fun c => c ∈ [' ', ',', ')', ']']

/-- After an expression that stands alone. -/
abbrev Closes : List Char → Prop := Begins fun c => c ∈ [',', ')', ']']

/-- After an expression that is no assignment, but may be assigned to. -/
def Ends (rest : List Char) : Prop := Closes rest ∨ ∃ later, rest = " = ".toList ++ later

section Rest

variable {rest : List Char}

theorem Follows.endsWord (follows : Follows rest) : Begins isMark rest := by
  refine follows.mono fun _ among => ?_
  simp only [List.mem_cons, List.not_mem_nil, or_false, decide_eq_true_eq] at among
  rcases among with rfl | rfl | rfl | rfl | rfl | rfl <;> rfl

theorem Stops.follows (stops : Stops rest) : Follows rest := by
  refine stops.mono fun _ among => ?_
  simp only [List.mem_cons, List.not_mem_nil, or_false, decide_eq_true_eq] at among ⊢
  tauto

theorem Closes.stops (closes : Closes rest) : Stops rest :=
  closes.mono fun _ among => decide_eq_true (List.mem_cons_of_mem ' ' (of_decide_eq_true among))

theorem Ends.stops (ends : Ends rest) : Stops rest := by
  rcases ends with closes | ⟨later, rfl⟩
  · exact closes.stops
  · exact begins_cons rfl _

theorem suffixes_of_stops (stops : Stops rest) (e : Expr) (depth : Nat) :
    suffixes (depth + 1) e rest = some (e, rest) := by
  rw [suffixes, stops.after? (by decide), stops.after? (by decide)]

theorem continued_of_ends (ends : Ends rest) (operand : List Char → Reading) (first : Expr) :
    continued operand first rest = some (first, rest) := by
  rcases ends with closes | ⟨later, rfl⟩
  · have none : operator? rest = none :=
      List.findSome?_eq_none_iff.mpr fun op _ => by
        rw [closes.after? (by cases op <;> decide), Option.map_none]
    rw [continued, closes.after? (by decide), none]
  · simp [continued, operator?, after?, BinaryOp.all, BinaryOp.symbol, List.dropPrefix?]

theorem continued_operator (operand : List Char → Reading) (first : Expr) (op : BinaryOp) :
    continued operand first (" ".toList ++ (op.symbol.toList ++ (" ".toList ++ rest)))
      = (operand rest).map fun second => (binary blank op first second.1, second.2) := by
  cases op <;> simp [continued, operator?, after?, BinaryOp.all, BinaryOp.symbol, List.dropPrefix?]

theorem continued_question (operand : List Char → Reading) (first : Expr) :
    continued operand first (" ? ".toList ++ rest)
      = (operand rest).bind fun whenTrue => (after? " : " whenTrue.2).bind fun later =>
          (operand later).map fun whenFalse =>
            (conditional blank first whenTrue.1 whenFalse.1, whenFalse.2) := by
  rw [continued, after?_append]

end Rest

/-- The text is read as the expression, and then its suffixes are read. -/
def ReadsAs (s : List Char) (e : Expr) : Prop :=
  ∀ rest r, Follows rest → EndsWith (fun depth => suffixes depth e rest) r →
    EndsWith (fun depth => operand depth (s ++ rest)) r

/-- The text of an operand. The number that it begins with may be read with a sign in front. -/
structure OperandText (s : List Char) (e : Expr) : Prop where
  reads : ReadsAs s e
  unsigned : ∀ rest, sign? (s ++ rest) = none
  opens : ∀ rest, after? ")" (s ++ rest) = none
  positive : ∀ rest, beginsPositive (s ++ rest) = (onNumber lowered e).isSome
  negative : ∀ other, onNumber lowered e = some other → ReadsAs ('-' :: s) other

structure UnassignedText (s : List Char) (e : Expr) : Prop where
  reads : ∀ rest, Ends rest → EndsWith (fun depth => unassigned depth (s ++ rest)) (e, rest)
  opens : ∀ rest, after? ")" (s ++ rest) = none

structure BareText (s : List Char) (e : Expr) : Prop where
  reads : ∀ rest, Closes rest → EndsWith (fun depth => bare depth (s ++ rest)) (e, rest)
  opens : ∀ rest, after? ")" (s ++ rest) = none

def ArgumentsText (s : List Char) (args : List Expr) : Prop :=
  ∀ rest, EndsWith (fun depth => arguments depth (s ++ (")".toList ++ rest))) (args, rest)

variable {s s' : List Char} {e e' : Expr}

theorem ReadsAs.whole (reads : ReadsAs s e) {rest : List Char} (stops : Stops rest) :
    EndsWith (fun depth => operand depth (s ++ rest)) (e, rest) :=
  reads rest (e, rest) stops.follows ((EndsWith.pure _).succ (suffixes_of_stops stops e))

theorem OperandText.whole (text : OperandText s e) {rest : List Char} (stops : Stops rest) :
    EndsWith (fun depth => operand depth (s ++ rest)) (e, rest) := text.reads.whole stops

/-- The text of an operand may grow at its end, which leaves the number in front as it is. -/
theorem OperandText.extend (text : OperandText s e) {suffix : List Char} (grow : Expr → Expr)
    (follows : ∀ rest, Follows (suffix ++ rest))
    (step : ∀ e rest r, Follows rest → EndsWith (fun depth => suffixes depth (grow e) rest) r →
      EndsWith (fun depth => suffixes depth e (suffix ++ rest)) r)
    (front : onNumber lowered (grow e) = (onNumber lowered e).map grow) :
    OperandText (s ++ suffix) (grow e) where
  reads rest r after ends := by
    rw [List.append_assoc]
    exact text.reads _ r (follows rest) (step e rest r after ends)
  unsigned rest := by rw [List.append_assoc, text.unsigned]
  opens rest := by rw [List.append_assoc, text.opens]
  positive rest := by rw [List.append_assoc, text.positive, front, Option.isSome_map]
  negative other changed rest r after ends := by
    rw [front] at changed
    obtain ⟨e', changed', rfl⟩ := Option.map_eq_some_iff.mp changed
    rw [← List.cons_append, List.append_assoc]
    exact text.negative e' changed' _ r (follows rest) (step e' rest r after ends)

theorem isWord_cons {word : List Char} (named : isWord word = true) :
    word.all (fun c => !isMark c) = true ∧ ∃ c rest, word = c :: rest ∧
      c ≠ '!' ∧ c ≠ '-' ∧ c.isDigit = false ∧ isMark c = false := by
  cases word with
  | nil => cases named
  | cons c rest =>
    simp only [isWord, Bool.and_eq_true, decide_eq_true_eq, Bool.not_eq_true'] at named
    obtain ⟨⟨⟨bang, minus⟩, letter⟩, unmarked⟩ := named
    refine ⟨unmarked, c, rest, rfl, bang, minus, letter, ?_⟩
    simpa using List.all_eq_true.mp unmarked c List.mem_cons_self

section Members

variable {word rest : List Char} {args : List Expr} {r : Expr × List Char}

theorem member_place (qualifier : Option Expr) (named : isWord word = true) (follows : Follows rest)
    (ends : EndsWith (fun depth => suffixes depth (place qualifier word) rest) r) :
    EndsWith (fun depth => member depth qualifier (word ++ rest)) r := by
  obtain ⟨unmarked, -⟩ := isWord_cons named
  refine ends.succ fun depth => ?_
  rw [member, takeWhile_word unmarked follows.endsWord, dropWhile_word unmarked follows.endsWord,
    follows.after? (by decide)]

theorem member_call (qualifier : Option Expr) (named : isWord word = true)
    (inside : ArgumentsText s args)
    (ends : EndsWith (fun depth => suffixes depth
      (call blank qualifier (namedMethod ⟨String.ofList word⟩) args) rest) r) :
    EndsWith (fun depth => member depth qualifier
      (word ++ ("(".toList ++ (s ++ (")".toList ++ rest))))) r := by
  obtain ⟨unmarked, -⟩ := isWord_cons named
  have stop : Begins isMark ("(".toList ++ (s ++ (")".toList ++ rest))) := begins_cons rfl _
  have step (depth : Nat) :
      member (depth + 1) qualifier (word ++ ("(".toList ++ (s ++ (")".toList ++ rest))))
        = (arguments depth (s ++ (")".toList ++ rest))).bind fun args => suffixes depth
            (call blank qualifier (namedMethod ⟨String.ofList word⟩) args.1) args.2 := by
    rw [member, takeWhile_word unmarked stop, dropWhile_word unmarked stop, after?_append]
  exact EndsWith.succ_bind step (inside rest) ends

theorem argumentsText_nil : ArgumentsText [] [] := by
  refine fun rest => (EndsWith.pure ([], rest)).succ fun depth => ?_
  rw [arguments, List.nil_append, after?_append]

theorem BareText.arguments_succ (text : BareText s e) (rest : List Char) (depth : Nat) :
    arguments (depth + 1) (s ++ rest)
      = (bare depth (s ++ rest)).bind fun arg => listed (arguments depth) arg := by
  rw [arguments, text.opens]

theorem BareText.single (text : BareText s e) : ArgumentsText s [e] := by
  intro rest
  refine EndsWith.succ_bind (text.arguments_succ _) (text.reads _ (begins_cons rfl rest)) ?_
  have last : Begins (fun c => c = ')') (")".toList ++ rest) := begins_cons rfl rest
  have noMore : after? ", " (")".toList ++ rest) = none := last.after? (by decide)
  simp only [listed, noMore, after?_append]
  exact EndsWith.pure ([e], rest)

theorem BareText.cons (text : BareText s e) (later : ArgumentsText s' args) :
    ArgumentsText (s ++ (", ".toList ++ s')) (e :: args) := by
  intro rest
  rw [List.append_assoc, List.append_assoc]
  refine EndsWith.succ_bind (text.arguments_succ _) (text.reads _ (begins_cons rfl _)) ?_
  simp only [listed, after?_append]
  exact (later rest).map _

end Members

section Operands

variable {word : List Char} {args : List Expr}

theorem sign?_word (named : isWord word = true) (rest : List Char) :
    sign? (word ++ rest) = none := by
  obtain ⟨-, c, more, rfl, bang, minus, -⟩ := isWord_cons named
  exact sign?_cons bang minus _

theorem beginsPositive_word (named : isWord word = true) (rest : List Char) :
    beginsPositive (word ++ rest) = false := by
  obtain ⟨-, c, more, rfl, -, -, letter, -⟩ := isWord_cons named
  rw [List.cons_append, beginsPositive, letter, Bool.and_false]

theorem beginsNumber_word (named : isWord word = true) (rest : List Char) :
    beginsNumber (word ++ rest) = false := by
  obtain ⟨-, c, more, rfl, -, minus, letter, -⟩ := isWord_cons named
  rw [List.cons_append, beginsNumber, letter, decide_eq_false minus]
  rfl

theorem begins_word (named : isWord word = true) (rest : List Char) :
    Begins (fun c => !isMark c) (word ++ rest) := by
  obtain ⟨-, c, more, rfl, -, -, -, unmarked⟩ := isWord_cons named
  exact begins_cons (by rw [unmarked]; rfl) _

theorem operandText_of_member (named : isWord word = true) (more : List Char)
    (noNumber : onNumber lowered e = none)
    (reads : ∀ rest r, Follows rest → EndsWith (fun depth => suffixes depth e rest) r →
      EndsWith (fun depth => member depth none (word ++ (more ++ rest))) r) :
    OperandText (word ++ more) e where
  reads rest r follows ends := by
    rw [List.append_assoc]
    refine (reads rest r follows ends).succ fun depth => ?_
    rw [operand, (begins_word named _).after? (by decide), beginsNumber_word named,
      if_neg (by decide)]
  unsigned rest := by rw [List.append_assoc, sign?_word named]
  opens rest := by rw [List.append_assoc, (begins_word named _).after? (by decide)]
  positive rest := by rw [List.append_assoc, beginsPositive_word named, noNumber]; rfl
  negative other changed := by rw [noNumber] at changed; cases changed

theorem operandText_localVar (named : isWord word = true) :
    OperandText word (localVar blank ⟨String.ofList word⟩) := by
  have text := operandText_of_member (e := localVar blank ⟨String.ofList word⟩) named [] rfl
    fun rest r follows ends => member_place none named follows ends
  rwa [List.append_nil] at text

theorem operandText_call (named : isWord word = true) (inside : ArgumentsText s args) :
    OperandText (word ++ ("(".toList ++ (s ++ ")".toList)))
      (call blank none (namedMethod ⟨String.ofList word⟩) args) := by
  refine operandText_of_member named _ rfl fun rest r follows ends => ?_
  rw [List.append_assoc, List.append_assoc]
  exact member_call none named inside ends

theorem begins_toString (value : Int64) (rest : List Char) :
    Begins (fun c => c = '-' || c.isDigit) ((toString value).toList ++ rest) := by
  have front := beginsNumber_toString value rest
  generalize (toString value).toList ++ rest = s at front ⊢
  cases s with
  | nil => cases front
  | cons c more => exact begins_cons front more

theorem readsAs_toString (value : Int64) :
    ReadsAs (toString value).toList (literal blank (.int value)) := by
  intro rest r follows ends
  refine ends.succ fun depth => ?_
  have unmarked := unmarked_toString value
  rw [operand, (begins_toString value rest).after? (by decide), beginsNumber_toString, if_pos rfl,
    takeWhile_word unmarked follows.endsWord, dropWhile_word unmarked follows.endsWord,
    number_toString]

theorem operandText_toString (value : Int64) :
    OperandText (toString value).toList (literal blank (.int value)) where
  reads := readsAs_toString value
  unsigned := sign?_toString value
  opens rest := (begins_toString value rest).after? (by decide)
  positive rest := by rw [beginsPositive_toString, onNumber, Option.isSome_map]
  negative other changed := by
    obtain ⟨low, islow, rfl⟩ := Option.map_eq_some_iff.mp changed
    unfold lowered at islow
    split at islow
    · cases islow
      have signed : (toString (-value)).toList = '-' :: (toString value).toList := by
        rw [toString_neg ‹_›, String.toList_append]
        rfl
      rw [← signed]
      exact readsAs_toString (-value)
    · cases islow

theorem OperandText.dot (text : OperandText s e) {more : List Char} (grow : Expr → Expr)
    (reads : ∀ e rest r, Follows rest → EndsWith (fun depth => suffixes depth (grow e) rest) r →
      EndsWith (fun depth => member depth (some e) (more ++ rest)) r)
    (front : onNumber lowered (grow e) = (onNumber lowered e).map grow) :
    OperandText (s ++ (".".toList ++ more)) (grow e) := by
  refine text.extend grow (fun _ => begins_cons rfl _) (fun e rest r follows ends => ?_) front
  rw [List.append_assoc]
  refine (reads e rest r follows ends).succ fun depth => ?_
  rw [suffixes, after?_append]

theorem OperandText.field (text : OperandText s e) (named : isWord word = true) :
    OperandText (s ++ (".".toList ++ word))
      (field blank (some e) (namedField ⟨String.ofList word⟩)) :=
  text.dot (fun e => .field blank (some e) _)
    (fun e _ _ follows ends => member_place (some e) named follows ends) rfl

theorem OperandText.call (text : OperandText s e) (named : isWord word = true)
    (inside : ArgumentsText s' args) :
    OperandText (s ++ (".".toList ++ (word ++ ("(".toList ++ (s' ++ ")".toList)))))
      (call blank (some e) (namedMethod ⟨String.ofList word⟩) args) := by
  refine text.dot (fun e => .call blank (some e) _ args) (fun e rest r follows ends => ?_) rfl
  rw [List.append_assoc, List.append_assoc, List.append_assoc]
  exact member_call (some e) named inside ends

theorem OperandText.index (text : OperandText s e) (position : BareText s' e') :
    OperandText (s ++ ("[".toList ++ (s' ++ "]".toList))) (index blank e e') := by
  refine text.extend (fun e => .index blank e e') (fun _ => begins_cons rfl _)
    (fun e rest r follows ends => ?_) rfl
  have step (depth : Nat) : suffixes (depth + 1) e ("[".toList ++ (s' ++ ("]".toList ++ rest)))
      = (bare depth (s' ++ ("]".toList ++ rest))).bind fun position =>
          (after? "]" position.2).bind fun rest =>
            suffixes depth (.index blank e position.1) rest := by
    have bracket : Begins (fun c => c = '[') ("[".toList ++ (s' ++ ("]".toList ++ rest))) :=
      begins_cons rfl _
    rw [suffixes, bracket.after? (by decide), after?_append]
  rw [List.append_assoc, List.append_assoc]
  refine EndsWith.succ_bind step (position.reads _ (begins_cons rfl rest)) ?_
  simp only [after?_append, Option.bind_some]
  exact ends

end Operands

section Operators

theorem unassigned_succ (unsigned : sign? s = none) (depth : Nat) :
    unassigned (depth + 1) s
      = (operand depth s).bind fun first => continued (operand depth) first.1 first.2 := by
  rw [unassigned, unsigned]

theorem ReadsAs.unassigned (reads : ReadsAs s e) {rest : List Char} (ends : Ends rest)
    (unsigned : sign? (s ++ rest) = none) :
    EndsWith (fun depth => unassigned depth (s ++ rest)) (e, rest) := by
  refine EndsWith.succ_bind (unassigned_succ unsigned) (reads.whole ends.stops) ?_
  simp only [continued_of_ends ends]
  exact EndsWith.pure (e, rest)

theorem OperandText.unassigned (text : OperandText s e) : UnassignedText s e where
  reads rest ends := text.reads.unassigned ends (text.unsigned rest)
  opens := text.opens

theorem OperandText.sign (text : OperandText s e) (op : UnaryOp) {rest : List Char}
    (ends : Ends rest)
    (isOperator : sign? (op.symbol.toList ++ (s ++ rest)) = some (op, s ++ rest)) :
    EndsWith (fun depth => Reader.unassigned depth (op.symbol.toList ++ (s ++ rest)))
      (unary blank op e, rest) := by
  refine ((text.whole ends.stops).map fun x => (unary blank op x.1, x.2)).succ fun depth => ?_
  rw [Reader.unassigned, isOperator]

/-- A minus sign in front of an operand is an operator, if it is not a part of the number. -/
theorem OperandText.unary (text : OperandText s e) (op : UnaryOp) :
    UnassignedText (op.symbol.toList ++ s) (foldMinus (unary blank op e)) where
  reads rest ends := by
    rw [List.append_assoc]
    cases op with
    | not => exact text.sign .not ends rfl
    | neg =>
      have minus : sign? ('-' :: (s ++ rest))
          = if (onNumber lowered e).isSome then none else some (.neg, s ++ rest) := by
        rw [sign?, text.positive]
      -- the reader joins sign and number where `foldMinus` does
      rw [foldMinus]
      cases changed : onNumber lowered e with
      | none =>
        rw [changed] at minus
        exact text.sign .neg ends minus
      | some other =>
        rw [changed] at minus
        exact (text.negative other changed).unassigned ends minus
  opens rest := by
    have sign : Begins (fun c => c = '!' || c = '-') (op.symbol.toList ++ s ++ rest) := by
      cases op <;> exact begins_cons rfl _
    exact sign.after? (by decide)

theorem OperandText.binary (left : OperandText s e) (op : BinaryOp) (right : OperandText s' e') :
    UnassignedText (s ++ (" ".toList ++ (op.symbol.toList ++ (" ".toList ++ s'))))
      (binary blank op e e') where
  reads rest ends := by
    rw [List.append_assoc, List.append_assoc, List.append_assoc, List.append_assoc]
    refine EndsWith.succ_bind (unassigned_succ (left.unsigned _))
      (left.whole (begins_cons rfl _)) ?_
    simp only [continued_operator]
    exact (right.whole ends.stops).map _
  opens rest := by rw [List.append_assoc, left.opens]

theorem OperandText.conditional {s'' : List Char} {e'' : Expr} (condition : OperandText s e)
    (whenTrue : OperandText s' e') (whenFalse : OperandText s'' e'') :
    UnassignedText (s ++ (" ? ".toList ++ (s' ++ (" : ".toList ++ s''))))
      (conditional blank e e' e'') where
  reads rest ends := by
    rw [List.append_assoc, List.append_assoc, List.append_assoc, List.append_assoc]
    refine EndsWith.succ_bind (unassigned_succ (condition.unsigned _))
      (condition.whole (begins_cons rfl _)) ?_
    simp only [continued_question]
    refine EndsWith.bind (whenTrue.whole (begins_cons rfl _)) ?_
    simp only [after?_append, Option.bind_some]
    exact (whenFalse.whole ends.stops).map _
  opens rest := by rw [List.append_assoc, condition.opens]

theorem bare_succ (s : List Char) (depth : Nat) :
    bare (depth + 1) s
      = (unassigned depth s).bind fun target => assigned (bare depth) target := by
  rw [bare]

theorem UnassignedText.bare (text : UnassignedText s e) : BareText s e where
  reads rest closes := by
    have unassigned : after? " = " rest = none := closes.after? (by decide)
    refine EndsWith.succ_bind (bare_succ _) (text.reads rest (.inl closes)) ?_
    simp only [assigned, unassigned]
    exact EndsWith.pure (e, rest)
  opens := text.opens

theorem UnassignedText.assign (target : UnassignedText s e) (value : BareText s' e') :
    BareText (s ++ (" = ".toList ++ s')) (assign blank e e') where
  reads rest closes := by
    rw [List.append_assoc, List.append_assoc]
    refine EndsWith.succ_bind (bare_succ _) (target.reads _ (.inr ⟨_, rfl⟩)) ?_
    simp only [assigned, after?_append]
    exact (value.reads rest closes).map _
  opens rest := by rw [List.append_assoc, target.opens]

end Operators

theorem onNumber_of_isCompound (compound : e.isCompound = true) (change : Int64 → Option Int64) :
    onNumber change e = none := by
  cases e <;> first | rfl | cases compound

theorem BareText.enclosed (text : BareText s e) (compound : (regrouped e).isCompound = true) :
    OperandText ("(".toList ++ (s ++ ")".toList)) (regrouped e) where
  reads rest r follows ends := by
    have step (depth : Nat) : operand (depth + 1) ("(".toList ++ (s ++ (")".toList ++ rest)))
        = (bare depth (s ++ (")".toList ++ rest))).bind fun x =>
            (after? ")" x.2).bind fun rest => suffixes depth (regrouped x.1) rest := by
      rw [operand, after?_append]
    rw [List.append_assoc, List.append_assoc]
    refine EndsWith.succ_bind step (text.reads _ (begins_cons rfl rest)) ?_
    simp only [after?_append, Option.bind_some]
    exact ends
  unsigned rest := rfl
  opens rest := by
    have bracket : Begins (fun c => c = '(') ("(".toList ++ (s ++ ")".toList) ++ rest) :=
      begins_cons rfl _
    exact bracket.after? (by decide)
  positive rest := by
    rw [onNumber_of_isCompound compound]
    rfl
  negative other changed := by
    rw [onNumber_of_isCompound compound] at changed
    cases changed

end NullabilityCasts.Expr.Reader
