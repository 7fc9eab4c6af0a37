import NullabilityCasts.Text.Literal
import Mathlib.Data.List.Infix

/-!
# Reading escapes back

What stands between the quotes of a literal has no control character, closes no quote and leaves no
backslash open. The escapes are read back by rules of their own, which give the text again.
-/

set_option autoImplicit false

namespace NullabilityCasts.Text

variable {quote : Char}

def hexDigit? (c : Char) : Option Nat :=
  if '0' ≤ c ∧ c ≤ '9' then some (c.toNat - '0'.toNat)
  else if 'a' ≤ c ∧ c ≤ 'f' then some (c.toNat - 'a'.toNat + 10)
  else if 'A' ≤ c ∧ c ≤ 'F' then some (c.toNat - 'A'.toNat + 10)
  else none

def hexNumber? (digits : List Char) : Option Nat :=
  digits.foldlM (fun n c => (hexDigit? c).map (16 * n + ·)) 0

/-- A surrogate is no character. -/
def numbered? (digits : List Char) : Option Char :=
  (hexNumber? digits).bind fun n => if n.isValidChar then some (Char.ofNat n) else none

def named? (quote letter : Char) : Option Char :=
  if letter = '\\' then some '\\'
  else if letter = 'n' then some '\n'
  else if letter = 'r' then some '\r'
  else if letter = 't' then some '\t'
  else if letter = quote then some quote
  else none

/-- The text that is written with escapes, if each backslash begins one. -/
def unescape (quote : Char) : List Char → Option (List Char)
  | [] => some []
  | '\\' :: 'u' :: a :: b :: c :: d :: rest =>
    (numbered? [a, b, c, d]).bind fun x => (unescape quote rest).map (x :: ·)
  | '\\' :: letter :: rest => (named? quote letter).bind fun x => (unescape quote rest).map (x :: ·)
  | ['\\'] => none
  | c :: rest => (unescape quote rest).map (c :: ·)

/-- Whether the text ends in a backslash that escapes what comes next. -/
def escapesNext (text : List Char) : Bool :=
  text.foldl (fun escaped c => !escaped && c == '\\') false

/-- A text that may stand between two quotes. -/
structure Quotable (quote : Char) (text : List Char) : Prop where
  visible : ∀ c ∈ text, isControl c = false
  guarded : ∀ before after, text = before ++ quote :: after → escapesNext before = true
  complete : escapesNext text = false

theorem hexDigit?_digitChar : ∀ d < 16, hexDigit? d.digitChar = some d := by decide

theorem plain_digitChar : ∀ d < 16, isControl d.digitChar = false ∧ d.digitChar ≠ '\\' ∧
    d.digitChar ≠ '\'' ∧ d.digitChar ≠ '"' := by decide

theorem hexNumber?_hex4 {n : Nat} (small : n < 65536) : hexNumber? (hex4 n) = some n := by
  have digit (m : Nat) : hexDigit? (m % 16).digitChar = some (m % 16) :=
    hexDigit?_digitChar _ (Nat.mod_lt m (by decide))
  simp only [hexNumber?, hex4, List.map_cons, List.map_nil, List.foldlM_cons, List.foldlM_nil,
    digit, Option.map_some, Option.bind_eq_bind, Option.bind_some, Option.pure_def,
    Option.some.injEq]
  omega

/-- A character is written by a letter, by its number or as itself. -/
inductive Written (quote c : Char) : List Char → Prop
  | named (letter : Char) (stands : named? quote letter = some c)
      (visible : isControl letter = false) : Written quote c ['\\', letter]
  | numbered (control : isControl c = true) : Written quote c ('\\' :: 'u' :: hex4 c.toNat)
  | itself (plain : c ≠ '\\') (other : c ≠ quote) (visible : isControl c = false) :
      Written quote c [c]

theorem written_escapeChar (isQuote : quote = '\'' ∨ quote = '"') (c : Char) :
    Written quote c (escapeChar quote c) := by
  unfold escapeChar
  split
  · rename_i same
    subst same
    exact .named '\\' rfl rfl
  split
  · rename_i same
    subst same
    exact .named 'n' rfl rfl
  split
  · rename_i same
    subst same
    exact .named 'r' rfl rfl
  split
  · rename_i same
    subst same
    exact .named 't' rfl rfl
  split
  · rename_i same
    subst same
    rcases isQuote with rfl | rfl
    · exact .named _ rfl rfl
    · exact .named _ rfl rfl
  split
  · rename_i control
    exact .numbered control
  · rename_i plain _ _ _ other visible
    exact .itself plain other (Bool.eq_false_iff.mpr visible)

theorem toNat_of_isControl {c : Char} (control : isControl c = true) : c.toNat < 65536 := by
  simp only [isControl, Bool.or_eq_true, Bool.and_eq_true, decide_eq_true_eq] at control
  change c.val.toNat < 65536
  rcases control with low | ⟨_, high⟩
  · have below : c.val.toNat < 0x20 := low
    omega
  · have below : c.val.toNat < 0xa0 := high
    omega

theorem unescape_named (isQuote : quote = '\'' ∨ quote = '"') {letter c : Char}
    (stands : named? quote letter = some c) (rest : List Char) :
    unescape quote ('\\' :: letter :: rest) = (unescape quote rest).map (c :: ·) := by
  have noNumber : letter ≠ 'u' := by
    rintro rfl
    rcases isQuote with rfl | rfl <;> cases stands
  rw [unescape, stands, Option.bind_some]
  intro a b c d rest' same
  exact absurd same noNumber

theorem unescape_numbered {c : Char} (small : c.toNat < 65536) (rest : List Char) :
    unescape quote ('\\' :: 'u' :: hex4 c.toNat ++ rest) = (unescape quote rest).map (c :: ·) := by
  have number : numbered? (hex4 c.toNat) = some c := by
    have valid : c.toNat.isValidChar := c.valid
    rw [numbered?, hexNumber?_hex4 small, Option.bind_some, if_pos valid, Char.ofNat_toNat]
  change ((numbered? (hex4 c.toNat)).bind fun x => (unescape quote rest).map (x :: ·)) = _
  rw [number, Option.bind_some]

theorem unescape_itself {c : Char} (plain : c ≠ '\\') (rest : List Char) :
    unescape quote (c :: rest) = (unescape quote rest).map (c :: ·) := by
  rw [unescape]
  · intro a b c d rest' same
    exact absurd same plain
  · intro letter rest' same
    exact absurd same plain
  · intro same
    exact absurd same plain

theorem unescape_escapeChar (isQuote : quote = '\'' ∨ quote = '"') (c : Char) (rest : List Char) :
    unescape quote (escapeChar quote c ++ rest) = (unescape quote rest).map (c :: ·) := by
  have written := written_escapeChar isQuote c
  revert written
  generalize escapeChar quote c = form
  intro written
  cases written with
  | named letter stands => exact unescape_named isQuote stands rest
  | numbered control => exact unescape_numbered (toNat_of_isControl control) rest
  | itself plain => exact unescape_itself plain rest

theorem unescape_flatMap (isQuote : quote = '\'' ∨ quote = '"') (text : List Char) :
    unescape quote (text.flatMap (escapeChar quote)) = some text := by
  induction text with
  | nil => rfl
  | cons c text ih => rw [List.flatMap_cons, unescape_escapeChar isQuote, ih, Option.map_some]

theorem escapesNext_append {xs : List Char} (complete : escapesNext xs = false) (ys : List Char) :
    escapesNext (xs ++ ys) = escapesNext ys := by
  unfold escapesNext at complete ⊢
  rw [List.foldl_append, complete]

theorem quotable_nil : Quotable quote [] where
  visible c member := by cases member
  guarded before after same := by simp at same
  complete := rfl

theorem Quotable.append {xs ys : List Char} (first : Quotable quote xs)
    (later : Quotable quote ys) : Quotable quote (xs ++ ys) where
  visible c member := (List.mem_append.mp member).elim (first.visible c) (later.visible c)
  guarded before after same := by
    rcases List.append_eq_append_iff.mp same with ⟨middle, rfl, tail⟩ | ⟨middle, head, tail⟩
    · rw [escapesNext_append first.complete]
      exact later.guarded middle after tail
    · cases middle with
      | nil =>
        -- The quote would be the first character of `ys`.
        have opened : escapesNext [] = true := later.guarded [] after tail.symm
        cases opened
      | cons c middle =>
        obtain ⟨rfl, _⟩ := List.cons.inj tail
        exact first.guarded before middle head
  complete := (escapesNext_append first.complete ys).trans later.complete

theorem quotable_of_plain {text : List Char}
    (plain : ∀ c ∈ text, isControl c = false ∧ c ≠ '\\' ∧ c ≠ quote) : Quotable quote text where
  visible c member := (plain c member).1
  guarded before after same := by
    have member : quote ∈ text := same ▸ List.mem_append_right before List.mem_cons_self
    exact absurd rfl (plain quote member).2.2
  complete := by
    induction text with
    | nil => rfl
    | cons c rest ih =>
      obtain ⟨-, other, -⟩ := plain c List.mem_cons_self
      have single : escapesNext [c] = false := by simp [escapesNext, other]
      have later := ih fun c' member => plain c' (List.mem_cons_of_mem c member)
      exact (escapesNext_append single rest).trans later

theorem quotable_pair (isQuote : quote = '\'' ∨ quote = '"') {letter : Char}
    (visible : isControl letter = false) : Quotable quote ['\\', letter] where
  visible c member := by
    rcases List.mem_pair.mp member with rfl | rfl
    · rfl
    · exact visible
  guarded before after same := by
    match before with
    | [] =>
      obtain ⟨rfl, -⟩ := List.cons.inj same
      rcases isQuote with impossible | impossible <;> cases impossible
    | [first] =>
      obtain ⟨rfl, -⟩ := List.cons.inj same
      rfl
    | _ :: _ :: _ => simp at same
  complete := rfl

theorem Written.quotable (isQuote : quote = '\'' ∨ quote = '"') {c : Char} {form : List Char}
    (written : Written quote c form) : Quotable quote form := by
  cases written with
  | named letter _ visible => exact quotable_pair isQuote visible
  | numbered _ =>
    have start : Quotable quote ['\\', 'u'] := quotable_pair isQuote rfl
    refine start.append (quotable_of_plain fun x member => ?_)
    obtain ⟨digit, _, rfl⟩ := List.mem_map.mp member
    have small : digit % 16 < 16 := Nat.mod_lt digit (by decide)
    obtain ⟨visible, plain, single, double⟩ := plain_digitChar (digit % 16) small
    refine ⟨visible, plain, ?_⟩
    rcases isQuote with rfl | rfl
    · exact single
    · exact double
  | itself plain other visible =>
    refine quotable_of_plain fun x member => ?_
    obtain rfl := List.mem_singleton.mp member
    exact ⟨visible, plain, other⟩

theorem quotable_flatMap (isQuote : quote = '\'' ∨ quote = '"') (text : List Char) :
    Quotable quote (text.flatMap (escapeChar quote)) := by
  induction text with
  | nil => exact quotable_nil
  | cons c text ih =>
    rw [List.flatMap_cons]
    exact (written_escapeChar isQuote c).quotable isQuote |>.append ih

/-- The quote at the end is the first that closes the literal. -/
theorem Quotable.prefix_of_closed {text rest before after : List Char}
    (quotable : Quotable quote text) (same : text ++ quote :: rest = before ++ quote :: after)
    (closes : escapesNext before = false) : text <+: before := by
  rcases List.append_eq_append_iff.mp same with ⟨middle, rfl, _⟩ | ⟨middle, head, tail⟩
  · exact List.prefix_append text middle
  · cases middle with
    | nil => exact (List.append_nil before ▸ head) ▸ List.prefix_rfl
    | cons c middle =>
      obtain ⟨rfl, _⟩ := List.cons.inj tail
      have guarded := quotable.guarded before middle head
      rw [closes] at guarded
      cases guarded

theorem escape_quotable (isQuote : quote = '\'' ∨ quote = '"') (text : String) :
    Quotable quote (escape quote text).toList := by
  rw [escape, String.toList_ofList]
  exact quotable_flatMap isQuote text.toList

theorem unescape_escape (isQuote : quote = '\'' ∨ quote = '"') (text : String) :
    unescape quote (escape quote text).toList = some text.toList := by
  rw [escape, String.toList_ofList]
  exact unescape_flatMap isQuote text.toList

/-- The escapes of a text keep it between its quotes and are read back as the text. So the literals
of two texts differ, and a literal ends at its last quote. -/
theorem escape_faithful {quote : Char} (isQuote : quote = '\'' ∨ quote = '"') (text : String) :
    Quotable quote (escape quote text).toList ∧
    unescape quote (escape quote text).toList = some text.toList ∧
    (∀ text', quoted quote text' = quoted quote text → text' = text) ∧
    ∀ rest before after, (escape quote text).toList ++ quote :: rest = before ++ quote :: after →
      escapesNext before = false → (escape quote text).toList <+: before := by
  refine ⟨escape_quotable isQuote text, unescape_escape isQuote text, fun text' same => ?_,
    fun rest before after => (escape_quotable isQuote text).prefix_of_closed⟩
  have escapes : escape quote text' = escape quote text :=
    (String.append_right_inj _).mp ((String.append_left_inj _).mp same)
  have texts : some text'.toList = some text.toList := by
    rw [← unescape_escape isQuote text', ← unescape_escape isQuote text, escapes]
  exact String.toList_injective (Option.some.inj texts)

/-- A backslash before letters that look like a number, a quote, and a control character before a
digit. -/
def Sample.mixed : String := "\\u0041\" é\x017\n"

theorem escape_faithful_mixed :
    ('"' = '\'' ∨ '"' = '"') ∧
    escape '"' Sample.mixed = "\\\\u0041\\\" é\\u00017\\n" ∧
    Quotable '"' (escape '"' Sample.mixed).toList ∧
    unescape '"' (escape '"' Sample.mixed).toList = some Sample.mixed.toList :=
  have faithful := escape_faithful (.inr rfl) Sample.mixed
  ⟨.inr rfl, by decide, faithful.1, faithful.2.1⟩

end NullabilityCasts.Text
