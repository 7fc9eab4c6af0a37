import NullabilityCasts.Expr
import NullabilityCasts.Text.Literal
import NullabilityCasts.Ty.Text

/-!
# The written form of expressions

Expressions are written on one line. An operand that is itself a cast, an assignment, a conditional
or an application of an operator stands in parentheses.
-/

set_option autoImplicit false

namespace NullabilityCasts

def Literal.text : Literal → String
  | .null => "null"
  | .bool value => if value then "true" else "false"
  | .int value => toString value
  | .double value => value.text
  | .char value => Text.quoted '\'' value.toString
  | .str value => Text.quoted '"' value

instance : ToString Literal := ⟨Literal.text⟩

namespace Expr

def isCompound : Expr → Bool
  | cast .. | binary .. | assign .. | conditional .. | unary .. => true
  | _ => false

def enclose (e : Expr) (text : String) : String := if e.isCompound then "(" ++ text ++ ")" else text

mutual

def text : Expr → String
  | literal _ value => value.text
  | localVar _ name => name.name
  | this _ => "this"
  | field _ qualifier f => qualifierText qualifier ++ f.name.name
  | call _ qualifier method args =>
    qualifierText qualifier ++ method.name.name ++ "(" ++ ", ".intercalate (texts args) ++ ")"
  | new info _ args => "new " ++ info.ty.text ++ "(" ++ ", ".intercalate (texts args) ++ ")"
  | assign _ target value => target.text ++ " = " ++ value.text
  | cast _ operand target => "(" ++ target.text ++ ") " ++ enclose operand operand.text
  | binary _ op left right =>
    enclose left left.text ++ " " ++ op.symbol ++ " " ++ enclose right right.text
  | unary _ op operand => op.symbol ++ enclose operand operand.text
  | conditional _ condition whenTrue whenFalse =>
    enclose condition condition.text ++ " ? " ++ enclose whenTrue whenTrue.text ++ " : "
      ++ enclose whenFalse whenFalse.text
  | arrayLit _ elements => "\x7b" ++ ", ".intercalate (texts elements) ++ "\x7d"
  | index _ array position => enclose array array.text ++ "[" ++ position.text ++ "]"

def qualifierText : Option Expr → String
  | none => ""
  | some qualifier => enclose qualifier qualifier.text ++ "."

def texts : List Expr → List String
  | [] => []
  | e :: rest => e.text :: texts rest

end

instance : ToString Expr := ⟨text⟩

end Expr

end NullabilityCasts
