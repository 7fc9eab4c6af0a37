import NullabilityCasts.Ty

/-!
# The written form of types

The form used in printed source and in messages: simple names, arguments in angle brackets and a
question mark after a nullable type.
-/

set_option autoImplicit false

namespace NullabilityCasts

def nullableMark (nullable : Bool) : String := if nullable then "?" else ""

/-- An open variable is written without a nullability mark. -/
def TyVar.text (v : TyVar) : String :=
  match v.kind with
  | .parameter => v.name ++ nullableMark v.nullable
  | .wildcard => "?"
  | .capture => "capture#" ++ toString v.id

namespace Ty

mutual

def text : Ty → String
  | .prim p => p.text
  | .declared d n [] => d.simpleName ++ nullableMark n
  | .declared d n (arg :: args) =>
    d.simpleName ++ "<" ++ ", ".intercalate (arg.text :: texts args) ++ ">" ++ nullableMark n
  | .array c n => c.text ++ "[]" ++ nullableMark n
  | .var v => v.text
  | .union ts => " | ".intercalate (texts ts)
  | .inter ts => " & ".intercalate (texts ts)

def texts : List Ty → List String
  | [] => []
  | t :: rest => t.text :: texts rest

end

theorem texts_eq (ts : List Ty) : texts ts = ts.map text := by
  induction ts with
  | nil => simp [texts]
  | cons t rest ih => simp [texts, ih]

instance : ToString Ty := ⟨text⟩

end Ty

end NullabilityCasts
