import NullabilityCasts.Expr.Same

/-!
# Statements

A block is the list of its statements.
-/

set_option autoImplicit false

namespace NullabilityCasts

inductive Stmt where
  | declare (span : Span) (name : Ident) (ty : Ty) (init : Option Expr)
  | expr (e : Expr)
  | ret (span : Span) (value : Option Expr)
  | ifThen (condition : Expr) (body : List Stmt)
  | ifThenElse (condition : Expr) (body otherwise : List Stmt)
  | while (condition : Expr) (body : List Stmt)
  | block (body : List Stmt)
  | throw (e : Expr)
  deriving Repr

namespace Stmt

mutual

def same : Stmt → Stmt → Bool
  | declare s n t init, declare s' n' t' init' => s == s' && n == n' && t == t' && init == init'
  | expr e, expr e' => e == e'
  | ret s value, ret s' value' => s == s' && value == value'
  | ifThen c b, ifThen c' b' => c == c' && sameAll b b'
  | ifThenElse c b o, ifThenElse c' b' o' => c == c' && sameAll b b' && sameAll o o'
  | .while c b, .while c' b' => c == c' && sameAll b b'
  | block b, block b' => sameAll b b'
  | throw e, throw e' => e == e'
  | _, _ => false

def sameAll : List Stmt → List Stmt → Bool
  | [], [] => true
  | s :: rest, s' :: rest' => same s s' && sameAll rest rest'
  | _, _ => false

end

instance : BEq Stmt := ⟨same⟩

end Stmt

end NullabilityCasts
