import NullabilityCasts.Expr

/-!
# Sameness of expressions

Two expressions are the same if they agree node by node, positions and types included. Types are
compared with declarations by id, and doubles by value, so no literal NaN is the same as any other.
-/

set_option autoImplicit false

namespace NullabilityCasts

def Literal.same : Literal → Literal → Bool
  | .double x, .double y => x == y
  | .null, .null => true
  | .bool a, .bool b => a == b
  | .int a, .int b => a == b
  | .char a, .char b => a == b
  | .str a, .str b => a == b
  | _, _ => false

instance : BEq Literal := ⟨Literal.same⟩

def FieldSig.same (a b : FieldSig) : Bool :=
  a.name == b.name && a.ty == b.ty && a.isStatic == b.isStatic

instance : BEq FieldSig := ⟨FieldSig.same⟩

def MethodSig.same (a b : MethodSig) : Bool :=
  a.name == b.name && a.params == b.params && a.result == b.result && a.isVariadic == b.isVariadic
    && a.isConstructor == b.isConstructor && a.isStatic == b.isStatic

instance : BEq MethodSig := ⟨MethodSig.same⟩

def Info.same (a b : Info) : Bool := a.span == b.span && a.ty == b.ty

instance : BEq Info := ⟨Info.same⟩

namespace Expr

mutual

def same : Expr → Expr → Bool
  | literal i a, literal i' a' => i == i' && a == a'
  | localVar i name, localVar i' name' => i == i' && name == name'
  | this i, this i' => i == i'
  | field i q f, field i' q' f' => i == i' && sameQualifier q q' && f == f'
  | call i q m args, call i' q' m' args' =>
    i == i' && sameQualifier q q' && m == m' && sameAll args args'
  | new i m args, new i' m' args' => i == i' && m == m' && sameAll args args'
  | assign i t v, assign i' t' v' => i == i' && same t t' && same v v'
  | cast i x t, cast i' x' t' => i == i' && same x x' && t == t'
  | binary i op l r, binary i' op' l' r' => i == i' && op == op' && same l l' && same r r'
  | unary i op x, unary i' op' x' => i == i' && op == op' && same x x'
  | conditional i c t f, conditional i' c' t' f' =>
    i == i' && same c c' && same t t' && same f f'
  | arrayLit i es, arrayLit i' es' => i == i' && sameAll es es'
  | index i a n, index i' a' n' => i == i' && same a a' && same n n'
  | _, _ => false

def sameQualifier : Option Expr → Option Expr → Bool
  | none, none => true
  | some q, some q' => same q q'
  | _, _ => false

def sameAll : List Expr → List Expr → Bool
  | [], [] => true
  | e :: es, e' :: es' => same e e' && sameAll es es'
  | _, _ => false

end

instance : BEq Expr := ⟨same⟩

end Expr

end NullabilityCasts
