import NullabilityCasts.Stmt

/-!
# Classes and their members
-/

set_option autoImplicit false

namespace NullabilityCasts

inductive Member where
  | field (sig : FieldSig) (init : Option Expr)
  /-- Abstract and native methods have no body. -/
  | method (sig : MethodSig) (params : List Ident) (body : Option (List Stmt))
  | initializer (body : List Stmt)
  | nested (decl : Decl) (members : List Member)
  deriving Repr

structure ClassDef where
  decl : Decl
  members : List Member
  deriving Repr

namespace Member

mutual

/-- Agreement node by node; declarations agree if their ids do. -/
def same : Member → Member → Bool
  | field sig init, field sig' init' => sig == sig' && init == init'
  | method sig params body, method sig' params' body' =>
    sig == sig' && params == params' && body == body'
  | initializer body, initializer body' => body == body'
  | nested d ms, nested d' ms' => d.id == d'.id && sameAll ms ms'
  | _, _ => false

def sameAll : List Member → List Member → Bool
  | [], [] => true
  | m :: rest, m' :: rest' => same m m' && sameAll rest rest'
  | _, _ => false

end

instance : BEq Member := ⟨same⟩

end Member

instance : BEq ClassDef := ⟨fun a b => a.decl.id == b.decl.id && a.members == b.members⟩

end NullabilityCasts
