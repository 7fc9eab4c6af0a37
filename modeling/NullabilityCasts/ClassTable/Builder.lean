import NullabilityCasts.ClassTable

/-!
# Building class tables

Each operation extends a table under construction and hands out what it created. Variables are
numbered from zero.
-/

set_option autoImplicit false

namespace NullabilityCasts.ClassTable

def empty : ClassTable := ofLists [object] [] []

structure Builder extends ClassTable where
  nextVariable : UInt32

namespace Builder

def start : Builder := ⟨empty, 0⟩

def build (b : Builder) : ClassTable := b.toClassTable

/-- A fresh variable; without an upper bound it is bounded by the top type. -/
def newVariable (b : Builder) (name : String) (kind : VarKind) (upper lower : Option Ty) :
    TyVar × Builder :=
  (⟨b.nextVariable, name, kind, false⟩,
    { b with
      boundsById := b.boundsById.insert b.nextVariable ⟨upper.getD top, lower⟩
      nextVariable := b.nextVariable + 1 })

def newParameter (b : Builder) (name : String) (upper : Option Ty) : TyVar × Builder :=
  b.newVariable name .parameter upper none

def newWildcard (b : Builder) (upper lower : Option Ty) : TyVar × Builder :=
  b.newVariable "?" .wildcard upper lower

def newCapture (b : Builder) (upper lower : Option Ty) : TyVar × Builder :=
  b.newVariable ("capture#" ++ toString b.nextVariable) .capture upper lower

def newParameters (b : Builder) : List String → List TyVar × Builder
  | [] => ([], b)
  | name :: names =>
    let (v, b) := b.newParameter name none
    let (vs, b) := b.newParameters names
    (v :: vs, b)

def addDecl (b : Builder) (qualifiedName : String) (anonymous : Bool) (params : List String) :
    Decl × Builder :=
  let (vars, b) := b.newParameters params
  let d : Decl := ⟨UInt32.ofNat b.decls.length, qualifiedName, anonymous, vars⟩
  (d, { b with
    decls := b.decls ++ [d]
    idByName := b.idByName.insert qualifiedName d.id })

def addClass (b : Builder) (qualifiedName : String) (params : List String) : Decl × Builder :=
  b.addDecl qualifiedName false params

def addAnonymous (b : Builder) (qualifiedName : String) : Decl × Builder :=
  b.addDecl qualifiedName true []

/-- Replaces the upper bound of a variable of the table; bounds become cyclic in this way. -/
def setUpper (b : Builder) (v : TyVar) (upper : Ty) : Builder :=
  { b with boundsById := b.boundsById.modify v.id fun bounds => { bounds with upper := upper } }

def recordSupertype (b : Builder) (d : Decl) (supertype : Ty) : Builder :=
  { b with
    supertypesById := b.supertypesById.alter d.id fun recorded? =>
      some (recorded?.getD [] ++ [supertype]) }

end Builder

end NullabilityCasts.ClassTable
