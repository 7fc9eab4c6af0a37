import NullabilityCasts.Proofs.Source.OneLine

/-!
# The lines of printed source

A tree is printed as a sequence of pieces, each on a line of its own. A line is indented by the
number of bodies that are open at it: a header opens one, a closing brace closes it, and between the
two bodies of a conditional statement one is closed and the next one opened.
-/

set_option autoImplicit false

namespace NullabilityCasts

/-- What a line does to the bodies that are open. -/
inductive Piece.Mark where
  | leaf
  | opening
  | turn
  | closing

/-- A line without its indentation. -/
structure Piece where
  mark : Piece.Mark
  text : String
  /-- The type that is shown at the end of the line if types are shown. -/
  note : Option Ty := none

namespace Piece

/-- How many bodies the line stands in, if `opened` are open before it. -/
def depth (opened : Nat) (p : Piece) : Nat :=
  match p.mark with
  | .leaf | .opening => opened
  | .turn | .closing => opened - 1

def openedAfter (opened : Nat) (p : Piece) : Nat :=
  match p.mark with
  | .leaf | .turn => opened
  | .opening => opened + 1
  | .closing => opened - 1

def shownNote (p : Piece) : String :=
  match p.note with
  | some ty => " // : " ++ ty.text
  | none => ""

def shown (options : LayoutOptions) (opened : Nat) (p : Piece) : String :=
  String.ofList (List.replicate (p.depth opened * options.indent) ' ') ++ p.text
    ++ if options.showTypes then p.shownNote else ""

def allShown (options : LayoutOptions) (opened : Nat) : List Piece → List String
  | [] => []
  | p :: rest => p.shown options opened :: allShown options (p.openedAfter opened) rest

def leaf (text : String) : Piece := { mark := .leaf, text }

/-- A line that ends with the type of an expression if types are shown. -/
def typed (text : String) (e : Expr) : Piece := { mark := .leaf, text, note := some e.ty }

def enclose (header : String) (body : List Piece) : List Piece :=
  { mark := .opening, text := header } :: (body ++ [{ mark := .closing, text := "\x7d" }])

/-- The line between the two bodies of a conditional statement. -/
def otherwise : Piece := { mark := .turn, text := "\x7d else \x7b" }

end Piece

namespace Stmt

open Piece

mutual

def pieces : Stmt → List Piece
  | declare _ name ty (some init) =>
    [typed (ty.text ++ " " ++ name.name ++ " = " ++ init.text ++ ";") init]
  | declare _ name ty none => [leaf (ty.text ++ " " ++ name.name ++ ";")]
  | expr e => [typed (e.text ++ ";") e]
  | ret _ (some value) => [typed ("return " ++ value.text ++ ";") value]
  | ret _ none => [leaf "return;"]
  | ifThen condition body => enclose ("if (" ++ condition.text ++ ") \x7b") (allPieces body)
  | ifThenElse condition body otherwiseBody =>
    enclose ("if (" ++ condition.text ++ ") \x7b")
      (allPieces body ++ ([otherwise] ++ allPieces otherwiseBody))
  | .while condition body => enclose ("while (" ++ condition.text ++ ") \x7b") (allPieces body)
  | block body => enclose "\x7b" (allPieces body)
  | throw e => [leaf ("throw " ++ e.text ++ ";")]

def allPieces : List Stmt → List Piece
  | [] => []
  | s :: rest => pieces s ++ allPieces rest

end

end Stmt

namespace Member

open Piece

mutual

def pieces : Member → List Piece
  | field sig (some init) => [leaf (sig.header ++ " = " ++ init.text ++ ";")]
  | field sig none => [leaf (sig.header ++ ";")]
  | method sig params (some body) => enclose (sig.header params ++ " \x7b") (Stmt.allPieces body)
  | method sig params none => [leaf (sig.header params ++ ";")]
  | initializer body => enclose "\x7b" (Stmt.allPieces body)
  | nested decl members => enclose (decl.header ++ " \x7b") (allPieces members)

def allPieces : List Member → List Piece
  | [] => []
  | m :: rest => pieces m ++ allPieces rest

end

end Member

def ClassDef.pieces (c : ClassDef) : List Piece :=
  Piece.enclose (c.decl.header ++ " \x7b") (Member.allPieces c.members)

def SourceUnit.pieces (u : SourceUnit) : List Piece :=
  Piece.leaf ("// " ++ u.path) :: u.classes.flatMap ClassDef.pieces

namespace Line

/-- The line where `opened` bodies are open around the tree that it belongs to. -/
def indented (indent opened : Nat) (l : Line) : String :=
  String.ofList (List.replicate ((opened + l.depth) * indent) ' ') ++ l.text

theorem map_deeper_indented (indent opened : Nat) (ls : List Line) :
    (ls.map deeper).map (indented indent opened) = ls.map (indented indent (opened + 1)) := by
  rw [List.map_map]
  apply List.map_congr_left
  intro l _
  change String.ofList (List.replicate ((opened + (l.depth + 1)) * indent) ' ') ++ l.text
    = String.ofList (List.replicate ((opened + 1 + l.depth) * indent) ' ') ++ l.text
  rw [Nat.add_assoc, Nat.add_comm 1 l.depth]

end Line

namespace Piece

variable {options : LayoutOptions} {opened : Nat} {ps ps' : List Piece} {ls ls' : List Line}

/-- The pieces are printed as the lines, indented as where `around` bodies are open, and leave as
many bodies open as were before them. -/
def Lays (options : LayoutOptions) (opened around : Nat) (ps : List Piece) (ls : List Line) :
    Prop :=
  ∀ rest, allShown options opened (ps ++ rest)
    = ls.map (Line.indented options.indent around) ++ allShown options opened rest

variable {around : Nat}

theorem lays_nil : Lays options opened around [] [] := fun _ => rfl

theorem Lays.append (first : Lays options opened around ps ls)
    (later : Lays options opened around ps' ls') :
    Lays options opened around (ps ++ ps') (ls ++ ls') := by
  intro rest
  rw [List.append_assoc, first, later, List.map_append, List.append_assoc]

theorem Lays.deeper (lays : Lays options (opened + 1) (opened + 1) ps ls) :
    Lays options (opened + 1) opened ps (ls.map Line.deeper) := by
  intro rest
  rw [Line.map_deeper_indented]
  exact lays rest

theorem map_line_indented (indent : Nat) (text : String) :
    (line text).map (Line.indented indent around)
      = [String.ofList (List.replicate (around * indent) ' ') ++ text] := rfl

theorem allShown_plain (mark : Mark) (text : String) (rest : List Piece) :
    allShown options opened ({ mark, text } :: rest)
      = (line text).map (Line.indented options.indent (depth opened { mark, text }))
        ++ allShown options (openedAfter opened { mark, text }) rest := by
  rw [allShown, shown, map_line_indented, List.singleton_append]
  change (_ ++ text ++ if options.showTypes then "" else "") :: _ = _
  rw [ite_self, String.append_empty]

theorem lays_leaf (text : String) : Lays options opened opened [leaf text] (line text) :=
  allShown_plain .leaf text

theorem lays_typed (text : String) (e : Expr) :
    Lays options opened opened [typed text e] (line (text ++ typeNote options.showTypes e)) := by
  intro rest
  rw [map_line_indented, List.singleton_append, List.singleton_append, allShown, shown,
    ← String.append_assoc]
  rfl

theorem lays_otherwise :
    Lays options (opened + 1) opened [otherwise] (line "\x7d else \x7b") :=
  allShown_plain .turn "\x7d else \x7b"

theorem Lays.enclose {header : String} (inside : Lays options (opened + 1) opened ps ls) :
    Lays options opened opened (enclose header ps) (line header ++ (ls ++ line "\x7d")) := by
  intro rest
  rw [Piece.enclose, List.cons_append, List.append_assoc, List.singleton_append]
  rw [allShown_plain .opening header]
  change _ ++ allShown options (opened + 1) _ = _
  rw [inside, allShown_plain .closing "\x7d" rest, List.map_append, List.map_append]
  rw [List.append_assoc, List.append_assoc]
  rfl

end Piece

namespace Stmt

open Piece

variable {options : LayoutOptions}

mutual

theorem lays_pieces {opened : Nat} (s : Stmt) :
    Lays options opened opened s.pieces (s.layout options.showTypes) := by
  cases s with
  | declare span name ty init =>
    cases init with
    | some init => exact lays_typed _ init
    | none => exact lays_leaf _
  | expr e => exact lays_typed _ e
  | ret span value =>
    cases value with
    | some value => exact lays_typed _ value
    | none => exact lays_leaf _
  | ifThen condition body =>
    rw [layout, List.append_assoc]
    exact (lays_allPieces body).enclose
  | ifThenElse condition body otherwiseBody =>
    have start : Lays options (opened + 1) opened _ _ := lays_allPieces body
    have inside := start.append (lays_otherwise.append (lays_allPieces otherwiseBody))
    have whole : Lays options opened opened
        (enclose ("if (" ++ condition.text ++ ") \x7b") _) _ := inside.enclose
    simpa only [layout, pieces, List.append_assoc] using whole
  | «while» condition body =>
    rw [layout, List.append_assoc]
    exact (lays_allPieces body).enclose
  | block body =>
    rw [layout, List.append_assoc]
    exact (lays_allPieces body).enclose
  | throw e => exact lays_leaf _

theorem lays_allPieces {opened : Nat} (body : List Stmt) :
    Lays options (opened + 1) opened (allPieces body) (layoutBody options.showTypes body) := by
  cases body with
  | nil => exact lays_nil
  | cons s rest => exact (lays_pieces s).deeper.append (lays_allPieces rest)

end

end Stmt

namespace Member

open Piece

variable {options : LayoutOptions}

mutual

theorem lays_pieces {opened : Nat} (m : Member) :
    Lays options opened opened m.pieces (m.layout options.showTypes) := by
  cases m with
  | field sig init => cases init <;> exact lays_leaf _
  | method sig params body =>
    cases body with
    | some body =>
      rw [layout, List.append_assoc]
      exact (Stmt.lays_allPieces body).enclose
    | none => exact lays_leaf _
  | initializer body =>
    rw [layout, List.append_assoc]
    exact (Stmt.lays_allPieces body).enclose
  | nested decl members =>
    rw [layout, List.append_assoc]
    exact (lays_allPieces members).enclose

theorem lays_allPieces {opened : Nat} (members : List Member) :
    Lays options (opened + 1) opened (allPieces members)
      (layoutMembers options.showTypes members) := by
  cases members with
  | nil => exact lays_nil
  | cons m rest => exact (lays_pieces m).deeper.append (lays_allPieces rest)

end

end Member

theorem ClassDef.lays_pieces {options : LayoutOptions} {opened : Nat} (c : ClassDef) :
    Piece.Lays options opened opened c.pieces (c.layout options.showTypes) := by
  rw [layout, List.append_assoc]
  exact (Member.lays_allPieces c.members).enclose

theorem SourceUnit.lays_pieces {options : LayoutOptions} (u : SourceUnit) :
    Piece.Lays options 0 0 u.pieces (u.layout options.showTypes) := by
  have classes : Piece.Lays options 0 0 (u.classes.flatMap ClassDef.pieces)
      (u.classes.flatMap (ClassDef.layout options.showTypes)) := by
    induction u.classes with
    | nil => exact Piece.lays_nil
    | cons c rest ih => exact c.lays_pieces.append ih
  exact (Piece.lays_leaf ("// " ++ u.path)).append classes

namespace Piece

def OnOneLine (p : Piece) : Prop := OneLine p.text ∧ OneLine p.shownNote

theorem onOneLine_leaf {text : String} (oneLine : OneLine text) : (leaf text).OnOneLine :=
  ⟨oneLine, (by decide : OneLine "")⟩

theorem onOneLine_typed {text : String} {e : Expr} (oneLine : OneLine text)
    (named : ∀ name ∈ e.ty.names, OneLine name) : (typed text e).OnOneLine :=
  ⟨oneLine, OneLine.append (by decide) (e.ty.oneLine_text named)⟩

theorem onOneLine_enclose {header : String} {body : List Piece} (oneLine : OneLine header)
    (inside : ∀ p ∈ body, p.OnOneLine) : ∀ p ∈ enclose header body, p.OnOneLine := by
  refine List.forall_mem_cons.mpr ⟨⟨oneLine, (by decide : OneLine "")⟩,
    List.forall_mem_append.mpr ⟨inside, ?_⟩⟩
  exact List.forall_mem_singleton.mpr ⟨by decide, by decide⟩

theorem OnOneLine.shown {p : Piece} (whole : p.OnOneLine) (options : LayoutOptions)
    (opened : Nat) : OneLine (p.shown options opened) := by
  have margin : OneLine (String.ofList (List.replicate (p.depth opened * options.indent) ' ')) := by
    unfold OneLine
    rw [String.toList_ofList]
    intro member
    cases List.eq_of_mem_replicate member
  refine (margin.append whole.1).append ?_
  split
  · exact whole.2
  · decide

theorem oneLine_allShown {ps : List Piece} (whole : ∀ p ∈ ps, p.OnOneLine)
    (options : LayoutOptions) (opened : Nat) :
    ∀ text ∈ allShown options opened ps, OneLine text := by
  induction ps generalizing opened with
  | nil => exact fun _ member => by cases member
  | cons p rest ih =>
    obtain ⟨first, later⟩ := List.forall_mem_cons.mp whole
    exact List.forall_mem_cons.mpr ⟨first.shown options opened, ih later (p.openedAfter opened)⟩

end Piece

/-- Lines that are each ended by a line break are told apart by the breaks. -/
theorem splitOn_ended {texts : List String} (each : ∀ text ∈ texts, OneLine text) :
    (String.join (texts.map (· ++ "\n"))).toList.splitOn '\n'
      = texts.map String.toList ++ [[]] := by
  rw [String.toList_join, List.flatMap_map]
  induction texts with
  | nil => rfl
  | cons text rest ih =>
    obtain ⟨first, later⟩ := List.forall_mem_cons.mp each
    rw [List.flatMap_cons, String.toList_append]
    change List.splitOn '\n' (text.toList ++ ['\n'] ++ _) = _
    rw [List.append_assoc, List.singleton_append,
      List.splitOn_append_cons_self_of_not_mem first, ih later]
    rfl

namespace Expr

def typedNames (e : Expr) : List String := e.names ++ e.ty.names

end Expr

namespace Stmt

mutual

def names : Stmt → List String
  | declare _ name ty init => name.name :: (ty.names ++ init.elim [] Expr.typedNames)
  | expr e => e.typedNames
  | ret _ value => value.elim [] Expr.typedNames
  | ifThen condition body => condition.names ++ allNames body
  | ifThenElse condition body otherwise =>
    condition.names ++ (allNames body ++ allNames otherwise)
  | .while condition body => condition.names ++ allNames body
  | block body => allNames body
  | throw e => e.names

def allNames : List Stmt → List String
  | [] => []
  | s :: rest => names s ++ allNames rest

end

mutual

theorem onOneLine_pieces (s : Stmt) (named : ∀ name ∈ s.names, OneLine name) :
    ∀ p ∈ s.pieces, p.OnOneLine := by
  cases s with
  | declare span name ty init =>
    obtain ⟨own, parts⟩ := List.forall_mem_cons.mp named
    obtain ⟨typeNames, initNames⟩ := List.forall_mem_append.mp parts
    have head : OneLine (ty.text ++ " " ++ name.name) :=
      ((ty.oneLine_text typeNames).append (by decide)).append own
    cases init with
    | none => exact List.forall_mem_singleton.mpr (Piece.onOneLine_leaf (head.append (by decide)))
    | some init =>
      obtain ⟨inside, noted⟩ := List.forall_mem_append.mp initNames
      exact List.forall_mem_singleton.mpr (Piece.onOneLine_typed
        (((head.append (by decide)).append (init.oneLine_text inside)).append (by decide)) noted)
  | expr e =>
    obtain ⟨inside, noted⟩ := List.forall_mem_append.mp named
    exact List.forall_mem_singleton.mpr
      (Piece.onOneLine_typed ((e.oneLine_text inside).append (by decide)) noted)
  | ret span value =>
    cases value with
    | none => exact List.forall_mem_singleton.mpr (Piece.onOneLine_leaf (by decide))
    | some value =>
      obtain ⟨inside, noted⟩ := List.forall_mem_append.mp named
      exact List.forall_mem_singleton.mpr (Piece.onOneLine_typed
        ((OneLine.append (by decide) (value.oneLine_text inside)).append (by decide)) noted)
  | ifThen condition body =>
    obtain ⟨tested, inside⟩ := List.forall_mem_append.mp named
    exact Piece.onOneLine_enclose
      ((OneLine.append (by decide) (condition.oneLine_text tested)).append (by decide))
      (onOneLine_allPieces body inside)
  | ifThenElse condition body otherwise =>
    obtain ⟨tested, bodies⟩ := List.forall_mem_append.mp named
    obtain ⟨inside, instead⟩ := List.forall_mem_append.mp bodies
    refine Piece.onOneLine_enclose
      ((OneLine.append (by decide) (condition.oneLine_text tested)).append (by decide))
      (List.forall_mem_append.mpr ⟨onOneLine_allPieces body inside,
        List.forall_mem_cons.mpr ⟨⟨by decide, by decide⟩, onOneLine_allPieces otherwise instead⟩⟩)
  | «while» condition body =>
    obtain ⟨tested, inside⟩ := List.forall_mem_append.mp named
    exact Piece.onOneLine_enclose
      ((OneLine.append (by decide) (condition.oneLine_text tested)).append (by decide))
      (onOneLine_allPieces body inside)
  | block body => exact Piece.onOneLine_enclose (by decide) (onOneLine_allPieces body named)
  | throw e =>
    exact List.forall_mem_singleton.mpr (Piece.onOneLine_leaf
      ((OneLine.append (by decide) (e.oneLine_text named)).append (by decide)))

theorem onOneLine_allPieces (body : List Stmt) (named : ∀ name ∈ allNames body, OneLine name) :
    ∀ p ∈ allPieces body, p.OnOneLine := by
  cases body with
  | nil => exact fun _ member => by cases member
  | cons s rest =>
    obtain ⟨first, later⟩ := List.forall_mem_append.mp named
    exact List.forall_mem_append.mpr ⟨onOneLine_pieces s first, onOneLine_allPieces rest later⟩

end

end Stmt

def FieldSig.names (f : FieldSig) : List String := f.name.name :: f.ty.names

def MethodSig.names (m : MethodSig) (params : List Ident) : List String :=
  m.name.name :: (m.result.names ++ (m.params.flatMap Ty.names ++ params.map Ident.name))

def Decl.names (d : Decl) : List String := d.simpleName :: d.params.map TyVar.name

theorem FieldSig.oneLine_header (f : FieldSig) (named : ∀ name ∈ f.names, OneLine name) :
    OneLine f.header := by
  obtain ⟨own, ty⟩ := List.forall_mem_cons.mp named
  have modifier : OneLine (if f.isStatic then "static " else "") := by
    split <;> decide
  exact ((modifier.append (f.ty.oneLine_text ty)).append (by decide)).append own

theorem MethodSig.oneLine_header (m : MethodSig) (params : List Ident)
    (named : ∀ name ∈ m.names params, OneLine name) : OneLine (m.header params) := by
  obtain ⟨own, parts⟩ := List.forall_mem_cons.mp named
  obtain ⟨result, rest⟩ := List.forall_mem_append.mp parts
  obtain ⟨types, names⟩ := List.forall_mem_append.mp rest
  have start :
      OneLine (if m.isConstructor then "<init>" else m.result.text ++ " " ++ m.name.name) := by
    split
    · decide
    · exact ((m.result.oneLine_text result).append (by decide)).append own
  refine ((start.append (by decide)).append (Expr.oneLine_list ?_)).append (by decide)
  intro text member
  obtain ⟨⟨ty, name⟩, pair, rfl⟩ := List.mem_map.mp member
  obtain ⟨isType, isName⟩ := List.of_mem_zip pair
  have tyText := ty.oneLine_text fun n inside => types n (List.mem_flatMap.mpr ⟨ty, isType, inside⟩)
  exact (tyText.append (by decide)).append (names name.name (List.mem_map_of_mem isName))

theorem Decl.oneLine_header (d : Decl) (named : ∀ name ∈ d.names, OneLine name) :
    OneLine d.header := by
  obtain ⟨own, params⟩ := List.forall_mem_cons.mp named
  refine (OneLine.append (by decide) own).append ?_
  split
  · decide
  · exact (OneLine.append (by decide) (Expr.oneLine_list params)).append (by decide)

namespace Member

mutual

def names : Member → List String
  | field sig init => sig.names ++ init.elim [] Expr.names
  | method sig params body => sig.names params ++ body.elim [] Stmt.allNames
  | initializer body => Stmt.allNames body
  | nested decl members => decl.names ++ allNames members

def allNames : List Member → List String
  | [] => []
  | m :: rest => names m ++ allNames rest

end

mutual

theorem onOneLine_pieces (m : Member) (named : ∀ name ∈ m.names, OneLine name) :
    ∀ p ∈ m.pieces, p.OnOneLine := by
  cases m with
  | field sig init =>
    obtain ⟨own, initNames⟩ := List.forall_mem_append.mp named
    have header := sig.oneLine_header own
    cases init with
    | none => exact List.forall_mem_singleton.mpr (Piece.onOneLine_leaf (header.append (by decide)))
    | some init =>
      exact List.forall_mem_singleton.mpr (Piece.onOneLine_leaf
        (((header.append (by decide)).append (init.oneLine_text initNames)).append (by decide)))
  | method sig params body =>
    obtain ⟨own, inside⟩ := List.forall_mem_append.mp named
    have header := sig.oneLine_header params own
    cases body with
    | none => exact List.forall_mem_singleton.mpr (Piece.onOneLine_leaf (header.append (by decide)))
    | some body =>
      exact Piece.onOneLine_enclose (header.append (by decide))
        (Stmt.onOneLine_allPieces body inside)
  | initializer body =>
    exact Piece.onOneLine_enclose (by decide) (Stmt.onOneLine_allPieces body named)
  | nested decl members =>
    obtain ⟨own, inside⟩ := List.forall_mem_append.mp named
    exact Piece.onOneLine_enclose ((decl.oneLine_header own).append (by decide))
      (onOneLine_allPieces members inside)

theorem onOneLine_allPieces (members : List Member)
    (named : ∀ name ∈ allNames members, OneLine name) : ∀ p ∈ allPieces members, p.OnOneLine := by
  cases members with
  | nil => exact fun _ member => by cases member
  | cons m rest =>
    obtain ⟨first, later⟩ := List.forall_mem_append.mp named
    exact List.forall_mem_append.mpr ⟨onOneLine_pieces m first, onOneLine_allPieces rest later⟩

end

end Member

def ClassDef.names (c : ClassDef) : List String := c.decl.names ++ Member.allNames c.members

theorem ClassDef.onOneLine_pieces (c : ClassDef) (named : ∀ name ∈ c.names, OneLine name) :
    ∀ p ∈ c.pieces, p.OnOneLine := by
  obtain ⟨own, inside⟩ := List.forall_mem_append.mp named
  exact Piece.onOneLine_enclose ((c.decl.oneLine_header own).append (by decide))
    (Member.onOneLine_allPieces c.members inside)

def SourceUnit.names (u : SourceUnit) : List String := u.path :: u.classes.flatMap ClassDef.names

theorem SourceUnit.onOneLine_pieces (u : SourceUnit) (named : ∀ name ∈ u.names, OneLine name) :
    ∀ p ∈ u.pieces, p.OnOneLine := by
  obtain ⟨path, inside⟩ := List.forall_mem_cons.mp named
  refine List.forall_mem_cons.mpr ⟨Piece.onOneLine_leaf (OneLine.append (by decide) path), ?_⟩
  intro p member
  obtain ⟨c, isClass, isPiece⟩ := List.mem_flatMap.mp member
  exact c.onOneLine_pieces
    (fun name within => inside name (List.mem_flatMap.mpr ⟨c, isClass, within⟩)) p isPiece

namespace Piece

variable {options : LayoutOptions} {ps : List Piece}

/-- The text is the pieces on a line each, and only the types at the ends of lines depend on whether
types are shown. -/
structure PrintedAs (options : LayoutOptions) (ps : List Piece) (text : String) : Prop where
  oneLine : ∀ p ∈ ps, p.OnOneLine
  lines : text.toList.splitOn '\n' = (allShown options 0 ps).map String.toList ++ [[]]
  notes : allShown { options with showTypes := true } 0 ps
    = List.zipWith (· ++ ·) (allShown { options with showTypes := false } 0 ps)
        (ps.map shownNote)

theorem allShown_notes (opened : Nat) (ps : List Piece) :
    allShown { options with showTypes := true } opened ps
      = List.zipWith (· ++ ·) (allShown { options with showTypes := false } opened ps)
          (ps.map shownNote) := by
  induction ps generalizing opened with
  | nil => rfl
  | cons p rest ih =>
    have plain : p.shown { options with showTypes := false } opened ++ p.shownNote
        = p.shown { options with showTypes := true } opened := by
      simp [shown]
    rw [allShown, allShown, List.map_cons, List.zipWith_cons_cons, ih, plain]

theorem Lays.printed {ls : List Line} (lays : Lays options 0 0 ps ls)
    (oneLine : ∀ p ∈ ps, p.OnOneLine) : PrintedAs options ps (renderLines options ls) where
  oneLine := oneLine
  lines := by
    have shown : allShown options 0 ps = ls.map (Line.indented options.indent 0) := by
      have whole := lays []
      rwa [List.append_nil, allShown, List.append_nil] at whole
    have ended : ls.map (Line.render options.indent) = (allShown options 0 ps).map (· ++ "\n") := by
      rw [shown, List.map_map]
      apply List.map_congr_left
      intro l _
      change _ = String.ofList (List.replicate ((0 + l.depth) * options.indent) ' ')
        ++ l.text ++ "\n"
      rw [Nat.zero_add]
      rfl
    rw [renderLines, ended]
    exact splitOn_ended (oneLine_allShown oneLine options 0)
  notes := allShown_notes 0 ps

end Piece

/-- Printed source is made of the pieces of its tree, whatever the literals in it hold. -/
theorem source_printed (options : LayoutOptions) :
    (∀ s : Stmt, (∀ name ∈ s.names, OneLine name) →
      Piece.PrintedAs options s.pieces (s.source options)) ∧
    (∀ m : Member, (∀ name ∈ m.names, OneLine name) →
      Piece.PrintedAs options m.pieces (m.source options)) ∧
    (∀ c : ClassDef, (∀ name ∈ c.names, OneLine name) →
      Piece.PrintedAs options c.pieces (c.source options)) ∧
    ∀ u : SourceUnit, (∀ name ∈ u.names, OneLine name) →
      Piece.PrintedAs options u.pieces (u.source options) :=
  ⟨fun s named => s.lays_pieces.printed (s.onOneLine_pieces named),
    fun m named => m.lays_pieces.printed (m.onOneLine_pieces named),
    fun c named => c.lays_pieces.printed (c.onOneLine_pieces named),
    fun u named => u.lays_pieces.printed (u.onOneLine_pieces named)⟩

namespace Sample

def splitBranch : Stmt :=
  .ifThenElse (.localVar ⟨.null, Ty.boolean⟩ ⟨"flag"⟩)
    [.expr (.ofLiteral (.str "a\nb") (.of ⟨2, "java.lang.String", false, []⟩ []))]
    [.while (.ofBool true) []]

def splitRun : Member :=
  .method ⟨⟨"run"⟩, [], Ty.void, false, false, false⟩ [] (some [splitBranch])

def splitMain : ClassDef := ⟨⟨1, "app.Main", false, []⟩, [splitRun]⟩

def splitter : SourceUnit :=
  ⟨"Main.java", ⟨0, .ofLists [ClassTable.object] [] []⟩, [splitMain]⟩

theorem source_printed_splitter :
    ((∀ name ∈ splitBranch.names, OneLine name) ∧ (∀ name ∈ splitRun.names, OneLine name) ∧
      (∀ name ∈ splitMain.names, OneLine name) ∧ ∀ name ∈ splitter.names, OneLine name) ∧
    splitter.source ⟨2, true⟩
      = "// Main.java\nclass Main \x7b\n  void run() \x7b\n    if (flag) \x7b\n"
        ++ "      \"a\\nb\"; // : String\n    \x7d else \x7b\n      while (true) \x7b\n"
        ++ "      \x7d\n    \x7d\n  \x7d\n\x7d\n" ∧
    Piece.PrintedAs ⟨2, true⟩ splitBranch.pieces (splitBranch.source ⟨2, true⟩) ∧
    Piece.PrintedAs ⟨2, true⟩ splitRun.pieces (splitRun.source ⟨2, true⟩) ∧
    Piece.PrintedAs ⟨2, true⟩ splitMain.pieces (splitMain.source ⟨2, true⟩) ∧
    Piece.PrintedAs ⟨2, true⟩ splitter.pieces (splitter.source ⟨2, true⟩) := by
  have inBranch : ∀ name ∈ splitBranch.names, OneLine name := by decide
  have inRun : ∀ name ∈ splitRun.names, OneLine name := by decide
  have inMain : ∀ name ∈ splitMain.names, OneLine name := by decide
  have inUnit : ∀ name ∈ splitter.names, OneLine name := by decide
  obtain ⟨statement, member, definition, unit⟩ := source_printed ⟨2, true⟩
  exact ⟨⟨inBranch, inRun, inMain, inUnit⟩, by decide, statement splitBranch inBranch,
    member splitRun inRun, definition splitMain inMain, unit splitter inUnit⟩

end Sample

end NullabilityCasts
