import ScriptLift.Tree.Describe

/-!
# Outlines

A class drawn as a tree, a node per declaration and statement.

* `Outline`: a labelled tree; `Outline.render` draws it.
* `ClassDecl.outline`: the outline of a class, for trees whose parts are all there.
-/

namespace ScriptLift

/-- A tree of texts. -/
inductive Outline where
  | node (text : String) (children : List Outline)

namespace Outline

/-- The margin below an open level. -/
def link : String := Text.ofUnicode "│   "

/-- The margin below a closed level. -/
def gap : String := "    "

/-- The margin of a node in its own level. -/
def margin (last : Bool) : String := if last then gap else link

/-- The mark before a node. -/
def edge (last : Bool) : String := Text.ofUnicode (if last then "└── " else "├── ")

/-- A text whose further lines start with a margin. -/
def padded (pad text : String) : String :=
  String.intercalate ("\n" ++ pad) (Text.split '\n' text)

mutual

/-- A node below a margin. -/
def draw (pad : String) (last : Bool) : Outline → String
  | node text children =>
    pad ++ edge last ++ padded (pad ++ margin last) text ++ "\n"
      ++ drawAll (pad ++ margin last) children

/-- The nodes of one level below a margin. -/
def drawAll (pad : String) : List Outline → String
  | [] => ""
  | t :: r => draw pad r.isEmpty t ++ drawAll pad r

end

/-- A tree as text, a line per node. -/
def render : Outline → String
  | node text children => text ++ "\n" ++ drawAll "" children

/-- A node without children. -/
def leaf (text : String) : Outline := node text []

end Outline

open Outline

namespace Stmt

mutual

/-- The outline of a statement. -/
def outline : Stmt → Outline
  | ifElse c yes no =>
    node ("if " ++ c.describe)
      (node "then" (outlines yes) :: if no.isEmpty then [] else [node "else" (outlines no)])
  | whileLoop c b => node ("while " ++ c.describe) (outlines b)
  | forLoop i c u b => node ("for " ++ forHeader i c u) (outlines b)
  | select c cases => node ("select " ++ c.describe) (caseOutlines cases)
  | s => leaf s.describe

/-- The outlines of a body. -/
def outlines : List Stmt → List Outline
  | [] => []
  | s :: r => s.outline :: outlines r

/-- The outlines of arms. -/
def caseOutlines : List Case → List Outline
  | [] => []
  | .mk v b :: r => node ("case " ++ v.describe) (outlines b) :: caseOutlines r

end

mutual

/-- Whether a statement has everything its outline shows. -/
def isOutlined : Stmt → Bool
  | ifElse c yes no => c.isWhole && areOutlined yes && areOutlined no
  | whileLoop c b => c.isWhole && areOutlined b
  | forLoop _ _ _ b => areOutlined b
  | select c cases => c.isWhole && casesOutlined cases
  | s => s.isWhole

/-- Whether all statements of a body have everything their outlines show. -/
def areOutlined : List Stmt → Bool
  | [] => true
  | s :: r => s.isOutlined && areOutlined r

/-- Whether all arms have everything their outlines show. -/
def casesOutlined : List Case → Bool
  | [] => true
  | .mk v b :: r => v.isWhole && areOutlined b && casesOutlined r

end

end Stmt

namespace ClassDecl

/-- The outline of a class. -/
def outline (c : ClassDecl) : Outline :=
  let parameters := if c.parameters.isEmpty then []
    else [node "parameters" (c.parameters.map fun p => leaf p.describe)]
  let properties := if c.properties.isEmpty then []
    else [node "properties" (c.properties.map fun p =>
      node p.describe (p.rows.map fun r => leaf ("[" ++ String.intercalate " " r.cells ++ "]")))]
  node c.describe (parameters ++ properties
    ++ c.handlers.map fun h => node h.describe (Stmt.outlines h.body))

/-- Whether a class has everything its outline shows. -/
def isOutlined (c : ClassDecl) : Bool :=
  c.parameters.all (fun p => p.value.isHole || p.value.isWhole)
    && c.handlers.all fun h => Stmt.areOutlined h.body

/-- The outline of a class as text, if it has one. -/
def outlineText? (c : ClassDecl) : Option String :=
  if c.isOutlined then some c.outline.render else none

end ClassDecl

end ScriptLift
