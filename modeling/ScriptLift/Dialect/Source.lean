import ScriptLift.Dialect.Expr
import ScriptLift.Dialect.Layout
import ScriptLift.Tree.Describe

/-!
# Source of the dialect

Classes as source text: first as lines without indentation, then laid out.

* `Dialect.stmtLines`, `Dialect.bodyLines`: the lines of statements.
* `Dialect.classLines`: the lines of a class.
* `Dialect.source`: the source of a class.
-/

namespace ScriptLift.Dialect

/-! ## Statements -/

/-- The text of an expression where nothing around it binds. -/
def freeExpr (d : Dialect) (e : Expr) : String := d.expr .free e

mutual

/-- The lines of a statement; `lead` stands before the first line of a conditional. -/
def stmtLines (d : Dialect) (lead : String) : Stmt → List String
  | .missing => []
  | .eval e => [d.freeExpr e ++ ";"]
  | .block b => d.bodyLines b ++ [""]
  | .ifElse c yes no =>
    (lead ++ "if (" ++ d.freeExpr c ++ ") \x7b") :: (d.bodyLines yes ++ d.elseLines no)
  | .whileLoop c b => ("while (" ++ d.freeExpr c ++ ") \x7b") :: (d.bodyLines b ++ ["\x7d"])
  | .forLoop i c u b =>
    ("for (" ++ d.freeExpr i ++ "; " ++ d.freeExpr c ++ "; " ++ d.freeExpr u ++ ") \x7b")
      :: (d.bodyLines b ++ ["\x7d"])
  | .select c cases => ("select (" ++ d.freeExpr c ++ ") \x7b") :: (d.caseLines cases ++ ["\x7d"])
  | .ret => ["return;"]
  | .brk => ["break;"]
  | .super _ => ["super;"]

/-- The lines of a body. -/
def bodyLines (d : Dialect) : List Stmt → List String
  | [] => []
  | s :: r => d.stmtLines "" s ++ d.bodyLines r

/-- The lines from the brace that closes the first branch of a conditional on. -/
def elseLines (d : Dialect) : List Stmt → List String
  | [] => ["\x7d"]
  | [.missing] => ["\x7d"]
  | [.ifElse c yes no] => d.stmtLines "\x7d else " (.ifElse c yes no)
  | s :: r => "\x7d else \x7b" :: (d.stmtLines "" s ++ d.bodyLines r ++ ["\x7d"])

/-- The lines of arms. -/
def caseLines (d : Dialect) : List Case → List String
  | [] => []
  | .mk v b :: r => ("case " ++ d.freeExpr v ++ ":") :: (d.bodyLines b ++ d.caseLines r)

end

/-! ## Declarations -/

/-- The line that selects the base event type of a class kind. -/
def optionLines (d : Dialect) (kind : Int64) : List String :=
  if kind == 0 then
    ["set_compiler_opt base_event_type(" ++ d.constantMark ++ "NTYPE_NPC_EVENT)", ""]
  else if kind == 1 then
    ["set_compiler_opt base_event_type(" ++ d.constantMark ++ "NTYPE_MAKER_EVENT)", ""]
  else []

/-- A parameter declaration. -/
def parameterLine (d : Dialect) (p : Parameter) : String :=
  p.type ++ " " ++ p.name ++ (if p.value.isHole then "" else " = " ++ d.freeExpr p.value) ++ ";"

/-- The rows of a property table, separated by semicolons. -/
def rowLines : List PropertyRow → List String
  | [] => []
  | row :: r =>
    ("\x7b" ++ String.intercalate "; " row.cells ++ "\x7d" ++ comment row.comment
      ++ (if r.isEmpty then "" else ";")) :: rowLines r

/-- The lines of a property table. -/
def propertyLines (p : Property) : List String :=
  let head := p.type ++ " " ++ p.name ++ " = \x7b"
  if p.rows.isEmpty then [head ++ "\x7d;"] else head :: (rowLines p.rows ++ ["\x7d;"])

/-- The lines of a handler. -/
def handlerLines (d : Dialect) (h : Handler) : List String :=
  ("EventHandler " ++ h.name ++ "(" ++ h.variableNames ++ ") \x7b")
    :: (d.bodyLines h.body ++ ["\x7d"])

/-- A titled section, after an empty line when another section stands before it. -/
def titled (title : String) (follows : Bool) (lines : List String) : List String :=
  if lines.isEmpty then [] else (if follows then [""] else []) ++ title :: lines

/-- The lines of a class. -/
def classLines (d : Dialect) (c : ClassDecl) : List String :=
  let parameters := c.parameters.map d.parameterLine
  let properties := c.properties.flatMap propertyLines
  let handlers := c.handlers.flatMap d.handlerLines
  d.optionLines c.kind
    ++ ("class " ++ c.name ++ (if c.super.isEmpty then "" else " : " ++ c.super) ++ " \x7b")
      :: titled "parameter:" false parameters
    ++ titled "property:" (!parameters.isEmpty) properties
    ++ titled "handler:" (!parameters.isEmpty || !properties.isEmpty) handlers
    ++ ["\x7d"]

/-- The source of a class, laid out and followed by an empty line. -/
def source (d : Dialect) (c : ClassDecl) : String :=
  Layout.indent (String.intercalate "\n" (d.classLines c)) ++ "\n"

/-! ## Absent bodies -/

mutual

/-- Whether a statement has every body its source shows; the second branch of a conditional may be
absent. -/
def hasBodies : Stmt → Bool
  | .missing => false
  | .block b | .whileLoop _ b | .forLoop _ _ _ b => haveBodies b
  | .ifElse _ yes no => haveBodies yes && elseHasBodies no
  | .select _ cases => casesHaveBodies cases
  | _ => true

/-- Whether all statements of a body have every body their source shows. -/
def haveBodies : List Stmt → Bool
  | [] => true
  | s :: r => hasBodies s && haveBodies r

/-- Whether a second branch is absent or has every body its source shows. -/
def elseHasBodies : List Stmt → Bool
  | [] => true
  | [.missing] => true
  | s :: r => hasBodies s && haveBodies r

/-- Whether all arms have every body their source shows. -/
def casesHaveBodies : List Case → Bool
  | [] => true
  | .mk _ b :: r => haveBodies b && casesHaveBodies r

end

/-- The source of a class, unless a body it shows is absent. -/
def source? (d : Dialect) (c : ClassDecl) : Option String :=
  if c.handlers.all fun h => haveBodies h.body then some (d.source c) else none

end ScriptLift.Dialect
