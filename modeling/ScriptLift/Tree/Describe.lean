import ScriptLift.Tree.ClassDecl

/-!
# Descriptions

A description shows a tree for debugging: every operation in parentheses, every constant with its
domain. A tree with a hole where a part is needed has none; only the header of a for loop shows
such parts by a placeholder.

* `Expr.describe`, `Stmt.describe`, `ClassDecl.describe`: the texts.
* `Expr.isWhole`, `Stmt.isWhole`: nothing that a description needs is absent.
-/

namespace ScriptLift

open Text

namespace Expr

mutual

/-- Whether an expression has everything its description shows. -/
def isWhole : Expr → Bool
  | hole => false
  | var _ _ owner => owner.isHole || owner.isWhole
  | unary _ e => e.isWhole
  | binary _ l r => l.isWhole && r.isWhole
  | assign _ _ owner v => (owner.isHole || owner.isWhole) && v.isWhole
  | call _ _ owner args _ => (owner.isHole || owner.isWhole) && areWhole args
  | _ => true

/-- Whether all expressions of a list have everything their descriptions show. -/
def areWhole : List Expr → Bool
  | [] => true
  | e :: r => e.isWhole && areWhole r

end

mutual

/-- The description of an expression. -/
def describe : Expr → String
  | hole => ""
  | int v => Numeral.decimal v.toInt
  | real x => x.general
  | str s => quoted s
  | const domain name => "@" ++ domain ++ "." ++ name
  | param name _ => "param:" ++ name
  | prop name _ => "property:" ++ name
  | var name _ owner => if owner.isHole then name else owner.describe ++ "." ++ name
  | unary op e => "(" ++ op.symbol ++ e.describe ++ ")"
  | binary op l r => "(" ++ l.describe ++ " " ++ op.symbol ++ " " ++ r.describe ++ ")"
  | assign name _ owner v =>
    (if owner.isHole then name else owner.describe ++ "." ++ name) ++ " = " ++ v.describe
  | call f _ owner args _ =>
    (if owner.isHole then "" else owner.describe ++ ".") ++ f ++ "("
      ++ String.intercalate ", " (describeAll args) ++ ")"

/-- The descriptions of a list of expressions. -/
def describeAll : List Expr → List String
  | [] => []
  | e :: r => e.describe :: describeAll r

end

/-- The description of an expression that has one. -/
def describe? (e : Expr) : Option String := if e.isWhole then some e.describe else none

/-- The placeholder for something that has no description. -/
def undescribed : String :=
  "%!s(PANIC=String method: runtime error: invalid memory address or nil pointer dereference)"

/-- A part of a for header. -/
def headerText (e : Expr) : String :=
  if e.isHole then "%!s(<nil>)" else e.describe?.getD undescribed

end Expr

/-- The parts of a for header. -/
def forHeader (init cond update : Expr) : String :=
  init.headerText ++ "; " ++ cond.headerText ++ "; " ++ update.headerText

namespace Stmt

/-- A described body in braces. -/
def braced (s : String) : String := "\x7b" ++ s ++ " \x7d"

mutual

/-- Whether a statement has everything its description shows. -/
def isWhole : Stmt → Bool
  | missing => false
  | eval e => e.isWhole
  | block b => areWhole b
  | ifElse c yes no => c.isWhole && areWhole yes && areWhole no
  | whileLoop c b => c.isWhole && areWhole b
  | forLoop .. => true
  | select c cases => c.isWhole && casesWhole cases
  | ret | brk | super _ => true

/-- Whether all statements of a list have everything their descriptions show. -/
def areWhole : List Stmt → Bool
  | [] => true
  | s :: r => s.isWhole && areWhole r

/-- Whether all arms have everything their descriptions show. -/
def casesWhole : List Case → Bool
  | [] => true
  | .mk v b :: r => v.isWhole && areWhole b && casesWhole r

end

mutual

/-- The description of a statement. -/
def describe : Stmt → String
  | missing => ""
  | eval e => e.describe ++ ";"
  | block b => braced (describeBody b)
  | ifElse c yes no =>
    "if " ++ c.describe ++ " " ++ braced (describeBody yes)
      ++ (if no.isEmpty then "" else " else " ++ braced (describeBody no))
  | whileLoop c b => "while " ++ c.describe ++ " " ++ braced (describeBody b)
  | forLoop i c u b =>
    "for (" ++ forHeader i c u ++ ") "
      ++ (if isNoBody b then "<nil>"
        else if areWhole b then braced (describeBody b)
        else Expr.undescribed)
  | select c cases => "select " ++ c.describe ++ " " ++ braced (describeCases cases)
  | ret => "return;"
  | brk => "break;"
  | super _ => "super;"

/-- The descriptions of a body, each after a blank. -/
def describeBody : List Stmt → String
  | [] => ""
  | s :: r => " " ++ s.describe ++ describeBody r

/-- The descriptions of arms, each after a blank. -/
def describeCases : List Case → String
  | [] => ""
  | .mk v b :: r => " case " ++ v.describe ++ ": " ++ braced (describeBody b) ++ describeCases r

end

/-- The description of a body, if it has one. -/
def describeBlock? (b : List Stmt) : Option String :=
  if areWhole b then some (braced (describeBody b)) else none

end Stmt

/-- The name of a class kind. -/
def kindName (kind : Int64) : String :=
  if kind == 0 then "NPC_EVENT"
  else if kind == 1 then "MAKER_EVENT"
  else "ClassKind(" ++ Numeral.decimal kind.toInt ++ ")"

/-- The description of a parameter. -/
def Parameter.describe (p : Parameter) : String :=
  p.type ++ " " ++ p.name ++ (if p.value.isHole then "" else " = " ++ p.value.describe)

/-- The description of a property table. -/
def Property.describe (p : Property) : String :=
  p.type ++ " " ++ p.name ++ " (" ++ Numeral.decimal p.rows.length ++ " rows)"

/-- The names of the variables of a handler. -/
def Handler.variableNames (h : Handler) : String :=
  String.intercalate ", " (h.locals.map Variable.name)

/-- The description of a handler without its body. -/
def Handler.describe (h : Handler) : String :=
  "EventHandler " ++ h.name ++ "(" ++ h.variableNames ++ ")"

/-- The description of a class without its parts. -/
def ClassDecl.describe (c : ClassDecl) : String :=
  "class " ++ c.name ++ (if c.super.isEmpty then "" else " : " ++ c.super) ++ " ("
    ++ kindName c.kind ++ ", " ++ Numeral.decimal c.parameters.length ++ " parameters, "
    ++ Numeral.decimal c.properties.length ++ " properties, "
    ++ Numeral.decimal c.handlers.length ++ " handlers)"

end ScriptLift
