import ScriptLift.Numeral.Double
import ScriptLift.Operator

/-!
# Expressions

* `Expr`: values, names, operations, assignments and calls. `hole` stands where an expression is
  absent: the owner of a plain variable, or an operand that is not there.
* `Expr.type`: the type of a value; `Expr.isTyped`: no hole stands in its way.
* `Expr.negated`: negation, folded into integer literals.
-/

namespace ScriptLift

/-- An expression. -/
inductive Expr where
  /-- No expression. -/
  | hole
  | int (value : Int64)
  | real (value : Double)
  | str (text : String)
  /-- A symbolic constant of a domain. -/
  | const (domain name : String)
  | param (name type : String)
  /-- A property table. -/
  | prop (name type : String)
  /-- A variable, a member of its owner unless that is a hole. -/
  | var (name type : String) (owner : Expr)
  | unary (op : UnaryOp) (operand : Expr)
  | binary (op : BinaryOp) (left right : Expr)
  /-- The assignment of a value to the variable with a name, a type and an owner. -/
  | assign (name type : String) (owner value : Expr)
  /-- A call of a function, on its owner unless that is a hole; the comment follows the call. -/
  | call (function type : String) (owner : Expr) (args : List Expr) (comment : String)
  deriving Repr, Inhabited

namespace Expr

/-! ## Types -/

/-- The type of an operation on operands of given types. -/
def binaryType (op : BinaryOp) (left right : String) : String :=
  match op with
  | .add => if left == "string" || right == "string" then "string" else "int"
  | .sub | .mul | .div =>
    if left == "SKILL" then "SKILL_SHORT"
    else if left == "int" && right == "int" then "int"
    else "double"
  | .mod | .bitAnd | .bitOr | .bitXor => "int"
  | _ => "BOOL"

/-- The type of an expression; a hole has none. -/
def type : Expr → String
  | hole => ""
  | int _ => "int"
  | real _ => "double"
  | str _ => "string"
  | const domain _ => domain
  | param _ t | prop _ t | var _ t _ => t
  | unary _ e => e.type
  | binary op l r => binaryType op l.type r.type
  | assign _ _ _ v => v.type
  | call _ t _ _ _ => t

/-- Whether the type of an expression depends on no hole. -/
def isTyped : Expr → Bool
  | hole => false
  | unary _ e => e.isTyped
  | binary _ l r => l.isTyped && r.isTyped
  | assign _ _ _ v => v.isTyped
  | _ => true

/-- The type of an expression, if no hole stands in its way. -/
def type? (e : Expr) : Option String := if e.isTyped then some e.type else none

/-! ## Tests and smart constructors -/

/-- Whether there is no expression. -/
def isHole : Expr → Bool
  | hole => true
  | _ => false

/-- Whether an expression is the literal 1. -/
def isOne : Expr → Bool
  | int v => v == 1
  | _ => false

/-- Whether an expression is an operation on two operands. -/
def isBinary : Expr → Bool
  | binary .. => true
  | _ => false

/-- Whether an expression is an assignment. -/
def isAssign : Expr → Bool
  | assign .. => true
  | _ => false

/-- The integer an expression spells out. -/
def literal? : Expr → Option Int64
  | int v => some v
  | _ => none

/-- An operator put before an operand; minus is folded into an integer literal. -/
def ofUnary (op : UnaryOp) (operand : Expr) : Expr :=
  match op, operand with
  | .negate, int v => int (-v)
  | op, e => unary op e

end Expr

end ScriptLift
