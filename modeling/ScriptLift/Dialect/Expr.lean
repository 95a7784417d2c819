import ScriptLift.Tree.Expr
import ScriptLift.Text.Basic

/-!
# Expressions of the dialect

Expressions as source text, with parentheses where the text would otherwise read as another tree.

* `Dialect`: the choices of a dialect.
* `Place`: where an expression stands.
* `Dialect.expr`: the text of an expression.
-/

namespace ScriptLift

/-- The choices of a dialect. -/
structure Dialect where
  /-- Owner paths that calls leave out. -/
  implicitReceivers : List String
  /-- What symbolic constants start with. -/
  constantMark : String
  /-- The domains whose constants stand without mark. -/
  bareDomains : List String
  deriving Repr, DecidableEq, Inhabited

/-- The settings of the reference compiler. -/
def Dialect.default : Dialect := ⟨["myself", "gg"], "@", ["PSTATE"]⟩

/-- Where an expression stands. -/
inductive Place where
  /-- Nothing around it binds. -/
  | free
  /-- Behind a unary operator. -/
  | behind (op : UnaryOp)
  /-- An operand of a binary operator. -/
  | beside (op : BinaryOp) (right : Bool)
  deriving Repr, DecidableEq, Inhabited

namespace Place

/-- Whether integers are written in hexadecimal here. -/
def isBitwise : Place → Bool
  | free => false
  | behind op => op == .complement
  | beside op _ => op.isBitwise

/-- Whether an operation needs parentheses here. -/
def needsParens (op : BinaryOp) : Place → Bool
  | beside p right =>
    if op.level = p.level then right && !p.regroups op else op.level < p.level
  | _ => false

end Place

/-- A text in parentheses, where asked for. -/
def parenthesized (yes : Bool) (s : String) : String := if yes then "(" ++ s ++ ")" else s

/-- An integer as an operand of a bitwise operator: its low 32 bits in hexadecimal. -/
def hexLiteral (v : Int64) : String :=
  "0x" ++ String.ofList (Text.hex 1 (v.toUInt64.toNat % 0x100000000))

/-- A floating point literal: one decimal place when that is exact, else the fewest digits. -/
def realLiteral (x : Double) : String :=
  if x.tenfoldIsWhole then x.fixed
  else
    let s := x.positional
    if Text.hasInfix "." s then s else s ++ ".0"

/-- Whether the operand of a unary operator is put in parentheses. -/
def wrapsOperand (op : UnaryOp) : Expr → Bool
  | .binary .. | .assign .. | .unary .. => true
  | .int v => op == .negate && v < 0
  | .real x => op == .negate && x.isBelowZero
  | _ => false

namespace Dialect

/-- A symbolic constant. -/
def constant (d : Dialect) (domain name : String) : String :=
  if d.bareDomains.contains domain then name else d.constantMark ++ name

/-- An owner path without its first part, when that is left out. -/
def elide (d : Dialect) (owner : String) : String :=
  (d.implicitReceivers.findSome? fun name => Text.cutPrefix? (name ++ ".") owner).getD owner

/-- The comment after a call. -/
def comment (s : String) : String := if s.isEmpty then "" else " /* " ++ s ++ " */"

mutual

/-- The text of an expression at a place. -/
def expr (d : Dialect) (place : Place) : Expr → String
  | .hole => ""
  | .int v => if place.isBitwise then hexLiteral v else Numeral.decimal v.toInt
  | .real x => realLiteral x
  | .str s => "\"" ++ s ++ "\""
  | .const domain name => d.constant domain name
  | .param name _ | .prop name _ => name
  | .var name _ owner => if owner.isHole then name else d.expr .free owner ++ "." ++ name
  | .unary op e => op.symbol ++ parenthesized (wrapsOperand op e) (d.expr (.behind op) e)
  | .binary op l r =>
    parenthesized (place.needsParens op)
      (d.expr (.beside op false) l ++ " " ++ op.symbol ++ " " ++ d.expr (.beside op true) r)
  | .assign name _ owner v =>
    let target := if owner.isHole then name else d.expr .free owner ++ "." ++ name
    match d.stepMark? target v with
    | some mark => mark ++ target
    | none => target ++ " = " ++ d.expr .free v
  | .call f _ owner args note =>
    (if owner.isHole then "" else d.elide (d.expr .free owner ++ ".")) ++ f ++ "("
      ++ String.intercalate ", " (d.exprs args) ++ ")" ++ comment note

/-- The mark of an assignment that steps its target by one. -/
def stepMark? (d : Dialect) (target : String) : Expr → Option String
  | .binary .add l r =>
    if (r.isOne && d.expr .free l == target) || (l.isOne && d.expr .free r == target)
    then some "++" else none
  | .binary .sub l r => if r.isOne && d.expr .free l == target then some "--" else none
  | _ => none

/-- The texts of arguments. -/
def exprs (d : Dialect) : List Expr → List String
  | [] => []
  | e :: r => d.expr .free e :: d.exprs r

end

end Dialect

end ScriptLift
