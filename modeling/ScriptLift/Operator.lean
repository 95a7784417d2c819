/-!
# Operators

The operators of expressions, by meaning. A symbol that is no operator of the dialect is kept as
it is, binding weaker than all others.

* `BinaryOp`, `UnaryOp`, their symbols and how symbols are read.
* `BinaryOp.level`: binding strength, weakest first.
* `BinaryOp.regroups`: when a right operand of the same strength needs no parentheses.
-/

namespace ScriptLift

/-- An operator between two operands. -/
inductive BinaryOp where
  | or
  | and
  | bitOr
  | bitXor
  | bitAnd
  | eq
  | ne
  | lt
  | le
  | gt
  | ge
  | add
  | sub
  | mul
  | div
  | mod
  | other (symbol : String)
  deriving Repr, DecidableEq, Inhabited

namespace BinaryOp

/-- How an operator is written. -/
def symbol : BinaryOp → String
  | or => "||"
  | and => "&&"
  | bitOr => "|"
  | bitXor => "^"
  | bitAnd => "&"
  | eq => "=="
  | ne => "!="
  | lt => "<"
  | le => "<="
  | gt => ">"
  | ge => ">="
  | add => "+"
  | sub => "-"
  | mul => "*"
  | div => "/"
  | mod => "%"
  | other s => s

/-- The operators of the dialect. -/
def all : List BinaryOp :=
  [or, and, bitOr, bitXor, bitAnd, eq, ne, lt, le, gt, ge, add, sub, mul, div, mod]

/-- The operator with a symbol. -/
def ofSymbol (s : String) : BinaryOp := (all.find? (·.symbol == s)).getD (other s)

/-- Binding strength, weakest first. -/
def level : BinaryOp → Nat
  | or => 1
  | and => 2
  | bitOr => 3
  | bitXor => 4
  | bitAnd => 5
  | eq | ne => 6
  | lt | le | gt | ge => 7
  | add | sub => 8
  | mul | div | mod => 9
  | other _ => 0

/-- Whether `a p (b q c)` may be written without its parentheses. -/
def regroups : BinaryOp → BinaryOp → Bool
  | add, q => q == add || q == sub
  | mul, q => q == mul
  | and, q => q == and
  | or, q => q == or
  | bitAnd, q => q == bitAnd
  | bitOr, q => q == bitOr
  | bitXor, q => q == bitXor
  | _, _ => false

/-- Whether integer operands are written in hexadecimal. -/
def isBitwise : BinaryOp → Bool
  | bitAnd | bitOr | bitXor => true
  | _ => false

end BinaryOp

/-- An operator before its operand. -/
inductive UnaryOp where
  | negate
  | complement
  | increment
  | decrement
  | other (symbol : String)
  deriving Repr, DecidableEq, Inhabited

namespace UnaryOp

/-- How an operator is written. -/
def symbol : UnaryOp → String
  | negate => "-"
  | complement => "~"
  | increment => "++"
  | decrement => "--"
  | other s => s

/-- The operators of the dialect. -/
def all : List UnaryOp := [negate, complement, increment, decrement]

/-- The operator with a symbol. -/
def ofSymbol (s : String) : UnaryOp := (all.find? (·.symbol == s)).getD (other s)

end UnaryOp

end ScriptLift
