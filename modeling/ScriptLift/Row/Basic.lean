import ScriptLift.Numeral.Integer
import ScriptLift.Operator

/-!
# Rows

A row is one line of a listing: a name, its operands, and the comment after them. Labels (`L12`)
and string records (`S4`) are named by their id.

* `Row`, `Row.text`: a row and how it is written.
* `Row.int`: an operand as an integer.
* `Opcode`: what a row does, by its name.
-/

namespace ScriptLift

/-- One line of a listing. -/
structure Row where
  name : String
  operands : List String
  comment : String
  /-- The line without its comment; of a string record only the text after the id. -/
  raw : String
  line : Int
  deriving Repr, DecidableEq, Inhabited

namespace Row

/-- A letter followed by a digit. -/
def isNumbered (letter : Char) : List Char → Bool
  | a :: b :: _ => a == letter && '0' ≤ b && b ≤ '9'
  | _ => false

/-- A string record (`S12`). -/
def isRecord (r : Row) : Bool := isNumbered 'S' r.name.toList

/-- A jump target (`L12`). -/
def isLabel (r : Row) : Bool := isNumbered 'L' r.name.toList

/-- A row that reads the value behind an address. -/
def isFetch (r : Row) : Bool := Text.startsWith "fetch_" r.name

/-- A row that reads an integer behind an address. -/
def isIntFetch (r : Row) : Bool := Text.startsWith "fetch_i" r.name

/-- An operand, the empty text where there is none. -/
def operand (r : Row) (i : Nat) : String := (r.operands[i]?).getD ""

/-- Why an operand is no integer. -/
inductive OperandError where
  | missing (row : String) (index : Int)
  | unreadable (e : Numeral.ReadError)
  deriving Repr, DecidableEq, Inhabited

/-- The wording of an operand error. -/
def OperandError.message : OperandError → String
  | .missing row i => row ++ ": missing operand " ++ Numeral.decimal i
  | .unreadable e => e.message

/-- The operand at an index, which may lie outside on either side. -/
def operand? (r : Row) (i : Int) : Option String := if i < 0 then none else r.operands[i.toNat]?

/-- An operand as an integer. -/
def int (r : Row) (i : Int) : Except OperandError Int64 :=
  match r.operand? i with
  | none => .error (.missing r.name i)
  | some s =>
    match Numeral.readInt s with
    | .ok v => .ok v
    | .error e => .error (.unreadable e)

/-- A row as it is written: its name and operands, separated by blanks. -/
def text (r : Row) : String :=
  if r.operands.isEmpty then r.name else r.name ++ " " ++ String.intercalate " " r.operands

end Row

/-! ## Opcodes -/

/-- What a row does. -/
inductive Opcode where
  | blank
  | classBegin
  | classEnd
  | parametersBegin
  | parametersEnd
  | buySellBegin
  | buySellEnd
  | telPosBegin
  | telPosEnd
  | handlerBegin
  | handlerEnd
  | variablesBegin
  | variablesEnd
  | branchFalse
  | jump
  | shift
  | pushRegister
  | exitHandler
  | callSuper
  | call
  | pushEvent
  | pushConst
  | pushString
  | pushParameter
  | pushProperty
  | fetch
  | assign
  | add
  | addString
  | equal
  | binary (op : BinaryOp)
  | complement
  | negate
  | label
  | record
  | declaration
  deriving Repr, DecidableEq, Inhabited

namespace Opcode

/-- The rows with a fixed name. -/
def named : List (String × Opcode) := [
  ("", blank),
  ("class", classBegin),
  ("class_end", classEnd),
  ("parameter_define_begin", parametersBegin),
  ("parameter_define_end", parametersEnd),
  ("buyselllist_begin", buySellBegin),
  ("buyselllist_end", buySellEnd),
  ("telposlist_begin", telPosBegin),
  ("telposlist_end", telPosEnd),
  ("handler", handlerBegin),
  ("handler_end", handlerEnd),
  ("variable_begin", variablesBegin),
  ("variable_end", variablesEnd),
  ("branch_false", branchFalse),
  ("jump", jump),
  ("shift_sp", shift),
  ("push_reg_sp", pushRegister),
  ("exit_handler", exitHandler),
  ("call_super", callSuper),
  ("func_call", call),
  ("push_event", pushEvent),
  ("push_const", pushConst),
  ("push_string", pushString),
  ("push_parameter", pushParameter),
  ("push_property", pushProperty),
  ("fetch_i", fetch),
  ("fetch_i4", fetch),
  ("fetch_f", fetch),
  ("fetch_d", fetch),
  ("assign", assign),
  ("assign4", assign),
  ("add", add),
  ("add_string", addString),
  ("equal", equal),
  ("not_equal", binary .ne),
  ("greater", binary .gt),
  ("greater_equal", binary .ge),
  ("less", binary .lt),
  ("less_equal", binary .le),
  ("and", binary .and),
  ("or", binary .or),
  ("bit_and", binary .bitAnd),
  ("bit_or", binary .bitOr),
  ("mul", binary .mul),
  ("div", binary .div),
  ("sub", binary .sub),
  ("xor", binary .bitXor),
  ("mod", binary .mod),
  ("not", complement),
  ("negate", negate)]

/-- The opcode of a name; what has no fixed name is a label, a string record or a row of a
declaration section. -/
def ofName (name : String) : Opcode :=
  match named.lookup name with
  | some op => op
  | none =>
    if Row.isNumbered 'S' name.toList then record
    else if Row.isNumbered 'L' name.toList then label
    else declaration

end Opcode

namespace Row

/-- What a row does. -/
def opcode (r : Row) : Opcode := Opcode.ofName r.name

/-- Whether there is a row and it does `op`. -/
def does (op : Opcode) : Option Row → Bool
  | some r => r.opcode == op
  | none => false

/-- Whether a row opens a class. -/
def opensClass (r : Row) : Bool := r.opcode == .classBegin

/-- Whether a row closes a class. -/
def closesClass (r : Row) : Bool := r.opcode == .classEnd

end Row

end ScriptLift
