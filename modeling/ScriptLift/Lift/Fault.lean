import ScriptLift.Problem
import ScriptLift.Row.Basic
import ScriptLift.Symbols.Basic
import ScriptLift.Tree.Describe

/-!
# Faults of lifting

Why a class cannot be lifted.

* `Malformed`, `Shortage`: a row that makes no sense, and a value that is missing.
* `Fault`: these, and ids without a symbol; `Fault.problem` places one in the listing.
* `Halt`: a fault, or the one breakdown that no rule covers.
-/

namespace ScriptLift.Lift

/-- A row that makes no sense where it stands. -/
inductive Malformed where
  | noClass
  | classOperands (count : Nat)
  | classKind (operand : String) (cause : Row.OperandError)
  | tableOutsideClass (row : String)
  | handlerOutsideClass
  | handlerId (operand : String) (cause : Row.OperandError)
  | parameterOutsideClass
  | parameterDefault (name operand : String) (cause : Numeral.ReadError)
  | variableOutsideHandler (row : String)
  | eventAddress (operand : String) (cause : Row.OperandError)
  | realConstant (operand : String) (cause : Numeral.ReadError)
  | intConstant (operand : String) (cause : Row.OperandError)
  | unknownRecord (id : String)
  | namelessParameter
  | namelessProperty
  | propertyOutsideClass
  | functionAddress (operand : String) (cause : Row.OperandError)
  | assignTarget (target : Expr)
  | branchWithoutTarget
  | caseOutsideSelect

/-- A value that is missing. -/
inductive Shortage where
  | nothingToDuplicate (row : String)
  | arguments (function : String) (count : Nat)
  | operands (needed found : Nat)
  | blockEnds (needed : Nat) (last : Stmt)
  | noBlock
  | closesNothing (label : String)

/-- Why a class cannot be lifted. -/
inductive Fault where
  | unresolved (e : NotFound)
  | malformed (m : Malformed)
  | shortage (s : Shortage)

/-- What ends a run early. -/
inductive Halt where
  | fault (f : Fault)
  /-- A handler ends with work left over where no handler was ever begun. -/
  | breakdown

/-- The wording of a malformed row. -/
def Malformed.message : Malformed → String
  | noClass => "listing has no class header"
  | classOperands n => "class header has " ++ Numeral.decimal n ++ " operands"
  | classKind s _ => "class kind " ++ Text.quoted s
  | tableOutsideClass row => row ++ " outside a class"
  | handlerOutsideClass => "handler outside a class"
  | handlerId s _ => "handler id " ++ Text.quoted s
  | parameterOutsideClass => "parameter outside a class"
  | parameterDefault name s _ => "parameter " ++ name ++ " default " ++ Text.quoted s
  | variableOutsideHandler row => "variable " ++ row ++ " outside a handler"
  | eventAddress s _ => "event variable address " ++ Text.quoted s
  | realConstant s _ => "float constant " ++ Text.quoted s
  | intConstant s _ => "integer constant " ++ Text.quoted s
  | unknownRecord id => "string record " ++ Text.quoted id ++ " not found in handler"
  | namelessParameter => "push_parameter without a name"
  | namelessProperty => "push_property without a name"
  | propertyOutsideClass => "push_property outside a class"
  | functionAddress s _ => "function address " ++ Text.quoted s
  | assignTarget e => "assignment target " ++ e.describe ++ " is not a variable"
  | branchWithoutTarget => "branch_false without a target label"
  | caseOutsideSelect => "case comparison outside a select"

/-- What lies behind a malformed row. -/
def Malformed.cause : Malformed → Option String
  | classKind _ e | handlerId _ e | eventAddress _ e | intConstant _ e | functionAddress _ e =>
    some e.message
  | parameterDefault _ _ e | realConstant _ e => some e.message
  | _ => none

/-- The kind of a statement, as messages name it. -/
def kindOfStmt : Stmt → String
  | .ifElse .. => "*parser.IfStatement"
  | .whileLoop .. => "*parser.WhileStatement"
  | .forLoop .. => "*parser.ForStatement"
  | .select .. => "*parser.SelectStatement"
  | .ret => "*parser.ReturnStatement"
  | .brk => "*parser.BreakStatement"
  | .super _ => "*parser.SuperStatement"
  | .block _ => "*parser.BlockStatement"
  | .eval _ => "*parser.ExpressionStatement"
  | .missing => "<nil>"

/-- The wording of a shortage. -/
def Shortage.message : Shortage → String
  | nothingToDuplicate row => "nothing to duplicate for " ++ row
  | arguments f n => f ++ " expects " ++ Numeral.decimal n ++ " arguments"
  | operands n k => "need " ++ Numeral.decimal n ++ " operands, have " ++ Numeral.decimal k
  | blockEnds n s => "need " ++ Numeral.decimal n ++ " operands, block ends with " ++ kindOfStmt s
  | noBlock => "no open block"
  | closesNothing l => "label " ++ l ++ " closes nothing"

/-- The problem a fault makes at a place, found while a row was read. -/
def Fault.problem (position : Position) (row : String) : Fault → Problem
  | unresolved e => ⟨.unresolvedSymbol, position, e.message, some ⟨e.message, true⟩⟩
  | malformed m => ⟨.malformedRow, position, m.message, m.cause.map (⟨·, false⟩)⟩
  | shortage s => ⟨.stackUnderflow, position, row ++ ": " ++ s.message, none⟩

end ScriptLift.Lift
