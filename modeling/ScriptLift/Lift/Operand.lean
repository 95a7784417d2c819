import ScriptLift.Lift.State

/-!
# Lifting of values

Rows that push values, combine them, call functions and assign.

* `resolve`: the constant an integer stands for.
* `pushConst`, `fetch`, `add`, `binary`, `call`, `shift`, `assign`: the rows.
* `stepMark?`: when an assignment reads as an increment or decrement.
-/

namespace ScriptLift.Lift

variable (sy : Symbols)

/-- The constant an integer stands for in the first domain that knows it, or the integer itself. A
short skill id is shown as a quotient of the skill. -/
def resolve (id : Int64) : List String → Expr
  | [] => .int id
  | domain :: rest =>
    match sy.constant? domain id with
    | some name =>
      if domain == "SKILL_SHORT" then
        .binary .div (.const domain name) (.int Symbols.shortSkillDivisor)
      else .const domain name
    | none => resolve id rest

/-- An integer literal replaced by the constant it stands for; other expressions as they are. -/
def resolveLiteral (domains : List String) : Expr → Expr
  | .int v => resolve sy v domains
  | e => e

/-! ## Pushing -/

/-- Pushes a constant, or the event variable whose address it is. -/
def pushConst (c : Cursor) (st : State) : Except Halt State :=
  let raw := c.row.operand 0
  if Row.does .pushEvent c.prev? then
    match c.row.int 0 with
    | .error e => malformed (.eventAddress raw e)
    | .ok address =>
      match sy.slot? st.kind "" address with
      | none => unresolved (.variable st.kind "" address)
      | some v => .ok (st.push (.var v.name v.type .hole))
  else if Text.hasInfix "." raw then
    match Double.read raw with
    | .error e => malformed (.realConstant raw e)
    | .ok x => .ok (st.push (.real x))
  else
    match c.row.int 0 with
    | .error e => malformed (.intConstant raw e)
    | .ok v => .ok (st.push (.int v))

/-- Pushes the text of a string record. -/
def pushString (c : Cursor) (st : State) : Except Halt State :=
  let id := c.row.operand 0
  match st.records.get? id with
  | none => malformed (.unknownRecord id)
  | some s => .ok (st.push (.str s))

/-- Pushes a parameter; one that was not declared is an integer. -/
def pushParameter (c : Cursor) (st : State) : Except Halt State :=
  let name := c.row.operand 0
  if name.isEmpty then malformed .namelessParameter
  else
    match st.types.get? name with
    | some type => .ok (st.push (.param name type))
    | none => .ok { st.push (.param name "int") with types := st.types.put name "int" }

/-- Pushes a property table. -/
def pushProperty (c : Cursor) (st : State) : Except Halt State :=
  let name := c.row.operand 0
  if name.isEmpty then malformed .namelessProperty
  else
    match st.decl with
    | none => malformed .propertyOutsideClass
    | some d =>
      let type := ((d.properties.find? (·.name == name)).map Property.type).getD ""
      .ok (st.push (.prop name type))

/-- Duplicates the top operand when another fetch follows. -/
def fetch (c : Cursor) (st : State) : Except Halt State :=
  if c.next?.any Row.isFetch then
    match st.operands with
    | e :: _ => .ok (st.push e)
    | [] => shortage (.nothingToDuplicate c.row.name)
  else .ok st

/-! ## Operators -/

/-- The operation on two operands, integer literals read as constants of the other's type. -/
def combine (op : BinaryOp) (left right : Expr) : Expr :=
  let right := resolveLiteral sy [left.type, "SKILL"] right
  let left := resolveLiteral sy [right.type, "SKILL"] left
  .binary op left right

/-- Combines two values. -/
def binary (op : BinaryOp) (st : State) : Except Halt State := do
  let (left, right, st) ← st.pop2
  return st.push (combine sy op left right)

/-- Adds two values; an offset added to an object is a member of it, and the address of an event
variable was already read. -/
def add (c : Cursor) (st : State) : Except Halt State :=
  if Row.does .pushEvent c.back2? then .ok st
  else do
    let (left, right, st) ← st.pop2
    match right with
    | .int offset =>
      if sy.isPrimitive left.type then return st.push (combine sy .add left right)
      else
        match sy.slot? st.kind left.type offset with
        | none => unresolved (.variable st.kind left.type offset)
        | some v => return st.push (.var v.name v.type left)
    | _ => return st.push (combine sy .add left right)

/-- Puts an operator before a value. -/
def unary (op : UnaryOp) (st : State) : Except Halt State := do
  let (e, st) ← st.pop1
  return st.push (.ofUnary op e)

/-! ## Calls -/

/-- The operands for arguments of given types, last one first: the arguments and the numbered texts
they name, and the operands left. -/
def takeArguments : (types : List String) → List Expr → List Expr → List String →
    Option (List Expr × List String × List Expr)
  | [], operands, args, notes => some (args, notes, operands)
  | _ :: _, [], _, _ => none
  | type :: types, e :: operands, args, notes =>
    let notes := match e with
      | .int v => if type == "FSTRING" then (sy.fstring? v).toList ++ notes else notes
      | _ => notes
    takeArguments types operands (resolveLiteral sy [type] e :: args) notes

/-- Calls a function on its arguments and an owner. -/
def call (c : Cursor) (st : State) : Except Halt State :=
  match c.row.int 0 with
  | .error e => malformed (.functionAddress (c.row.operand 0) e)
  | .ok address =>
    match sy.function? address with
    | none => unresolved (.function address)
    | some f =>
      match takeArguments sy f.arguments.reverse st.operands [] [] with
      | none => shortage (.arguments f.name f.arguments.length)
      | some (args, notes, operands) => do
        let (owner, st) ← State.pop1 { st with operands }
        return st.push (.call f.name f.type owner args (String.intercalate ", " notes))

/-- Whether a value is a call without arguments. -/
def isBareCall : Expr → Bool
  | .call _ _ _ args _ => args.isEmpty
  | _ => false

/-- Makes the top operand a statement when one value is dropped. Just after a call that is the
dropping of its argument, unless the call has none. -/
def shift (c : Cursor) (st : State) : Except Halt State :=
  match c.row.int 0, st.operands with
  | .ok n, e :: rest =>
    if n == -1 && (!Row.does .call c.prev? || isBareCall e) then
      State.add { st with operands := rest } (.eval e)
    else .ok st
  | _, _ => .ok st

/-! ## Assignments -/

/-- The operator of an assignment whose value is the target, fetched as an integer in each of the
`window` rows before, plus or minus 1. -/
def stepMark? (window : Nat) (before : List Row) : Option UnaryOp :=
  match before with
  | op :: one :: rest =>
    let mark := match op.opcode with
      | .add => some UnaryOp.increment
      | .binary .sub => some UnaryOp.decrement
      | _ => none
    let isOne := one.opcode == .pushConst && (one.int 0).toOption == some 1
    let fetched := rest.take window
    if isOne && fetched.length = window && fetched.all Row.isIntFetch then mark else none
  | _ => none

/-- Assigns a value to a variable. -/
def assignTo (target value : Expr) (st : State) : Except Halt State :=
  match target with
  | .var name type owner => .ok (st.push (.assign name type owner (resolveLiteral sy [type] value)))
  | e => malformed (.assignTarget e)

/-- Makes the pending for loop of three values: its start, its condition and its update. -/
def makeFor (st : State) : Except Halt State := do
  let (update, st) ← st.pop 3 0
  let (cond, st) ← st.pop 3 1
  let (init, st) ← st.pop 3 2
  let (st, s) ← st.addAt (.forLoop init cond update [])
  return { st with
    statements := .forLoop s :: st.statements.tail
    blocks := s.body .loop :: st.blocks }

/-- Assigns, and makes the for loop that this completes. -/
def assign (window : Nat) (c : Cursor) (st : State) : Except Halt State := do
  let (target, value, st) ← st.pop2
  let st ← match stepMark? window c.before with
    | some op => Except.ok (st.push (.unary op target))
    | none => assignTo sy target value st
  if st.topIs Open.isPendingFor then makeFor st else return st

end ScriptLift.Lift
