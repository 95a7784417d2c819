import ScriptLift.Lift.Address
import ScriptLift.Lift.Fault

/-!
# State of lifting

* `Cursor`: a row with the rows around it.
* `Open`: a statement that is still being filled, or a mark of one to come.
* `State`: the stacks, the class and the handlers lifted so far.
* `State.pop`, `State.pops`, `State.peek?`: taking values, from the operands or else from the end of
  the current block.
* `State.add`: adding a statement to the current block.
-/

namespace ScriptLift.Lift

/-! ## Cursors -/

/-- A row with the rows around it. -/
structure Cursor where
  /-- The rows before, nearest first. -/
  before : List Row
  row : Row
  /-- The rows after, nearest first. -/
  after : List Row
  deriving Repr, DecidableEq, Inhabited

namespace Cursor

/-- The row just before. -/
def prev? (c : Cursor) : Option Row := c.before.head?

/-- The row two before. -/
def back2? (c : Cursor) : Option Row := c.before[1]?

/-- The row just after. -/
def next? (c : Cursor) : Option Row := c.after.head?

end Cursor

/-- The last label with a name among rows, as the row before it and the row after it; `before` is
the row before all of them. -/
def lastLabel? (name : String) (before : Row) : List Row → Option (Row × Option Row)
  | [] => none
  | r :: rest =>
    match lastLabel? name r rest with
    | some found => some found
    | none => if r.isLabel && r.name == name then some (before, rest.head?) else none

/-! ## States -/

/-- The property tables. -/
inductive TableKind where
  | buySell
  | telPos
  deriving Repr, DecidableEq, Inhabited

/-- The name of the type of a table. -/
def TableKind.typeName : TableKind → String
  | buySell => "BuySellList"
  | telPos => "TelPosList"

/-- The declaration section that rows belong to. -/
inductive Mode where
  | none
  | parameters
  /-- Inside the text of the last parameter's default. -/
  | parameterText
  /-- Inside the last property table, or in one of a class that was replaced. -/
  | table (kind : TableKind) (replaced : Bool)
  | locals
  deriving Repr, DecidableEq, Inhabited

/-- A statement that is still being filled, or a mark of one to come. -/
inductive Open where
  | handler (n : Nat)
  | conditional (s : StmtAddress)
  | whileLoop (s : StmtAddress)
  | forLoop (s : StmtAddress)
  /-- A select with the number of its arms. -/
  | select (s : StmtAddress) (scrutinee : Expr) (arms : Nat)
  /-- A for loop whose update has not been seen. -/
  | pendingFor
  /-- A select that expects its next comparison. -/
  | pendingCase
  /-- The second branch of a conditional. -/
  | pendingElse (s : StmtAddress)
  deriving Inhabited

namespace Open

/-- Whether a comparison of a select is expected. -/
def isPendingCase : Open → Bool
  | pendingCase => true
  | _ => false

/-- Whether the update of a for loop is expected. -/
def isPendingFor : Open → Bool
  | pendingFor => true
  | _ => false

/-- Whether a loop is being filled. -/
def isLoop : Open → Bool
  | whileLoop _ | forLoop _ => true
  | _ => false

/-- Whether the first branch of a conditional is being filled. -/
def isConditional : Open → Bool
  | conditional _ => true
  | _ => false

end Open

/-- The state of lifting; the first element of a stack is its top. -/
structure State where
  mode : Mode
  operands : List Expr
  statements : List Open
  blocks : List Address
  /-- The labels at which open statements end. -/
  targets : List String
  /-- The labels met in the current handler. -/
  seen : List String
  /-- The texts of the string records of the current handler. -/
  records : Table String String
  /-- The types of the parameters. -/
  types : Table String String
  /-- The class, without its handlers. -/
  decl : Option ClassDecl
  /-- All handlers of the run. -/
  handlers : List Handler
  /-- The number of handlers begun before the class. -/
  first : Nat
  deriving Inhabited

namespace State

/-- Before the first row. -/
def initial : State := ⟨.none, [], [], [], [], [], [], [], none, [], 0⟩

/-- The class with its handlers. -/
def result? (st : State) : Option ClassDecl :=
  st.decl.map fun d => { d with handlers := st.handlers.drop st.first }

/-- The kind of the class. -/
def kind (st : State) : Int64 := (st.decl.map ClassDecl.kind).getD 0

/-- Pushes an operand. -/
def push (st : State) (e : Expr) : State := { st with operands := e :: st.operands }

/-- The current block. -/
def block? (st : State) : Option (List Stmt) :=
  st.blocks.head?.map fun a => (getBlock? st.handlers a).getD []

/-- Adds a statement to the current block; gives its address too. -/
def addAt (st : State) (s : Stmt) : Except Halt (State × StmtAddress) :=
  match st.blocks with
  | [] => .error (.fault (.shortage .noBlock))
  | a :: _ =>
    .ok ({ st with handlers := modifyBlock st.handlers a (· ++ [s]) },
      ⟨a, ((getBlock? st.handlers a).getD []).length⟩)

/-- Adds a statement to the current block. -/
def add (st : State) (s : Stmt) : Except Halt State := (st.addAt s).map Prod.fst

/-- Takes the top operand or, if there is none, the expression statement at the end of the current
block, as value number `found` of `needed`. -/
def pop (st : State) (needed found : Nat) : Except Halt (Expr × State) :=
  match st.operands with
  | e :: rest => .ok (e, { st with operands := rest })
  | [] =>
    match st.blocks with
    | [] => .error (.fault (.shortage (.operands needed found)))
    | a :: _ =>
      match ((getBlock? st.handlers a).getD []).getLast? with
      | none => .error (.fault (.shortage (.operands needed found)))
      | some (.eval e) => .ok (e, { st with handlers := modifyBlock st.handlers a List.dropLast })
      | some s => .error (.fault (.shortage (.blockEnds needed s)))

/-- Takes `count` values more when `found` of `needed` are there, the top one first. -/
def popMore (needed found : Nat) : Nat → State → Except Halt (List Expr × State)
  | 0, st => .ok ([], st)
  | n + 1, st => do
    let (e, st) ← st.pop needed found
    let (es, st) ← popMore needed (found + 1) n st
    return (e :: es, st)

/-- Takes `n` values, the top one first. -/
def pops (st : State) (n : Nat) : Except Halt (List Expr × State) := popMore n 0 n st

/-- Takes one value. -/
def pop1 (st : State) : Except Halt (Expr × State) := st.pop 1 0

/-- Takes two values, the lower one first. -/
def pop2 (st : State) : Except Halt (Expr × Expr × State) := do
  let (right, st) ← st.pop 2 0
  let (left, st) ← st.pop 2 1
  return (left, right, st)

/-- What taking one value would give. -/
def peek? (st : State) : Option Expr :=
  match st.operands with
  | e :: _ => some e
  | [] => (st.block?.bind List.getLast?).bind Stmt.expr?

/-- Whether the innermost open statement satisfies a test. -/
def topIs (st : State) (p : Open → Bool) : Bool := st.statements.head?.any p

/-- Replaces the current block by another one, if there is one. -/
def redirect (st : State) (a : Address) : State :=
  match st.blocks with
  | [] => st
  | _ :: rest => { st with blocks := a :: rest }

/-- Leaves the current block. -/
def leaveBlock (st : State) : State := { st with blocks := st.blocks.tail }

/-- Opens a statement whose body is filled from now on. -/
def enter (st : State) (o : Open) (a : Address) : State :=
  { st with statements := o :: st.statements, blocks := a :: st.blocks }

/-- Drops all that belongs to a handler. -/
def leaveHandler (st : State) : State :=
  { st with
    operands := []
    statements := []
    blocks := []
    targets := []
    seen := []
    records := [] }

end State

/-- Ends a run with a malformed row. -/
def malformed {α : Type} (m : Malformed) : Except Halt α := .error (.fault (.malformed m))

/-- Ends a run with a shortage. -/
def shortage {α : Type} (s : Shortage) : Except Halt α := .error (.fault (.shortage s))

/-- Ends a run with an id that has no symbol. -/
def unresolved {α : Type} (e : NotFound) : Except Halt α := .error (.fault (.unresolved e))

end ScriptLift.Lift
