import ScriptLift.Lift.Declare
import ScriptLift.Lift.Flow
import ScriptLift.Listing

/-!
# Lifting a class

* `step`: one row.
* `run`: all rows of a listing.
* `lift`: the class of a listing, or why there is none.
-/

namespace ScriptLift.Lift

/-- The choices of lifting. -/
structure Options where
  /-- The number of integer fetches before an increment. -/
  window : Nat
  /-- The text that problems quote. -/
  source : Option Source
  deriving Repr, DecidableEq, Inhabited

/-- The choices with a window, the usual one when it is not positive. -/
def Options.ofWindow (n : Int) (source : Option Source) : Options :=
  ⟨if 0 < n then n.toNat else 2, source⟩

/-- Why a class could not be lifted. -/
inductive Failure where
  | problem (p : Problem)
  /-- A handler ends with work left over where no handler was ever begun. -/
  | breakdown
  deriving Repr, DecidableEq, Inhabited

section

variable (sy : Symbols) (opts : Options)

/-- The name of the current handler. -/
def handlerName? (st : State) : Option String := st.handlers.getLast?.map Handler.name

/-- What a row does to the state, by its opcode. -/
def dispatch (c : Cursor) (st : State) : Except Halt State :=
  match c.row.opcode with
  | .blank => .ok st
  | .classBegin => classBegin c st
  | .parametersBegin => .ok { st with mode := .parameters }
  | .variablesBegin => .ok { st with mode := .locals }
  | .parametersEnd | .variablesEnd | .buySellEnd | .telPosEnd => .ok { st with mode := .none }
  | .buySellBegin => tableBegin .buySell c st
  | .telPosBegin => tableBegin .telPos c st
  | .handlerBegin => handlerBegin sy c st
  | .handlerEnd => handlerEnd st
  | .branchFalse => branch sy c st
  | .jump => jump c st
  | .shift => shift c st
  | .assign => assign sy opts.window c st
  | .pushConst => pushConst sy c st
  | .pushString => pushString c st
  | .pushParameter => pushParameter c st
  | .pushProperty => pushProperty c st
  | .call => call sy c st
  | .add | .addString => add sy c st
  | .fetch => fetch c st
  | .callSuper => st.add (.super (handlerName? st))
  | .exitHandler => st.add .ret
  | .equal => if st.topIs Open.isPendingCase then .ok st else binary sy .eq st
  | .complement => unary .complement st
  | .negate => unary .negate st
  | .binary op => binary sy op st
  | .record => .ok st
  | .label => closeLabel c st
  | .pushEvent | .pushRegister | .classEnd | .declaration => declarationRow sy c st

/-- What a row does to the state; inside a default text every row is text. -/
def step (c : Cursor) (st : State) : Except Halt State :=
  match st.mode with
  | .parameterText => .ok (parameterText c st)
  | _ => dispatch sy opts c st

variable {sy opts} in
/-- Outside a default text a row does what its opcode says. -/
theorem step_eq_dispatch {c : Cursor} {st : State} (h : st.mode ≠ .parameterText) :
    step sy opts c st = dispatch sy opts c st := by
  unfold step
  split
  · rename_i heq
    exact absurd heq h
  · rfl

/-- Why a run ended early, with the row it ended at and the class open then. -/
structure Stopped where
  halt : Halt
  row : Row
  decl : Option ClassDecl

/-- Takes rows one by one; `before` are the rows before them, nearest first. -/
def run (before : List Row) : List Row → State → Except Stopped State
  | [], st => .ok st
  | row :: after, st =>
    match step sy opts ⟨before, row, after⟩ st with
    | .ok st' => run (row :: before) after st'
    | .error halt => .error ⟨halt, row, st.decl⟩

/-- The place of a problem: in the open class, or else in the listing. -/
def place (l : Listing) (decl : Option ClassDecl) (line : Int) : Position :=
  ⟨line, (decl.map ClassDecl.name).getD l.name, opts.source⟩

/-- The failure that an early end makes. -/
def Stopped.failure (l : Listing) (s : Stopped) : Failure :=
  match s.halt with
  | .fault f => .problem (f.problem (place opts l s.decl s.row.line) s.row.name)
  | .breakdown => .breakdown

/-- The class of a listing. -/
def lift (l : Listing) : Except Failure ClassDecl :=
  match run sy opts [] l.rows .initial with
  | .error s => .error (s.failure opts l)
  | .ok st =>
    match st.result? with
    | some d => .ok d
    | none => .error (.problem (Fault.problem (place opts l none 0) "" (.malformed .noClass)))

end

end ScriptLift.Lift
