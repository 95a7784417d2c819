import ScriptLift.Proofs.Lift.Postfix

/-!
# Statements laid out in rows

* `Form`, `Arm`: a structured statement with the rows that it is laid out in.
* `Form.rows`, `Form.allRows`: the rows in order.
* `Form.isSound`: every row does what its place asks for, and every branch goes where it has to.
* **`Form.stmts?`**: the statements that a list of forms stands for.
-/

namespace ScriptLift.Lift

/-! ## Layouts -/

/-- The rows of a for loop before its body. -/
structure ForHeader where
  init : List Row
  drop : Row
  head : Row
  cond : List Row
  branch : Row
  skip : Row
  step : Row
  update : List Row
  assign : Row
  commit : Row
  again : Row
  start : Row

/-- The rows of an arm before its body: the comparison, and the label that the arm before goes on at. -/
structure ArmHeader where
  reload : Row
  fetch : Row
  value : Row
  equal : Row
  branch : Row
  entry : Option Row

mutual

/-- A statement with the rows that it is laid out in. -/
inductive Form where
  | eval (code : List Row) (drop : Row)
  | ret (row : Row)
  | super (row : Row)
  | brk (jump : Row)
  | ifThen (cond : List Row) (branch : Row) (yes : List Form) (close : Row)
  | ifElse (cond : List Row) (branch : Row) (yes : List Form) (skip other : Row) (no : List Form)
    (close : Row)
  | whileLoop (head : Row) (cond : List Row) (branch : Row) (body : List Form) (back exit : Row)
  | forLoop (header : ForHeader) (body : List Form) (back exit : Row)
  | select (scrutinee : List Row) (first : Arm) (arms : List Arm) (fin drop : Row)

/-- An arm of a select: it may leave the select, and goes on in the next arm if there is one. -/
inductive Arm where
  | mk (header : ArmHeader) (body : List Form) (leave next : Option Row) (close : Row)

end

/-- The rows of a for loop before its body, in order. -/
def ForHeader.rows (h : ForHeader) : List Row :=
  h.init ++ h.drop :: h.head :: (h.cond ++ h.branch :: h.skip :: h.step ::
    (h.update ++ [h.assign, h.commit, h.again, h.start]))

/-- The rows of an arm before its body, in order. -/
def ArmHeader.rows (h : ArmHeader) : List Row :=
  h.reload :: h.fetch :: h.value :: h.equal :: h.branch :: h.entry.toList

mutual

/-- The rows of a statement, in order. -/
def Form.rows : Form → List Row
  | .eval code drop => code ++ [drop]
  | .ret row | .super row | .brk row => [row]
  | .ifThen cond branch yes close => cond ++ branch :: (Form.allRows yes ++ [close])
  | .ifElse cond branch yes skip other no close =>
    cond ++ branch :: (Form.allRows yes ++ skip :: other :: (Form.allRows no ++ [close]))
  | .whileLoop head cond branch body back exit =>
    head :: (cond ++ branch :: (Form.allRows body ++ [back, exit]))
  | .forLoop header body back exit => header.rows ++ (Form.allRows body ++ [back, exit])
  | .select scrutinee first arms fin drop =>
    scrutinee ++ (first.rows ++ (Arm.allRows arms ++ [fin, drop]))

/-- The rows of a list of statements, in order. -/
def Form.allRows : List Form → List Row
  | [] => []
  | f :: fs => f.rows ++ Form.allRows fs

/-- The rows of an arm, in order. -/
def Arm.rows : Arm → List Row
  | .mk header body leave next close =>
    header.rows ++ (Form.allRows body ++ (leave.toList ++ (next.toList ++ [close])))

/-- The rows of a list of arms, in order. -/
def Arm.allRows : List Arm → List Row
  | [] => []
  | m :: ms => m.rows ++ Arm.allRows ms

end

/-! ## Soundness -/

/-- A row with a name that goes to a label. -/
def goesTo (name : String) (r label : Row) : Bool := r.key == (name, [label.name]) && label.isLabel

/-- Whether a branch after a condition and before other rows opens a conditional: it starts no for
loop, and is no link of a chain of conditions. -/
def opensIf (cond rest : List Row) : Bool :=
  !Row.does .jump rest.head? && (rest.head?.any Row.isLabel || !cond.getLast?.any Row.isIntFetch)

/-- The header of a for loop that is left at a label. -/
def ForHeader.isSound (sy : Symbols) (exit : Row) (h : ForHeader) : Bool :=
  isPostfix sy h.init && h.drop.key == dropKey 1 && h.head.isLabel && isPostfix sy h.cond &&
  goesTo "branch_false" h.branch exit && goesTo "jump" h.skip h.start && h.step.isLabel &&
  isPostfix sy h.update && h.update.all (·.opcode != .assign) && h.assign.opcode == .assign &&
  h.commit.key == dropKey 1 && goesTo "jump" h.again h.head

/-- The header of an arm that ends at a label. -/
def ArmHeader.isSound (close : Row) (h : ArmHeader) : Bool :=
  h.reload.key == ("push_reg_sp", []) && h.fetch.key == ("fetch_i", []) &&
  h.value.opcode == .pushConst && h.equal.key == ("equal", []) &&
  goesTo "branch_false" h.branch close && h.entry.all Row.isLabel

/-- Whether a list of statements ends in a break. -/
def Form.endInBrk (fs : List Form) : Bool :=
  match fs.getLast? with
  | some (.brk _) => true
  | _ => false

/-- The label at which an arm's body starts, if it has one. -/
def Arm.entry? : Arm → Option Row
  | .mk header _ _ _ _ => header.entry

/-- The row that goes on to the next arm: there is one just when there is a next arm. -/
def goesOn (next : Option Row) (arms : List Arm) : Bool :=
  match next, arms with
  | none, [] => true
  | some r, m :: _ => m.entry?.any (goesTo "jump" r)
  | _, _ => false

mutual

/-- Every row of a statement does what its place asks for; a break goes to the label `exit?`. -/
def Form.isSound (sy : Symbols) (exit? : Option String) : Form → Bool
  | .eval code drop => isPostfix sy code && drop.key == dropKey 1
  | .ret row => row.opcode == .exitHandler
  | .super row => row.opcode == .callSuper
  | .brk jump => jump.opcode == .jump && exit? == some (jump.operand 0)
  | .ifThen cond branch yes close =>
    isPostfix sy cond && goesTo "branch_false" branch close &&
    opensIf cond (Form.allRows yes ++ [close]) && Form.allSound sy exit? yes
  | .ifElse cond branch yes skip other no close =>
    isPostfix sy cond && goesTo "branch_false" branch other && goesTo "jump" skip close &&
    opensIf cond (Form.allRows yes ++ [skip]) &&
    Form.allSound sy exit? yes && Form.allSound sy exit? no
  | .whileLoop head cond branch body back exit =>
    head.isLabel && isPostfix sy cond && goesTo "branch_false" branch exit &&
    goesTo "jump" back head && Form.allSound sy (some exit.name) body
  | .forLoop header body back exit =>
    header.isSound sy exit && goesTo "jump" back header.step &&
    Form.allSound sy (some exit.name) body
  | .select scrutinee first arms fin drop =>
    isPostfix sy scrutinee && first.entry?.isNone && !arms.isEmpty &&
    first.isSound sy exit? fin arms && Arm.allSound sy exit? fin arms &&
    fin.isLabel && drop.key == dropKey 1

/-- Every statement of a list is sound. -/
def Form.allSound (sy : Symbols) (exit? : Option String) : List Form → Bool
  | [] => true
  | f :: fs => f.isSound sy exit? && Form.allSound sy exit? fs

/-- An arm before other arms of a select that ends at `fin`; a body that ends in a break of a loop
leaves the select too. -/
def Arm.isSound (sy : Symbols) (exit? : Option String) (fin : Row) (arms : List Arm) : Arm → Bool
  | .mk header body leave next close =>
    header.isSound close && Form.allSound sy exit? body && leave.all (goesTo "jump" · fin) &&
    (leave.isSome || !Form.endInBrk body) && goesOn next arms

/-- Every arm after the first is sound and has a label to start at. -/
def Arm.allSound (sy : Symbols) (exit? : Option String) (fin : Row) : List Arm → Bool
  | [] => true
  | m :: ms => m.entry?.isSome && m.isSound sy exit? fin ms && Arm.allSound sy exit? fin ms

end

/-! ## Statements -/

/-- Whether a statement takes what follows it in its block as its second branch: a conditional
whose first branch ends in a break. -/
def Form.absorbs : Form → Bool
  | .ifThen _ _ yes _ => Form.endInBrk yes
  | _ => false

/-- An arm of a select on a value; a literal is read as a constant of the value's type. -/
def armOf (sy : Symbols) (e : Expr) (m : Case) : Case :=
  .mk (resolveLiteral sy [e.type, "SKILL"] m.value) m.body

/-- A select on a value; literals are read as constants of the other side's type. -/
def selectOf (sy : Symbols) (e v : Expr) (body : List Stmt) (arms : List Case) : Stmt :=
  let v := resolveLiteral sy [e.type, "SKILL"] v
  let e := resolveLiteral sy [v.type, "SKILL"] e
  .select e (.mk v body :: arms.map (armOf sy e))

section

variable (sy : Symbols) (opts : Options) (ctx : State)

mutual

/-- The statement that a form stands for, if its code leaves one value each. -/
def Form.stmt? : Form → Option Stmt
  | .eval code _ => (value? sy opts ctx code).map Stmt.eval
  | .ret _ => some .ret
  | .super _ => some (.super (handlerName? ctx))
  | .brk _ => some .brk
  | .ifThen cond _ yes _ => do
    let e ← value? sy opts ctx cond
    let yes ← Form.stmts? yes
    return .ifElse e yes []
  | .ifElse cond _ yes _ _ no _ => do
    let e ← value? sy opts ctx cond
    let yes ← Form.stmts? yes
    let no ← Form.stmts? no
    return .ifElse e yes no
  | .whileLoop _ cond _ body _ _ => do
    let e ← value? sy opts ctx cond
    let body ← Form.stmts? body
    return .whileLoop e body
  | .forLoop h body _ _ => do
    let init ← value? sy opts ctx h.init
    let cond ← value? sy opts ctx h.cond
    let update ← value? sy opts ctx (h.update ++ [h.assign])
    let body ← Form.stmts? body
    return .forLoop init cond update body
  | .select scrutinee first arms _ _ => do
    let e ← value? sy opts ctx scrutinee
    let arm ← first.case?
    let arms ← Arm.cases? arms
    return selectOf sy e arm.value arm.body arms

/-- **The statements that a list of forms stands for.** -/
def Form.stmts? : List Form → Option (List Stmt)
  | [] => some []
  | f :: fs => do
    let s ← f.stmt?
    let rest ← Form.stmts? fs
    return if f.absorbs then [s.modifyBody (· ++ rest) .no] else s :: rest

/-- The arm that a form stands for, with its value as it is written. -/
def Arm.case? : Arm → Option Case
  | .mk h body leave _ _ => do
    let v ← value? sy opts ctx [h.value]
    let body ← Form.stmts? body
    return .mk v (body ++ leave.toList.map fun _ => .brk)

/-- The arms that a list of forms stands for, with their values as they are written. -/
def Arm.cases? : List Arm → Option (List Case)
  | [] => some []
  | m :: ms => do
    let c ← m.case?
    let cs ← Arm.cases? ms
    return c :: cs

end

end

end ScriptLift.Lift
