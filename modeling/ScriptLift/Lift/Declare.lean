import ScriptLift.Lift.Operand

/-!
# Lifting of declarations

The header of a class and the rows of its parameter, property and variable sections.

* `classBegin`, `tableBegin`, `handlerBegin`, `handlerEnd`: the rows that open and close.
* `parameterRow`, `parameterText`, `tableRow`, `variableRow`: the rows of sections.
* `declarationRow`: a row by the section it stands in.
-/

namespace ScriptLift.Lift

variable (sy : Symbols)

/-! ## Classes -/

/-- The parent class in a header. -/
def superName (s : String) : String := if s == "(null)" then "" else s

/-- A class with a kind, a name and a parent. -/
def newClass (kind : Int64) (name parent : String) : ClassDecl :=
  ⟨kind, name, superName parent, [], [], []⟩

/-- Replaces the class; a property table that is being read goes with the old one. -/
def setClass (d : ClassDecl) (st : State) : State :=
  let mode := match st.mode with
    | .table kind _ => .table kind true
    | m => m
  { st with mode, decl := some d, first := st.handlers.length }

/-- A class header: kind, name, colon and parent, the kind left out in older chronicles. -/
def classBegin (c : Cursor) (st : State) : Except Halt State :=
  let n := c.row.operands.length
  if n = 3 then .ok (setClass (newClass 0 (c.row.operand 0) (c.row.operand 2)) st)
  else if 4 ≤ n then
    match c.row.int 0 with
    | .error e => malformed (.classKind (c.row.operand 0) e)
    | .ok kind => .ok (setClass (newClass kind (c.row.operand 1) (c.row.operand 3)) st)
  else malformed (.classOperands n)

/-! ## Parameters -/

/-- The spelling of a type in declarations. -/
def typeName (s : String) : String :=
  if s == "waypointstype" then "WayPointsType"
  else if s == "waypointdelaystype" then "WayPointDelaysType"
  else s

/-- The domains a parameter's default may come from, guessed from the parameter's name. -/
def parameterDomains (name : String) : List String :=
  let lower := Text.lower name
  let has (subs : List String) : Bool := subs.any fun s => Text.hasInfix s lower
  if has ["skill", "buff", "spell", "magic", "phys", "heal"] then ["SKILL"]
  else if has ["item", "weapon"] then ["ITEM"]
  else if has ["npc"] then ["NPC"]
  else if lower == "gm_id" then ["GM_ID"]
  else ["NPC", "SKILL"]

/-- The default of a parameter, and whether its text goes on in the next rows. -/
def parameterDefault (name raw : String) : Except Halt (Expr × Bool) :=
  if Text.startsWith "\"" raw then
    .ok (.str (Text.unquoted raw), raw == "\"" || !Text.endsWith "\"" raw)
  else if Text.hasInfix "." raw then
    match Double.read raw with
    | .error e => malformed (.parameterDefault name raw e)
    | .ok x => .ok (.real x, false)
  else
    match Numeral.readInt raw with
    | .error e => malformed (.parameterDefault name raw e)
    | .ok id => .ok (resolve sy id (parameterDomains name), false)

/-- Declares a parameter. -/
def parameterRow (c : Cursor) (st : State) : Except Halt State :=
  match st.decl with
  | none => malformed .parameterOutsideClass
  | some d => do
    let name := c.row.operand 0
    let type := typeName c.row.name
    let (value, goesOn) ← match c.row.operands[1]? with
      | some raw => parameterDefault sy name raw
      | none => Except.ok (.hole, false)
    return { st with
      mode := if goesOn then .parameterText else st.mode
      decl := some { d with parameters := d.parameters ++ [⟨type, name, value⟩] }
      types := st.types.put name (if value.isHole then type else value.type) }

/-- A default text with a further line. -/
def appendText (line : String) (p : Parameter) : Parameter :=
  match p.value with
  | .str s => { p with value := .str (s ++ "\n\t" ++ Text.unquoted line) }
  | _ => p

/-- Continues the text of the last parameter's default, up to a closing quote. -/
def parameterText (c : Cursor) (st : State) : State :=
  let raw := c.row.raw
  { st with
    mode := if Text.endsWith "\"" raw then .parameters else .parameterText
    decl := st.decl.map fun d =>
      { d with parameters := d.parameters.modify (d.parameters.length - 1) (appendText raw) } }

/-! ## Property tables -/

/-- Opens a property table. -/
def tableBegin (kind : TableKind) (c : Cursor) (st : State) : Except Halt State :=
  match st.decl with
  | none => malformed (.tableOutsideClass c.row.name)
  | some d =>
    .ok { st with
      mode := .table kind false
      decl := some { d with properties := d.properties ++ [⟨kind.typeName, c.row.operand 0, []⟩] } }

/-- The cells of a row in braces. -/
def rowCells (raw : String) : List String :=
  let s := Text.trimmed raw
  let s := (Text.cutPrefix? "\x7b" s).getD s
  let s := (Text.cutSuffix? "\x7d" s).getD s
  (Text.split ';' s).map Text.trimmed

/-- The first cell of a trade row: an item id is replaced by its quoted name. -/
def itemCell (cell : String) : String :=
  match Numeral.readId cell with
  | .ok id => ((sy.constant? "ITEM" id).map Text.quoted).getD cell
  | .error _ => cell

/-- The cells of a row of a table. -/
def tableCells (kind : TableKind) (raw : String) : List String :=
  match kind, rowCells raw with
  | .buySell, cell :: rest => itemCell sy cell :: rest
  | _, cells => cells

/-- A class with a row added to its last table. -/
def addTableRow (row : PropertyRow) (d : ClassDecl) : ClassDecl :=
  { d with properties := d.properties.modify (d.properties.length - 1) fun p =>
      { p with rows := p.rows ++ [row] } }

/-- Adds a row to the current table. -/
def tableRow (kind : TableKind) (replaced : Bool) (c : Cursor) (st : State) : State :=
  if replaced then st
  else { st with decl := st.decl.map (addTableRow ⟨tableCells sy kind c.row.raw, c.row.comment⟩) }

/-! ## Handlers -/

/-- The string records from a handler's first row to its last. -/
def handlerRecords (rows : List Row) : List (String × String) :=
  ((rows.takeWhile fun r => r.opcode != .handlerEnd && r.opcode != .classEnd).filter
    Row.isRecord).map fun r => (r.name, Text.unquoted (r.operand 0))

/-- Begins a handler. -/
def handlerBegin (c : Cursor) (st : State) : Except Halt State :=
  match st.decl with
  | none => malformed .handlerOutsideClass
  | some d =>
    match c.row.int 0 with
    | .error e => malformed (.handlerId (c.row.operand 0) e)
    | .ok id =>
      match sy.handler? d.kind id with
      | none => unresolved (.handler d.kind id)
      | some name =>
        let n := st.handlers.length
        .ok (State.enter
          { st with
            handlers := st.handlers ++ [⟨name, [], []⟩]
            records := (handlerRecords c.after).foldl (fun t (k, v) => t.put k v) st.records }
          (.handler n) ⟨n, []⟩)

/-- Ends a handler, dropping what is left over. -/
def handlerEnd (st : State) : Except Halt State :=
  if st.handlers.isEmpty && (!st.statements.tail.isEmpty || !st.operands.isEmpty) then
    .error .breakdown
  else .ok st.leaveHandler

/-- The spelling of a variable that some chronicles misspell. -/
def variableName (s : String) : String :=
  if s == "damege" then "damage"
  else if s == "script_event3" then "script_event_arg3"
  else s

/-- Declares a variable of the latest handler, if it has a type and is not hidden. -/
def variableRow (c : Cursor) (st : State) : Except Halt State :=
  if st.handlers.isEmpty then malformed (.variableOutsideHandler c.row.name)
  else
    let name := variableName (Text.unquoted c.row.name)
    if name.isEmpty || name == "myself" || Text.startsWith "_" name then .ok st
    else
      match sy.variableType? st.kind name with
      | none => .ok st
      | some type =>
        .ok { st with handlers := st.handlers.modify (st.handlers.length - 1) fun h =>
                { h with locals := h.locals ++ [⟨name, type⟩] } }

/-- A row of the section it stands in; outside all sections it means nothing. -/
def declarationRow (c : Cursor) (st : State) : Except Halt State :=
  match st.mode with
  | .parameters => parameterRow sy c st
  | .table kind replaced => .ok (tableRow sy kind replaced c st)
  | .locals => variableRow sy c st
  | .none | .parameterText => .ok st

end ScriptLift.Lift
