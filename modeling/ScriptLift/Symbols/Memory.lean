import ScriptLift.Symbols.Basic

/-!
# Symbols in memory

Symbol tables filled entry by entry.

* `Memory.addHandler`, `Memory.addConstant`, …: filling. A skill of level 1 is also added under its
  short id.
* `Memory.symbols`: the look-ups.
-/

namespace ScriptLift.Symbols

/-- Symbol tables filled entry by entry. -/
structure Memory where
  handlers : Table (Int64 × Int64) String
  slots : Table (Int64 × String × Int64) Variable
  functions : Table Int64 Signature
  constants : Table (String × Int64) String
  fstrings : Table Int64 String
  deriving Repr, DecidableEq, Inhabited

namespace Memory

/-- No symbols. -/
def empty : Memory := ⟨[], [], [], [], []⟩

/-- Adds the name of a handler. -/
def addHandler (m : Memory) (kind id : Int64) (name : String) : Memory :=
  { m with handlers := m.handlers.put (kind, id) name }

/-- Adds a variable of an owner, of the global scope when that is empty. -/
def addVariable (m : Memory) (kind : Int64) (owner : String) (address : Int64) (v : Variable) :
    Memory :=
  { m with slots := m.slots.put (kind, ownerKey owner, address) v }

/-- Adds a function. -/
def addFunction (m : Memory) (address : Int64) (f : Signature) : Memory :=
  { m with functions := m.functions.put address f }

/-- Adds a constant; one of the skill domain also under its short id, if it has one. -/
def addConstant (m : Memory) (domain : String) (id : Int64) (name : String) : Memory :=
  let constants := m.constants.put (domain, id) name
  if domain == "SKILL" then
    match shortSkillId? id with
    | some short => { m with constants := constants.put ("SKILL_SHORT", short) name }
    | none => { m with constants }
  else { m with constants }

/-- Adds a numbered text. -/
def addFString (m : Memory) (id : Int64) (text : String) : Memory :=
  { m with fstrings := m.fstrings.put id text }

/-- Whether one variable comes before another: by owner, then by address. -/
def comesBefore (a b : String × Int64) : Bool := a.1 < b.1 || (a.1 == b.1 && a.2 < b.2)

/-- The first of two named variables. -/
def firstOf (a : Option ((String × Int64) × Variable)) (b : (String × Int64) × Variable) :
    Option ((String × Int64) × Variable) :=
  match a with
  | some a => if comesBefore b.1 a.1 then some b else some a
  | none => some b

/-- The type of the first variable of a class kind with a name: of the least owner, and there of the
least address. -/
def variableType? (m : Memory) (kind : Int64) (name : String) : Option String :=
  let named := m.slots.live.filterMap fun ((k, owner, address), v) =>
    if k == kind && v.name == name then some ((owner, address), v) else none
  (named.foldl firstOf none).map (·.2.type)

/-- The look-ups in symbols in memory. -/
def symbols (m : Memory) : Symbols where
  handler? kind id := m.handlers.get? (kind, id)
  slot? kind owner address := m.slots.get? (kind, ownerKey owner, address)
  variableType? := m.variableType?
  function? address := m.functions.get? address
  constant? domain id := m.constants.get? (domain, id)
  isPrimitive name := builtinPrimitives.contains name || m.constants.any (·.1.1 == name)
  fstring? id := m.fstrings.get? id

end Memory

end ScriptLift.Symbols
