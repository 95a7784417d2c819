import ScriptLift.Tree.ClassDecl

/-!
# Symbols

What the ids of a listing stand for.

* `Symbols`: the look-ups that lifting needs.
* `NotFound`: a look-up in vain, with its wording.
* `shortSkillId?`: how short skill ids derive from skill ids.
-/

namespace ScriptLift

/-- The signature of a native function. -/
structure Signature where
  name : String
  type : String
  arguments : List String
  deriving Repr, DecidableEq, Inhabited

/-- The look-ups that lifting needs. Class kinds, ids and addresses are 64-bit words; the owner of a
variable is the name of a type, empty for the global scope. -/
structure Symbols where
  handler? : (kind id : Int64) → Option String
  slot? : (kind : Int64) → (owner : String) → (address : Int64) → Option Variable
  variableType? : (kind : Int64) → (name : String) → Option String
  function? : (address : Int64) → Option Signature
  constant? : (domain : String) → (id : Int64) → Option String
  isPrimitive : (type : String) → Bool
  fstring? : (id : Int64) → Option String

/-- A look-up in vain. -/
inductive NotFound where
  | handler (kind id : Int64)
  | variable (kind : Int64) (owner : String) (address : Int64)
  | function (address : Int64)
  deriving Repr, DecidableEq, Inhabited

/-- The wording of a look-up in vain. -/
def NotFound.message (e : NotFound) : String :=
  let what := match e with
    | .handler kind id =>
      "handler " ++ Numeral.decimal id.toInt ++ " for class type " ++ Numeral.decimal kind.toInt
    | .variable kind owner address =>
      "variable " ++ (if owner.isEmpty then "" else owner ++ "->") ++ Numeral.decimal address.toInt
        ++ " for class type " ++ Numeral.decimal kind.toInt
    | .function address => "function " ++ Numeral.decimal address.toInt
  what ++ ": symbol not found"

namespace Symbols

/-- The owner under which tables keep the variables of a scope. -/
def ownerKey (owner : String) : String := if owner.isEmpty then "_" else owner

/-- The types that are primitive in every chronicle. -/
def builtinPrimitives : List String :=
  ["int", "float", "double", "string", "void", "pointer", "WayPointsType", "WayPointDelaysType",
    "BOOL"]

/-- What a skill id is divided by to give its short form. -/
def shortSkillDivisor : Int64 := 65536

/-- The short form of the id of a skill of level 1. -/
def shortSkillId? (id : Int64) : Option Int64 :=
  if id % shortSkillDivisor == 1 then some ((id - 1) / shortSkillDivisor) else none

end Symbols

/-- Entries under keys, the newest first. -/
abbrev Table (κ ν : Type) := List (κ × ν)

namespace Table

variable {κ ν : Type} [BEq κ]

/-- Puts an entry under a key, before any older one. -/
def put (t : Table κ ν) (k : κ) (v : ν) : Table κ ν := (k, v) :: t

/-- The newest entry under a key. -/
def get? (t : Table κ ν) (k : κ) : Option ν := t.lookup k

/-- A table without a key. -/
def without (t : Table κ ν) (k : κ) : Table κ ν := t.filter fun e => !(e.1 == k)

/-- The keys of a table, each once. -/
def keys (t : Table κ ν) : List κ := (t.map Prod.fst).eraseDups

/-- The entries that count, each key once. -/
def live (t : Table κ ν) : List (κ × ν) := t.keys.filterMap fun k => (t.get? k).map (k, ·)

end Table

end ScriptLift
