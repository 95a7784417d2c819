import ScriptLift.Text.Utf8

/-!
# TOML documents

* `Toml.Value`: the value of a key.
* `Toml.Item`: what stands in a document, in the order of the text.
* `Toml.Node`: a document as tables of keys.
-/

namespace ScriptLift.Toml

/-- The value of a key; strings are byte text. -/
inductive Value where
  | str (s : String)
  /-- A whole number, as it is written. -/
  | int (digits : String)
  | real
  | bool (b : Bool)
  | date
  | arr (items : List Value)
  deriving Repr, Inhabited

/-- What stands in a document. -/
inductive Item where
  /-- A table begins. -/
  | table (path : List String) (line : Nat)
  /-- One of several tables of a name begins. -/
  | tables (path : List String) (line : Nat)
  | pair (key : String) (value : Value) (line : Nat)
  /-- The table in braces of a key begins; in an array it is one of `several`. -/
  | openBrace (key : String) (several : Bool) (line : Nat)
  /-- A table in braces ends. -/
  | closeBrace
  deriving Repr, Inhabited

/-- A key of a table: a value or a table, with its line. -/
inductive Node where
  | value (v : Value) (line : Nat)
  /-- `named` when it has a header of its own. -/
  | table (fields : List (String × Node)) (line : Nat) (named : Bool)
  /-- Several tables of one name: the keys of the last one, and the line of the first. -/
  | tables (last : List (String × Node)) (line : Nat)
  deriving Repr, Inhabited

/-- The line of a key. -/
def Node.line : Node → Nat
  | value _ n => n
  | table _ n _ => n
  | tables _ n => n

end ScriptLift.Toml
