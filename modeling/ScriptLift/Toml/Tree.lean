import ScriptLift.Toml.Grammar

/-!
# Tables

The items of a document put into tables. A key that is given a value twice, or a table two headers,
makes a document malformed; a table in braces may be given more than once.

* `changeAt`: a change to the table at a path.
* `beginTable`, `beginTables`, `giveValue`: the changes that items make.
* `tree?`: the tables of a document.
-/

namespace ScriptLift.Toml

/-- The keys of a table, in order. -/
abbrev Fields := List (String × Node)

/-- The fields with a key put in the place of the one of its name, or at the end. -/
def Fields.put (fs : Fields) (key : String) (n : Node) : Fields :=
  if fs.any (·.1 == key) then fs.map fun f => if f.1 == key then (key, n) else f
  else fs ++ [(key, n)]

/-- A table that headers of its parts imply. -/
def implied (line : Nat) : Node := .table [] line false

/-- Does `change` to the fields of the table at a path, whose tables are implied if they are not
there; of several tables it is the last. -/
def changeAt (line : Nat) (change : Fields → Option Fields) : List String → Fields → Option Fields
  | [], fs => change fs
  | k :: ks, fs =>
    match (fs.lookup k).getD (implied line) with
    | .table inner n named => do
      let inner ← changeAt line change ks inner
      return fs.put k (.table inner n named)
    | .tables last n => do
      let last ← changeAt line change ks last
      return fs.put k (.tables last n)
    | .value .. => none

/-- Begins a table, by a header if it is `named`: there must be none of its name that has one. -/
def beginTable (named : Bool) (key : String) (line : Nat) (fs : Fields) : Option Fields :=
  match fs.lookup key with
  | none => some (fs.put key (.table [] line named))
  | some (.table inner _ false) => some (fs.put key (.table inner line named))
  | some _ => none

/-- Begins one of several tables. -/
def beginTables (key : String) (line : Nat) (fs : Fields) : Option Fields :=
  match fs.lookup key with
  | none => some (fs.put key (.tables [] line))
  | some (.tables _ first) => some (fs.put key (.tables [] first))
  | some _ => none

/-- Gives a key its value. -/
def giveValue (key : String) (v : Value) (line : Nat) (fs : Fields) : Option Fields :=
  match fs.lookup key with
  | none => some (fs.put key (.value v line))
  | some _ => none

/-- A document being read: its tables, and the path of the one that keys go to. -/
structure Reading where
  fields : Fields
  path : List String
  deriving Inhabited

/-- An item is put into the tables. -/
def Reading.add (r : Reading) : Item → Option Reading
  | .table path line =>
    let change := beginTable true (path.getLast?.getD "") line
    (changeAt line change path.dropLast r.fields).map (⟨·, path⟩)
  | .tables path line =>
    let change := beginTables (path.getLast?.getD "") line
    (changeAt line change path.dropLast r.fields).map (⟨·, path⟩)
  | .pair key v line => (changeAt line (giveValue key v line) r.path r.fields).map (⟨·, r.path⟩)
  | .openBrace key several line =>
    let change := if several then beginTables key line else beginTable false key line
    (changeAt line change r.path r.fields).map (⟨·, r.path ++ [key]⟩)
  | .closeBrace => some ⟨r.fields, r.path.dropLast⟩

/-- The tables of a document, or `none` when it is malformed. -/
def tree? (text : String) : Option Fields := do
  let is ← items? text
  let r ← is.foldlM Reading.add ⟨[], []⟩
  return r.fields

end ScriptLift.Toml
