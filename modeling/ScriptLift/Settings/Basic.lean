import ScriptLift.Dialect.Expr
import ScriptLift.Output.Encoding
import ScriptLift.Path
import ScriptLift.Symbols.Database

/-!
# Settings

What a run can be told.

* `Settings.default`: the built-in settings.
* `Settings.validate`: whether a run is possible with settings.
-/

namespace ScriptLift

/-- What a run can be told. -/
structure Settings where
  /-- Where the chronicles are. -/
  dataDir : String
  /-- The chronicle in use, a directory. -/
  chronicle : String
  files : Symbols.Files
  /-- The number of integer fetches before an increment. -/
  window : Int
  dialect : Dialect
  input : String
  output : String
  /-- The name of the encoding of the output. -/
  encoding : String
  workers : Int
  /-- The classes that are left out. -/
  ignored : List String
  /-- Where the fixtures are. -/
  fixtures : String
  deriving Repr, DecidableEq, Inhabited

namespace Settings

/-- The built-in settings, with a number of workers. -/
def default (workers : Int) : Settings where
  dataDir := "data"
  chronicle := "gf"
  files := .default
  window := 2
  dialect := .default
  input := "ai.obj"
  output := "ai.nasc"
  encoding := Encoding.utf16.name
  workers := workers
  ignored := ["guild_master_test_helper1", "public_wyvern"]
  fixtures := "tests"

/-- The directory of the symbol files. -/
def chronicleDir (s : Settings) : String := Path.join [s.dataDir, s.chronicle]

/-- Whether a class is left out. -/
def ignores (s : Settings) (name : String) : Bool := s.ignored.contains name

/-- What makes a run impossible. -/
inductive Fault where
  | encoding (name : String)
  | workers (n : Int)
  | window (n : Int)
  /-- A symbol file without name. -/
  | file (field : String)
  deriving Repr, DecidableEq, Inhabited

/-- The wording of a fault. -/
def Fault.message : Fault → String
  | encoding name => Encoding.unsupported name ++ " (want " ++ Encoding.utf16.name ++ " or "
      ++ Encoding.utf8.name ++ ")"
  | workers n => "Run.Workers must be positive, got " ++ Numeral.decimal n
  | window n => "Lifter.IncrementWindow must be positive, got " ++ Numeral.decimal n
  | file field => "Data." ++ field ++ " is empty"

/-- The first fault of settings. -/
def fault? (s : Settings) : Option Fault :=
  if (Encoding.ofName? s.encoding).isNone then some (.encoding s.encoding)
  else if s.workers < 1 then some (.workers s.workers)
  else if s.window < 1 then some (.window s.window)
  else
    ([("Handlers", s.files.handlers), ("Variables", s.files.slots),
      ("Functions", s.files.functions), ("Enums", s.files.enums)].find? (·.2.isEmpty)).map
      fun (field, _) => .file field

end Settings

end ScriptLift
