import ScriptLift.Output.Sink
import ScriptLift.Symbols.Database
import ScriptLift.Path

/-!
# Hosts

What the command line needs of the machine it runs on: files, standard streams and a clock.

* `Host`: the operations.
* `OsError`: why one of them failed.
* `Host.directory`: the symbol files of a directory.
-/

namespace ScriptLift.Cli

/-! ## Errors -/

/-- Why an operation on a file failed. -/
inductive OsReason where
  | noEntry
  | isDirectory
  | notDirectory
  | noSpace
  | other (text : String)
  deriving Repr, DecidableEq, Inhabited

/-- The wording of a reason. -/
def OsReason.text : OsReason → String
  | noEntry => "no such file or directory"
  | isDirectory => "is a directory"
  | notDirectory => "not a directory"
  | noSpace => "no space left on device"
  | other t => t

/-- The operations on files. -/
inductive FileOp where
  | «open»
  | read
  | write
  | makeDir
  deriving Repr, DecidableEq, Inhabited

/-- The word for an operation. -/
def FileOp.word : FileOp → String
  | «open» => "open"
  | read => "read"
  | write => "write"
  | makeDir => "mkdir"

/-- A failed operation on a file. -/
structure OsError where
  op : FileOp
  path : String
  reason : OsReason
  deriving Repr, DecidableEq, Inhabited

/-- The wording of a failed operation. -/
def OsError.message (e : OsError) : String :=
  e.op.word ++ " " ++ e.path ++ ": " ++ e.reason.text

/-! ## Hosts -/

/-- What the command line needs of its machine. -/
structure Host (m : Type → Type) where
  /-- The content of a file. -/
  read : (path : String) → m (Except OsError String)
  stdin : m String
  /-- Empties a file, which is made if it is not there, and gives where to write. -/
  create : (path : String) → m (Except OsError Sink)
  /-- Puts what a sink took into its file. -/
  save : (path : String) → Sink → m (Except OsError Unit)
  /-- Makes a directory and those it is in. -/
  makeDirs : (path : String) → m (Except OsError Unit)
  /-- Writes to standard output. -/
  print : String → m Unit
  /-- Writes to standard error. -/
  complain : String → m Unit
  /-- Whether standard output shows colours. -/
  colours : m Bool
  /-- The number of processors. -/
  processors : m Int
  /-- The mean time of a number of classes, as text. -/
  meanTime : (classes : Nat) → m String

namespace Host

variable {m : Type → Type} [Monad m] (h : Host m)

/-- A symbol file of a directory. -/
def symbolFile (dir name : String) : m (Except Symbols.FileError String) := do
  if dir.isEmpty then return .error (.noName "os: DirFS with empty root")
  if !Path.isLocal name || name.toList.contains '\x00' then
    return .error (.noName "invalid argument")
  match ← h.read (dir ++ "/" ++ name) with
  | .ok s => return .ok s
  | .error ⟨.open, _, reason⟩ => return .error (.noOpen reason.text (reason == .noEntry))
  | .error ⟨_, path, reason⟩ => return .error (.noRead reason.text path)

/-- Some symbol files of a directory, with their names. -/
def symbolFiles (dir : String) (names : List String) :
    m (List (String × Except Symbols.FileError String)) :=
  names.mapM fun name => do return (name, ← h.symbolFile dir name)

/-- A directory that holds files read before. -/
def held (files : List (String × Except Symbols.FileError String)) : Symbols.Directory :=
  fun name => (files.lookup name).getD (.error (.noOpen OsReason.noEntry.text true))

/-- The symbol files of a directory: those with a name of their own, then the headers that they
mention. -/
def directory (dir : String) (files : Symbols.Files) : m Symbols.Directory := do
  let own ← h.symbolFiles dir
    [files.handlers, files.slots, files.functions, files.enums, files.fstring]
  let headers ← h.symbolFiles dir (Symbols.headerNames .standard (held own) files)
  return held (own ++ headers)

end Host

end ScriptLift.Cli
