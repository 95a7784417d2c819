import ScriptLift.Cli.Run
import ScriptLift.Duration

/-!
# The program

The command line on a real machine.
-/

namespace ScriptLift.Cli

/-- The reason of a failed operation. -/
def reasonOf (e : IO.Error) : OsReason :=
  match e with
  | .noFileOrDirectory .. => .noEntry
  | .inappropriateType .. => .notDirectory
  | .resourceExhausted .. => .noSpace
  | .permissionDenied .. => .other "permission denied"
  | e => .other (Text.ofUnicode (toString e))

/-- Does something with a file, or says why it failed. -/
def attempt {α : Type} (op : FileOp) (path : String) (act : IO α) : IO (Except OsError α) := do
  try return .ok (← act)
  catch e => return .error ⟨op, path, reasonOf e⟩

/-- Everything a stream holds. -/
partial def readAll (stream : IO.FS.Stream) (done : ByteArray) : IO ByteArray := do
  let chunk ← stream.read 65536
  if chunk.isEmpty then return done else readAll stream (done ++ chunk)

/-- The content of a file. -/
def readFile (path : String) : IO (Except OsError String) := do
  let name := Text.toUnicode path
  match ← attempt .open path (IO.FS.Handle.mk name .read) with
  | .error e => return .error e
  | .ok handle =>
    let bytes ← attempt .read path handle.readBinToEnd
    return bytes.map Text.ofBytes

/-- Writes bytes to a stream. -/
def writeTo (stream : IO.FS.Stream) (s : String) : IO Unit := do
  stream.write (Text.toBytes s)
  stream.flush

/-- This machine; times are counted from `start`. -/
def machine (start : Nat) : Host IO where
  read := readFile
  stdin := do return Text.ofBytes (← readAll (← IO.getStdin) .empty)
  create path := do
    let made ← attempt .open path (IO.FS.writeBinFile (Text.toUnicode path) .empty)
    return made.map fun _ => .unlimited
  save path sink :=
    attempt .write path (IO.FS.writeBinFile (Text.toUnicode path) (Text.toBytes sink.content))
  makeDirs path := attempt .makeDir path (IO.FS.createDirAll (Text.toUnicode path))
  print s := do writeTo (← IO.getStdout) s
  complain s := do writeTo (← IO.getStderr) s
  colours := do (← IO.getStdout).isTty
  processors := return 4
  meanTime classes := do
    let now ← IO.monoNanosNow
    return Duration.text (if classes = 0 then 0 else ((now - start) / classes : Nat))

end ScriptLift.Cli

/-- The program. -/
def main (arguments : List String) : IO UInt32 := do
  let code ← ScriptLift.Cli.execute (ScriptLift.Cli.machine (← IO.monoNanosNow))
    (arguments.map ScriptLift.Text.ofUnicode)
  return code.toUInt32
