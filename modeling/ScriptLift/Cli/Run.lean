import ScriptLift.Batch.Run
import ScriptLift.Batch.Summary
import ScriptLift.Cli.Command
import ScriptLift.Cli.Host
import ScriptLift.Settings.Load
import ScriptLift.Tree.Outline

/-!
# The command line

* `perform`: what a command does.
* `execute`: a command line, with the exit code.
-/

namespace ScriptLift.Cli

variable {m : Type → Type} [Monad m] (h : Host m)

/-! ## Settings -/

/-- The settings of a file over the built-in ones; no file is no change. -/
def fileSettings (file : String) : ExceptT String m Settings := do
  let base := Settings.default (← h.processors)
  if file.isEmpty then return base
  match ← h.read file with
  | .error e => throw e.message
  | .ok text =>
    match Settings.load base text with
    | .ok s => return s
    | .error e => throw (e.message file)

/-- The number of workers that a command line asks for. -/
def workersOf (p : Parsed) (default : Int) : Int :=
  match (p.value? "workers").map Numeral.readLiteral with
  | some (.ok n) => n.toInt
  | _ => default

/-- Settings with those of a command line put over them. -/
def overridden (p : Parsed) (s : Settings) : Settings :=
  { s with
    input := (p.value? "input").getD s.input
    output := (p.value? "output").getD s.output
    chronicle := (p.value? "chronicle").getD s.chronicle
    workers := workersOf p s.workers
    encoding := if p.isSet "utf8" then Encoding.utf8.name else s.encoding }

/-- The settings that a command line asks for. -/
def settings (p : Parsed) : ExceptT String m Settings := do
  let s := overridden p (← fileSettings h ((p.value? "config").getD ""))
  match s.fault? with
  | some f => throw f.message
  | none => return s

/-! ## Input -/

/-- The symbols of the chronicle in use. -/
def database (s : Settings) : ExceptT String m Symbols.Database := do
  let dir ← h.directory s.chronicleDir s.files
  match Symbols.Database.load dir s.files with
  | .ok db => return db
  | .error e => throw ("load chronicle " ++ s.chronicleDir ++ ": " ++ e.message)

/-- The listing in use; a dash is standard input. -/
def listing (s : Settings) : ExceptT String m Source := do
  if s.input == "-" then return .stdin (Text.decodeText (← h.stdin))
  match ← h.read s.input with
  | .ok text => return .ofFile s.input (Text.decodeText text)
  | .error e => throw e.message

/-! ## Commands -/

/-- A fixture in use, with its file. -/
structure Bench where
  path : String
  store : Fixture.Store

/-- Saves what was written to a file. -/
def save (path : String) (sink : Sink) : ExceptT String m (Option String) := do
  match ← h.save path sink with
  | .ok _ => return none
  | .error e => return some e.message

/-- Shows a report. -/
def showReport (r : Batch.Report) : ExceptT String m Unit := do
  let colours ← h.colours
  let average ← h.meanTime (r.stats.completed + r.stats.failed)
  h.print (r.progress colours ++ "\n" ++ r.summary colours average)

/-- The end of a run that succeeded; one that is checked against a fixture may still fail. -/
def finish (bench : Option Bench) (report : Option Batch.Report) : ExceptT String m Unit := do
  match report, bench.any (·.store.isTester) with
  | some r, true =>
    h.print (r.failedTests ++ "\nDone!\n")
    match r.failedMessage? with
    | some e => throw e
    | none => return
  | _, _ => h.print "\nDone!\n"

/-- Decompiles the listing in use. -/
def decompile (s : Settings) (bench : Option Bench) : ExceptT String m Unit := do
  let db ← database h s
  let src ← listing h s
  match ← h.create s.output with
  | .error e => throw e.message
  | .ok sink =>
    let run := Batch.decompile db.symbols s src false sink (bench.map Bench.store)
    let unsaved ← save h s.output run.sink
    let unsavedFixture ← match bench, run.store.bind Fixture.Store.sink? with
      | some b, some sink => save h b.path sink
      | _, _ => pure none
    if let some r := run.report then showReport h r
    match (run.error.or unsaved).or unsavedFixture with
    | some e => throw e
    | none => finish h bench run.report

/-- The fixture to compare with. -/
def testBench (path : String) : ExceptT String m Bench := do
  match ← h.read path with
  | .ok content => return ⟨path, .tester (.ok content)⟩
  | .error e =>
    match e.op with
    | .read => return ⟨path, .tester (.error e.message)⟩
    | _ => throw ("open fixture: " ++ e.message)

/-- The fixture to be written. -/
def generateBench (path : String) : ExceptT String m Bench := do
  match ← h.makeDirs (Path.directory path) with
  | .error e => throw ("create fixture dir: " ++ e.message)
  | .ok _ =>
    match ← h.create path with
    | .error e => throw ("create fixture: " ++ e.message)
    | .ok sink => return ⟨path, .generator sink⟩

/-- Prints the tree of a class, and its source if that is asked for. -/
def dump (s : Settings) (name : String) (withSource : Bool) : ExceptT String m Unit := do
  let db ← database h s
  let src ← listing h s
  match Listing.find? src name with
  | none => throw (Listing.missingMessage src name)
  | some l =>
    match Lift.lift db.symbols (.ofWindow s.window (some src)) l with
    | .ok decl =>
      h.print (decl.outlineText?.getD "")
      if withSource then h.print ("\n" ++ (s.dialect.source? decl).getD "")
    | .error f =>
      if let .problem p := f then h.complain p.display
      throw ("decompile " ++ name ++ " failed")

/-- The version of the program. -/
def version : String := programName ++ " dev (none)\n"

/-- How the program is used. -/
def usage : String :=
  "Usage:\n  " ++ programName ++ " [command]\n\nAvailable Commands:\n"
    ++ String.join (commands.map fun c => "  " ++ c.name ++ "\n")

/-- What a command does with its arguments. -/
def perform (c : Command) (p : Parsed) : ExceptT String m Unit := do
  let first := p.arguments.headD ""
  match c.task with
  | .decompile => decompile h (← settings h p) none
  | .test => do
    let s ← settings h p
    let bench ← testBench h (Fixture.path s.fixtures first)
    decompile h s (some bench)
  | .generate => do
    let s ← settings h p
    let bench ← generateBench h (Fixture.path s.fixtures first)
    decompile h s (some bench)
  | .dump => do dump h (← settings h p) first (p.isSet "code")
  | .config => do h.print (← settings h p).dump
  | .version => h.print version
  | .help => h.print usage

/-! ## Command lines -/

/-- The exit code of a command line that failed. -/
def failureCode : Nat := 70

/-- Reports a failure, with a hint after its first mention. -/
def fail (message hint : String) : m Nat := do
  h.complain ("Error: " ++ message ++ "\n" ++ hint)
  h.complain (programName ++ ": " ++ message ++ "\n")
  return failureCode

/-- Takes arguments apart by the flags there are, then goes on as `k` says unless help is asked
for. -/
def withFlags (flags : List Flag) (arguments : List String) (k : Parsed → m Nat) : m Nat := do
  match parse (flags ++ globalFlags ++ [helpFlag]) arguments with
  | .error e => fail h e.message ""
  | .ok p =>
    if p.isSet "help" then
      h.print usage
      return 0
    k p

/-- Runs a command line and gives its exit code. -/
def execute (arguments : List String) : m Nat := do
  match find arguments with
  | .unknown name =>
    fail h (unknownCommand name) ("Run '" ++ programName ++ " --help' for usage.\n")
  | .none =>
    withFlags h [] arguments fun _ => do
      h.print usage
      return 0
  | .command c rest =>
    withFlags h c.flags rest fun p => do
      match c.complaint? p.arguments with
      | some e => fail h e ""
      | none =>
        match ← (perform h c p).run with
        | .ok _ => return 0
        | .error e => fail h e ""

end ScriptLift.Cli
