import ScriptLift.Cli.Flag

/-!
# Commands

The commands of the program, how one is found on a command line, and what arguments it takes.

* `Command`: a command; `commands`: all of them.
* `find`: the command that a command line names.
* `suggestions`: commands with a similar name.
-/

namespace ScriptLift.Cli

/-- The name of the program. -/
def programName : String := "nascdec"

/-! ## Commands -/

/-- What a command does. -/
inductive Task where
  | decompile
  | test
  | generate
  | dump
  | config
  | version
  | help
  deriving Repr, DecidableEq, Inhabited

/-- A command. -/
structure Command where
  name : String
  task : Task
  /-- The flags it has apart from those of all commands. -/
  flags : List Flag
  /-- The number of arguments it takes. -/
  arity : Nat
  deriving Repr, DecidableEq, Inhabited

/-- The flags of all commands. -/
def globalFlags : List Flag := [
  ⟨"config", some 'c', .text⟩, ⟨"alsologtostderr", none, .logTruth⟩,
  ⟨"log_backtrace_at", none, .spot⟩, ⟨"log_dir", none, .text⟩, ⟨"logtostderr", none, .logTruth⟩,
  ⟨"stderrthreshold", none, .severity⟩, ⟨"v", some 'v', .level⟩, ⟨"vmodule", none, .modules⟩]

/-- The flag that asks for help, which every command has once it is found. -/
def helpFlag : Flag := ⟨"help", some 'h', .truth⟩

/-- The flags of commands that read a listing. -/
def runFlags : List Flag := [
  ⟨"input", some 'i', .text⟩, ⟨"output", some 'o', .text⟩, ⟨"chronicle", none, .text⟩,
  ⟨"workers", none, .number⟩, ⟨"utf8", none, .truth⟩]

/-- The commands, in order. -/
def commands : List Command := [
  ⟨"decompile", .decompile, runFlags, 0⟩, ⟨"test", .test, runFlags, 1⟩,
  ⟨"generate", .generate, runFlags, 1⟩, ⟨"dump", .dump, runFlags ++ [⟨"code", none, .truth⟩], 1⟩,
  ⟨"config", .config, runFlags, 0⟩, ⟨"version", .version, [], 0⟩, ⟨"help", .help, [], 0⟩]

/-- The commands that suggestions come from. -/
def suggestible : List Command := commands.filter (·.task ≠ .help)

/-- The full name of a command. -/
def Command.path (c : Command) : String := programName ++ " " ++ c.name

/-- The complaint about a wrong number of arguments. -/
def Command.complaint? (c : Command) (arguments : List String) : Option String :=
  if c.task = .help then none
  else if c.arity = 0 then
    arguments.head?.map fun a =>
      "unknown command " ++ Text.quoted a ++ " for " ++ Text.quoted c.path
  else if arguments.length = c.arity then none
  else some ("accepts " ++ Numeral.decimal c.arity ++ " arg(s), received "
    ++ Numeral.decimal arguments.length)

/-! ## Suggestions -/

/-- A row of distances: from the empty text and each beginning of `t`, given the row `above` for one
character less; `c` is the new character and `left` the distance just found. -/
def distanceRow (c : Char) : (left : Nat) → (t : List Char) → (above : List Nat) → List Nat
  | left, d :: t, a :: b :: above =>
    let here := min (min (left + 1) (b + 1)) (if c == d then a else a + 1)
    here :: distanceRow c here t (b :: above)
  | _, _, _ => []

/-- The least number of characters to insert, leave out or replace to turn one text into another. -/
def distance (s t : List Char) : Nat :=
  let first := List.range (t.length + 1)
  let last := s.foldl (fun row c =>
    let start := row.headD 0 + 1
    start :: distanceRow c start t row) first
  last.getLast?.getD 0

/-- The commands with a similar name, or one that starts so. -/
def suggestions (name : String) : List String :=
  let typed := (Text.lower name).toList
  (suggestible.filter fun c =>
    distance typed c.name.toList ≤ 2 || typed.isPrefixOf c.name.toList).map Command.name

/-- The complaint about a command that there is not. -/
def unknownCommand (name : String) : String :=
  let similar := suggestions name
  "unknown command " ++ Text.quoted name ++ " for " ++ Text.quoted programName
    ++ if similar.isEmpty then ""
      else "\n\nDid you mean this?\n" ++ String.join (similar.map fun s => "\t" ++ s ++ "\n")

/-! ## Finding a command -/

/-- Whether an argument is a flag whose value is the next argument. -/
def takesNext (flags : List Flag) (s : String) : Bool :=
  match s.toList with
  | '-' :: '-' :: name =>
    !name.contains '=' && !((named? flags (String.ofList name)).any (·.alone.isSome))
  | ['-', c] => c != '=' && !((lettered? flags c).any (·.alone.isSome))
  | _ => false

/-- The arguments that are neither flags nor values of flags. -/
def withoutFlags (flags : List Flag) : (fuel : Nat) → List String → List String
  | 0, _ => []
  | _, [] => []
  | fuel + 1, s :: rest =>
    if s == "--" then []
    else if takesNext flags s then
      if rest.length ≤ 1 then [] else withoutFlags flags fuel (rest.drop 1)
    else if s.isEmpty || Text.startsWith "-" s then withoutFlags flags fuel rest
    else s :: withoutFlags flags fuel rest

/-- The arguments without the first one that is `x` and no flag nor value of a flag. -/
def withoutFirst (flags : List Flag) (x : String) : (fuel : Nat) → List String → List String
  | 0, args => args
  | _, [] => []
  | fuel + 1, s :: rest =>
    if s == "--" then s :: rest
    else if takesNext flags s then s :: rest.take 1 ++ withoutFirst flags x fuel (rest.drop 1)
    else if s == x && !Text.startsWith "-" s then rest
    else s :: withoutFirst flags x fuel rest

/-- What a command line names. -/
inductive Found where
  /-- A command with its arguments. -/
  | command (c : Command) (arguments : List String)
  /-- No command. -/
  | none
  | unknown (name : String)
  deriving Repr, DecidableEq, Inhabited

/-- The command that a command line names. -/
def find (arguments : List String) : Found :=
  match withoutFlags globalFlags arguments.length arguments with
  | [] => .none
  | name :: _ =>
    match commands.find? (·.name == name) with
    | some c => .command c (withoutFirst globalFlags name arguments.length arguments)
    | none => .unknown name

end ScriptLift.Cli
