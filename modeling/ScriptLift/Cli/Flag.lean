import ScriptLift.Numeral.Literal

/-!
# Flags

Flags on a command line: `--name value`, `--name=value`, or by a letter, `-n value`, `-nvalue`,
`-n=value`. Letters of flags that need no value may stand together.

* `Flag`: a flag; `FlagKind.complaint?`: whether it takes a value.
* `parse`: the flags and the other arguments of a command line.
* `FlagError.message`: what is wrong with a command line.
-/

namespace ScriptLift.Cli

/-! ## Flags -/

/-- What a flag takes. -/
inductive FlagKind where
  | text
  | number
  /-- True or false, and true when it stands alone. -/
  | truth
  /-- A truth of the log, which says no more of a bad value than that it cannot be read. -/
  | logTruth
  /-- A number of 32 bits in decimal. -/
  | level
  /-- The name or the number of a severity. -/
  | severity
  /-- A list of patterns, each with a level. -/
  | modules
  /-- A line of a file. -/
  | spot
  deriving Repr, DecidableEq, Inhabited

/-- A flag. -/
structure Flag where
  name : String
  /-- The letter that stands for it. -/
  letter : Option Char
  kind : FlagKind
  deriving Repr, DecidableEq, Inhabited

/-- The value of a flag that stands alone. -/
def Flag.alone (f : Flag) : Option String :=
  if f.kind = .truth || f.kind = .logTruth then some "true" else none

/-- How messages call a flag. -/
def Flag.label (f : Flag) : String :=
  match f.letter with
  | some c => "-" ++ String.singleton c ++ ", --" ++ f.name
  | none => "--" ++ f.name

/-- The words for true and false. -/
def truth? (s : String) : Option Bool :=
  if ["1", "t", "T", "TRUE", "true", "True"].contains s then some true
  else if ["0", "f", "F", "FALSE", "false", "False"].contains s then some false
  else none

/-- A decimal number of 32 bits. -/
def readLevel (s : String) : Except Numeral.ReadError Int :=
  match Numeral.readShort s.toList with
  | .ok n => .ok n
  | .error f => .error ⟨.integer, s, f⟩

/-- The complaint about a text that is no decimal number of 32 bits. -/
def levelComplaint? (s : String) : Option String :=
  match readLevel s with
  | .ok _ => none
  | .error e => some e.message

/-- The names of severities. -/
def severities : List String := ["INFO", "WARNING", "ERROR", "FATAL"]

/-- The complaint about a part of a list of patterns that is no pattern with a level. -/
def moduleComplaint? (s : String) : Option String :=
  let malformed := "syntax error: expect comma-separated list of filename=N"
  match Text.split '=' s with
  | [pattern, level] =>
    match pattern.isEmpty, readLevel level with
    | false, .ok n => if n < 0 then some "negative value for vmodule level" else none
    | _, _ => some malformed
  | _ => some malformed

/-- The complaint about a text that is not a file and a line of it. -/
def spotComplaint? (s : String) : Option String :=
  let malformed := "syntax error: expect file.go:234"
  match Text.split ':' s with
  | [file, line] =>
    match Text.hasInfix "." file, Numeral.readId line with
    | true, .ok n => if 0 < n then none else some "negative or zero value for level"
    | _, _ => some malformed
  | _ => some malformed

/-- The complaint about a value that a flag does not take. -/
def FlagKind.complaint? (kind : FlagKind) (value : String) : Option String :=
  match kind with
  | .text => none
  | .number =>
    match Numeral.readLiteral value with
    | .ok _ => none
    | .error e => some e.message
  | .truth =>
    if (truth? value).isSome then none
    else some ("strconv.ParseBool: parsing " ++ Text.quoted value ++ ": invalid syntax")
  | .logTruth => if (truth? value).isSome then none else some "parse error"
  | .level => levelComplaint? value
  | .severity =>
    if severities.contains (Text.upper value) then none else levelComplaint? value
  | .modules => ((Text.split ',' value).filter (!·.isEmpty)).findSome? moduleComplaint?
  | .spot => spotComplaint? value

/-! ## Errors -/

/-- What is wrong with a command line. -/
inductive FlagError where
  | bad (argument : String)
  | unknown (name : String)
  | unknownLetter (c : Char) (letters : String)
  | missing (argument : String)
  | missingForLetter (c : Char) (letters : String)
  | invalid (value : String) (flag : Flag) (complaint : String)
  deriving Repr, DecidableEq, Inhabited

/-- The wording of a flag error. -/
def FlagError.message : FlagError → String
  | bad s => "bad flag syntax: " ++ s
  | unknown name => "unknown flag: --" ++ name
  | unknownLetter c s => "unknown shorthand flag: " ++ Text.charQuoted c ++ " in -" ++ s
  | missing s => "flag needs an argument: " ++ s
  | missingForLetter c s => "flag needs an argument: " ++ Text.charQuoted c ++ " in -" ++ s
  | invalid value flag complaint =>
    "invalid argument " ++ Text.quoted value ++ " for " ++ Text.quoted flag.label ++ " flag: "
      ++ complaint

/-! ## Parsing -/

/-- A command line taken apart: the values of flags, the last first, and the other arguments. -/
structure Parsed where
  values : List (String × String)
  arguments : List String
  deriving Repr, DecidableEq, Inhabited

/-- The value given to a flag last. -/
def Parsed.value? (p : Parsed) (name : String) : Option String := p.values.lookup name

/-- Whether a flag was given last as true. -/
def Parsed.isSet (p : Parsed) (name : String) : Bool := ((p.value? name).bind truth?).getD false

/-- The values of flags with one more, if the flag takes it. -/
def give (values : List (String × String)) (f : Flag) (value : String) :
    Except FlagError (List (String × String)) :=
  match f.kind.complaint? value with
  | none => .ok ((f.name, value) :: values)
  | some c => .error (.invalid value f c)

section

variable (flags : List Flag)

/-- The flag of a name. -/
def named? (name : String) : Option Flag := flags.find? (·.name == name)

/-- The flag of a letter. -/
def lettered? (c : Char) : Option Flag := flags.find? (·.letter == some c)

/-- A flag given by its name, behind two dashes; what is left of the arguments after it. -/
def parseName (argument : String) (rest : List String) (values : List (String × String)) :
    Except FlagError (List (String × String) × List String) :=
  let body := argument.toList.drop 2
  match body with
  | '-' :: _ => .error (.bad argument)
  | '=' :: _ => .error (.bad argument)
  | _ =>
    let name := String.ofList (body.takeWhile (· != '='))
    match named? flags name, body.dropWhile (· != '='), rest with
    | none, _, _ => .error (.unknown name)
    | some f, _ :: value, rest => (give values f (String.ofList value)).map (·, rest)
    | some f, [], rest =>
      match f.alone, rest with
      | some value, rest => (give values f value).map (·, rest)
      | none, value :: rest => (give values f value).map (·, rest)
      | none, [] => .error (.missing argument)

/-- Flags given by their letters, behind a dash; what is left of the arguments after them. Letters
that start with `test.` are for test tools and are passed over. -/
def parseLetters (rest : List String) :
    (letters : List Char) → (values : List (String × String)) →
    Except FlagError (List (String × String) × List String)
  | [], values => .ok (values, rest)
  | c :: cs, values =>
    match "test.".toList.isPrefixOf (c :: cs), lettered? flags c with
    | true, _ => .ok (values, rest)
    | false, none => .error (.unknownLetter c (String.ofList (c :: cs)))
    | false, some f =>
      match f.alone, cs, rest with
      | _, '=' :: x :: xs, rest => (give values f (String.ofList (x :: xs))).map (·, rest)
      | some value, cs, _ =>
        match give values f value with
        | .ok values => parseLetters rest cs values
        | .error e => .error e
      | none, x :: xs, rest => (give values f (String.ofList (x :: xs))).map (·, rest)
      | none, [], value :: rest => (give values f value).map (·, rest)
      | none, [], [] => .error (.missingForLetter c (String.ofList [c]))

/-- Takes arguments one by one; each round takes at least one of `fuel`. -/
def parseFrom : (fuel : Nat) → List String → Parsed → Except FlagError Parsed
  | 0, _, p => .ok p
  | _, [], p => .ok p
  | fuel + 1, s :: rest, p =>
    match s.toList with
    | ['-', '-'] => .ok { p with arguments := p.arguments ++ rest }
    | '-' :: '-' :: _ =>
      match parseName flags s rest p.values with
      | .ok (values, rest) => parseFrom fuel rest { p with values }
      | .error e => .error e
    | '-' :: c :: cs =>
      match parseLetters flags rest (c :: cs) p.values with
      | .ok (values, rest) => parseFrom fuel rest { p with values }
      | .error e => .error e
    | _ => parseFrom fuel rest { p with arguments := p.arguments ++ [s] }

/-- The flags and the other arguments of a command line; two dashes end the flags. -/
def parse (arguments : List String) : Except FlagError Parsed :=
  parseFrom flags arguments.length arguments ⟨[], []⟩

end

end ScriptLift.Cli
