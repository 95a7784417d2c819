import ScriptLift.Settings.Basic
import ScriptLift.Toml.Tree

/-!
# Settings files

Settings are read from TOML, a section for each concern, and written the same way.

* `Settings.load`: settings with those of a file put over them.
* `Settings.dump`: settings as TOML.
-/

namespace ScriptLift.Settings

/-! ## Fields -/

/-- The value of a field. -/
inductive FieldValue where
  | text (s : String)
  | number (n : Int)
  | names (ss : List String)
  deriving Repr, DecidableEq, Inhabited

/-- A field of a section: how it is read from settings and put into them. -/
structure Field where
  name : String
  get : Settings → FieldValue
  /-- Gives `none` for a value of the wrong kind. -/
  set : FieldValue → Settings → Option Settings
  /-- Whether it is left out when it is empty. -/
  optional : Bool

/-- A section of a settings file. -/
structure Section where
  name : String
  /-- What messages call it. -/
  title : String
  fields : List Field

/-- A field that holds a text. -/
def textField (name : String) (get : Settings → String) (set : String → Settings → Settings) :
    Field :=
  ⟨name, fun s => .text (get s), fun v s => match v with
    | .text t => some (set t s)
    | _ => none, false⟩

/-- A field that holds a number. -/
def numberField (name : String) (get : Settings → Int) (set : Int → Settings → Settings) : Field :=
  ⟨name, fun s => .number (get s), fun v s => match v with
    | .number n => some (set n s)
    | _ => none, false⟩

/-- A field that holds names. -/
def namesField (name : String) (get : Settings → List String)
    (set : List String → Settings → Settings) : Field :=
  ⟨name, fun s => .names (get s), fun v s => match v with
    | .names ns => some (set ns s)
    | _ => none, false⟩

/-- Where the symbol files are. -/
def dataSection : Section := ⟨"Data", "config.DataConfig", [
  textField "Dir" dataDir fun v s => { s with dataDir := v },
  textField "Chronicle" chronicle fun v s => { s with chronicle := v },
  textField "Handlers" (·.files.handlers) fun v s => { s with files.handlers := v },
  textField "Variables" (·.files.slots) fun v s => { s with files.slots := v },
  textField "Functions" (·.files.functions) fun v s => { s with files.functions := v },
  textField "Enums" (·.files.enums) fun v s => { s with files.enums := v },
  { textField "FString" (·.files.fstring) (fun v s => { s with files.fstring := v }) with
    optional := true }]⟩

/-- How rows are lifted. -/
def lifterSection : Section := ⟨"Lifter", "config.LifterConfig", [
  numberField "IncrementWindow" window fun v s => { s with window := v }]⟩

/-- How source is written. -/
def emitterSection : Section := ⟨"Emitter", "config.EmitterConfig", [
  namesField "ImplicitReceivers" (·.dialect.implicitReceivers)
    fun v s => { s with dialect.implicitReceivers := v },
  textField "ConstantPrefix" (·.dialect.constantMark)
    fun v s => { s with dialect.constantMark := v },
  namesField "UnprefixedDomains" (·.dialect.bareDomains)
    fun v s => { s with dialect.bareDomains := v }]⟩

/-- What a run works on. -/
def runSection : Section := ⟨"Run", "config.RunConfig", [
  textField "Input" input fun v s => { s with input := v },
  textField "Output" output fun v s => { s with output := v },
  textField "Encoding" encoding fun v s => { s with encoding := v },
  numberField "Workers" workers fun v s => { s with workers := v },
  namesField "Ignored" ignored fun v s => { s with ignored := v },
  textField "Fixtures" fixtures fun v s => { s with fixtures := v }]⟩

/-- The sections of a settings file, in order. -/
def sections : List Section := [dataSection, lifterSection, emitterSection, runSection]

/-- What messages call the file as a whole. -/
def fileTitle : String := "config.Config"

/-! ## Reading -/

/-- Why settings could not be read. -/
inductive LoadError where
  /-- The text is malformed, or a value is of the wrong kind. -/
  | malformed
  | unknown (line : Nat) (field title : String)
  | fault (f : Fault)
  deriving Repr, DecidableEq, Inhabited

/-- The wording of an error in a file of some name. -/
def LoadError.message (file : String) : LoadError → String
  | malformed => file ++ ": malformed settings"
  | unknown line field title =>
    file ++ ", line " ++ Numeral.decimal line ++ ": field '" ++ field ++ "' is not defined in "
      ++ title
  | fault f => f.message

/-- A text among values. -/
def textOf? : Toml.Value → Option String
  | .str s => some s
  | _ => none

/-- A value as that of a field. -/
def fieldValue? : Toml.Value → Option FieldValue
  | .str s => some (.text s)
  | .int digits =>
    match Numeral.readId digits with
    | .ok n => some (.number n.toInt)
    | .error _ => none
  | .arr vs => (vs.mapM textOf?).map .names
  | _ => none

/-- Puts a field of a file into settings. -/
def Section.apply (sec : Section) (s : Settings) (key : String) (n : Toml.Node) :
    Except LoadError Settings :=
  match sec.fields.find? (·.name == key) with
  | none => .error (.unknown n.line key sec.title)
  | some f =>
    match n with
    | .value v _ =>
      match (fieldValue? v).bind (f.set · s) with
      | some s => .ok s
      | none => .error .malformed
    | _ => .error .malformed

/-- Puts a section of a file into settings. -/
def applySection (s : Settings) (key : String) (n : Toml.Node) : Except LoadError Settings :=
  match sections.find? (·.name == key) with
  | none => .error (.unknown n.line key fileTitle)
  | some sec =>
    match n with
    | .table fields _ _ => fields.foldlM (fun s (k, n) => sec.apply s k n) s
    | _ => .error .malformed

/-- Settings with those of a file put over them. -/
def load (base : Settings) (text : String) : Except LoadError Settings := do
  match Toml.tree? text with
  | none => .error .malformed
  | some fields =>
    let s ← fields.foldlM (fun s (k, n) => applySection s k n) base
    match s.fault? with
    | some f => .error (.fault f)
    | none => .ok s

/-! ## Writing -/

/-- A value as it is written. -/
def FieldValue.written : FieldValue → String
  | text s => Text.quoted s
  | number n => Numeral.decimal n
  | names ss => "[" ++ ", ".intercalate (ss.map Text.quoted) ++ "]"

/-- The line of a field, if it is written. -/
def Field.line? (s : Settings) (f : Field) : Option String :=
  if f.optional && f.get s == .text "" then none
  else some (f.name ++ " = " ++ (f.get s).written ++ "\n")

/-- A section as it is written. -/
def Section.written (s : Settings) (sec : Section) : String :=
  "[" ++ sec.name ++ "]\n" ++ String.join (sec.fields.filterMap (·.line? s))

/-- Settings as TOML. -/
def dump (s : Settings) : String := "\n".intercalate (sections.map (·.written s))

end ScriptLift.Settings
