import ScriptLift.Text.Basic

/-!
# Layout

Source lines are indented by what they start and end with: a line that ends in an opening brace or
a colon opens a level, a line that starts with a closing brace or ends in a colon steps back first.
An empty line follows a closing brace, and precedes an opening line unless another opening line
stands just before it.

* `Layout.place`: one line; `Layout.arrange`: a list of lines.
* `Layout.indent`: a text.
-/

namespace ScriptLift.Layout

/-- Where the layout stands. -/
structure State where
  depth : Int
  /-- The last character of the line before, if it had one. -/
  last : Option Char
  deriving Repr, DecidableEq, Inhabited

/-- Before the first line. -/
def start : State := ⟨0, none⟩

/-- A line that steps back before it is placed. -/
def stepsBack (line : List Char) : Bool :=
  line.head? == some '}' || line.getLast? == some ':'

/-- A line that opens a level. -/
def opens (line : List Char) : Bool :=
  line.getLast? == some '{' || line.getLast? == some ':'

/-- Whether an empty line stands before a line. After an empty line, or one that ends in a null
character, it does not. -/
def spaced (before : Option Char) (line : List Char) : Bool :=
  !stepsBack line &&
    (before == some '}' ||
      (line.getLast? == some '{' && before.any fun c => c != '\x00' && c != '{' && c != ':'))

/-- The depth at which a line stands. -/
def depthAt (s : State) (line : List Char) : Int := if stepsBack line then s.depth - 1 else s.depth

/-- The state after a line. -/
def next (s : State) (line : List Char) : State :=
  ⟨if opens line then depthAt s line + 1 else depthAt s line, line.getLast?⟩

/-- A line with its indentation, after an empty line where one is due. -/
def place (s : State) (line : String) : List String :=
  let chars := line.toList
  let indented := Text.repeated (depthAt s chars).toNat "\t" ++ line
  if spaced s.last chars then ["", indented] else [indented]

/-- Lines with their indentation. -/
def arrange : State → List String → List String
  | _, [] => []
  | s, line :: r => place s line ++ arrange (next s line.toList) r

/-- A text with its lines indented; it ends with a line feed. -/
def indent (text : String) : String :=
  String.intercalate "\n" (arrange start (Text.split '\n' text)) ++ "\n"

end ScriptLift.Layout
