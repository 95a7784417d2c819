import ScriptLift.Text.Basic

/-!
# Source texts

A decoded listing with the name it is shown by, so that problems can quote its lines.

* `Source.ofFile`, `Source.stdin`, `Source.memory`: where a text comes from.
* `Source.lines`, `Source.line`: its lines, numbered from one.
-/

namespace ScriptLift

/-- A listing text with its origin. -/
structure Source where
  name : String
  /-- Empty unless the text was read from a file. -/
  path : String
  content : String
  deriving Repr, DecidableEq, Inhabited

namespace Source

/-- A text read from standard input. -/
def stdin (content : String) : Source := ⟨"<stdin>", "", content⟩

/-- A text assembled in memory. -/
def memory (content : String) : Source := ⟨"<memory>", "", content⟩

/-- A text read from a file. -/
def ofFile (path content : String) : Source := ⟨Text.baseName path, path, content⟩

/-- The lines of the text. -/
def lines (s : Source) : List String := Text.lines s.content

/-- Line `n`, counted from one; the empty text where there is none. -/
def line (s : Source) (n : Int) : String :=
  if n < 1 then "" else (s.lines[(n - 1).toNat]?).getD ""

/-- How the text is called in reports. -/
def display (s : Source) : String := if s.path.isEmpty then s.name else s.path

end Source

end ScriptLift
