import ScriptLift.JsonDoc
import ScriptLift.Symbols.Pattern
import ScriptLift.Text.Utf16

/-!
# Tools of loading

What the loading of symbols leaves to others: searching with regular expressions, and decoding.

* `Toolkit`: tools by what they do.
* `Toolkit.standard`: the tools in use.
-/

namespace ScriptLift.Symbols

/-- What loading leaves to others. -/
structure Toolkit where
  /-- A text without its line comments. -/
  withoutComments : String → String
  /-- Whether the expression of a pattern can be read. -/
  isCompilable : (pattern : String) → Bool
  /-- Whether a search for the expression of a pattern succeeds in a name. -/
  matchesName : (pattern name : String) → Bool
  /-- A text in UTF-16 behind its byte order mark, as UTF-8. -/
  decode : String → Except String String

/-- The tools in use. -/
def Toolkit.standard : Toolkit :=
  ⟨JsonDoc.withoutComments, Pattern.isCompilable, Pattern.matchesName, Text.Codec.standard.decode⟩

end ScriptLift.Symbols
