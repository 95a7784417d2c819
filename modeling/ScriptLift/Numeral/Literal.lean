import ScriptLift.Numeral.Double

/-!
# Integer literals

Integers as they are given on a command line: the base shows in a mark such as `0x` or in a leading
zero, and underscores may stand between digits.

* `readLiteral`: an integer in any base.
-/

namespace ScriptLift.Numeral

/-- The base of a literal, its digits, and whether a mark stands before them. -/
def literalBase : List Char → Nat × List Char × Bool
  | '0' :: m :: d :: r =>
    match m.toLower with
    | 'b' => (2, d :: r, true)
    | 'o' => (8, d :: r, true)
    | 'x' => (16, d :: r, true)
    | _ => (8, m :: d :: r, false)
  | '0' :: r => (8, r, false)
  | s => (10, s, false)

/-- Whether underscores stand between digits only; a mark counts as a digit. -/
def literalUnderscores (s : List Char) : Bool :=
  let (base, digits, marked) := literalBase s
  let isDigit (c : Char) : Bool := (digit? (max base 10) c).isSome
  if marked then Double.underscoresOk isDigit .digit digits
  else Double.underscoresOk isDigit .start s

/-- The size of a literal without sign. -/
def literalSize (s : List Char) : Except Fault Nat :=
  if s.isEmpty then .error .malformed
  else
    let (base, digits, _) := literalBase s
    match readDigits base (digits.filter (· != '_')) with
    | .ok n => if literalUnderscores s then .ok n else .error .malformed
    | .error f => .error f

/-- An integer literal. -/
def readLiteral (s : String) : Except ReadError Int64 :=
  let (negative, body) := splitSign s.toList
  toResult .integer s.toList ((literalSize body).bind (signed negative))

end ScriptLift.Numeral
