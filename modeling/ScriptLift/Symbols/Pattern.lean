import ScriptLift.Numeral.Integer
import ScriptLift.Text.Quoted

/-!
# Name patterns

A pattern lists alternatives between bars; in each, a star stands for any text and all else for
itself.

* `glob`: when a name fits an alternative.
* `Branch`, `regexWith`, `regex`: the regular expression of a pattern, each alternative anchored at
  the ends that carry no star.
* `isCompilable`: whether the characters of the expression can all be read back.
* `readBack`, `matchesName`: an alternative as its expression reads, and when a name fits a pattern.
-/

namespace ScriptLift.Pattern

open Text

/-! ## Matching -/

/-- Whether some end of a text, the whole one and the empty one included, fits. -/
def anySuffix (fits : List Char → Bool) : List Char → Bool
  | [] => fits []
  | c :: r => fits (c :: r) || anySuffix fits r

/-- Whether a name fits an alternative: a star stands for any text. -/
def glob : List Char → List Char → Bool
  | [], s => s.isEmpty
  | '*' :: p, s => anySuffix (glob p) s
  | c :: p, d :: s => c == d && glob p s
  | _ :: _, [] => false

/-- The alternatives of a pattern. -/
def alternatives (pattern : String) : List (List Char) := pattern.toList.splitOn '|'

/-! ## Regular expressions -/

/-- The characters with a meaning in regular expressions. -/
def metaChars : List Char := "\\.+*?()|[]\x7b\x7d^$# ".toList

/-- The letter that stands for a control character after a backslash. -/
def controlLetter? (c : Char) : Option Char :=
  match c with
  | '\x07' => some 'a'
  | '\x0c' => some 'f'
  | '\n' => some 'n'
  | '\r' => some 'r'
  | '\t' => some 't'
  | '\x0b' => some 'v'
  | _ => none

/-- A character that stands for itself in a regular expression. -/
def escapeChar (c : Char) : List Char :=
  if isPrintable c then if metaChars.contains c then ['\\', c] else encodeChar c
  else
    match controlLetter? c with
    | some l => ['\\', l]
    | none => if c.toNat < 0x100 then '\\' :: 'x' :: hex 2 c.toNat else '\\' :: 'u' :: hex 1 c.toNat

/-- A text that stands for itself in a regular expression. -/
def escape (s : List Char) : List Char := (pieces s).flatMap fun p => escapeChar p.toChar

/-- An alternative as a regular expression: literal pieces with any text between them. -/
structure Branch where
  atStart : Bool
  parts : List (List Char)
  atEnd : Bool
  deriving Repr, DecidableEq, Inhabited

/-- The regular expression of an alternative. -/
def branch (p : List Char) : Branch :=
  ⟨p.head? != some '*', p.splitOn '*', p.getLast? != some '*'⟩

/-- A regular expression as text, its literal pieces written by `quote`. -/
def Branch.text (quote : List Char → List Char) (b : Branch) : List Char :=
  (if b.atStart then ['^'] else []) ++ List.intercalate "(.*)".toList (b.parts.map quote)
    ++ (if b.atEnd then ['$'] else [])

/-- The regular expression of a pattern, its literal pieces written by `quote`. -/
def regexWith (quote : List Char → List Char) (pattern : String) : String :=
  String.ofList (List.intercalate ['|'] ((alternatives pattern).map fun p => (branch p).text quote))

/-- The regular expression of a pattern. -/
def regex (pattern : String) : String := regexWith escape pattern

/-- Whether an escape by hexadecimal digits has the four it needs, with those that follow it. -/
def hasDigits : List Char → Bool
  | [] => true
  | '\\' :: 'u' :: r =>
    ((r.take 4).filter fun c => c.isDigit || ('a' ≤ c.toLower && c.toLower ≤ 'f')).length = 4
      && hasDigits r
  | '\\' :: _ :: r => hasDigits r
  | _ :: r => hasDigits r

/-- Whether the regular expression of a pattern can be read. -/
def isCompilable (pattern : String) : Bool := hasDigits (regex pattern).toList

/-! ## Reading expressions back -/

/-- The control character that a letter stands for after a backslash, or the letter itself. -/
def controlOf (l : Char) : Char :=
  match l with
  | 'a' => '\x07'
  | 'f' => '\x0c'
  | 'n' => '\n'
  | 'r' => '\r'
  | 't' => '\t'
  | 'v' => '\x0b'
  | l => l

/-- The value of hexadecimal digits. -/
def ofHex (ds : List Char) : Nat :=
  ds.foldl (fun n d => n * 16 + (Numeral.digit? 16 d).getD 0) 0

/-- The character with a value. A half of a surrogate pair is in no text: a line feed, which no name
holds, stands for it. -/
def charOf (n : Nat) : Char := if 0xD800 ≤ n ∧ n < 0xE000 then '\n' else Char.ofNat n

/-- The characters that an escaped text stands for. An escape by `u` takes four digits, also when
the character before it was written with more or with less. -/
def unescape : List Char → List Char
  | '\\' :: 'u' :: a :: b :: c :: d :: r => charOf (ofHex [a, b, c, d]) :: unescape r
  | '\\' :: 'x' :: a :: b :: r => charOf (ofHex [a, b]) :: unescape r
  | '\\' :: c :: r => controlOf c :: unescape r
  | c :: r => c :: unescape r
  | [] => []

/-- The characters of an alternative as its regular expression reads them, stars kept. -/
def readBack (p : List Char) : List Char :=
  List.intercalate ['*'] ((branch p).parts.map fun part =>
    unescape (toUnicode (String.ofList (escape part))).toList)

/-- Whether a name fits some alternative of a pattern, character by character. -/
def matchesName (pattern name : String) : Bool :=
  (alternatives pattern).any fun p => glob (readBack p) (toUnicode name).toList

end ScriptLift.Pattern
