import ScriptLift.Text.Printable
import ScriptLift.Text.Utf8

/-!
# Quoted text

Text inside double quotes, as messages show it: printable characters stand for themselves, the
rest is escaped.

* `hex`: a number in lower-case hexadecimal digits of a least width.
* `quoted`, `charQuoted`: a byte text and a character in quotes.
-/

namespace ScriptLift.Text

/-- A number in lower-case hexadecimal, filled with zeros to `width` digits. -/
def hex (width n : Nat) : List Char :=
  let digits := Nat.toDigits 16 n
  List.replicate (width - digits.length) '0' ++ digits

/-- The letter that stands for a control character after a backslash. -/
def controlLetter? (c : Char) : Option Char :=
  match c.toNat with
  | 7 => some 'a'
  | 8 => some 'b'
  | 9 => some 't'
  | 10 => some 'n'
  | 11 => some 'v'
  | 12 => some 'f'
  | 13 => some 'r'
  | _ => none

/-- A character as it stands between two marks. -/
def quotedChar (mark c : Char) : List Char :=
  if c == mark || c == '\\' then ['\\', c]
  else if isPrintable c then encodeChar c
  else
    match controlLetter? c with
    | some l => ['\\', l]
    | none =>
      let n := c.toNat
      if n < 0x80 then '\\' :: 'x' :: hex 2 n
      else if n < 0x10000 then '\\' :: 'u' :: hex 4 n
      else '\\' :: 'U' :: hex 8 n

/-- A piece of a byte text as it stands inside quotes. -/
def quotedPiece : Piece → List Char
  | .char c => quotedChar '"' c
  | .stray b => '\\' :: 'x' :: hex 2 b.toNat

/-- A byte text in double quotes. -/
def quoted (s : String) : String :=
  String.ofList ('"' :: (pieces s.toList).flatMap quotedPiece ++ ['"'])

/-- A character in single quotes. -/
def charQuoted (c : Char) : String := String.ofList ('\'' :: quotedChar '\'' c ++ ['\''])

end ScriptLift.Text
