import ScriptLift.Text.Blank
import ScriptLift.Text.Case

/-!
# Text operations

Cutting and searching of byte text, on character lists and on strings.

* `split`, `lines`: cutting at a separator.
* `trimmed`, `stripBy`: what is left without white space, or without chosen characters, at the ends.
* `hasInfix`, `cutPrefix?`, `cutSuffix?`: searching.
-/

namespace ScriptLift.Text

/-- The parts of a text between the occurrences of a separator. -/
def split (sep : Char) (s : String) : List String := (s.toList.splitOn sep).map String.ofList

/-- A text without white space at its ends. -/
def trimmed (s : String) : String := String.ofList (trim s.toList)

/-- A character list without the characters satisfying `p` at its ends. -/
def stripList (p : Char → Bool) (s : List Char) : List Char :=
  ((s.dropWhile p).reverse.dropWhile p).reverse

/-- A text without the characters satisfying `p` at its ends. -/
def stripBy (p : Char → Bool) (s : String) : String := String.ofList (stripList p s.toList)

/-- A text without the characters satisfying `p` at its end. -/
def stripEndBy (p : Char → Bool) (s : String) : String :=
  String.ofList (s.toList.reverse.dropWhile p).reverse

/-- A text without quotes at its ends. -/
def unquoted (s : String) : String := stripBy (· == '"') s

/-- Whether `sub` occurs in a character list. -/
def hasInfixList (sub : List Char) : List Char → Bool
  | [] => sub.isEmpty
  | c :: r => sub.isPrefixOf (c :: r) || hasInfixList sub r

/-- Whether `sub` occurs in a text. -/
def hasInfix (sub s : String) : Bool := hasInfixList sub.toList s.toList

/-- Whether a text starts with `p`. -/
def startsWith (p s : String) : Bool := p.toList.isPrefixOf s.toList

/-- Whether a text ends with `p`. -/
def endsWith (p s : String) : Bool := p.toList.isSuffixOf s.toList

/-- The text after a leading `p`, if it starts with `p`. -/
def cutPrefix? (p s : String) : Option String := (p.toList.isPrefixOf? s.toList).map String.ofList

/-- The text before a final `p`, if it ends with `p`. -/
def cutSuffix? (p s : String) : Option String := (p.toList.isSuffixOf? s.toList).map String.ofList

/-- A text with every carriage return before a line feed dropped. -/
def unixLines : List Char → List Char
  | '\r' :: '\n' :: r => '\n' :: unixLines r
  | c :: r => c :: unixLines r
  | [] => []

/-- The lines of a text; a line ends at a line feed, with or without a carriage return. -/
def lines (s : String) : List String := ((unixLines s.toList).splitOn '\n').map String.ofList

/-- A number of copies of a text. -/
def repeated (n : Nat) (s : String) : String := String.join (List.replicate n s)

/-- The last part of a slash-separated path. -/
def baseName (path : String) : String :=
  if path.isEmpty then "."
  else
    let body := path.toList.reverse.dropWhile (· == '/')
    if body.isEmpty then "/" else String.ofList (body.takeWhile (· != '/')).reverse

end ScriptLift.Text
