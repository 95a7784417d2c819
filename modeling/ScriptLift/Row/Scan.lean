import ScriptLift.Row.Basic

/-!
# Scanning lines

A line is cut at its first comment mark outside quotes, and the code before it into fields. Quoted
spans stay whole; inside one a quote after a backslash does not close it. A string record is its id
and the rest of the line, comment marks included.

* `splitComment`, `splitFields`: the two cuts.
* `scan`: a line as a row, with a verdict on its quotes.
* `sanitize`: a line reduced to ASCII text.
-/

namespace ScriptLift.Row

/-! ## Comments -/

/-- A line cut at its comment. -/
structure Cut where
  code : List Char
  comment : List Char
  /-- No quote is left open. -/
  closed : Bool
  deriving Repr, DecidableEq, Inhabited

/-- A character put in front of the code. -/
def Cut.push (c : Char) (x : Cut) : Cut := { x with code := c :: x.code }

/-- Cuts at the first comment mark outside quotes; `quoted` and `before` give the state and the
character just before the text. -/
def cutComment (quoted : Bool) (before : Char) : List Char → Cut
  | [] => ⟨[], [], !quoted⟩
  | c :: r =>
    if c == '"' && (!quoted || before != '\\') then (cutComment (!quoted) c r).push c
    else if !quoted && c == '/' && r.head? == some '/' then ⟨[], r.drop 1, true⟩
    else (cutComment quoted c r).push c

/-- A line as code and comment, white space around both dropped. -/
def splitComment (line : List Char) : Cut :=
  let x := cutComment false ' ' line
  ⟨Text.trim x.code, Text.trim x.comment, x.closed⟩

/-! ## Fields -/

/-- Puts a finished field, kept in reverse, in front of others unless it is empty. -/
def flush (part : List Char) (fields : List (List Char)) : List (List Char) :=
  if part.isEmpty then fields else part.reverse :: fields

/-- The fields of a text and whether its quotes are closed; `part` is the field begun before it, in
reverse. -/
def fieldsFrom (quoted : Bool) (before : Char) (part : List Char) :
    List Char → List (List Char) × Bool
  | [] => (flush part [], !quoted)
  | c :: r =>
    if !quoted && c == '"' then fieldsFrom true c (c :: part) r
    else if quoted && c == '"' && before != '\\' then
      let (fields, closed) := fieldsFrom false c [] r
      (flush (c :: part) fields, closed)
    else if !quoted && (c == ' ' || c == '\t') then
      let (fields, closed) := fieldsFrom false c [] r
      (flush part fields, closed)
    else fieldsFrom quoted c (c :: part) r

/-- The fields of code, cut at blanks and after closing quotes. -/
def splitFields (code : List Char) : List (List Char) × Bool := fieldsFrom false ' ' [] code

/-! ## Rows -/

/-- A row with the verdict on its quotes. -/
structure Scanned where
  row : Row
  /-- No quote is left open. -/
  closed : Bool
  deriving Repr, DecidableEq, Inhabited

/-- A blank between fields. -/
def isGap (c : Char) : Bool := c == ' ' || c == '\t'

/-- A record id without the punctuation after it. -/
def recordName (id : List Char) : List Char :=
  match id.reverse with
  | c :: r => if !r.isEmpty && (c < '0' || '9' < c) then r.reverse else id
  | [] => id

/-- A line as a row. -/
def scan (line : String) (number : Int) : Scanned :=
  let s := line.toList
  if isNumbered 'S' s then
    let payload := String.ofList ((s.dropWhile (!isGap ·)).dropWhile isGap)
    ⟨⟨String.ofList (recordName (s.takeWhile (!isGap ·))), [payload], "", payload, number⟩, true⟩
  else
    let x := splitComment s
    let (fields, closed) := splitFields x.code
    let names := fields.map String.ofList
    ⟨⟨names.headD "", names.drop 1, String.ofList x.comment, String.ofList x.code, number⟩,
      x.closed && closed⟩

/-! ## Sanitizing -/

/-- ASCII text: printable characters and white space. -/
def isPlain (c : Char) : Bool := (' ' ≤ c && c ≤ '~') || ('\t' ≤ c && c ≤ '\r')

/-- A line reduced to ASCII text, without white space at its ends. -/
def sanitize (line : String) : String := String.ofList (Text.trim (line.toList.filter isPlain))

/-- The numbered non-empty rows of lines, each line sanitized. -/
def ofLines (lines : List String) : List Scanned :=
  lines.zipIdx.filterMap fun (line, i) =>
    let clean := sanitize line
    if clean.isEmpty then none else some (scan clean (i + 1))

end ScriptLift.Row
