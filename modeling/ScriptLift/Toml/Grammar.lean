import ScriptLift.Numeral.Integer
import ScriptLift.Toml.Basic

/-!
# Reading TOML

The items of a document. Each rule takes what it describes from the front of a text, or fails.

* `Cursor`: a text with the number of its first line.
* `value?`, `keyValue?`, `expression?`: values, keys with values, and the parts of a document.
* `items?`: the items of a document.
-/

namespace ScriptLift.Toml

/-! ## Cursors -/

/-- What is left of a document, and the line it starts on. -/
structure Cursor where
  rest : List Char
  line : Nat
  deriving Repr, DecidableEq, Inhabited

/-- What a rule gives: a result and what is left. -/
abbrev Rule (α : Type) := Cursor → Option (α × Cursor)

namespace Cursor

/-- A cursor without the characters at its front that satisfy `p`. -/
def skipWhile (p : Char → Bool) (c : Cursor) : Cursor := { c with rest := c.rest.dropWhile p }

/-- Whether a character ends a line. -/
def endsLine (c : Char) : Bool := c == '\r' || c == '\n'

/-- Whether a character is a blank within a line. -/
def isGap (c : Char) : Bool := c == ' ' || c == '\t'

/-- A cursor after blanks. -/
def gap (c : Cursor) : Cursor := c.skipWhile isGap

/-- A cursor after the characters at its front that satisfy `p`, the ends of lines among them
counted. -/
def skipCounting (p : Char → Bool) (c : Cursor) : Cursor :=
  ⟨c.rest.dropWhile p, c.line + (c.rest.takeWhile p).countP endsLine⟩

/-- A cursor after blanks and ends of lines. -/
def space (c : Cursor) : Cursor := c.skipCounting fun x => isGap x || endsLine x

/-- A cursor after a text. -/
def after? (s : String) (c : Cursor) : Option Cursor :=
  (s.toList.isPrefixOf? c.rest).map fun rest => { c with rest }

/-- A cursor after at least one end of a line. -/
def newline? (c : Cursor) : Option Cursor :=
  match c.rest with
  | x :: _ => if endsLine x then some (c.skipCounting endsLine) else none
  | [] => none

/-- Whether a character may stand in a comment. -/
def inComment (c : Char) : Bool := c == '\t' || ' ' ≤ c

/-- A cursor after a comment, if there is one. -/
def comment (c : Cursor) : Cursor :=
  match c.rest with
  | '#' :: _ => c.skipWhile inComment
  | _ => c

end Cursor

/-! ## Characters -/

/-- Whether a character stands for itself in a string. -/
def isUnescaped (c : Char) : Bool := ' ' ≤ c && c != '"' && c != '\\'

/-- The character of a number of hexadecimal digits, and the rest. -/
def hexChar? (count : Nat) (s : List Char) : Option (Char × List Char) := do
  let ds ← (s.take count).mapM (Numeral.digit? 16)
  let n := ds.foldl (fun n d => n * 16 + d) 0
  if ds.length = count ∧ n.isValidChar then some (Char.ofNat n, s.drop count) else none

/-- The character of an escape, behind its backslash, and the rest. -/
def escaped? : List Char → Option (Char × List Char)
  | 'b' :: r => some ('\x08', r)
  | 't' :: r => some ('\t', r)
  | 'n' :: r => some ('\n', r)
  | 'f' :: r => some ('\x0c', r)
  | 'r' :: r => some ('\r', r)
  | '"' :: r => some ('"', r)
  | '\\' :: r => some ('\\', r)
  | 'u' :: r => hexChar? 4 r
  | 'U' :: r => hexChar? 8 r
  | _ => none

/-- A character of a string, and the rest. -/
def basicChar? : List Char → Option (Char × List Char)
  | '\\' :: r => escaped? r
  | c :: r => if isUnescaped c then some (c, r) else none
  | [] => none

/-- The characters of a string, and the rest; at most `fuel` of them. -/
def basicChars : (fuel : Nat) → List Char → List Char × List Char
  | 0, s => ([], s)
  | fuel + 1, s =>
    match basicChar? s with
    | some (c, r) =>
      let (cs, rest) := basicChars fuel r
      (c :: cs, rest)
    | none => ([], s)

/-! ## Strings -/

/-- A string in double quotes. -/
def basicString? : Rule (List Char) := fun c =>
  match c.rest with
  | '"' :: r =>
    match basicChars r.length r with
    | (cs, '"' :: rest) => some (cs, { c with rest })
    | _ => none
  | _ => none

/-- The characters of a string over several lines; a backslash at the end of a line takes the white
space after it along. -/
def linesBody : (fuel : Nat) → Cursor → List Char × Cursor
  | 0, c => ([], c)
  | fuel + 1, c =>
    match basicChar? c.rest with
    | some (x, rest) =>
      let (xs, c) := linesBody fuel { c with rest }
      (x :: xs, c)
    | none =>
      match c.newline? with
      | some c' =>
        let (xs, c'') := linesBody fuel c'
        (c.rest.takeWhile Cursor.endsLine ++ xs, c'')
      | none =>
        match c.rest with
        | '\\' :: rest =>
          match Cursor.newline? { c with rest } with
          | some c => linesBody fuel c.space
          | none => ([], c)
        | _ => ([], c)

/-- A string over several lines; ends of lines at its front do not count. -/
def linesString? : Rule (List Char) := fun c => do
  let c ← c.after? "\"\"\""
  let (xs, c) := linesBody c.rest.length (c.skipCounting Cursor.endsLine)
  let c ← c.after? "\"\"\""
  return (xs, c)

/-- A string in single quotes, in which all characters stand for themselves. -/
def literalString? : Rule (List Char) := fun c =>
  match c.rest with
  | '\'' :: r =>
    let inside (x : Char) : Bool := Cursor.inComment x && x != '\''
    match r.dropWhile inside with
    | '\'' :: rest => some (r.takeWhile inside, { c with rest })
    | _ => none
  | _ => none

/-- The characters up to three single quotes, and the rest. -/
def literalBody : List Char → List Char × List Char
  | [] => ([], [])
  | x :: r =>
    if "'''".toList.isPrefixOf (x :: r) || !(Cursor.inComment x || Cursor.endsLine x) then
      ([], x :: r)
    else
      let (xs, rest) := literalBody r
      (x :: xs, rest)

/-- A string over several lines in which all characters stand for themselves. -/
def literalLines? : Rule (List Char) := fun c => do
  let c ← c.after? "'''"
  let (xs, rest) := literalBody c.rest
  let c ← Cursor.after? "'''" ⟨rest, c.line + xs.countP Cursor.endsLine⟩
  return (xs.dropWhile Cursor.endsLine, c)

/-- A string of any kind. -/
def string? : Rule Value := fun c =>
  ((literalLines? c).or <| (literalString? c).or <| (linesString? c).or (basicString? c)).map
    fun (xs, c) => (.str (Text.ofUnicode (String.ofList xs)), c)

/-! ## Numbers and dates -/

/-- A number of digits. -/
def digits? (count : Nat) (s : List Char) : Option (List Char) :=
  if (s.takeWhile Char.isDigit).length < count then none else some (s.drop count)

/-- The rest after a character. -/
def char? (x : Char) : List Char → Option (List Char)
  | y :: r => if x == y then some r else none
  | [] => none

/-- Digits, each with an underscore before it or not, and the rest. -/
def groups : (fuel : Nat) → List Char → List Char × List Char
  | 0, s => ([], s)
  | fuel + 1, s =>
    match s with
    | '_' :: d :: r =>
      if d.isDigit then
        let (ds, rest) := groups fuel r
        (d :: ds, rest)
      else ([], s)
    | d :: r =>
      if d.isDigit then
        let (ds, rest) := groups fuel r
        (d :: ds, rest)
      else ([], s)
    | [] => ([], [])

/-- The digits of a whole number and the rest; a leading zero stands alone. -/
def wholeDigits? : List Char → Option (List Char × List Char)
  | d :: r =>
    if !d.isDigit then none
    else if d == '0' then some ([d], r)
    else
      let (ds, rest) := groups r.length r
      some (d :: ds, rest)
  | [] => none

/-- A whole number with its sign, and the rest. -/
def integer? (s : List Char) : Option (List Char × List Char) :=
  match s with
  | x :: r =>
    if x == '-' || x == '+' then (wholeDigits? r).map fun (ds, rest) => (x :: ds, rest)
    else wholeDigits? s
  | [] => none

/-- At least one digit, and the rest. -/
def places? : List Char → Option (List Char)
  | d :: r => if d.isDigit then some (groups r.length r).2 else none
  | [] => none

/-- The rest after decimal places. -/
def fraction? (s : List Char) : Option (List Char) := (char? '.' s).bind places?

/-- The rest after an exponent. -/
def exponent? : List Char → Option (List Char)
  | e :: r =>
    if e == 'e' || e == 'E' then
      match r with
      | x :: r' => if x == '-' || x == '+' then places? r' else places? r
      | [] => none
    else none
  | [] => none

/-- The rest after a number with places or an exponent. -/
def float? (s : List Char) : Option (List Char) := do
  let (_, r) ← integer? s
  match fraction? r with
  | some r => some ((exponent? r).getD r)
  | none => exponent? r

/-- The rest after a date. -/
def date? (s : List Char) : Option (List Char) :=
  digits? 4 s >>= char? '-' >>= digits? 2 >>= char? '-' >>= digits? 2

/-- The rest after a time of day. -/
def time? (s : List Char) : Option (List Char) := do
  let r ← digits? 2 s >>= char? ':' >>= digits? 2 >>= char? ':' >>= digits? 2
  match char? '.' r with
  | some r' =>
    let after := r'.dropWhile Char.isDigit
    some (if after.length < r'.length then after else r)
  | none => some r

/-- The rest after a difference from universal time. -/
def offset? : List Char → Option (List Char)
  | 'Z' :: r => some r
  | '+' :: r => digits? 2 r >>= char? ':' >>= digits? 2
  | '-' :: r => digits? 2 r >>= char? ':' >>= digits? 2
  | _ => none

/-- The rest after a date, a time or both. -/
def moment? (s : List Char) : Option (List Char) :=
  match date? s with
  | some r => some ((char? 'T' r >>= time? >>= offset?).getD r)
  | none => time? s

/-- A date, a number or a truth value. -/
def scalar? : Rule Value := fun c =>
  let leaving (v : Value) (rest : List Char) : Value × Cursor := (v, { c with rest })
  match moment? c.rest, float? c.rest, integer? c.rest with
  | some r, _, _ => some (leaving .date r)
  | _, some r, _ => some (leaving .real r)
  | _, _, some (ds, r) => some (leaving (.int (String.ofList ds)) r)
  | _, _, _ => none

/-- A truth value. -/
def truth? : Rule Value := fun c =>
  match c.after? "true", c.after? "false" with
  | some c, _ => some (.bool true, c)
  | _, some c => some (.bool false, c)
  | _, _ => none

/-! ## Keys -/

/-- Whether a character may stand in a key without quotes. -/
def isBare (c : Char) : Bool := c.isAlphanum || c == '-' || c == '_'

/-- A key without quotes. -/
def bareKey? : Rule (List Char) := fun c =>
  let cs := c.rest.takeWhile isBare
  if cs.isEmpty then none else some (cs, c.skipWhile isBare)

/-- A key, as byte text. -/
def key? : Rule String := fun c => do
  let (cs, c) ← match bareKey? c with
    | some r => some r
    | none => basicString? c
  return (Text.ofUnicode (String.ofList cs), c)

/-- The keys after a first one, each behind a dot. -/
def moreKeys : (fuel : Nat) → Cursor → List String × Cursor
  | 0, c => ([], c)
  | fuel + 1, c =>
    match (c.gap.after? ".").bind fun c => key? c.gap with
    | some (k, c) =>
      let (ks, c) := moreKeys fuel c
      (k :: ks, c)
    | none => ([], c)

/-- Keys with dots between them. -/
def path? : Rule (List String) := fun c => do
  let (k, c) ← key? c
  let (ks, c) := moreKeys c.rest.length c
  return (k :: ks, c)

/-! ## Values and tables -/

/-- What a key is given: a value, or the items of tables in braces. -/
inductive Content where
  | value (v : Value)
  | tables (items : List Item)
  deriving Inhabited

/-- The value, if it is one. -/
def Content.value? : Content → Option Value
  | value v => some v
  | tables _ => none

/-- The items of tables, if there are some. -/
def Content.tableItems : Content → List Item
  | value _ => []
  | tables is => is

/-- An array of contents: the tables among them leave no room for values. -/
def Content.ofArray (cs : List Content) : Content :=
  let is := cs.flatMap tableItems
  if is.isEmpty then value (.arr (cs.filterMap value?)) else tables is

/-- The items that a key with its content makes. -/
def Content.items (key : String) (line : Nat) : Content → List Item
  | value v => [.pair key v line]
  | tables is => is

mutual

/-- The content of a key, which in an array may be one of `several` tables. -/
def contentWith : (fuel : Nat) → (key : String) → (several : Bool) → Rule Content
  | 0, _, _, _ => none
  | fuel + 1, key, several, c =>
    match (scalar? c).or ((string? c).or (truth? c)) with
    | some (v, c) => some (.value v, c)
    | none =>
      match c.rest with
      | '[' :: rest =>
        (arrayWith fuel key { c with rest }).map fun (cs, c) => (.ofArray cs, c)
      | '{' :: rest => do
        let line := c.line
        let (is, c) ← bracesWith fuel several (Cursor.gap { c with rest })
        let c ← c.gap.after? "\x7d"
        return (.tables (.openBrace key several line :: is ++ [.closeBrace]), c)
      | _ => none

/-- The contents of an array, behind its bracket. -/
def arrayWith : (fuel : Nat) → (key : String) → Rule (List Content)
  | 0, _, _ => none
  | fuel + 1, key, c =>
    match contentWith fuel key true c.space with
    | some (x, c) => do
      let (xs, c) ← moreContentsWith fuel key c
      return (x :: xs, c)
    | none => (c.space.after? "]").map fun c => ([], c)

/-- The contents after a first one, and the closing bracket. -/
def moreContentsWith : (fuel : Nat) → (key : String) → Rule (List Content)
  | 0, _, _ => none
  | fuel + 1, key, c =>
    match c.space.comment.space.after? "," with
    | some d =>
      match contentWith fuel key true d.space.comment.space with
      | some (x, c) => do
        let (xs, c) ← moreContentsWith fuel key c
        return (x :: xs, c)
      | none =>
        match c.space.after? "," with
        | some c => (c.space.comment.space.after? "]").map fun c => ([], c)
        | none => none
    | none => (c.space.comment.space.after? "]").map fun c => ([], c)

/-- The items of a table in braces; commas between them may be left out. -/
def bracesWith : (fuel : Nat) → (several : Bool) → Rule (List Item)
  | 0, _, _ => none
  | fuel + 1, several, c =>
    match keyValueWith fuel several c with
    | some (is, c) => do
      let c := match c.gap.after? "," with
        | some c => c.gap
        | none => c
      let (more, c) ← bracesWith fuel several c
      return (is ++ more, c)
    | none => some ([], c)

/-- A key with its content. -/
def keyValueWith : (fuel : Nat) → (several : Bool) → Rule (List Item)
  | 0, _, _ => none
  | fuel + 1, several, c => do
    let (key, c) ← key? c
    let c ← c.gap.after? "="
    let (content, c) ← contentWith fuel key several c.gap
    return (content.items key c.line, c)

end

/-- A key with its content. Each nested rule but a few takes a character, which bounds the fuel. -/
def keyValue? : Rule (List Item) := fun c => keyValueWith (4 * c.rest.length + 4) false c

/-- The header of a table. -/
def header? : Rule Item := fun c =>
  let plain : Option (Item × Cursor) := do
    let d ← c.after? "["
    let (ks, d) ← path? d.gap
    let d ← d.gap.after? "]"
    return (.table ks d.line, d)
  plain.or do
    let d ← c.after? "[["
    let (ks, d) ← path? d.gap
    let d ← d.gap.after? "]]"
    return (.tables ks d.line, d)

/-! ## Documents -/

/-- The keys that follow a header, on its line or on later ones. -/
def tableBody : (fuel : Nat) → Cursor → List Item × Cursor
  | 0, c => ([], c)
  | fuel + 1, c =>
    match keyValue? c.space with
    | some (is, c) =>
      let (more, c) := tableBody fuel c.gap.comment
      (is ++ more, c)
    | none => ([], c)

/-- A part of a document: a header with the keys after it, a key, or nothing, with a comment. -/
def expression (c : Cursor) : List Item × Cursor :=
  let c := c.gap
  match header? c with
  | some (h, c) =>
    let (is, c) := tableBody c.rest.length c.gap.comment
    (h :: is, c)
  | none =>
    match keyValue? c with
    | some (is, c) => (is, c.gap.comment)
    | none => ([], c.comment)

/-- The parts of a document, each on lines of its own. -/
def expressions : (fuel : Nat) → Cursor → List Item × Cursor
  | 0, c => ([], c)
  | fuel + 1, c =>
    let (is, c) := expression c
    match c.newline? with
    | some c =>
      let (more, c) := expressions fuel c
      (is ++ more, c)
    | none => (is, c)

/-- The items of a document, or `none` when it is malformed. -/
def items? (text : String) : Option (List Item) :=
  let s := (Text.toUnicode text).toList
  match expressions (s.length + 1) ⟨s, 1⟩ with
  | (is, ⟨[], _⟩) => some is
  | _ => none

end ScriptLift.Toml
