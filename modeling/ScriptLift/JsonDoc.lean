import ScriptLift.Numeral.Double

/-!
# JSON documents

* `JsonDoc`: a document; the members of an object in order, duplicates kept.
* `JsonDoc.value?`: the document at the front of a text, and the rest.
* `JsonDoc.parse?`: the document a text consists of.
* `JsonDoc.entries`: the members of an object at the front of a text, read one by one.
* `JsonDoc.withoutComments`: a text without its line comments.
-/

namespace ScriptLift

/-- A JSON document; strings are byte text. -/
inductive JsonDoc where
  | null
  | bool (b : Bool)
  | num (text : String)
  | str (s : String)
  | arr (items : List JsonDoc)
  | obj (members : List (String × JsonDoc))
  deriving Repr, Inhabited

namespace JsonDoc

/-! ## Comments -/

/-- A line without the comment that blanks lead up to. -/
def cutLine : List Char → List Char
  | [] => []
  | c :: r =>
    if (c == ' ' || c == '\t')
        && ['/', '/'].isPrefixOf (r.dropWhile fun c => c == ' ' || c == '\t') then []
    else c :: cutLine r

/-- A text without its line comments: those at the start of a line and those after a blank, inside
strings too. -/
def withoutComments (s : String) : String :=
  String.ofList (List.intercalate ['\n'] ((s.toList.splitOn '\n').map fun line =>
    if ['/', '/'].isPrefixOf line then [] else cutLine line))

/-! ## Reading -/

/-- White space of JSON. -/
def isSpace (c : Char) : Bool := c == ' ' || c == '\t' || c == '\r' || c == '\n'

/-- A text without white space at its front. -/
def skip (s : List Char) : List Char := s.dropWhile isSpace

/-- The character of a hexadecimal escape. -/
def unit? (a b c d : Char) : Option Nat :=
  match Numeral.digit? 16 a, Numeral.digit? 16 b, Numeral.digit? 16 c, Numeral.digit? 16 d with
  | some a, some b, some c, some d => some (((a * 16 + b) * 16 + c) * 16 + d)
  | _, _, _, _ => none

/-- The character of an escape of one letter. -/
def escape? : Char → Option Char
  | '"' => some '"'
  | '\\' => some '\\'
  | '/' => some '/'
  | 'b' => some '\x08'
  | 'f' => some '\x0c'
  | 'n' => some '\n'
  | 'r' => some '\r'
  | 't' => some '\t'
  | _ => none

/-- Bytes put in front of the bytes of a string. -/
def glue (s : List Char) (x : Option (List Char × List Char)) : Option (List Char × List Char) :=
  x.map fun (t, rest) => (s ++ t, rest)

/-- The bytes of a string up to its closing quote, and the rest. -/
def stringBody? : List Char → Option (List Char × List Char)
  | [] => none
  | '"' :: r => some ([], r)
  | '\\' :: 'u' :: a :: b :: c :: d :: r =>
    match unit? a b c d with
    | none => none
    | some u =>
      if 0xD800 ≤ u ∧ u < 0xE000 then
        match r with
        | '\\' :: 'u' :: e :: f :: g :: h :: r' =>
          match unit? e f g h with
          | none => none
          | some v =>
            if u < 0xDC00 ∧ 0xDC00 ≤ v ∧ v < 0xE000 then
              glue (Text.encodeChar (Char.ofNat (0x10000 + (u - 0xD800) * 1024 + (v - 0xDC00))))
                (stringBody? r')
            else
              glue (Text.encodeChar '\uFFFD') (stringBody? ('\\' :: 'u' :: e :: f :: g :: h :: r'))
        | r => glue (Text.encodeChar '\uFFFD') (stringBody? r)
      else glue (Text.encodeChar (Char.ofNat u)) (stringBody? r)
  | '\\' :: c :: r =>
    match escape? c with
    | some e => glue [e] (stringBody? r)
    | none => none
  | c :: r => if c < ' ' || c == '\\' then none else glue [c] (stringBody? r)
termination_by s => s.length

/-- A string after its opening quote, and the rest; bytes that belong to no character read as
U+FFFD. -/
def string? (s : List Char) : Option (String × List Char) :=
  (stringBody? s).map fun (t, rest) =>
    (String.ofList ((Text.pieces t).flatMap fun p => Text.encodeChar p.toChar), rest)

/-- At least one digit, and the rest. -/
def digits? (s : List Char) : Option (List Char × List Char) :=
  let ds := s.takeWhile Char.isDigit
  if ds.isEmpty then none else some (ds, s.dropWhile Char.isDigit)

/-- The whole part of a number, and the rest. -/
def whole? : List Char → Option (List Char × List Char)
  | '0' :: r => some (['0'], r)
  | s => digits? s

/-- The decimal places of a number, if any, and the rest. -/
def places? : List Char → Option (List Char × List Char)
  | '.' :: r => glue ['.'] (digits? r)
  | s => some ([], s)

/-- The exponent of a number, if any, and the rest. -/
def exponent? : List Char → Option (List Char × List Char)
  | e :: r =>
    if e == 'e' || e == 'E' then
      match r with
      | '+' :: r => glue [e, '+'] (digits? r)
      | '-' :: r => glue [e, '-'] (digits? r)
      | r => glue [e] (digits? r)
    else some ([], e :: r)
  | [] => some ([], [])

/-- A number, and the rest. -/
def number? (s : List Char) : Option (String × List Char) := do
  let (sign, s) := match s with
    | '-' :: r => (['-'], r)
    | s => ([], s)
  let (a, s) ← whole? s
  let (b, s) ← places? s
  let (c, s) ← exponent? s
  return (String.ofList (sign ++ a ++ b ++ c), s)

/-- A scalar other than a string, and the rest. -/
def scalar? (s : List Char) : Option (JsonDoc × List Char) :=
  match "null".toList.isPrefixOf? s, "true".toList.isPrefixOf? s, "false".toList.isPrefixOf? s with
  | some r, _, _ => some (null, r)
  | _, some r, _ => some (bool true, r)
  | _, _, some r => some (bool false, r)
  | _, _, _ => (number? s).map fun (t, r) => (num t, r)

/-- How many objects and arrays may stand inside each other. -/
def maxDepth : Nat := 10000

mutual

/-- The document at the front of a text, with at most `depth` objects and arrays inside each
other. -/
def valueWith : (fuel depth : Nat) → List Char → Option (JsonDoc × List Char)
  | 0, _, _ => none
  | fuel + 1, depth, s =>
    match skip s, depth with
    | '{' :: _, 0 => none
    | '[' :: _, 0 => none
    | '{' :: r, depth + 1 =>
      match skip r with
      | '}' :: r => some (obj [], r)
      | r => (membersWith fuel depth r).map fun (ms, r) => (obj ms, r)
    | '[' :: r, depth + 1 =>
      match skip r with
      | ']' :: r => some (arr [], r)
      | r => (itemsWith fuel depth r).map fun (xs, r) => (arr xs, r)
    | '"' :: r, _ => (string? r).map fun (t, r) => (str t, r)
    | s, _ => scalar? s

/-- The members of an object up to its closing brace. -/
def membersWith : (fuel depth : Nat) → List Char → Option (List (String × JsonDoc) × List Char)
  | 0, _, _ => none
  | fuel + 1, depth, s =>
    match skip s with
    | '"' :: r => do
      let (key, r) ← string? r
      match skip r with
      | ':' :: r => do
        let (v, r) ← valueWith fuel depth r
        match skip r with
        | '}' :: r => return ([(key, v)], r)
        | ',' :: r => do
          let (ms, r) ← membersWith fuel depth r
          return ((key, v) :: ms, r)
        | _ => none
      | _ => none
    | _ => none

/-- The items of an array up to its closing bracket. -/
def itemsWith : (fuel depth : Nat) → List Char → Option (List JsonDoc × List Char)
  | 0, _, _ => none
  | fuel + 1, depth, s => do
    let (v, r) ← valueWith fuel depth s
    match skip r with
    | ']' :: r => return ([v], r)
    | ',' :: r => do
      let (xs, r) ← itemsWith fuel depth r
      return (v :: xs, r)
    | _ => none

end

/-- The document at the front of a text, and the rest. Every nested call leaves at least one
character in two behind, which bounds the fuel. -/
def value? (depth : Nat) (s : List Char) : Option (JsonDoc × List Char) :=
  valueWith (2 * s.length + 2) depth s

/-- The document a text consists of, white space around it apart. -/
def parse? (s : String) : Option JsonDoc :=
  match value? maxDepth s.toList with
  | some (d, r) => if (skip r).isEmpty then some d else none
  | none => none

/-! ## Members one by one -/

/-- Why a text has no members. -/
inductive EntriesFault where
  /-- It is no JSON. -/
  | malformed
  /-- It starts with something else than an object. -/
  | notObject (got : String)
  deriving Repr, DecidableEq, Inhabited

/-- A scalar as messages show it; a number beyond range has no such text. -/
def shown : JsonDoc → Option String
  | null => some "<nil>"
  | bool true => some "true"
  | bool false => some "false"
  | num t => (Double.read t).toOption.map Double.general
  | str s => some s
  | arr _ | obj _ => none

/-- The next member, behind its key. -/
def memberAt? (s : List Char) : Option ((String × JsonDoc) × List Char) := do
  let (key, r) ← string? s
  match skip r with
  | ':' :: r => do
    let (v, r) ← value? (maxDepth - 1) r
    return ((key, v), r)
  | _ => none

/-- The members after the first ones, until a closing bracket. -/
def moreMembers : (fuel : Nat) → List Char → Option (List (String × JsonDoc))
  | 0, _ => none
  | fuel + 1, s =>
    match skip s with
    | '}' :: _ => some []
    | ']' :: _ => some []
    | ',' :: r =>
      match skip r with
      | '"' :: r => do
        let (m, r) ← memberAt? r
        let ms ← moreMembers fuel r
        return m :: ms
      | _ => none
    | _ => none

/-- The members of the object at the front of a text, in order. Reading stops at a closing bracket
of either kind; what follows is not looked at. -/
def entries (text : String) : Except EntriesFault (List (String × JsonDoc)) :=
  match skip text.toList with
  | [] => .error .malformed
  | '{' :: r =>
    match skip r with
    | '}' :: _ => .ok []
    | ']' :: _ => .ok []
    | '"' :: r =>
      match memberAt? r with
      | none => .error .malformed
      | some (m, r) =>
        match moreMembers (r.length + 1) r with
        | some ms => .ok (m :: ms)
        | none => .error .malformed
    | _ => .error .malformed
  | '[' :: _ => .error (.notObject "[")
  | '"' :: r =>
    match string? r with
    | some (s, _) => .error (.notObject s)
    | none => .error .malformed
  | s =>
    match (scalar? s).bind fun (d, _) => d.shown with
    | some t => .error (.notObject t)
    | none => .error .malformed

/-- The members of a document, in order. -/
def members : JsonDoc → Except EntriesFault (List (String × JsonDoc))
  | obj ms => .ok ms
  | arr _ => .error (.notObject "[")
  | d => match d.shown with
    | some t => .error (.notObject t)
    | none => .error .malformed

end JsonDoc

end ScriptLift
