import ScriptLift.Text.Basic

/-!
# UTF-16

Little-endian UTF-16 with a byte order mark.

* `units`, `unitBytes`: the code units of a character and their bytes.
* `Codec`: a codec by what it does; text is written piece by piece and read at once.
* `decodeWith`: a byte text, converted to UTF-8 when it starts with the mark of UTF-16.
* `charsAndRest`, `decodeUnits`: characters of a text that may end inside one, and of code units.
* `Codec.standard`, `decodeText`: the codec in use, and decoding with it.
-/

namespace ScriptLift.Text

/-! ## Code units -/

/-- The UTF-16 code units of a character. -/
def units (c : Char) : List Nat :=
  let n := c.toNat
  if n < 0x10000 then [n]
  else [0xD800 + (n - 0x10000) / 1024, 0xDC00 + (n - 0x10000) % 1024]

/-- The bytes of a code unit, the low one first. -/
def unitBytes (u : Nat) : List Char := [byte (u % 256), byte (u / 256)]

/-- The bytes of a character in UTF-16. -/
def charBytes16 (c : Char) : List Char := (units c).flatMap unitBytes

/-- The byte order mark. -/
def byteOrderMark : Char := '\uFEFF'

/-- The bytes that show little-endian UTF-16. -/
def mark16 : String := "\xff\xfe"

/-! ## Codecs -/

/-- A codec of UTF-16, by what it does in its states. A piece of text leads to writes at once, or is
kept in part for the next piece. -/
structure Codec (σ : Type) where
  start : σ
  /-- The writes of a piece of text. -/
  step : σ → String → List (List Char) × σ
  /-- The writes of the end of all text. -/
  stop : σ → List (List Char)
  /-- A text behind its byte order mark, as UTF-8. -/
  decode : String → Except String String

/-- A byte text as UTF-8; it is left to a decoder of UTF-16 when it starts with that byte order
mark. -/
def decodeWith (decode : String → Except String String) (s : String) : Except String String :=
  if startsWith mark16 s then decode s else .ok s

/-! ## Writing -/

/-- The number of bytes that a first byte announces. -/
def announced (a : Char) : Nat :=
  let n := a.toNat
  if n < 0xC2 then 1 else if n < 0xE0 then 2 else if n < 0xF0 then 3 else if n < 0xF5 then 4 else 1

/-- Whether a second byte may follow a first one. -/
def maySecond (a b : Char) : Bool :=
  let low := if a.toNat = 0xE0 then 0xA0 else if a.toNat = 0xF0 then 0x90 else 0x80
  let high := if a.toNat = 0xED then 0x9F else if a.toNat = 0xF4 then 0x8F else 0xBF
  low ≤ b.toNat && b.toNat ≤ high

/-- Whether bytes are the beginning of a character that lacks its last bytes. -/
def isPartial : List Char → Bool
  | [a] => 1 < announced a
  | [a, b] => 2 < announced a && maySecond a b
  | [a, b, c] => 3 < announced a && maySecond a b && isTail c
  | _ => false

/-- A byte text as characters, stray bytes reading as U+FFFD, up to the beginning of a character at
its end, which is given back. -/
def charsAndRest : List Char → List Char × List Char
  | [] => ([], [])
  | a :: r =>
    if isPartial (a :: r) then ([], a :: r)
    else
      let (c, n) := (decodeChar? (a :: r)).getD ('\uFFFD', 1)
      let (cs, rest) := charsAndRest (r.drop (n - 1))
      (c :: cs, rest)
termination_by s => s.length
decreasing_by simp only [List.length_drop, List.length_cons]; omega

/-- The most bytes that go into one write of UTF-16. -/
def maxWrite : Nat := 4096

/-- Parts joined to chunks of at most `limit` bytes; `size` and `parts` are the length and the
parts, in reverse, of the chunk begun. -/
def chunksFrom (limit size : Nat) (parts : List (List Char)) :
    List (List Char) → List (List Char)
  | [] => [parts.reverse.flatten]
  | p :: ps =>
    if size + p.length ≤ limit then chunksFrom limit (size + p.length) (p :: parts) ps
    else parts.reverse.flatten :: chunksFrom limit p.length [p] ps

/-- Characters in UTF-16, in writes that split none of them. -/
def writes16 (cs : List Char) : List (List Char) := chunksFrom maxWrite 0 [] (cs.map charBytes16)

/-! ## Reading -/

/-- A code unit of a surrogate pair. -/
def isSurrogate (u : Nat) : Bool := 0xD800 ≤ u && u < 0xE000

/-- A second code unit of a surrogate pair. -/
def isSecondSurrogate (u : Nat) : Bool := 0xDC00 ≤ u && u < 0xE000

/-- The character of two code units, the first of which is a surrogate. -/
def pairChar (a b : Nat) : Char :=
  if a < 0xDC00 then Char.ofNat (0x10000 + (a - 0xD800) * 1024 + (b - 0xDC00)) else '\uFFFD'

/-- The code units of bytes, the low byte first; `true` when a single byte is left over. -/
def toUnits : List Char → List Nat × Bool
  | [] => ([], false)
  | [_] => ([], true)
  | a :: b :: r =>
    let (us, odd) := toUnits r
    ((a.toNat + 256 * b.toNat) :: us, odd)

/-- The characters of code units. A surrogate takes the second surrogate after it along, if there is
one; what is no character reads as U+FFFD. -/
def decodeUnits : List Nat → List Char
  | [] => []
  | [u] => [if isSurrogate u then '\uFFFD' else Char.ofNat u]
  | u :: v :: r =>
    if isSurrogate u then
      if isSecondSurrogate v then pairChar u v :: decodeUnits r
      else '\uFFFD' :: decodeUnits (v :: r)
    else Char.ofNat u :: decodeUnits (v :: r)

/-- The characters of UTF-16 bytes; a byte left over reads as U+FFFD. -/
def decode16 (s : List Char) : List Char :=
  let (us, odd) := toUnits s
  decodeUnits us ++ if odd then ['\uFFFD'] else []

/-! ## The codec in use -/

/-- The codec that keeps the first bytes of a character back until the rest comes; bytes still
missing theirs at the end, and all else that is no character, read as U+FFFD. -/
def Codec.standard : Codec (List Char) where
  start := []
  step pending text :=
    let (cs, rest) := charsAndRest (pending ++ text.toList)
    (writes16 cs, rest)
  stop pending := writes16 (pending.map fun _ => '\uFFFD')
  decode s :=
    if startsWith mark16 s then
      .ok (String.ofList ((decode16 (s.toList.drop 2)).flatMap encodeChar))
    else .error "encoding: missing byte order mark"

/-- A byte text as UTF-8, by the codec in use, which reads all that starts with the mark. -/
def decodeText (s : String) : String :=
  match decodeWith Codec.standard.decode s with
  | .ok t => t
  | .error _ => s

end ScriptLift.Text
