/-!
# Byte text

Listings and symbol files come in no fixed encoding and may hold malformed sequences, so text is
kept as its bytes: a `String` whose characters all lie below U+0100, one per byte. Where a rule
speaks of characters, the bytes are read as UTF-8.

* `encodeChar`, `ofUnicode`: the UTF-8 bytes of a character and of a Unicode string.
* `decodeChar?`: the character at the front of a byte text.
* `pieces`: a byte text as characters and stray bytes; `toUnicode?`, `toUnicode` read it back.
-/

namespace ScriptLift.Text

/-- The byte with a given value. -/
def byte (n : Nat) : Char := Char.ofNat (n % 256)

/-! ## Encoding -/

/-- The UTF-8 bytes of a character. -/
def encodeChar (c : Char) : List Char :=
  let n := c.toNat
  if n < 0x80 then [byte n]
  else if n < 0x800 then [byte (0xC0 + n / 64), byte (0x80 + n % 64)]
  else if n < 0x10000 then
    [byte (0xE0 + n / 4096), byte (0x80 + n / 64 % 64), byte (0x80 + n % 64)]
  else
    [byte (0xF0 + n / 262144), byte (0x80 + n / 4096 % 64), byte (0x80 + n / 64 % 64),
      byte (0x80 + n % 64)]

/-- The byte text of a Unicode string. -/
def ofUnicode (s : String) : String := String.ofList (s.toList.flatMap encodeChar)

/-! ## Decoding -/

/-- A byte that continues a sequence. -/
def isTail (c : Char) : Bool := 0x80 ≤ c.toNat && c.toNat ≤ 0xBF

/-- The character that a two-, three- or four-byte sequence spells, when it is the shortest
spelling of a scalar value. -/
def scalar? (least n : Nat) : Option Char :=
  if least ≤ n ∧ (n < 0xD800 ∨ 0xDFFF < n) ∧ n < 0x110000 then some (Char.ofNat n) else none

/-- The character at the front of a byte text and the number of bytes it takes, or `none` when no
well-formed sequence stands there. -/
def decodeChar? : List Char → Option (Char × Nat)
  | [] => none
  | a :: r =>
    let n := a.toNat
    if n < 0x80 then some (a, 1)
    else if 0xC2 ≤ n && n ≤ 0xDF then
      match r with
      | b :: _ =>
        if isTail b then (scalar? 0x80 ((n - 0xC0) * 64 + (b.toNat - 0x80))).map (·, 2) else none
      | _ => none
    else if 0xE0 ≤ n && n ≤ 0xEF then
      match r with
      | b :: c :: _ =>
        if isTail b && isTail c then
          (scalar? 0x800 ((n - 0xE0) * 4096 + (b.toNat - 0x80) * 64 + (c.toNat - 0x80))).map (·, 3)
        else none
      | _ => none
    else if 0xF0 ≤ n && n ≤ 0xF4 then
      match r with
      | b :: c :: d :: _ =>
        if isTail b && isTail c && isTail d then
          (scalar? 0x10000 ((n - 0xF0) * 262144 + (b.toNat - 0x80) * 4096 + (c.toNat - 0x80) * 64
            + (d.toNat - 0x80))).map (·, 4)
        else none
      | _ => none
    else none

/-- A character of a byte text, or a byte that belongs to none. -/
inductive Piece where
  | char (c : Char)
  | stray (b : Char)
  deriving Repr, DecidableEq, Inhabited

/-- A byte text cut into characters and stray bytes. -/
def pieces : List Char → List Piece
  | [] => []
  | a :: r =>
    match decodeChar? (a :: r) with
    | some (c, n) => .char c :: pieces (r.drop (n - 1))
    | none => .stray a :: pieces r
termination_by s => s.length
decreasing_by all_goals simp only [List.length_drop, List.length_cons]; omega

/-- The character a piece stands for; a stray byte reads as U+FFFD. -/
def Piece.toChar : Piece → Char
  | .char c => c
  | .stray _ => '\uFFFD'

/-- The Unicode string a byte text spells, stray bytes reading as U+FFFD. -/
def toUnicode (s : String) : String := String.ofList ((pieces s.toList).map Piece.toChar)

/-- The Unicode string a byte text spells, or `none` when it has stray bytes. -/
def toUnicode? (s : String) : Option String :=
  let ps := pieces s.toList
  if ps.all fun | .char _ => true | .stray _ => false then
    some (String.ofList (ps.map Piece.toChar))
  else none

/-! ## Raw bytes -/

/-- The byte text of raw bytes. -/
def ofBytes (b : ByteArray) : String := String.ofList (b.data.toList.map fun x => byte x.toNat)

/-- The raw bytes of a byte text. -/
def toBytes (s : String) : ByteArray := ⟨(s.toList.map fun c => c.toNat.toUInt8).toArray⟩

end ScriptLift.Text
