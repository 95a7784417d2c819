import ScriptLift.Text.Basic
import ScriptLift.Text.Quoted

/-!
# Integer numerals

Integers are 64-bit words. Listings write them in decimal, or in hexadecimal after `0x`.

* `readSigned`: an optional sign and digits of a base, refused when out of range; `readShort`: the
  same in decimal for words of 32 bits.
* `readInt`: an integer of a listing.
* `readId`: a decimal number, as symbol files write ids.
* `decimal`: the decimal digits of an integer.
-/

namespace ScriptLift.Numeral

/-- Why a text is no number. -/
inductive Fault where
  /-- It is not spelled as a number. -/
  | malformed
  /-- Its value does not fit. -/
  | outOfRange
  deriving Repr, DecidableEq, Inhabited

/-- The kinds of number that are read. -/
inductive Reader where
  | integer
  | id
  | real
  deriving Repr, DecidableEq, Inhabited

/-- A text that could not be read as a number. -/
structure ReadError where
  reader : Reader
  text : String
  fault : Fault
  deriving Repr, DecidableEq, Inhabited

/-- The name messages give a reader. -/
def Reader.label : Reader → String
  | .integer => "strconv.ParseInt"
  | .id => "strconv.Atoi"
  | .real => "strconv.ParseFloat"

/-- The wording of a fault. -/
def Fault.message : Fault → String
  | .malformed => "invalid syntax"
  | .outOfRange => "value out of range"

/-- The wording of a read error. -/
def ReadError.message (e : ReadError) : String :=
  e.reader.label ++ ": parsing " ++ Text.quoted e.text ++ ": " ++ e.fault.message

/-! ## Reading -/

/-- The value of a digit, if it is one of the base. -/
def digit? (base : Nat) (c : Char) : Option Nat :=
  let n := c.toNat
  let d :=
    if '0' ≤ c ∧ c ≤ '9' then n - 48
    else if 'a' ≤ c ∧ c ≤ 'f' then n - 87
    else if 'A' ≤ c ∧ c ≤ 'F' then n - 55
    else base
  if d < base then some d else none

/-- What words of 64 bits stay below. -/
def wordLimit : Nat := 0x10000000000000000

/-- What signed words of 64 bits stay below. -/
def signLimit : Nat := 0x8000000000000000

/-- The value of digits after a number `n`, refused as soon as it reaches `limit`. -/
def readBelow (limit base : Nat) : Nat → List Char → Except Fault Nat
  | n, [] => .ok n
  | n, c :: r =>
    match digit? base c with
    | none => .error .malformed
    | some d => if n * base + d < limit then readBelow limit base (n * base + d) r
      else .error .outOfRange

/-- The value of digits, refused as soon as 64 bits do not hold it. -/
def readDigits (base : Nat) (s : List Char) : Except Fault Nat := readBelow wordLimit base 0 s

/-- The sign of a numeral (`true` for minus) and its digits. -/
def splitSign : List Char → Bool × List Char
  | '-' :: r => (true, r)
  | '+' :: r => (false, r)
  | s => (false, s)

/-- The integer with a sign and a size, if it lies from `-half` on and below `half`. -/
def signedBelow (half : Nat) (negative : Bool) (n : Nat) : Except Fault Int :=
  if negative then if n ≤ half then .ok (-(n : Int)) else .error .outOfRange
  else if n < half then .ok n else .error .outOfRange

/-- The integer with a sign and a size, if 64 bits hold it. -/
def signed (negative : Bool) (n : Nat) : Except Fault Int := signedBelow signLimit negative n

/-- An optional sign and at least one digit. -/
def readSigned (base : Nat) (s : List Char) : Except Fault Int :=
  let (negative, digits) := splitSign s
  if digits.isEmpty then .error .malformed
  else (readDigits base digits).bind (signed negative)

/-- An optional sign and at least one decimal digit, if 32 bits hold the number. -/
def readShort (s : List Char) : Except Fault Int :=
  let (negative, digits) := splitSign s
  if digits.isEmpty then .error .malformed
  else (readBelow 0x100000000 10 0 digits).bind (signedBelow 0x80000000 negative)

/-- Wraps the result of a reader. -/
def toResult (reader : Reader) (text : List Char) (r : Except Fault Int) : Except ReadError Int64 :=
  match r with
  | .ok v => .ok (Int64.ofInt v)
  | .error f => .error ⟨reader, String.ofList text, f⟩

/-- The hexadecimal digits after `0x`, if a text starts so. -/
def hexBody? : List Char → Option (List Char)
  | '0' :: 'x' :: r => some r
  | '0' :: 'X' :: r => some r
  | _ => none

/-- An integer of a listing: decimal, or hexadecimal after `0x`, with white space around it
skipped. -/
def readInt (s : String) : Except ReadError Int64 :=
  let t := Text.trim s.toList
  match hexBody? t with
  | some body => toResult .integer body (readSigned 16 body)
  | none => toResult .integer t (readSigned 10 t)

/-- A decimal number, as symbol files write ids. -/
def readId (s : String) : Except ReadError Int64 := toResult .id s.toList (readSigned 10 s.toList)

/-! ## Writing -/

/-- The decimal digits of an integer. -/
def decimalList (n : Int) : List Char :=
  if n < 0 then '-' :: Nat.toDigits 10 n.natAbs else Nat.toDigits 10 n.natAbs

/-- The decimal digits of an integer. -/
def decimal (n : Int) : String := String.ofList (decimalList n)

end ScriptLift.Numeral
