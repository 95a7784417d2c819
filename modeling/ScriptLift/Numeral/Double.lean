import ScriptLift.Numeral.Integer

/-!
# Double precision numbers

IEEE 754 doubles by their bits, with exact rational arithmetic for reading and writing.

* `Double.ofRatio`: the double nearest to a quotient, ties to even.
* `Double.digits`: the fewest decimal digits that read back, the nearest of those.
* `Double.read`: a decimal or hexadecimal floating point numeral.
* `Double.general`, `Double.positional`, `Double.fixed`: the notations.
-/

namespace ScriptLift

/-- An IEEE 754 double, by its bits. -/
structure Double where
  bits : UInt64
  deriving Repr, DecidableEq, Inhabited

namespace Double

/-! ## Parts -/

/-- The value of the sign bit. -/
def signBit : Nat := 0x8000000000000000

/-- The leading bit of a significand, which normal numbers do not store. -/
def hiddenBit : Nat := 0x10000000000000

/-- Whether the sign bit is set. -/
def negative (x : Double) : Bool := signBit ≤ x.bits.toNat

/-- The biased exponent. -/
def biased (x : Double) : Nat := x.bits.toNat / hiddenBit % 2048

/-- The bits below the exponent. -/
def fraction (x : Double) : Nat := x.bits.toNat % hiddenBit

/-- Neither a number nor an infinity. -/
def isNaN (x : Double) : Bool := x.biased == 2047 && x.fraction != 0

/-- One of the two infinities. -/
def isInf (x : Double) : Bool := x.biased == 2047 && x.fraction == 0

/-- The integer `m` of the value `m * 2 ^ q`. -/
def significand (x : Double) : Nat := if x.biased = 0 then x.fraction else x.fraction + hiddenBit

/-- The exponent `q` of the value `m * 2 ^ q`. -/
def exponent (x : Double) : Int := if x.biased = 0 then -1074 else (x.biased : Int) - 1075

/-- The double with a sign, a biased exponent and a fraction. -/
def pack (negative : Bool) (biased fraction : Nat) : Double :=
  ⟨((if negative then signBit else 0) + biased * hiddenBit + fraction).toUInt64⟩

/-- An infinity. -/
def infinity (negative : Bool) : Double := pack negative 2047 0

/-- The quiet number that is none. -/
def nan : Double := pack false 2047 (hiddenBit / 2 + 1)

/-- Whether the value is below zero. -/
def isBelowZero (x : Double) : Bool := x.negative && !x.isNaN && (x.isInf || x.significand != 0)

/-- `m * base ^ e` as a quotient. -/
def ratio (base m : Nat) (e : Int) : Nat × Nat :=
  match e with
  | .ofNat k => (m * Nat.pow base k, 1)
  | .negSucc k => (m, Nat.pow base (k + 1))

/-- The size of a finite value as a quotient. -/
def toRatio (x : Double) : Nat × Nat := ratio 2 x.significand x.exponent

/-! ## Rounding -/

/-- A quotient rounded to the nearest integer, a half to the even one. -/
def roundDiv (num den : Nat) : Nat :=
  let q := num / den
  let r := num % den
  if 2 * r < den then q else if den < 2 * r then q + 1 else if q % 2 = 0 then q else q + 1

/-- `num / (den * 2 ^ e)` as a quotient. -/
def scaleDown (num den : Nat) (e : Int) : Nat × Nat :=
  match e with
  | .ofNat k => (num, den * Nat.pow 2 k)
  | .negSucc k => (num * Nat.pow 2 (k + 1), den)

/-- The exponent of the last bit kept of a quotient. -/
def lastBit (num den : Nat) : Int :=
  let e : Int := (num.log2 : Int) - den.log2 - 52
  let (n, d) := scaleDown num den e
  max (if n / d < hiddenBit then e - 1 else e) (-1074)

/-- The double nearest to a quotient, ties to even; too large a quotient gives an infinity. -/
def ofRatio (negative : Bool) (num den : Nat) : Double :=
  if num = 0 then pack negative 0 0
  else
    let e := lastBit num den
    let (n, d) := scaleDown num den e
    let m := roundDiv n d
    if m < hiddenBit then pack negative 0 m
    else
      let (m, e) := if m = 2 * hiddenBit then (hiddenBit, e + 1) else (m, e)
      let biased := (e + 1075).toNat
      if 2047 ≤ biased then infinity negative else pack negative biased (m - hiddenBit)

/-! ## Digits -/

/-- Whether `10 ^ x ≤ num / den`. -/
def reaches (x : Int) (num den : Nat) : Bool :=
  match x with
  | .ofNat k => Nat.pow 10 k * den ≤ num
  | .negSucc k => den ≤ num * Nat.pow 10 (k + 1)

/-- The exponent of the leading decimal digit of a positive quotient. -/
def leadingExponent (num den : Nat) : Int :=
  let guess : Int := ((num.log2 : Int) - den.log2) * 30103 / 100000
  if reaches (guess + 2) num den then guess + 2
  else if reaches (guess + 1) num den then guess + 1
  else if reaches guess num den then guess
  else if reaches (guess - 1) num den then guess - 1
  else guess - 2

/-- The quotients that bound the reals rounding to a positive finite double. -/
def bounds (x : Double) : (Nat × Nat) × (Nat × Nat) :=
  let m := x.significand
  let low := if x.fraction = 0 ∧ 1 < x.biased then ratio 2 (4 * m - 1) (x.exponent - 2)
    else ratio 2 (2 * m - 1) (x.exponent - 1)
  (low, ratio 2 (2 * m + 1) (x.exponent - 1))

/-- Whether `c * 10 ^ e` rounds to the double with the given bounds; the bounds themselves do when
the double is `even`. -/
def within (even : Bool) (low high : Nat × Nat) (c : Nat) (e : Int) : Bool :=
  let (n, d) := ratio 10 c e
  if even then low.1 * d ≤ n * low.2 && n * high.2 ≤ high.1 * d
  else low.1 * d < n * low.2 && n * high.2 < high.1 * d

/-- The decimal with `k` digits that reads back, if there is one; of two the nearer. -/
def shortestAt (x : Double) (lead : Int) (k : Nat) : Option (Nat × Int) :=
  let e := lead - (k : Int) + 1
  let (num, den) := x.toRatio
  let (n, d) := match e with
    | .ofNat j => (num, den * Nat.pow 10 j)
    | .negSucc j => (num * Nat.pow 10 (j + 1), den)
  let down := n / d
  let (low, high) := x.bounds
  let even := x.significand % 2 == 0
  match within even low high down e && down != 0, within even low high (down + 1) e with
  | true, true => some (roundDiv n d, e)
  | true, false => some (down, e)
  | false, true => some (down + 1, e)
  | false, false => none

/-- Removes the zeros at the end of `m` in `m * 10 ^ e`. -/
def dropZeros : Nat → Nat → Int → Nat × Int
  | 0, m, e => (m, e)
  | fuel + 1, m, e => if m ≠ 0 ∧ m % 10 = 0 then dropZeros fuel (m / 10) (e + 1) else (m, e)

/-- The fewest digits `m` with `m * 10 ^ e` reading back as a positive finite double. -/
def shortest (x : Double) : Nat × Int :=
  let (num, den) := x.toRatio
  let lead := leadingExponent num den
  match (List.range 17).findSome? fun k => shortestAt x lead (k + 1) with
  | some (m, e) => dropZeros 20 m e
  | none => (num / den, 0)

/-- The digits of the shortest decimal and the place of its point, counted from the first digit;
zero has no digits. -/
def digits (x : Double) : List Char × Int :=
  if x.significand = 0 then ([], 0)
  else
    let (m, e) := x.shortest
    let ds := Nat.toDigits 10 m
    (ds, ds.length + e)

/-! ## Writing -/

/-- The sign a written number starts with. -/
def signText (x : Double) : String := if x.negative then "-" else ""

/-- The text of a double that is no finite number, or of its size by `finite`. -/
def write (x : Double) (finite : Double → List Char) : String :=
  if x.isNaN then "NaN"
  else if x.isInf then if x.negative then "-Inf" else "+Inf"
  else x.signText ++ String.ofList (finite x)

/-- Digits around a decimal point at `point`. -/
def layOut (ds : List Char) (point : Int) : List Char :=
  let n := point.toNat
  let whole := if 0 < point then ds.take n ++ List.replicate (n - ds.length) '0' else ['0']
  let part := if 0 < point then ds.drop n else List.replicate (-point).toNat '0' ++ ds
  if part.isEmpty then whole else whole ++ '.' :: part

/-- The notation without exponent that has the fewest digits. -/
def positional (x : Double) : String :=
  x.write fun x =>
    let (ds, point) := x.digits
    if ds.isEmpty then ['0'] else layOut ds point

/-- An exponent with its sign and at least two digits. -/
def exponentText (e : Int) : List Char :=
  let ds := Nat.toDigits 10 e.natAbs
  (if e < 0 then '-' else '+') :: (if ds.length < 2 then '0' :: ds else ds)

/-- The shortest notation, with an exponent when that of the leading digit is below -4 or at least
`limit`. -/
def generalBelow (limit : Int) (x : Double) : String :=
  x.write fun x =>
    let (ds, point) := x.digits
    let e := point - 1
    if ds.isEmpty then ['0']
    else if e < -4 || limit ≤ e then
      ds.take 1 ++ (if ds.length = 1 then [] else '.' :: ds.drop 1) ++ 'e' :: exponentText e
    else layOut ds point

/-- The shortest notation, with an exponent from a million on and below a ten thousandth. -/
def general (x : Double) : String := generalBelow 6 x

/-- The notation with one decimal place. -/
def fixed (x : Double) : String :=
  x.write fun x =>
    let (num, den) := x.toRatio
    let tenths := roundDiv (num * 10) den
    Nat.toDigits 10 (tenths / 10) ++ '.' :: Nat.toDigits 10 (tenths % 10)

/-- Whether ten times the double, rounded to a double, is an integer or infinite. -/
def tenfoldIsWhole (x : Double) : Bool :=
  if x.isNaN then false
  else if x.isInf then true
  else
    let (num, den) := x.toRatio
    let y := ofRatio x.negative (num * 10) den
    let (n, d) := y.toRatio
    y.isInf || n % d == 0

/-! ## Reading -/

/-- The special words and their values. -/
def word? (s : List Char) : Option Double :=
  let (negative, body) := Numeral.splitSign s
  let lower := body.map Char.toLower
  if lower == "inf".toList || lower == "infinity".toList then some (infinity negative)
  else if s.map Char.toLower == "nan".toList then some nan
  else none

/-- What stood before a character while checking underscores. -/
inductive Before where
  | start
  | digit
  | underscore
  | other
  deriving DecidableEq

/-- Every underscore stands between two digits; the mark of a hexadecimal counts as a digit. -/
def underscoresOk (isDigit : Char → Bool) : Before → List Char → Bool
  | before, [] => before != .underscore
  | before, c :: r =>
    if isDigit c then underscoresOk isDigit .digit r
    else if c == '_' then before == .digit && underscoresOk isDigit .underscore r
    else before != .underscore && underscoresOk isDigit .other r

/-- The digits of a mantissa, the number of them after the point, and the rest. -/
def mantissa (base : Nat) : (value : Nat) → (count : Nat) → (places : Option Nat) → List Char →
    Nat × Nat × Option Nat × List Char
  | v, n, p, [] => (v, n, p, [])
  | v, n, p, c :: r =>
    if c == '_' then mantissa base v n p r
    else if c == '.' then
      match p with
      | some _ => (v, n, p, c :: r)
      | none => mantissa base v n (some 0) r
    else
      match Numeral.digit? base c with
      | some d => mantissa base (v * base + d) (n + 1) (p.map (· + 1)) r
      | none => (v, n, p, c :: r)

/-- The value of exponent digits, growing no further once it passes ten thousand. -/
def exponentDigits : Nat → List Char → Option Nat
  | e, [] => some e
  | e, c :: r =>
    if c == '_' then exponentDigits e r
    else
      match Numeral.digit? 10 c with
      | some d => exponentDigits (if e < 10000 then e * 10 + d else e) r
      | none => none

/-- A signed exponent that takes all of a text; the text starts with a digit after the sign. -/
def exponent? (s : List Char) : Option Int :=
  let (negative, body) := Numeral.splitSign s
  match body with
  | c :: _ =>
    if (Numeral.digit? 10 c).isSome then
      (exponentDigits 0 body).map fun e => if negative then -(e : Int) else e
    else none
  | [] => none

/-- The exponent after a mantissa: `mark` and a signed number, or nothing when `optional`. -/
def exponentPart (mark : Char) (optional : Bool) : List Char → Option Int
  | [] => if optional then some 0 else none
  | c :: r => if c.toLower == mark then exponent? r else none

/-- `m * base ^ e` rounded, if it is not too large. -/
def scaled (negative : Bool) (base m : Nat) (e : Int) : Except Numeral.Fault Double :=
  let size : Int := (Nat.toDigits base m).length + e
  let x :=
    if m = 0 then pack negative 0 0
    else if (if base = 10 then 310 else 1100) < size then infinity negative
    else if size < (if base = 10 then -330 else -1200) then pack negative 0 0
    else
      let (num, den) := ratio base m e
      ofRatio negative num den
  if x.isInf then .error .outOfRange else .ok x

/-- A decimal numeral, or a hexadecimal one with a binary exponent. -/
def readNumeral (s : List Char) : Except Numeral.Fault Double :=
  let (negative, body) := Numeral.splitSign s
  let hexBody := match Numeral.hexBody? body with
    | some (c :: r) => some (c :: r)
    | _ => none
  match hexBody with
  | some r =>
    let (m, n, places, rest) := mantissa 16 0 0 none r
    match exponentPart 'p' false rest with
    | some e =>
      if n = 0 || !underscoresOk (fun c => (Numeral.digit? 16 c).isSome) .digit r then
        .error .malformed
      else scaled negative 2 m (e - 4 * (places.getD 0 : Nat))
    | none => .error .malformed
  | none =>
    let (m, n, places, rest) := mantissa 10 0 0 none body
    match exponentPart 'e' true rest with
    | some e =>
      if n = 0 || !underscoresOk (fun c => (Numeral.digit? 10 c).isSome) .start body then
        .error .malformed
      else scaled negative 10 m (e - (places.getD 0 : Nat))
    | none => .error .malformed

/-- A floating point numeral or special word. -/
def read (s : String) : Except Numeral.ReadError Double :=
  match word? s.toList with
  | some x => .ok x
  | none =>
    match readNumeral s.toList with
    | .ok x => .ok x
    | .error f => .error ⟨.real, s, f⟩

end Double

end ScriptLift
