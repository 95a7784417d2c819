import ScriptLift.Numeral.Integer
import ScriptLift.Text.Utf8

/-!
# Durations

Times in nanoseconds as text: in one unit below a second, in hours, minutes and seconds above.

* `Duration.text`: the text of a time.
-/

namespace ScriptLift.Duration

/-- The digits of a fraction behind a point, without zeros at the end; nothing if it is zero. -/
def fraction (places n : Nat) : String :=
  let ds := Nat.toDigits 10 n
  let ds := (List.replicate (places - ds.length) '0' ++ ds).reverse.dropWhile (· == '0')
  if ds.isEmpty then "" else "." ++ String.ofList ds.reverse

/-- `n` units of a size of `10 ^ places`. -/
def quantity (places n : Nat) : String :=
  let whole : Nat := n / Nat.pow 10 places
  Numeral.decimal whole ++ fraction places (n % Nat.pow 10 places)

/-- A second. -/
def second : Nat := 1000000000

/-- The text of a time that is not negative. -/
def magnitude (n : Nat) : String :=
  if n = 0 then "0s"
  else if n < 1000 then quantity 0 n ++ "ns"
  else if n < 1000000 then quantity 3 n ++ Text.ofUnicode "µs"
  else if n < second then quantity 6 n ++ "ms"
  else
    let hours : Nat := n / (3600 * second)
    let minutes : Nat := n / (60 * second) % 60
    let seconds := quantity 9 (n % (60 * second)) ++ "s"
    if hours = 0 ∧ minutes = 0 then seconds
    else if hours = 0 then Numeral.decimal minutes ++ "m" ++ seconds
    else Numeral.decimal hours ++ "h" ++ Numeral.decimal minutes ++ "m" ++ seconds

/-- The text of a time. -/
def text (n : Int) : String := (if n < 0 then "-" else "") ++ magnitude n.natAbs

end ScriptLift.Duration
