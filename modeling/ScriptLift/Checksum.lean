import ScriptLift.Text.Utf8

/-!
# Checksums

The cyclic redundancy check of 32 bits, with the reflected polynomial.

* `Checksum.crc32`: the checksum of a byte text.
* `Checksum.bytes`: a checksum as four bytes, the lowest first.
-/

namespace ScriptLift.Checksum

/-- The reflected polynomial. -/
def polynomial : UInt32 := 0xEDB88320

/-- One bit leaves a remainder. -/
def shift (c : UInt32) : UInt32 := if c &&& 1 == 1 then (c >>> 1) ^^^ polynomial else c >>> 1

/-- A number of bits leave a remainder. -/
def shifts : Nat → UInt32 → UInt32
  | 0, c => c
  | n + 1, c => shifts n (shift c)

/-- A byte enters a remainder. -/
def absorb (c : UInt32) (b : Char) : UInt32 := shifts 8 (c ^^^ b.toNat.toUInt32)

/-- The checksum of a byte text. -/
def crc32 (s : String) : UInt32 := s.toList.foldl absorb 0xFFFFFFFF ^^^ 0xFFFFFFFF

/-- A checksum as four bytes, the lowest first. -/
def bytes (c : UInt32) : List Char :=
  let n := c.toNat
  [Text.byte n, Text.byte (n / 0x100), Text.byte (n / 0x10000), Text.byte (n / 0x1000000)]

/-- A checksum takes four bytes. -/
@[simp] theorem length_bytes (c : UInt32) : (bytes c).length = 4 := rfl

end ScriptLift.Checksum
