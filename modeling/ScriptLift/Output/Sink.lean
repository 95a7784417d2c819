/-!
# Sinks

Where bytes are written to. A sink may have limited room; it takes each write whole or refuses it.

* `Sink.write`: one write.
* `Sink.writeAll`: writes until one is refused.
-/

namespace ScriptLift

/-- What was written, and what may still be written. -/
structure Sink where
  content : String
  /-- The number of bytes that still fit; `none` when there is no limit. -/
  room : Option Nat
  /-- The wording of a refusal. -/
  refusal : String
  deriving Repr, DecidableEq, Inhabited

namespace Sink

/-- An empty sink without limit. -/
def unlimited : Sink := ⟨"", none, ""⟩

/-- An empty sink with room for a number of bytes. -/
def limited (room : Nat) (refusal : String) : Sink := ⟨"", some room, refusal⟩

/-- Whether a write of `n` bytes fits. -/
def fits (s : Sink) (n : Nat) : Bool :=
  match s.room with
  | some room => n ≤ room
  | none => true

/-- A sink after a write of bytes, or the refusal. -/
def write (s : Sink) (bytes : List Char) : Except String Sink :=
  if s.fits bytes.length then
    .ok { s with
      content := s.content ++ String.ofList bytes
      room := s.room.map (· - bytes.length) }
  else .error s.refusal

/-- A sink after writes, up to the first one refused. -/
def writeAll (s : Sink) : List (List Char) → Sink × Option String
  | [] => (s, none)
  | chunk :: rest =>
    match s.write chunk with
    | .ok s' => s'.writeAll rest
    | .error e => (s, some e)

end Sink

end ScriptLift
