import ScriptLift.Output.Sink
import ScriptLift.Text.Quoted
import ScriptLift.Text.Utf16

/-!
# Output encodings

Source is written as UTF-8, byte for byte, or as UTF-16 behind a byte order mark, which a codec
makes of the pieces of text it is given.

* `Encoding.ofName?`: an encoding by its name.
* `Encoder.start`, `Encoder.write`, `Encoder.finish`: the writes that pieces of text lead to.
* `Encoder.encodeWith`: all bytes that pieces of text lead to; `Encoder.encode`: with the codec in
  use.
-/

namespace ScriptLift

/-- The encodings of source. -/
inductive Encoding where
  | utf8
  | utf16
  deriving Repr, DecidableEq, Inhabited

namespace Encoding

/-- The name of an encoding. -/
def name : Encoding → String
  | utf8 => "utf-8"
  | utf16 => "utf-16le"

/-- The encoding with a name. -/
def ofName? (s : String) : Option Encoding := [utf8, utf16].find? (·.name == s)

/-- The message for a name without encoding. -/
def unsupported (name : String) : String := "unsupported encoding " ++ Text.quoted name

end Encoding

/-! ## Encoders -/

/-- An encoder between two pieces of text. -/
structure Encoder (σ : Type) where
  encoding : Encoding
  /-- What the codec of UTF-16 keeps between them. -/
  state : σ
  deriving Repr, DecidableEq, Inhabited

namespace Encoder

section

variable {σ : Type} (codec : Text.Codec σ)

/-- The writes of a piece of text, and the encoder after it. -/
def write (e : Encoder σ) (text : String) : List (List Char) × Encoder σ :=
  match e.encoding with
  | .utf8 => ([text.toList], e)
  | .utf16 =>
    let (ws, state) := codec.step e.state text
    (ws, { e with state })

/-- The writes before any text, and the encoder after them: UTF-16 starts with a byte order mark. -/
def start (e : Encoder σ) : List (List Char) × Encoder σ :=
  match e.encoding with
  | .utf8 => ([], e)
  | .utf16 => e.write codec (Text.ofUnicode (String.singleton Text.byteOrderMark))

/-- The writes after all text. -/
def finish (e : Encoder σ) : List (List Char) :=
  match e.encoding with
  | .utf8 => []
  | .utf16 => codec.stop e.state

/-- The writes of pieces of text and of the end after them. -/
def writeEach (e : Encoder σ) : List String → List (List Char)
  | [] => e.finish codec
  | t :: ts =>
    let (ws, e') := e.write codec t
    ws ++ e'.writeEach ts

/-- All bytes that pieces of text lead to. -/
def encodeWith (encoding : Encoding) (texts : List String) : List Char :=
  let (ws, e) := start codec ⟨encoding, codec.start⟩
  (ws ++ e.writeEach codec texts).flatten

end

/-- A new encoder, with the codec in use. -/
def new (encoding : Encoding) : Encoder (List Char) := ⟨encoding, Text.Codec.standard.start⟩

/-- All bytes that pieces of text lead to with the codec in use. -/
def encode (encoding : Encoding) (texts : List String) : List Char :=
  encodeWith .standard encoding texts

end Encoder

end ScriptLift
