import ScriptLift.Batch.Outcome
import ScriptLift.Checksum
import ScriptLift.Output.Sink
import ScriptLift.Path

/-!
# Fixtures

A fixture holds a checksum for each class of a run, in order, so that a later run can be compared
with it. A class without source counts as one with empty source, which keeps the others in place.

* `Fixture.Store`: a fixture being recorded or checked.
* `Store.record`, `Store.check`: one class.
* `Store.checkAll`: the classes of a run.
-/

namespace ScriptLift.Fixture

/-- The file of a fixture. -/
def path (dir name : String) : String := Path.join [dir, name ++ ".bin"]

/-- What a fixture says about a class. -/
inductive Verdict where
  | recorded
  | passed
  | failed
  | skipped
  deriving Repr, DecidableEq, Inhabited

/-- The word for a verdict. -/
def Verdict.status : Verdict → String
  | recorded => "RECORDED"
  | passed => "PASSED"
  | failed => "FAILED"
  | skipped => "SKIPPED"

/-- A fixture in use, with the number of classes it has seen. -/
inductive Store where
  /-- Checksums are written. -/
  | recording (sink : Sink) (count : Nat)
  /-- Checksums are compared with those that are left, or cannot be read. -/
  | checking (rest : Except String (List Char)) (count : Nat)
  deriving Inhabited

namespace Store

/-- A fixture to be written. -/
def generator (sink : Sink) : Store := recording sink 0

/-- A fixture to be compared with. -/
def tester (content : Except String String) : Store := checking (content.map String.toList) 0

/-- Whether checksums are compared. -/
def isTester : Store → Bool
  | recording .. => false
  | checking .. => true

/-- The number of classes seen. -/
def count : Store → Nat
  | recording _ n => n
  | checking _ n => n

/-- Where checksums are written to. -/
def sink? : Store → Option Sink
  | recording sink _ => some sink
  | checking .. => none

/-- What was written. -/
def content : Store → String
  | recording sink _ => sink.content
  | checking .. => ""

/-- Records or compares the checksum of a text. A fixture that ends too early fails. -/
def record (s : Store) (text : String) : Except String Verdict × Store :=
  let sum := Checksum.bytes (Checksum.crc32 text)
  match s with
  | recording sink n =>
    match sink.write sum with
    | .ok sink' => (.ok .recorded, recording sink' (n + 1))
    | .error e => (.error ("write checksum " ++ Numeral.decimal (n + 1) ++ ": " ++ e),
        recording sink (n + 1))
  | checking (.ok rest) n =>
    (.ok (if rest.take 4 = sum then .passed else .failed), checking (.ok (rest.drop 4)) (n + 1))
  | checking (.error e) n =>
    (.error ("read checksum " ++ Numeral.decimal (n + 1) ++ ": " ++ e), checking (.error e) (n + 1))

/-- Records or compares the checksum of the empty text. -/
def skip (s : Store) : Except String Unit × Store :=
  let (r, s') := s.record ""
  (r.map fun _ => (), s')

/-- The verdict on a class that has no source. -/
def verdictWithout (s : Store) (o : Outcome) : Verdict :=
  if o.isFailed && s.isTester then .failed else .skipped

/-- The verdict on a class. -/
def check (s : Store) (o : Outcome) : Except String Verdict × Store :=
  match o with
  | .ok text => s.record text
  | o =>
    let (r, s') := s.skip
    (r.map fun _ => s.verdictWithout o, s')

/-- The verdicts on classes one after another, until one cannot be given. -/
def checkAll (s : Store) : List Outcome → Except String (List Verdict) × Store
  | [] => (.ok [], s)
  | o :: os =>
    match s.check o with
    | (.error e, s') => (.error e, s')
    | (.ok v, s') =>
      let (r, s'') := s'.checkAll os
      (r.map (v :: ·), s'')

end Store

end ScriptLift.Fixture
