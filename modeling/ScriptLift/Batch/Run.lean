import ScriptLift.Batch.Collect
import ScriptLift.Batch.Report

/-!
# Runs

A run lifts the classes of a listing, in any order, and writes their sources in the order of the
listing. A class that fails is reported and left out; a write that is refused ends the writing.

* `emit`: one result is checked against the fixture, reported and written.
* `gather`: the results of jobs, in the order in which they are delivered.
* `decompile`: a whole run.
-/

namespace ScriptLift.Batch

open Fixture

/-! ## Writing -/

/-- Where the writing of a run stands. -/
structure Progress where
  encoder : Encoder (List Char)
  sink : Sink
  store : Option Store
  entries : List Entry
  deriving Inhabited

namespace Progress

/-- Writes a source. -/
def write (p : Progress) (text : String) : Progress × Option String :=
  let (ws, encoder) := p.encoder.write .standard text
  match p.sink.writeAll ws with
  | (sink, none) => ({ p with encoder, sink }, none)
  | (sink, some e) => ({ p with sink }, some e)

/-- The verdict of the fixture, if there is one. -/
def check (p : Progress) (o : Outcome) : Except String (Option Verdict) × Progress :=
  match p.store with
  | none => (.ok none, p)
  | some store =>
    let (r, store) := store.check o
    (r.map some, { p with store := some store })

/-- Adds an entry to the report. -/
def enter (p : Progress) (e : Entry) : Progress := { p with entries := p.entries ++ [e] }

end Progress

/-- A result is checked against the fixture, reported, and written if it has a source. -/
def emit (r : Result) (p : Progress) : Progress × Option String :=
  match p.check r.outcome with
  | (.error e, p) => (p, some e)
  | (.ok verdict, p) =>
    let p := p.enter ⟨r.name, r.line, r.outcome, verdict⟩
    match r.outcome with
    | .ok text => p.write text
    | _ => (p, none)

/-- The progress after results were delivered, and why writing was ended. -/
def gather (p : Progress) (deliveries : List (Nat × Result)) : Progress × Option String :=
  collect emit p deliveries

/-! ## Runs -/

/-- What a run leaves behind. -/
structure Run where
  /-- Absent when writing could not begin. -/
  report : Option Report
  error : Option String
  sink : Sink
  store : Option Store
  deriving Inhabited

/-- The end of a run: the encoder is finished, and the first error of writing, of finishing and of
`left` is the error of the run. -/
def conclude (p : Progress) (error : Option String) (left : Option String)
    (warnings : List Problem) (stats : Stats) : Run :=
  let (sink, closing) := p.sink.writeAll (p.encoder.finish .standard)
  ⟨some ⟨p.entries, warnings, stats⟩, (error.or closing).or left, sink, p.store⟩

/-- The message of a run that was called off. -/
def calledOff : String := "context canceled"

section

variable (sy : Symbols) (s : Settings) (src : Source)

/-- The results of the jobs of a listing, numbered in order. -/
def results : List (Nat × Result) :=
  ((jobs s src).map (Job.result sy s src)).zipIdx.map fun (r, i) => (i, r)

/-- The warnings of a listing. -/
def warnings : List Problem := (events src).filterMap Event.warning?

/-- A run whose results are delivered in the order of `deliveries`, once writing has begun. -/
def runWith (deliveries : List (Nat × Result)) (p : Progress) : Run :=
  let (p, error) := gather p deliveries
  conclude p error none (warnings src)
    (.ofResults s.workers ((results sy s src).map Prod.snd))

/-- A run that was called off before it began: it reads until a class is complete. -/
def runCalledOff (p : Progress) : Run :=
  let before := (events src).takeWhile (!·.isComplete)
  conclude p none (if (events src).any Event.isComplete then some calledOff else none)
    (before.filterMap Event.warning?) (.ofResults s.workers [])

/-- Begins writing, then goes on as `k` says. -/
def begun (sink : Sink) (store : Option Store) (k : Progress → Run) : Run :=
  match Encoding.ofName? s.encoding with
  | none => ⟨none, some (Encoding.unsupported s.encoding), sink, store⟩
  | some encoding =>
    let (ws, encoder) := (Encoder.new encoding).start .standard
    match sink.writeAll ws with
    | (sink, some e) => ⟨none, some e, sink, store⟩
    | (sink, none) => k ⟨encoder, sink, store, []⟩

/-- A run over a listing. -/
def decompile (cancelled : Bool) (sink : Sink) (store : Option Store) : Run :=
  begun s sink store fun p =>
    if cancelled then runCalledOff s src p else runWith sy s src (results sy s src) p

end

end ScriptLift.Batch
