import ScriptLift.Batch.Outcome
import ScriptLift.Dialect.Source
import ScriptLift.Lift.Run
import ScriptLift.Settings.Basic

/-!
# Jobs

A run reads a listing row by row and makes a job of each class: of the rows from the last `class`
row before a `class_end`. Lines with an open quote are warned about on the way.

* `events`: what reading a listing brings about, in order.
* `Job`: a class to be lifted; `jobs`: those of a listing.
* `Job.result`: what becomes of it.
-/

namespace ScriptLift.Batch

/-! ## Reading -/

/-- What reading a row may bring about. -/
inductive Event where
  | warning (p : Problem)
  /-- A class is complete. -/
  | complete (l : Listing)
  deriving Repr, DecidableEq, Inhabited

/-- The warning of an event. -/
def Event.warning? : Event → Option Problem
  | warning p => some p
  | complete _ => none

/-- The class of an event. -/
def Event.listing? : Event → Option Listing
  | warning _ => none
  | complete l => some l

/-- Whether an event completes a class. -/
def Event.isComplete (e : Event) : Bool := e.listing?.isSome

/-- The rows of the class that is open after a row, in reverse. A `class` row opens one, whatever
was open before. -/
def openAfter (open? : Option (List Row)) (r : Row) : Option (List Row) :=
  if r.opensClass then some [r]
  else if r.closesClass then none
  else open?.map (r :: ·)

/-- The class that a row completes. -/
def completed? (open? : Option (List Row)) (r : Row) : Option Listing :=
  if !r.opensClass && r.closesClass then open?.map fun rows => .ofRows (r :: rows).reverse else none

/-- The warning about a row with an open quote. -/
def warning? (src : Source) (x : Row.Scanned) : Option Problem :=
  if x.closed then none else some (.unclosedQuote x.row.line (some src))

/-- What reading rows brings about, in order, when the rows `open?` of a class are open. -/
def eventsFrom (src : Source) (open? : Option (List Row)) : List Row.Scanned → List Event
  | [] => []
  | x :: r =>
    (warning? src x).toList.map .warning ++ (completed? open? x.row).toList.map .complete
      ++ eventsFrom src (openAfter open? x.row) r

/-- What reading a listing brings about, in order. -/
def events (src : Source) : List Event := eventsFrom src none (Row.ofLines src.lines)

/-! ## Jobs -/

/-- A class to be lifted. -/
structure Job where
  listing : Listing
  /-- The settings leave it out. -/
  ignored : Bool
  deriving Repr, DecidableEq, Inhabited

/-- The jobs of a listing. -/
def jobs (s : Settings) (src : Source) : List Job :=
  ((events src).filterMap Event.listing?).map fun l => ⟨l, s.ignores l.name⟩

/-- What became of the class of a job. -/
structure Result where
  name : String
  /-- The line of the `class` row. -/
  line : Int
  outcome : Outcome
  deriving Repr, DecidableEq, Inhabited

/-- The problem of a class whose lifting broke down. -/
def breakdown (name : String) (line : Int) : Problem :=
  ⟨.malformedRow, ⟨line, name, none⟩,
    "lifter panic: runtime error: invalid memory address or nil pointer dereference", none⟩

/-- The source of a class, or why there is none. -/
def sourceOf (sy : Symbols) (s : Settings) (src : Source) (l : Listing) :
    Except Lift.Failure String := do
  let decl ← Lift.lift sy (.ofWindow s.window (some src)) l
  match s.dialect.source? decl with
  | some text => .ok text
  | none => .error .breakdown

/-- What becomes of the class of a job. -/
def Job.result (sy : Symbols) (s : Settings) (src : Source) (j : Job) : Result :=
  let name := j.listing.name
  let line := j.listing.line?.getD 0
  ⟨name, line,
    if j.ignored then .ignored
    else
      match sourceOf sy s src j.listing with
      | .ok text => .ok text
      | .error (.problem p) => .failed p
      | .error .breakdown => .failed (breakdown name line)⟩

end ScriptLift.Batch
