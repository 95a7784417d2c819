import ScriptLift.Batch.Job
import ScriptLift.Fixture

/-!
# Reports

What a run says about its classes.

* `Entry`: one class; `Report`: all of them, with warnings and counts.
* `Stats.ofResults`: the counts of jobs.
-/

namespace ScriptLift.Batch

open Fixture

/-- One class of a report. -/
structure Entry where
  name : String
  line : Int
  outcome : Outcome
  /-- What the fixture says, if there is one. -/
  verdict : Option Verdict
  deriving Repr, DecidableEq, Inhabited

/-- Whether a class could not be lifted or differs from the fixture. -/
def Entry.isFailed (e : Entry) : Bool := e.outcome.isFailed || e.verdict == some .failed

/-- The word for the verdict on a class, empty without one. -/
def Entry.verdictWord (e : Entry) : String := (e.verdict.map Verdict.status).getD ""

/-- Counts of jobs. -/
structure Stats where
  total : Nat
  active : Nat
  completed : Nat
  failed : Nat
  skipped : Nat
  workers : Nat
  deriving Repr, DecidableEq, Inhabited

/-- The counts after all jobs are done; there is always a worker. -/
def Stats.ofResults (workers : Int) (rs : List Result) : Stats where
  total := rs.length
  active := 0
  completed := rs.countP (·.outcome.isOk)
  failed := rs.countP (·.outcome.isFailed)
  skipped := rs.countP (·.outcome.isIgnored)
  workers := if workers ≤ 0 then 1 else workers.toNat

/-- What a run says about its classes, in the order of the listing. -/
structure Report where
  entries : List Entry
  warnings : List Problem
  stats : Stats
  deriving Repr, DecidableEq, Inhabited

namespace Report

/-- The problems of classes, in order. -/
def problems (r : Report) : List Problem := r.entries.filterMap (·.outcome.problem?)

/-- The classes that need attention. -/
def failed (r : Report) : List Entry := r.entries.filter Entry.isFailed

/-- The number of classes with an outcome. -/
def count (r : Report) (p : Outcome → Bool) : Nat := r.entries.countP (p ·.outcome)

end Report

end ScriptLift.Batch
