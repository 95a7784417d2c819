import ScriptLift.Batch.Report
import ScriptLift.Grid.Basic

/-!
# Summaries

A report for its reader.

* `Report.progress`: a line for each class.
* `Report.summary`: a table of the classes that need attention, the problems, and the totals.
* `Report.failedTests`: the names of the classes that need attention.
-/

namespace ScriptLift.Batch

/-! ## Colours -/

/-- The colours of words. -/
inductive Colour where
  | red
  | green
  | yellow
  deriving Repr, DecidableEq, Inhabited

/-- The code that turns a colour on. -/
def Colour.code : Colour → String
  | red => "31"
  | green => "32"
  | yellow => "33"

/-- A word in a colour, if colours are wanted. -/
def painted (colours : Bool) (c : Colour) (s : String) : String :=
  if colours then "\x1b[" ++ c.code ++ "m" ++ s ++ "\x1b[0m" else s

/-- The colour of a status. -/
def statusColour? (status : String) : Option Colour :=
  if ["OK", "PASSED", "RECORDED"].contains status then some .green
  else if status == "FAILED" then some .red
  else if ["IGNORED", "SKIPPED"].contains status then some .yellow
  else none

/-- A status in its colour. -/
def paintedStatus (colours : Bool) (status : String) : String :=
  match statusColour? status with
  | some c => painted colours c status
  | none => status

/-! ## Entries -/

/-- What a fixture says about a class, for the line of the class. -/
def Entry.remark (colours : Bool) (e : Entry) : String :=
  match e.verdict with
  | some .passed => " - " ++ paintedStatus colours Fixture.Verdict.passed.status
  | some .failed => " - " ++ paintedStatus colours Fixture.Verdict.failed.status
  | _ => ""

/-- The problem of a class in a table. -/
def Entry.complaint (e : Entry) : String :=
  match e.outcome.problem? with
  | some p => p.kind.label ++ ": " ++ p.message
  | none => ""

/-- A class in the table. -/
def Entry.cells (colours : Bool) (e : Entry) : List String :=
  [e.name, Numeral.decimal e.line, paintedStatus colours e.outcome.status,
    paintedStatus colours e.verdictWord, e.complaint]

/-! ## Reports -/

namespace Report

/-- A line for each class that was not left out. -/
def progress (colours : Bool) (r : Report) : String :=
  String.join ((r.entries.filter (!·.outcome.isIgnored)).map fun e =>
    "Decompile " ++ e.name ++ e.remark colours ++ "\n")

/-- The table of the classes that need attention, if there are any. -/
def table (colours : Bool) (r : Report) : String :=
  if r.failed.isEmpty then ""
  else
    (Grid.mk ["Class", "Line", "Status", "Regression", "Error"]
      (r.failed.map (·.cells colours))).draw ++ "\n"

/-- The counts of a report; `average` is the mean time that a class took. -/
def totals (average : String) (r : Report) : String :=
  let n (k : Nat) : String := Numeral.decimal k
  n r.entries.length ++ " classes: " ++ n (r.count Outcome.isOk) ++ " ok, "
    ++ n (r.count Outcome.isFailed) ++ " failed, " ++ n (r.count Outcome.isIgnored) ++ " ignored, "
    ++ n r.warnings.length ++ " warnings (avg " ++ average ++ ")\n"

/-- The table, the problems and the counts of a report. -/
def summary (colours : Bool) (average : String) (r : Report) : String :=
  r.table colours ++ String.join (r.problems.map Problem.display) ++ r.totals average

/-- The names of the classes that need attention, if there are any. -/
def failedTests (r : Report) : String :=
  if r.failed.isEmpty then ""
  else "\nFailed tests:\n\n" ++ String.join (r.failed.map (·.name ++ "\n"))

/-- The complaint about a run that differs from its fixture. -/
def failedMessage? (r : Report) : Option String :=
  if r.failed.isEmpty then none
  else some (Numeral.decimal r.failed.length ++ " of " ++ Numeral.decimal r.entries.length
    ++ " classes failed")

end Report

end ScriptLift.Batch
