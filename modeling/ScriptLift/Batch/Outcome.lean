import ScriptLift.Problem

/-!
# Outcomes

What became of a class in a run.
-/

namespace ScriptLift

/-- What became of a class. -/
inductive Outcome where
  /-- It was lifted, and this is its source. -/
  | ok (text : String)
  /-- The settings leave it out. -/
  | ignored
  | failed (problem : Problem)
  deriving Repr, DecidableEq, Inhabited

namespace Outcome

/-- The word for an outcome. -/
def status : Outcome → String
  | ok _ => "OK"
  | ignored => "IGNORED"
  | failed _ => "FAILED"

/-- The source of a class, empty unless it was lifted. -/
def text : Outcome → String
  | ok t => t
  | _ => ""

/-- The problem of a class that failed. -/
def problem? : Outcome → Option Problem
  | failed p => some p
  | _ => none

/-- Whether a class was lifted. -/
def isOk : Outcome → Bool
  | ok _ => true
  | _ => false

/-- Whether a class was left out. -/
def isIgnored : Outcome → Bool
  | ignored => true
  | _ => false

/-- Whether a class failed. -/
def isFailed : Outcome → Bool
  | failed _ => true
  | _ => false

end Outcome

end ScriptLift
