import ScriptLift.Numeral.Integer
import ScriptLift.Source

/-!
# Problems

What goes wrong with a row or a class, with its place in the listing.

* `Problem`: kind, place, message and cause.
* `Problem.text`: one line; `Problem.display`: with the line of the listing it refers to.
-/

namespace ScriptLift

/-- The kinds of problem. -/
inductive ProblemKind where
  /-- An id that the symbols do not know. -/
  | unresolvedSymbol
  /-- A value was needed that neither the operands nor the block could give. -/
  | stackUnderflow
  /-- A row that lacks an operand or has one that cannot be read. -/
  | malformedRow
  deriving Repr, DecidableEq, Inhabited

namespace ProblemKind

/-- The one-word name of a kind. -/
def label : ProblemKind → String
  | unresolvedSymbol => "UnresolvedSymbol"
  | stackUnderflow => "StackUnderflow"
  | malformedRow => "MalformedInstruction"

/-- The name of a kind in running text. -/
def title : ProblemKind → String
  | unresolvedSymbol => "Unresolved Symbol"
  | stackUnderflow => "Stack Underflow"
  | malformedRow => "Malformed Instruction"

/-- The kind with a one-word name. -/
def ofLabel? (s : String) : Option ProblemKind :=
  [unresolvedSymbol, stackUnderflow, malformedRow].find? (·.label == s)

end ProblemKind

/-- A place in a listing. -/
structure Position where
  /-- Counted from one; 0 when unknown. -/
  line : Int
  className : String
  source : Option Source
  deriving Repr, DecidableEq, Inhabited

/-- A place as text. -/
def Position.text (p : Position) : String :=
  if p.className ≠ "" ∧ 0 < p.line then p.className ++ ":" ++ Numeral.decimal p.line
  else if p.className ≠ "" then p.className
  else "line " ++ Numeral.decimal p.line

/-- What lies behind a problem. -/
structure Cause where
  text : String
  /-- A symbol was looked up in vain. -/
  notFound : Bool
  deriving Repr, DecidableEq, Inhabited

/-- Something that went wrong at a place. -/
structure Problem where
  kind : ProblemKind
  position : Position
  message : String
  cause : Option Cause
  deriving Repr, DecidableEq, Inhabited

namespace Problem

/-- A problem in one line. -/
def text (p : Problem) : String := p.kind.title ++ " at " ++ p.position.text ++ ": " ++ p.message

/-- The line of the listing a problem refers to, with the name of the listing. -/
def quotation (p : Problem) : String :=
  match p.position.source with
  | some s =>
    if p.position.line ≤ 0 then ""
    else
      let line := Text.stripEndBy (fun c => c == '\r' || c == '\n' || c == '\t' || c == ' ')
        (s.line p.position.line)
      if line.isEmpty then "" else "  " ++ s.display ++ ": " ++ line ++ "\n\n"
  | none => ""

/-- A problem for the reader of a report. -/
def display (p : Problem) : String :=
  p.kind.label ++ " Error at " ++ p.position.text ++ ": " ++ p.message ++ "\n" ++ p.quotation

/-- The warning about a line with an open quote. -/
def unclosedQuote (line : Int) (source : Option Source) : Problem :=
  ⟨.malformedRow, ⟨line, "", source⟩, "unterminated string literal", none⟩

end Problem

end ScriptLift
