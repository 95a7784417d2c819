import ScriptLift.Row.Scan
import ScriptLift.Source

/-!
# Listings

The rows of one class, from its `class` row to the first `class_end`.

* `spans`: the parts of a list from an opening to the next closing element.
* `Listing.ofRows`, `Listing.ofSource`: listings of rows and of a text.
* `Listing.label?`: where a label stands.
-/

namespace ScriptLift

/-! ## Spans -/

/-- The spans of a list; `open?` is the span begun before it, in reverse. -/
def spansFrom {α : Type} (opens closes : α → Bool) (open? : Option (List α)) :
    List α → List (List α)
  | [] => open?.toList.map List.reverse
  | x :: r =>
    match open? with
    | none => if opens x then spansFrom opens closes (some [x]) r
      else spansFrom opens closes none r
    | some acc =>
      if closes x then (x :: acc).reverse :: spansFrom opens closes none r
      else spansFrom opens closes (some (x :: acc)) r

/-- The parts of a list from an opening element to the next closing one, or to the end. -/
def spans {α : Type} (opens closes : α → Bool) (xs : List α) : List (List α) :=
  spansFrom opens closes none xs

/-- A list up to and with its first element satisfying `p`. -/
def through {α : Type} (p : α → Bool) : List α → List α
  | [] => []
  | x :: r => if p x then [x] else x :: through p r

/-! ## Listings -/

/-- The rows of one class. -/
structure Listing where
  name : String
  rows : List Row
  deriving Repr, DecidableEq, Inhabited

namespace Listing

/-- The class name in a header: the first operand of three, or else the second. -/
def headerName : Option Row → String
  | some r =>
    if r.opensClass then if r.operands.length = 3 then r.operand 0 else r.operand 1 else ""
  | none => ""

/-- The listing of a sequence of rows, which ends with its first `class_end`. -/
def ofRows (rows : List Row) : Listing := ⟨headerName rows.head?, through Row.closesClass rows⟩

/-- The row at a position. -/
def get? (l : Listing) (i : Nat) : Option Row := l.rows[i]?

/-- The row before a position. -/
def prev? (l : Listing) (i : Nat) : Option Row := if i = 0 then none else l.rows[i - 1]?

/-- The row after a position. -/
def next? (l : Listing) (i : Nat) : Option Row := l.rows[i + 1]?

/-- The positions of label rows with their names. -/
def labelRows (l : Listing) : List (String × Nat) :=
  l.rows.zipIdx.filterMap fun (r, i) => if r.isLabel then some (r.name, i) else none

/-- The position of a label: of several with one name the last. -/
def label? (l : Listing) (name : String) : Option Nat := l.labelRows.reverse.lookup name

/-- The line of the first row. -/
def line? (l : Listing) : Option Int := l.rows.head?.map Row.line

/-- The listings of a sequence of rows: one for each `class` row that stands in no other. -/
def ofAllRows (rows : List Row) : List Listing :=
  (spans Row.opensClass Row.closesClass rows).map ofRows

/-- The listings of a text. -/
def ofSource (s : Source) : List Listing := ofAllRows ((Row.ofLines s.lines).map Row.Scanned.row)

/-- The listing of the class with a name, the first of several. -/
def find? (s : Source) (name : String) : Option Listing := (ofSource s).find? (·.name == name)

/-- The message for a class that is not there. -/
def missingMessage (s : Source) (name : String) : String :=
  "class " ++ Text.quoted name ++ " not found in " ++ s.display

end Listing

end ScriptLift
