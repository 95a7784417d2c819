import ScriptLift.Listing

/-!
# Tapes

Rows in the order they were scanned, with the links that a reader walking over them may use. A row
is linked to the one scanned just before it unless a new sequence was begun or a listing was cut
out.

* `Tape.scan`, `Tape.begin?`, `Tape.reset`: growing a tape.
* `Tape.back`, `Tape.chain`: walking.
* `Tape.takeListing`, `Tape.takeAll`: cutting out listings.
-/

namespace ScriptLift

/-- A row on a tape. -/
structure Cell where
  row : Row
  /-- Linked to the row before it. -/
  back : Bool
  /-- Linked to the row after it. -/
  on : Bool
  /-- The place in the listing that took the row last. -/
  place : Nat
  deriving Repr, DecidableEq, Inhabited

/-- Scanned rows, numbered from zero. -/
structure Tape where
  cells : List Cell
  /-- The row the current sequence starts at. -/
  head : Option Nat
  /-- The row scanned last, unless the sequence was dropped. -/
  tail : Option Nat
  /-- The row numbers of the latest listing. -/
  latest : List Nat
  deriving Repr, DecidableEq, Inhabited

namespace Tape

/-- A tape without rows. -/
def empty : Tape := ⟨[], none, none, []⟩

/-- The row with a number. -/
def get? (t : Tape) (i : Int) : Option Cell := if i < 0 then none else t.cells[i.toNat]?

/-- Changes one cell. -/
def change (t : Tape) (i : Nat) (f : Cell → Cell) : Tape := { t with cells := t.cells.modify i f }

/-- Scans a line onto the end of the current sequence. -/
def scan (t : Tape) (line : String) (number : Int) : Tape :=
  let i := t.cells.length
  let linked := match t.tail with
    | some j => t.change j fun c => { c with on := true }
    | none => t
  { linked with
    cells := linked.cells ++ [⟨(Row.scan line number).row, t.tail.isSome, false, 0⟩]
    head := some (t.head.getD i)
    tail := some i }

/-- Begins a new sequence at a row, if there is such a row. -/
def begin? (t : Tape) (i : Int) : Option Tape :=
  (t.get? i).map fun _ =>
    { t.change i.toNat fun c => { c with back := false } with head := some i.toNat }

/-- Drops the current sequence; its rows stay where they are. -/
def reset (t : Tape) : Tape := { t with head := none, tail := none }

/-- The row before a row. -/
def prev? (t : Tape) (i : Nat) : Option Nat :=
  match t.cells[i]? with
  | some c => if c.back then some (i - 1) else none
  | none => none

/-- The row `n` steps before a row. -/
def back (t : Tape) (i : Nat) : Nat → Option Nat
  | 0 => some i
  | n + 1 => (t.prev? i).bind fun j => t.back j n

/-- The rows from number `i` on, along their links. -/
def chainFrom (i : Nat) : List Cell → List Nat
  | [] => []
  | c :: r => i :: if c.on then chainFrom (i + 1) r else []

/-- The rows of the current sequence. -/
def chain (t : Tape) : List Nat :=
  match t.head with
  | some i => chainFrom i (t.cells.drop i)
  | none => []

/-- Whether a row number satisfies a test. -/
def holds (t : Tape) (p : Row → Bool) (i : Nat) : Bool := (t.cells[i]?).any (p ·.row)

/-- The listing of row numbers. -/
def listing (t : Tape) (is : List Nat) : Listing :=
  Listing.ofRows (is.filterMap fun i => (t.cells[i]?).map Cell.row)

/-- Marks rows as taken by one listing, which is cut off at both ends. -/
def take (t : Tape) (is : List Nat) : Tape :=
  let placed := is.zipIdx.foldl (fun t (i, n) => t.change i fun c => { c with place := n }) t
  let cut := match is.getLast? with
    | some i => if t.holds Row.closesClass i then placed.change i fun c => { c with on := false }
      else placed
    | none => placed
  match is.head? with
  | some i => cut.change i fun c => { c with back := false }
  | none => cut

/-- Cuts out the listing at the head of the current sequence. -/
def takeListing (t : Tape) : Tape × Listing :=
  let is := through (t.holds Row.closesClass) t.chain
  ({ t.take is with latest := is }, t.listing is)

/-- Cuts out all class listings of the current sequence. -/
def takeAll (t : Tape) : Tape × List Listing :=
  let parts := spans (t.holds Row.opensClass) (t.holds Row.closesClass) t.chain
  (parts.foldl take t, parts.map t.listing)

/-- The place of a label of the latest listing, the last of several with one name. -/
def labelPlace? (t : Tape) (name : String) : Option Nat :=
  (t.latest.filterMap fun i => t.cells[i]?).reverse.findSome? fun c =>
    if c.row.isLabel && c.row.name == name then some c.place else none

end Tape

end ScriptLift
