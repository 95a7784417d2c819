import ScriptLift.Grid.Wrap
import ScriptLift.Text.Basic
import ScriptLift.Text.Width

/-!
# Grids

Rows of cells drawn with borders. Long cells are wrapped, numbers stand at the right.

* `Grid.cell`: the lines and the width of a cell.
* `Grid.draw`: a grid as text.
-/

namespace ScriptLift

/-- A header and rows of as many cells. -/
structure Grid where
  header : List String
  rows : List (List String)
  deriving Repr, DecidableEq, Inhabited

namespace Grid

/-! ## Cells -/

/-- The width above which cells are wrapped. -/
def maxWidth : Nat := 30

/-- The lines of a cell and the width it asks for. -/
structure Cell where
  lines : List String
  width : Nat
  deriving Repr, DecidableEq, Inhabited

/-- The largest of some numbers. -/
def largest (ns : List Nat) : Nat := ns.foldl max 0

/-- A text as a cell. -/
def cell (text : String) : Cell :=
  let paragraphs := Text.split '\n' text
  let target := min maxWidth (largest (paragraphs.map Text.displayWidth))
  let words := Text.split ' ' (" ".intercalate paragraphs)
  let limit := max target (largest (words.map Text.width))
  let lines := (Wrap.lines limit Text.width words).map fun ws => " ".intercalate ws
  ⟨lines, max target (largest (lines.map Text.displayWidth))⟩

/-! ## Numbers -/

/-- Groups of three digits, each behind a comma, that take all of a text. -/
def isGrouped : List Char → Bool
  | [] => true
  | ',' :: a :: b :: c :: r => a.isDigit && b.isDigit && c.isDigit && isGrouped r
  | _ => false

/-- The whole part of a number: digits, or one to three of them and groups. -/
def isWholePart (s : List Char) : Bool :=
  let ds := s.takeWhile Char.isDigit
  let rest := s.dropWhile Char.isDigit
  !ds.isEmpty && (rest.isEmpty || (ds.length ≤ 3 && isGrouped rest))

/-- Whether a text is a number. -/
def isNumber (text : String) : Bool :=
  let s := match Text.trim text.toList with
    | '-' :: r => r
    | s => s
  isWholePart (s.takeWhile (· != '.')) &&
    match s.dropWhile (· != '.') with
    | [] => true
    | _ :: places => !places.isEmpty && places.all Char.isDigit

/-! ## Drawing -/

/-- A number of blanks. -/
def blanks (n : Nat) : String := Text.repeated n " "

/-- A text in the middle of a width. -/
def centred (width : Nat) (s : String) : String :=
  let gap := width - Text.displayWidth s
  blanks (gap / 2) ++ s ++ blanks (gap - gap / 2)

/-- A text at the left of a width, a number at its right. -/
def aligned (width : Nat) (s : String) : String :=
  let gap := blanks (width - Text.displayWidth s)
  if isNumber s then gap ++ s else s ++ gap

/-- The line between rows. -/
def rule (widths : List Nat) : String :=
  "+" ++ String.join (widths.map fun w => Text.repeated (w + 2) "-" ++ "+") ++ "\n"

/-- A line of cells. -/
def cellLine (cells : List String) : String :=
  "|" ++ String.join (cells.map fun c => " " ++ c ++ " |") ++ "\n"

/-- The lines of a row; a cell with fewer lines than others is blank below. -/
def row (widths : List Nat) (cells : List Cell) : String :=
  let height := largest (cells.map (·.lines.length))
  String.join ((List.range height).map fun i =>
    cellLine ((cells.zip widths).map fun (c, w) => aligned w ((c.lines[i]?).getD "")))

/-- The widths of columns: that of their widest cell. -/
def widths (cells : List (List Cell)) : List Nat :=
  match cells with
  | [] => []
  | first :: rest =>
    rest.foldl (fun ws row => ws.zipWith (fun w c => max w c.width) row) (first.map Cell.width)

/-- A grid as text. -/
def draw (g : Grid) : String :=
  let cells := (g.header :: g.rows).map fun r => r.map cell
  let ws := widths cells
  rule ws ++ cellLine ((g.header.zip ws).map fun (h, w) => centred w (Text.upper h)) ++ rule ws
    ++ String.join ((cells.drop 1).map (row ws)) ++ rule ws

end Grid

end ScriptLift
