/-!
# Wrapping

Words are laid out on lines of at most a given width so that the lines are filled evenly: the
squares of what the lines lack, the last line apart, have the least sum.

* `Wrap.plan`: for each word, how a text that starts there is best laid out.
* `Wrap.lines`: the lines of words.
-/

namespace ScriptLift.Wrap

/-- A way to lay out a text. -/
structure Choice where
  cost : Int
  /-- The number of words on the first line. -/
  words : Nat
  deriving Repr, DecidableEq, Inhabited

/-- What a line that is too long costs on top. -/
def penalty : Int := 100000

/-- What every real choice stays below. -/
def worst : Int := 2147483647

/-- The width of words on one line. -/
def lineWidth (ws : List Nat) : Nat := ws.foldr (· + ·) 0 + (ws.length - 1)

/-- What a line that is not the last one costs. -/
def lineCost (limit width : Nat) : Int :=
  let lack : Int := (limit : Int) - (width : Int)
  lack * lack + if limit < width then penalty else 0

/-- The best choice among those with more words on the first line than `count`; `width` is the width
of `count` words, `later` the choices for the texts after them. The first of equal ones is taken. -/
def better (limit : Nat) (best : Choice) : (count width : Nat) → (ws : List Nat) →
    (later : List Choice) → Choice
  | count, width, w :: ws, c :: later =>
    let cost := lineCost limit width + c.cost
    let best := if cost < best.cost then ⟨cost, count⟩ else best
    better limit best (count + 1) (width + 1 + w) ws later
  | _, _, _, _ => best

/-- The best choices for words of given widths and for each of their ends. -/
def plan (limit : Nat) : List Nat → List Choice
  | [] => []
  | w :: ws =>
    let later := plan limit ws
    let choice :=
      if lineWidth (w :: ws) ≤ limit then ⟨0, ws.length + 1⟩
      else better limit ⟨worst, 1⟩ 1 w ws later
    choice :: later

/-- Words broken into lines by a plan. -/
def breakBy {α : Type} : (fuel : Nat) → List Choice → List α → List (List α)
  | 0, _, _ => []
  | fuel + 1, c :: cs, w :: ws =>
    let n := c.words - 1
    (w :: ws.take n) :: breakBy fuel (cs.drop n) (ws.drop n)
  | _, _, _ => []

/-- The lines of words; a line takes at least one word. -/
def lines {α : Type} (limit : Nat) (width : α → Nat) (ws : List α) : List (List α) :=
  breakBy ws.length (plan limit (ws.map width)) ws

end ScriptLift.Wrap
