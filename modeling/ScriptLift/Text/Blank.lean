/-!
# White space

White space of a byte text, as whole UTF-8 sequences: the ASCII blanks, U+0085, U+00A0 and the
space separators of Unicode.

* `isBlank`: a byte sequence spells one white space character.
* `trim`: a text without white space at its ends.
* `words`: the maximal runs without white space.
-/

namespace ScriptLift.Text

/-- A byte sequence that spells one white space character. -/
def isBlank : List Char → Bool
  | [c] => c == ' ' || ('\t' ≤ c && c ≤ '\r')
  | [a, b] => a == '\xc2' && (b == '\x85' || b == '\xa0')
  | [a, b, c] =>
    (a == '\xe1' && b == '\x9a' && c == '\x80')
      || (a == '\xe2' && b == '\x80' &&
        (('\x80' ≤ c && c ≤ '\x8a') || c == '\xa8' || c == '\xa9' || c == '\xaf'))
      || (a == '\xe2' && b == '\x81' && c == '\x9f')
      || (a == '\xe3' && b == '\x80' && c == '\x80')
  | _ => false

/-- The number of bytes of the white space character at the front, 0 when there is none. -/
def blankWidth (s : List Char) : Nat :=
  if isBlank (s.take 1) then 1
  else if isBlank (s.take 2) then 2
  else if isBlank (s.take 3) then 3
  else 0

/-- The number of bytes of the white space character at the end of a reversed text. -/
def blankWidthBack (r : List Char) : Nat :=
  if isBlank (r.take 1) then 1
  else if isBlank (r.take 2).reverse then 2
  else if isBlank (r.take 3).reverse then 3
  else 0

/-- Drops sequences from the front as long as `width` finds one. -/
def dropBy (width : List Char → Nat) : List Char → List Char
  | [] => []
  | c :: r =>
    match width (c :: r) with
    | 0 => c :: r
    | n + 1 => dropBy width (r.drop n)
termination_by s => s.length
decreasing_by simp only [List.length_drop, List.length_cons]; omega

/-- A text without white space at its front. -/
def trimLeft (s : List Char) : List Char := dropBy blankWidth s

/-- A text without white space at its end. -/
def trimRight (s : List Char) : List Char := (dropBy blankWidthBack s.reverse).reverse

/-- A text without white space at its ends. -/
def trim (s : List Char) : List Char := trimRight (trimLeft s)

/-- The bytes before the first white space character, and the rest. -/
def spanWord : List Char → List Char × List Char
  | [] => ([], [])
  | c :: r =>
    if blankWidth (c :: r) = 0 then
      let (word, rest) := spanWord r
      (c :: word, rest)
    else ([], c :: r)

/-- What follows the first word is no longer than the text. -/
theorem length_spanWord_le (s : List Char) : (spanWord s).2.length ≤ s.length := by
  induction s with
  | nil => simp [spanWord]
  | cons c r ih =>
    unfold spanWord
    split
    · simpa using Nat.le_succ_of_le ih
    · simp

/-- Dropping sequences never lengthens a text. -/
theorem length_dropBy_le (width : List Char → Nat) (s : List Char) :
    (dropBy width s).length ≤ s.length := by
  fun_induction dropBy width s with
  | case1 => simp
  | case2 => simp
  | case3 c r n h ih =>
    simp only [List.length_drop] at ih
    simp only [List.length_cons]
    omega

/-- The maximal runs without white space. -/
def words (s : List Char) : List (List Char) :=
  match _h : trimLeft s with
  | [] => []
  | c :: r =>
    (c :: (spanWord r).1) :: words (spanWord r).2
termination_by s.length
decreasing_by
  have h₁ := length_dropBy_le blankWidth s
  have h₂ := length_spanWord_le r
  rw [trimLeft] at _h
  rw [_h] at h₁
  simp only [List.length_cons] at h₁
  omega

end ScriptLift.Text
