import ScriptLift.Proofs.Numeral

/-!
# Reading expressions of the dialect

The text of an expression is cut into tokens, and a stack of unfinished parts is filled token by
token. Binary operators associate to the left and bind by `BinaryOp.level`; the operators before an
operand bind tighter; a minus before digits belongs to the literal.

* `Reading`: an expression as it is read, its names known by their text.
* `lexFrom`: the tokens of a text.
* `Reader.step`: one token; `Reader.reduce`: the parts that a weaker operator completes.
* `read`: the expression that a text spells.
-/

namespace ScriptLift

/-- An expression as it is read from a text. -/
inductive Reading where
  | name (text : String)
  | int (value : Int64)
  | unary (op : UnaryOp) (operand : Reading)
  | binary (op : BinaryOp) (left right : Reading)
  | call (function : String) (args : List Reading)
  deriving Repr, Inhabited

/-! ## Tokens -/

/-- A token of an expression. -/
inductive Token where
  /-- A name or a numeral. -/
  | word (text : String)
  | op (op : BinaryOp)
  | tilde
  | lpar
  | rpar
  | comma
  deriving Repr, DecidableEq, Inhabited

/-- A character of names and numerals; a path of names is one word. -/
def isWordChar (c : Char) : Bool := c.isAlphanum || c == '_' || c == '@' || c == '.'

/-- The token of a single character. -/
def symbol? : Char → Option Token
  | '|' => some (.op .bitOr)
  | '^' => some (.op .bitXor)
  | '&' => some (.op .bitAnd)
  | '<' => some (.op .lt)
  | '>' => some (.op .gt)
  | '+' => some (.op .add)
  | '-' => some (.op .sub)
  | '*' => some (.op .mul)
  | '/' => some (.op .div)
  | '%' => some (.op .mod)
  | '~' => some .tilde
  | '(' => some .lpar
  | ')' => some .rpar
  | ',' => some .comma
  | _ => none

/-- A word that ends here. -/
def flush (w : List Char) : List Token := if w.isEmpty then [] else [.word (String.ofList w)]

/-- The tokens of a text that goes on after the characters `w` of a word. -/
def lexFrom (w : List Char) : List Char → Option (List Token)
  | [] => some (flush w)
  | '|' :: '|' :: r => (lexFrom [] r).map fun ts => flush w ++ .op .or :: ts
  | '&' :: '&' :: r => (lexFrom [] r).map fun ts => flush w ++ .op .and :: ts
  | '=' :: '=' :: r => (lexFrom [] r).map fun ts => flush w ++ .op .eq :: ts
  | '!' :: '=' :: r => (lexFrom [] r).map fun ts => flush w ++ .op .ne :: ts
  | '<' :: '=' :: r => (lexFrom [] r).map fun ts => flush w ++ .op .le :: ts
  | '>' :: '=' :: r => (lexFrom [] r).map fun ts => flush w ++ .op .ge :: ts
  | c :: r =>
    if isWordChar c then lexFrom (w ++ [c]) r
    else if c = ' ' then (lexFrom [] r).map (flush w ++ ·)
    else (symbol? c).bind fun t => (lexFrom [] r).map fun ts => flush w ++ t :: ts

/-! ## The reader -/

namespace Reader

/-- A part of an expression that is not finished. -/
inductive Frame where
  /-- A left operand and its operator. -/
  | left (t : Reading) (op : BinaryOp)
  /-- An operator that waits for its operand. -/
  | unary (op : UnaryOp)
  /-- An open parenthesis. -/
  | group
  /-- A call with the arguments read so far. -/
  | call (function : String) (args : List Reading)
  deriving Repr, Inhabited

/-- What stands just before the next token. -/
inductive Place where
  /-- An operand is expected. -/
  | fresh
  /-- A name, of a function if a parenthesis follows. -/
  | word (text : String)
  | value (t : Reading)
  deriving Repr, Inhabited

/-- The operand just read. -/
def Place.value? : Place → Option Reading
  | fresh => none
  | word w => some (.name w)
  | value t => some t

/-- Completes the parts that an operator of a level does not reach into. -/
def reduce (level : Nat) : List Frame → Reading → List Frame × Reading
  | .left a p :: s, t => if level ≤ p.level then reduce level s (.binary p a t) else (.left a p :: s, t)
  | .unary op :: s, t => reduce level s (.unary op t)
  | s, t => (s, t)

/-- The numeral that a word spells, with the minus before it. -/
def numeral (w : String) : List Frame → Option (List Frame × Place)
  | .unary .negate :: s => (Numeral.readInt ("-" ++ w)).toOption.map fun v => (s, .value (.int v))
  | s => (Numeral.readInt w).toOption.map fun v => (s, .value (.int v))

/-- Closes the innermost parenthesis or call. -/
def close : List Frame × Reading → Option (List Frame × Place)
  | (.group :: s, t) => some (s, .value t)
  | (.call f args :: s, t) => some (s, .value (.call f (args ++ [t])))
  | _ => none

/-- Ends an argument. -/
def separate : List Frame × Reading → Option (List Frame × Place)
  | (.call f args :: s, t) => some (.call f (args ++ [t]) :: s, .fresh)
  | _ => none

/-- Takes one token. -/
def step : List Frame × Place → Token → Option (List Frame × Place)
  | (s, .fresh), .word w =>
    if w.toList.head?.any Char.isDigit then numeral w s else some (s, .word w)
  | (s, .fresh), .op .sub => some (.unary .negate :: s, .fresh)
  | (s, .fresh), .tilde => some (.unary .complement :: s, .fresh)
  | (s, .fresh), .lpar => some (.group :: s, .fresh)
  | (s, .word f), .lpar => some (.call f [] :: s, .fresh)
  | (.call f [] :: s, .fresh), .rpar => some (s, .value (.call f []))
  | (s, m), .op q => m.value?.map fun t => (.left (reduce q.level s t).2 q :: (reduce q.level s t).1, .fresh)
  | (s, m), .comma => m.value?.bind fun t => separate (reduce 0 s t)
  | (s, m), .rpar => m.value?.bind fun t => close (reduce 0 s t)
  | _, _ => none

/-- Takes tokens one by one. -/
def run (st : List Frame × Place) : List Token → Option (List Frame × Place)
  | [] => some st
  | t :: ts => (step st t).bind fun st' => run st' ts

/-- The expression when no token is left. -/
def finish : List Frame × Reading → Option Reading
  | ([], t) => some t
  | _ => none

end Reader

/-- **The expression that a text spells.** -/
def read (s : String) : Option Reading :=
  (lexFrom [] s.toList).bind fun ts => (Reader.run ([], .fresh) ts).bind fun (s, m) =>
    m.value?.bind fun t => Reader.finish (Reader.reduce 0 s t)

/-! ## Rules of the token cutter -/

theorem lexFrom_word {c : Char} (hc : isWordChar c) (w r : List Char) :
    lexFrom w (c :: r) = lexFrom (w ++ [c]) r := by
  rw [lexFrom.eq_def]
  split
  all_goals first
    | (exfalso; rename_i h; injection h with h1 _; subst h1; revert hc; decide)
    | skip
  · rename_i h; simp at h
  · rename_i h; injection h with h1 h2; subst h1 h2; rw [if_pos hc]

theorem lexFrom_words {s : List Char} (hs : ∀ c ∈ s, isWordChar c) (w r : List Char) :
    lexFrom w (s ++ r) = lexFrom (w ++ s) r := by
  induction s generalizing w with
  | nil => simp
  | cons c s ih =>
    rw [List.cons_append, lexFrom_word (hs c List.mem_cons_self),
      ih fun d hd => hs d (List.mem_cons_of_mem _ hd)]
    simp

/-- A text that does not continue a word. -/
def Breaks (r : List Char) : Prop := ∀ c ∈ r.head?, isWordChar c = false

theorem lexFrom_break {r : List Char} (hr : Breaks r) (w : List Char) :
    lexFrom w r = (lexFrom [] r).map (flush w ++ ·) := by
  rw [lexFrom.eq_def, lexFrom.eq_def [] r]
  split
  · simp [flush]
  iterate 6
    · rw [Option.map_map]; rfl
  · rename_i c r _ _ _ _ _ _
    have hc : isWordChar c = false := hr c (by simp)
    simp only [hc, Bool.false_eq_true, if_false]
    split_ifs
    · rw [Option.map_map]; rfl
    · cases symbol? c with
      | none => rfl
      | some t => rw [Option.bind_some, Option.bind_some, Option.map_map]; rfl

/-- **A word up to where it breaks off.** -/
theorem lexFrom_text {s r : List Char} (hs : ∀ c ∈ s, isWordChar c) (hne : s ≠ []) (hr : Breaks r) :
    lexFrom [] (s ++ r) = (lexFrom [] r).map (.word (String.ofList s) :: ·) := by
  rw [lexFrom_words hs, List.nil_append, lexFrom_break hr]
  have : s.isEmpty = false := by simpa using hne
  simp [flush, this]

theorem breaks_nil : Breaks [] := by simp [Breaks]

theorem breaks_cons {c : Char} (h : isWordChar c = false) (r : List Char) : Breaks (c :: r) := by
  simpa [Breaks] using h

@[simp] theorem lexFrom_blank (r : List Char) : lexFrom [] (' ' :: r) = lexFrom [] r := by
  rw [lexFrom]
  · simp [isWordChar, flush]
  all_goals simp

/-- A character that starts no longer operator. -/
theorem lexFrom_symbol {c : Char} {t : Token} (h : symbol? c = some t)
    (hc : c ≠ '|' ∧ c ≠ '&' ∧ c ≠ '<' ∧ c ≠ '>') (r : List Char) :
    lexFrom [] (c :: r) = (lexFrom [] r).map (t :: ·) := by
  have hw : isWordChar c = false := by
    unfold symbol? at h
    split at h <;> first | rfl | simp at h
  have hb : c ≠ ' ' := by rintro rfl; simp [symbol?] at h
  have he : c ≠ '=' ∧ c ≠ '!' := by constructor <;> (rintro rfl; simp [symbol?] at h)
  rw [lexFrom]
  · simp [hw, hb, h, flush]
  all_goals intro _ h1; simp_all

/-- **An operator between blanks.** -/
theorem lexFrom_op {op : BinaryOp} (h : op ∈ BinaryOp.all) (r : List Char) :
    lexFrom [] (' ' :: (op.symbol.toList ++ ' ' :: r)) = (lexFrom [] r).map (.op op :: ·) := by
  rw [lexFrom_blank]
  cases op with
  | other s => simp [BinaryOp.all] at h
  | _ => simp [BinaryOp.symbol, lexFrom, symbol?, isWordChar, flush]

end ScriptLift
