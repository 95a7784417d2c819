import ScriptLift.Proofs.Dialect.Legible

/-!
# Shapes of statements

A shape is a statement with its expressions as text. The lines of legible statements give back
their shapes: a reader goes over the lines with a stack of the parts that are open.

* `Shape`, `Dialect.shapes`: the shapes of a statement. Every statement has one, except that a bare
  block has those of its statements and an absent body has none.
* `Line.read`: what a line is by itself; `Scan.step`: what it does to the open parts.
* `Scan.run`: all lines, whatever their indentation.
* **`run_stmt`**, **`run_body`**: after the lines of a statement or a body, its shapes stand in the
  innermost open part.
-/

namespace ScriptLift

/-! ## Shapes -/

mutual

/-- A statement with its expressions as text. -/
inductive Shape where
  | eval (text : String)
  | ifElse (cond : String) (yes no : List Shape)
  | whileLoop (cond : String) (body : List Shape)
  | forLoop (header : String) (body : List Shape)
  | select (scrutinee : String) (arms : List ArmShape)
  | ret
  | brk
  | super

/-- An arm of a select, its value as text. -/
inductive ArmShape where
  | mk (value : String) (body : List Shape)

end

deriving instance Repr for Shape, ArmShape
deriving instance Inhabited for Shape, ArmShape

namespace Dialect

mutual

/-- The shapes of a statement. A second branch without statements is like none. -/
def shapes (d : Dialect) : Stmt → List Shape
  | .missing => []
  | .eval e => [.eval (d.freeExpr e)]
  | .block b => d.bodyShapes b
  | .ifElse c yes no => [.ifElse (d.freeExpr c) (d.bodyShapes yes) (d.bodyShapes no)]
  | .whileLoop c b => [.whileLoop (d.freeExpr c) (d.bodyShapes b)]
  | .forLoop i c u b =>
    [.forLoop (d.freeExpr i ++ "; " ++ d.freeExpr c ++ "; " ++ d.freeExpr u) (d.bodyShapes b)]
  | .select c cases => [.select (d.freeExpr c) (d.armShapes cases)]
  | .ret => [.ret]
  | .brk => [.brk]
  | .super _ => [.super]

/-- The shapes of a body. -/
def bodyShapes (d : Dialect) : List Stmt → List Shape
  | [] => []
  | s :: r => d.shapes s ++ d.bodyShapes r

/-- The shapes of arms. -/
def armShapes (d : Dialect) : List Case → List ArmShape
  | [] => []
  | .mk v b :: r => .mk (d.freeExpr v) (d.bodyShapes b) :: d.armShapes r

end

end Dialect

/-! ## Lines -/

/-- The lines that hold a text between fixed words. -/
inductive Head where
  | ifElse
  | elseIf
  | whileLoop
  | forLoop
  | select
  | arm
  | handler
  deriving Repr, DecidableEq, Inhabited

namespace Head

/-- All heads. -/
def all : List Head := [ifElse, elseIf, whileLoop, forLoop, select, arm, handler]

/-- What such a line starts with. -/
def opening : Head → String
  | ifElse => "if ("
  | elseIf => "\x7d else if ("
  | whileLoop => "while ("
  | forLoop => "for ("
  | select => "select ("
  | arm => "case "
  | handler => "EventHandler "

/-- What such a line ends with. -/
def closing : Head → String
  | arm => ":"
  | _ => ") \x7b"

/-- The text of such a line. -/
def inside? (h : Head) (line : String) : Option String :=
  (Text.cutPrefix? h.opening line).bind (Text.cutSuffix? h.closing)

end Head

/-- What a line is by itself. -/
inductive Line where
  | head (h : Head) (text : String)
  | simple (s : Shape)
  | otherwise
  | close
  | other
  deriving Repr, Inhabited

/-- The statement of one line before its semicolon. -/
def Shape.ofText (t : String) : Shape :=
  if t = "return" then .ret else if t = "break" then .brk else if t = "super" then .super
  else .eval t

/-- What a line without its indentation is. -/
def Line.read (line : String) : Line :=
  match Head.all.findSome? fun h => (h.inside? line).map (Line.head h) with
  | some l => l
  | none =>
    match Text.cutSuffix? ";" line with
    | some t => .simple (.ofText t)
    | none => if line = "\x7d" then .close else if line = "\x7d else \x7b" then .otherwise else .other

theorem cutSuffix?_eq_some_iff {p s t : String} : Text.cutSuffix? p s = some t ↔ s = t ++ p := by
  simp only [Text.cutSuffix?, List.isSuffixOf?, Option.map_map, Option.map_eq_some_iff,
    List.isPrefixOf?_eq_some_iff_append_eq, Function.comp]
  constructor
  · rintro ⟨r, hr, rfl⟩
    have := congrArg List.reverse hr
    exact String.toList_inj.mp (by simpa using this.symm)
  · rintro rfl
    exact ⟨t.toList.reverse, by simp, by simp⟩

namespace Head

variable {h h' : Head} {line t : String}

theorem inside?_eq_some_iff : h.inside? line = some t ↔ line = h.opening ++ t ++ h.closing := by
  simp only [inside?, Option.bind_eq_some_iff, cutPrefix?_eq_some_iff, cutSuffix?_eq_some_iff]
  constructor
  · rintro ⟨r, rfl, rfl⟩
    exact (String.append_assoc ..).symm
  · rintro rfl
    exact ⟨t ++ h.closing, String.append_assoc .., rfl⟩

theorem take_opening (ht : h.inside? line = some t) : line.toList.take 2 = h.opening.toList.take 2 := by
  rw [inside?_eq_some_iff] at ht
  subst ht
  rw [String.toList_append, String.toList_append, List.append_assoc, List.take_append_of_le_length]
  cases h <;> decide

/-- Lines of different heads differ in the first two characters. -/
theorem eq_of_take (htake : h.opening.toList.take 2 = h'.opening.toList.take 2) : h = h' := by
  revert htake
  cases h <;> cases h' <;> decide

theorem getLast_closing (ht : h.inside? line = some t) :
    line.toList.getLast? = h.closing.toList.getLast? := by
  rw [inside?_eq_some_iff] at ht
  subst ht
  rw [String.toList_append, List.getLast?_append_of_ne_nil]
  cases h <;> decide

end Head

namespace Line

variable {line t : String}

theorem read_head (h : Head) (t : String) :
    Line.read (h.opening ++ t ++ h.closing) = .head h t := by
  have hself : h.inside? (h.opening ++ t ++ h.closing) = some t := Head.inside?_eq_some_iff.mpr rfl
  have hfind : (Head.all.findSome? fun h' =>
      (h'.inside? (h.opening ++ t ++ h.closing)).map (Line.head h')) = some (.head h t) := by
    cases hf : Head.all.findSome? _ with
    | none =>
      have := List.findSome?_eq_none_iff.mp hf h (by cases h <;> decide)
      simp [hself] at this
    | some l =>
      obtain ⟨h', -, hl⟩ := List.exists_of_findSome?_eq_some hf
      obtain ⟨t', ht', rfl⟩ := Option.map_eq_some_iff.mp hl
      -- no other head starts like this one
      obtain rfl : h' = h :=
        Head.eq_of_take ((Head.take_opening ht').symm.trans (Head.take_opening hself))
      rw [hself, Option.some.injEq] at ht'
      rw [ht']
  rw [Line.read, hfind]

theorem findSome?_of_inside? (hnone : ∀ h : Head, h.inside? line = none) :
    (Head.all.findSome? fun h => (h.inside? line).map (Line.head h)) = none :=
  List.findSome?_eq_none_iff.mpr fun h _ => by rw [hnone h]; rfl

/-- A line without head is read as none. -/
theorem read_ne_head (hnone : ∀ h : Head, h.inside? line = none) (h : Head) (t : String) :
    Line.read line ≠ .head h t := by
  intro hread
  rw [Line.read, findSome?_of_inside? hnone] at hread
  dsimp only at hread
  split at hread
  · cases hread
  · split_ifs at hread

theorem inside?_semicolon (h : Head) (t : String) : h.inside? (t ++ ";") = none := by
  refine Option.eq_none_iff_forall_ne_some.mpr fun u hu => ?_
  have hlast := Head.getLast_closing hu
  rw [String.toList_append, List.getLast?_append_of_ne_nil _ (by decide)] at hlast
  revert hlast
  cases h <;> decide

theorem read_simple (t : String) : Line.read (t ++ ";") = .simple (.ofText t) := by
  rw [Line.read, findSome?_of_inside? (inside?_semicolon · t), cutSuffix?_eq_some_iff.mpr rfl]

end Line

theorem Shape.ofText_of_not_mem {t : String} (h : t ∉ statementWords) : Shape.ofText t = .eval t := by
  simp only [statementWords, List.mem_cons, List.not_mem_nil, or_false, not_or] at h
  rw [Shape.ofText, if_neg h.1, if_neg h.2.1, if_neg h.2.2]

/-! ## The reader -/

/-- A handler: its name, the names of its variables and the shapes of its body. -/
structure HandlerShape where
  name : String
  locals : List String
  body : List Shape
  deriving Repr, Inhabited

/-- The shape of a handler. -/
def Dialect.handlerShape (d : Dialect) (h : Handler) : HandlerShape :=
  ⟨h.name, h.locals.map Variable.name, d.bodyShapes h.body⟩

/-- The words of a text. -/
def words (s : String) : List String :=
  ((s.toList.splitOnP (!isWordChar ·)).filter (· ≠ [])).map String.ofList

/-- A text without the tabs in front. -/
def unindented (s : String) : String := String.ofList (s.toList.dropWhile (· == '\t'))

theorem unindented_of_ne_tab {s : String} (h : s.toList.head? ≠ some '\t') : unindented s = s := by
  rw [unindented, List.dropWhile_eq_self_iff.mpr, String.ofList_toList]
  intro hlen
  rw [List.head?_eq_getElem?, List.getElem?_eq_getElem hlen] at h
  simpa using h

/-- A part of the source that is open. -/
inductive Part where
  /-- The first branch of a conditional, after the conditions of its chain that came before, with
  their branches. -/
  | yes (chain : List (String × List Shape)) (cond : String)
  /-- The last branch of a chain. -/
  | no (chain : List (String × List Shape))
  | whileLoop (cond : String)
  | forLoop (header : String)
  /-- A select with the arms that are closed, and the value of the arm that is open. -/
  | select (scrutinee : String) (arms : List ArmShape) (value? : Option String)
  | handler (name : String) (locals : List String)
  deriving Repr, Inhabited

/-- The conditionals of a chain, each the second branch of the one before. -/
def chained (chain : List (String × List Shape)) (no : List Shape) : List Shape :=
  chain.foldr (fun p rest => [.ifElse p.1 p.2 rest]) no

@[simp] theorem chained_concat (chain : List (String × List Shape)) (c : String)
    (yes no : List Shape) : chained (chain ++ [(c, yes)]) no = chained chain [.ifElse c yes no] := by
  simp [chained]

/-- The arms of a select, the open one closed. -/
def closedArms (arms : List ArmShape) : Option String → List Shape → List ArmShape
  | none, _ => arms
  | some v, b => arms ++ [.mk v b]

/-- Where the reader stands: the handlers that are closed, and the parts that are open, innermost
first, with the statements read in each. -/
structure Scan where
  handlers : List HandlerShape
  stack : List (Part × List Shape)
  deriving Repr, Inhabited

namespace Scan

/-- Statements are added to the innermost open part. -/
def add (st : Scan) (ss : List Shape) : Scan :=
  match st.stack with
  | [] => st
  | (p, b) :: r => ⟨st.handlers, (p, b ++ ss) :: r⟩

/-- A part is opened. -/
def push (st : Scan) (p : Part) : Scan := ⟨st.handlers, (p, []) :: st.stack⟩

/-- A part that stood inside is closed. -/
def finish (st : Scan) : Part → List Shape → Scan
  | .yes chain c, b => st.add (chained chain [.ifElse c b []])
  | .no chain, b => st.add (chained chain b)
  | .whileLoop c, b => st.add [.whileLoop c b]
  | .forLoop h, b => st.add [.forLoop h b]
  | .select c arms v?, b => st.add [.select c (closedArms arms v? b)]
  | .handler name locals, b => ⟨st.handlers ++ [⟨name, locals, b⟩], st.stack⟩

/-- What a line does. A line that fits nowhere does nothing. -/
def step (st : Scan) : Line → Scan
  | .head .ifElse c => st.push (.yes [] c)
  | .head .elseIf c =>
    match st.stack with
    | (.yes chain c', b) :: r => ⟨st.handlers, (.yes (chain ++ [(c', b)]) c, []) :: r⟩
    | _ => st
  | .otherwise =>
    match st.stack with
    | (.yes chain c', b) :: r => ⟨st.handlers, (.no (chain ++ [(c', b)]), []) :: r⟩
    | _ => st
  | .head .whileLoop c => st.push (.whileLoop c)
  | .head .forLoop h => st.push (.forLoop h)
  | .head .select c => st.push (.select c [] none)
  | .head .arm v =>
    match st.stack with
    | (.select c arms v?, b) :: r =>
      ⟨st.handlers, (.select c (closedArms arms v? b) (some v), []) :: r⟩
    | _ => st
  | .head .handler t =>
    match words t with
    | [] => st
    | name :: locals => st.push (.handler name locals)
  | .simple s => st.add [s]
  | .close =>
    match st.stack with
    | [] => st
    | (p, b) :: r => finish ⟨st.handlers, r⟩ p b
  | .other => st

/-- A line with its indentation. -/
def readLine (st : Scan) (line : String) : Scan := st.step (Line.read (unindented line))

/-- All lines. -/
def run (st : Scan) (lines : List String) : Scan := lines.foldl readLine st

variable {st : Scan}

@[simp] theorem run_nil : st.run [] = st := rfl

theorem run_cons (l : String) (ls : List String) : st.run (l :: ls) = (st.readLine l).run ls :=
  List.foldl_cons ..

theorem run_append (ls ls' : List String) : st.run (ls ++ ls') = (st.run ls).run ls' :=
  List.foldl_append

theorem add_nil : st.add [] = st := by
  unfold add
  split
  · rfl
  · rename_i h
    rw [List.append_nil, ← h]

theorem add_add (a b : List Shape) : (st.add a).add b = st.add (a ++ b) := by
  obtain ⟨hs, _ | ⟨⟨p, b⟩, r⟩⟩ := st <;> simp [add]

theorem add_open {hs : List HandlerShape} {p : Part} {r : List (Part × List Shape)}
    (ss : List Shape) : add ⟨hs, (p, []) :: r⟩ ss = ⟨hs, (p, ss) :: r⟩ := rfl

theorem readLine_head (h : Head) (t : String) :
    st.readLine (h.opening ++ t ++ h.closing) = st.step (.head h t) := by
  rw [readLine, unindented_of_ne_tab, Line.read_head]
  rw [String.toList_append, String.toList_append, List.append_assoc,
    List.head?_append_of_ne_nil _ (by cases h <;> decide)]
  cases h <;> decide

theorem readLine_if (c : String) :
    st.readLine ("if (" ++ c ++ ") \x7b") = st.push (.yes [] c) := readLine_head .ifElse c

theorem readLine_while (c : String) :
    st.readLine ("while (" ++ c ++ ") \x7b") = st.push (.whileLoop c) := readLine_head .whileLoop c

theorem readLine_for (h : String) :
    st.readLine ("for (" ++ h ++ ") \x7b") = st.push (.forLoop h) := readLine_head .forLoop h

theorem readLine_select (c : String) :
    st.readLine ("select (" ++ c ++ ") \x7b") = st.push (.select c [] none) := readLine_head .select c

section

variable {hs : List HandlerShape} {chain : List (String × List Shape)} {c x : String}
  {b : List Shape} {arms : List ArmShape} {v? : Option String} {p : Part}
  {r : List (Part × List Shape)}

theorem readLine_elseIf (c' : String) :
    readLine ⟨hs, (.yes chain c, b) :: r⟩ ("\x7d else if (" ++ c' ++ ") \x7b") =
      ⟨hs, (.yes (chain ++ [(c, b)]) c', []) :: r⟩ := readLine_head .elseIf c'

theorem readLine_case (v : String) :
    readLine ⟨hs, (.select x arms v?, b) :: r⟩ ("case " ++ v ++ ":") =
      ⟨hs, (.select x (closedArms arms v? b) (some v), []) :: r⟩ := readLine_head .arm v

theorem readLine_otherwise : readLine ⟨hs, (.yes chain c, b) :: r⟩ "\x7d else \x7b" =
    ⟨hs, (.no (chain ++ [(c, b)]), []) :: r⟩ := rfl

theorem readLine_close : readLine ⟨hs, (p, b) :: r⟩ "\x7d" = finish ⟨hs, r⟩ p b := rfl

end

theorem readLine_simple {t : String} (h : isLine t) :
    st.readLine (t ++ ";") = st.add [.ofText t] := by
  rw [readLine, unindented_of_ne_tab, Line.read_simple, step]
  exact head_ne_tab (isLine_append h (by decide))

theorem readLine_empty : st.readLine "" = st := rfl

end Scan

/-! ## Statements -/

open Scan

/-- What the lines of a statement do to the reader, whatever is open. -/
structure ReadsBack (s : Stmt) : Prop where
  /-- Among the statements of a body. -/
  alone : ∀ st : Scan, st.run (Dialect.default.stmtLines "" s) = st.add (Dialect.default.shapes s)
  /-- As the only statement of a second branch, for a conditional. -/
  inElse : s.isIf → ∀ hs chain c b r,
    run ⟨hs, (.yes chain c, b) :: r⟩ (Dialect.default.stmtLines "\x7d else " s) =
      add ⟨hs, r⟩ (chained chain [.ifElse c b (Dialect.default.shapes s)])

theorem ReadsBack.of_not_if {s : Stmt} (hif : s.isIf = false)
    (h : ∀ st : Scan, st.run (Dialect.default.stmtLines "" s) = st.add (Dialect.default.shapes s)) :
    ReadsBack s :=
  ⟨h, fun hs => absurd hs (by simp [hif])⟩

/-- A second branch is left out when it is absent, and a single conditional in it is chained. -/
theorem Dialect.elseLines_cons (d : Dialect) (s : Stmt) (r : List Stmt) :
    (s = .missing ∧ r = [] ∧ d.elseLines (s :: r) = ["\x7d"]) ∨
      (s.isIf ∧ r = [] ∧ d.elseLines (s :: r) = d.stmtLines "\x7d else " s) ∨
      d.elseLines (s :: r) = "\x7d else \x7b" :: (d.stmtLines "" s ++ d.bodyLines r ++ ["\x7d"]) := by
  generalize hsr : s :: r = no
  unfold Dialect.elseLines
  split
  · cases hsr
  · obtain ⟨rfl, rfl⟩ := List.cons.inj hsr
    exact .inl ⟨rfl, rfl, rfl⟩
  · obtain ⟨rfl, rfl⟩ := List.cons.inj hsr
    exact .inr (.inl ⟨rfl, rfl, rfl⟩)
  · obtain ⟨rfl, rfl⟩ := List.cons.inj hsr
    exact .inr (.inr rfl)

/-- The lines of a second branch, when those of its statements read back. -/
theorem run_else_cons {s : Stmt} {r : List Stmt} (hs : ReadsBack s)
    (hr : ∀ st : Scan, st.run (Dialect.default.bodyLines r) = st.add (Dialect.default.bodyShapes r))
    (handlers : List HandlerShape) (chain : List (String × List Shape)) (c : String)
    (b : List Shape) (stack : List (Part × List Shape)) :
    run ⟨handlers, (.yes chain c, b) :: stack⟩ (Dialect.default.elseLines (s :: r)) =
      add ⟨handlers, stack⟩ (chained chain [.ifElse c b (Dialect.default.bodyShapes (s :: r))]) := by
  rw [Dialect.bodyShapes]
  obtain ⟨rfl, rfl, h⟩ | ⟨hif, rfl, h⟩ | h := Dialect.default.elseLines_cons s r
  · rw [h]
    rfl
  · rw [h, hs.inElse hif, Dialect.bodyShapes, List.append_nil]
  · rw [h, run_cons, readLine_otherwise, run_append, run_append, hs.alone, hr, add_add, add_open,
      run_cons, readLine_close, finish, chained_concat, run_nil]

mutual

/-- **The lines of a legible statement add its shapes.** -/
theorem run_stmt : ∀ {s : Stmt}, s.isLegible → ReadsBack s
  | .missing, _ => .of_not_if rfl fun st => by simp [Dialect.stmtLines, Dialect.shapes, add_nil]
  | .eval e, h => .of_not_if rfl fun st => by
    rw [Dialect.stmtLines, Dialect.shapes, Dialect.freeExpr, run_cons, run_nil,
      readLine_simple (isLine_expr h .free), Shape.ofText_of_not_mem (expr_ne_word h)]
  | .block b, h => .of_not_if rfl fun st => by
    rw [Dialect.stmtLines, Dialect.shapes, run_append, run_body h]
    rfl
  | .ifElse c yes no, h => by
    simp only [Stmt.isLegible, Bool.and_eq_true] at h
    refine ⟨fun st => ?_, fun _ hs chain c' b r => ?_⟩
    · rw [Dialect.stmtLines, Dialect.shapes, String.empty_append, run_cons, readLine_if, run_append,
        run_body h.1.2, push, add_open, run_else h.2]
      rfl
    -- the chain goes on: what stood before joins it, and the second branch is again a second branch
    · have hlead : "\x7d else " ++ "if (" = "\x7d else if (" := by decide
      rw [Dialect.stmtLines, Dialect.shapes, hlead, run_cons, readLine_elseIf, run_append,
        run_body h.1.2, add_open, run_else h.2, chained_concat]
  | .whileLoop c b, h => .of_not_if rfl fun st => by
    simp only [Stmt.isLegible, Bool.and_eq_true] at h
    rw [Dialect.stmtLines, Dialect.shapes, run_cons, readLine_while, run_append, run_body h.2,
      push, add_open, run_cons, readLine_close]
    rfl
  | .forLoop i c u b, h => .of_not_if rfl fun st => by
    simp only [Stmt.isLegible, Bool.and_eq_true] at h
    rw [Dialect.stmtLines, Dialect.shapes, run_cons]
    have hheader := @readLine_for st (Dialect.default.freeExpr i ++ "; "
      ++ Dialect.default.freeExpr c ++ "; " ++ Dialect.default.freeExpr u)
    simp only [String.append_assoc] at hheader ⊢
    rw [hheader, run_append, run_body h.2, push, add_open, run_cons, readLine_close]
    rfl
  | .select c cases, h => .of_not_if rfl fun st => by
    simp only [Stmt.isLegible, Bool.and_eq_true] at h
    rw [Dialect.stmtLines, Dialect.shapes, run_cons, readLine_select, push, run_cases h.2]
    rfl
  | .ret, _ => .of_not_if rfl fun st => rfl
  | .brk, _ => .of_not_if rfl fun st => rfl
  | .super _, _ => .of_not_if rfl fun st => rfl

/-- **The lines of a legible body add its shapes.** -/
theorem run_body : ∀ {b : List Stmt}, Stmt.areLegible b → ∀ st : Scan,
    st.run (Dialect.default.bodyLines b) = st.add (Dialect.default.bodyShapes b)
  | [], _, st => by simp [Dialect.bodyLines, Dialect.bodyShapes, add_nil]
  | s :: r, h, st => by
    simp only [Stmt.areLegible, Bool.and_eq_true] at h
    rw [Dialect.bodyLines, Dialect.bodyShapes, run_append, (run_stmt h.1).alone, run_body h.2,
      add_add]

/-- The lines of a legible second branch close the conditional. -/
theorem run_else : ∀ {no : List Stmt}, Stmt.areLegible no → ∀ hs chain c b r,
    run ⟨hs, (.yes chain c, b) :: r⟩ (Dialect.default.elseLines no) =
      add ⟨hs, r⟩ (chained chain [.ifElse c b (Dialect.default.bodyShapes no)])
  | [], _, hs, chain, c, b, r => rfl
  | s :: r, h, hs, chain, c, b, stack => by
    simp only [Stmt.areLegible, Bool.and_eq_true] at h
    exact run_else_cons (run_stmt h.1) (run_body h.2) hs chain c b stack

/-- The lines of legible arms close the arm before them, and the last brace the select. -/
theorem run_cases : ∀ {cases : List Case}, Stmt.casesLegible cases → ∀ hs x arms v? b r,
    run ⟨hs, (.select x arms v?, b) :: r⟩ (Dialect.default.caseLines cases ++ ["\x7d"]) =
      add ⟨hs, r⟩ [.select x (closedArms arms v? b ++ Dialect.default.armShapes cases)]
  | [], _, hs, x, arms, v?, b, r => by
    rw [Dialect.caseLines, Dialect.armShapes, List.append_nil]
    rfl
  | .mk v body :: rest, h, hs, x, arms, v?, b, r => by
    simp only [Stmt.casesLegible, Bool.and_eq_true] at h
    rw [Dialect.caseLines, Dialect.armShapes, List.cons_append, List.append_assoc, run_cons,
      readLine_case, run_append, run_body h.1.2, add_open, run_cases h.2]
    simp only [closedArms, List.append_assoc, List.singleton_append]

end

end ScriptLift
