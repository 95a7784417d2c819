import ScriptLift.Proofs.Dialect.ClassReading

/-!
# Indentation follows nesting

The layout sees only the first and the last character of each line, and counts depth along the way. On
the lines of a class it finds every line at the level of the block in which the line was written.

* `ClassDecl.isTidy`: names are identifiers, texts stand on one line.
* `Dialect.stmtLevels`, `Dialect.classLevels`: the lines of a statement and of a class with the levels at
  which they are to stand.
* `Layout.Stands`: the layout finds lines at their levels; one rule for each kind of line.
* `stands_stmt`, `stands_class`: it does so for statements and for classes.
* **`indentation_source`**: in the source of a class every line has as many tabs as its level says, and
  the depth is never negative and comes back to zero.
-/

namespace ScriptLift

/-! ## Tidy classes -/

/-- A character that counts at the front of a line. -/
def isMargin (c : Char) : Bool := c == '\t' || c == '}'

theorem isMargin_iff (c : Char) (h : isMargin c) : c = '\t' ∨ c = '}' := by
  simpa [isMargin] using h

namespace Stmt

mutual

/-- Whether all expressions of a statement are tidy. -/
def isTidy : Stmt → Bool
  | .missing | .ret | .brk | .super _ => true
  | .eval e => e.isTidy isMargin
  | .block b => areTidy b
  | .ifElse c yes no => c.isTidy isMargin && areTidy yes && areTidy no
  | .whileLoop c b => c.isTidy isMargin && areTidy b
  | .forLoop i c u b => i.isTidy isMargin && c.isTidy isMargin && u.isTidy isMargin && areTidy b
  | .select c cases => c.isTidy isMargin && casesTidy cases

/-- Whether all statements of a body are tidy. -/
def areTidy : List Stmt → Bool
  | [] => true
  | s :: r => s.isTidy && areTidy r

/-- Whether all arms are tidy. -/
def casesTidy : List Case → Bool
  | [] => true
  | .mk v b :: r => v.isTidy isMargin && areTidy b && casesTidy r

end

end Stmt

/-- Whether a parameter is tidy. -/
def Parameter.isTidy (p : Parameter) : Bool :=
  isIdentifier p.type && isIdentifier p.name && p.value.isTidy isMargin

/-- Whether a property table is tidy. -/
def Property.isTidy (p : Property) : Bool :=
  isIdentifier p.type && isIdentifier p.name
    && p.rows.all fun r => r.cells.all oneLine && oneLine r.comment

/-- Whether a handler is tidy. -/
def Handler.isTidy (h : Handler) : Bool :=
  isIdentifier h.name && h.locals.all (fun v => isIdentifier v.name) && Stmt.areTidy h.body

/-- **Whether a class is tidy**: its names are identifiers and its texts stand on one line. -/
def ClassDecl.isTidy (c : ClassDecl) : Bool :=
  isIdentifier c.name && (c.super.isEmpty || isIdentifier c.super) && c.parameters.all Parameter.isTidy
    && c.properties.all Property.isTidy && c.handlers.all Handler.isTidy

/-! ## Levels -/

namespace Dialect

mutual

/-- The lines of a statement of a block at level `n`, with their levels. What closes a statement and the
labels of its arms stand where it opens; its bodies stand one level deeper. -/
def stmtLevels (d : Dialect) (n : Nat) (lead : String) : Stmt → List (Nat × String)
  | .missing => []
  | .eval e => [(n, d.freeExpr e ++ ";")]
  | .block b => d.bodyLevels n b ++ [(n, "")]
  | .ifElse c yes no =>
    (n, lead ++ "if (" ++ d.freeExpr c ++ ") \x7b") :: (d.bodyLevels (n + 1) yes ++ d.elseLevels n no)
  | .whileLoop c b =>
    (n, "while (" ++ d.freeExpr c ++ ") \x7b") :: (d.bodyLevels (n + 1) b ++ [(n, "\x7d")])
  | .forLoop i c u b =>
    (n, "for (" ++ d.freeExpr i ++ "; " ++ d.freeExpr c ++ "; " ++ d.freeExpr u ++ ") \x7b")
      :: (d.bodyLevels (n + 1) b ++ [(n, "\x7d")])
  | .select c cases =>
    (n, "select (" ++ d.freeExpr c ++ ") \x7b") :: (d.caseLevels n cases ++ [(n, "\x7d")])
  | .ret => [(n, "return;")]
  | .brk => [(n, "break;")]
  | .super _ => [(n, "super;")]

/-- The lines of a block at level `n`. -/
def bodyLevels (d : Dialect) (n : Nat) : List Stmt → List (Nat × String)
  | [] => []
  | s :: r => d.stmtLevels n "" s ++ d.bodyLevels n r

/-- The lines of a conditional at level `n` from the brace that closes its first branch on. -/
def elseLevels (d : Dialect) (n : Nat) : List Stmt → List (Nat × String)
  | [] => [(n, "\x7d")]
  | [.missing] => [(n, "\x7d")]
  | [.ifElse c yes no] => d.stmtLevels n "\x7d else " (.ifElse c yes no)
  | s :: r =>
    (n, "\x7d else \x7b")
      :: (d.stmtLevels (n + 1) "" s ++ d.bodyLevels (n + 1) r ++ [(n, "\x7d")])

/-- The lines of the arms of a select at level `n`. -/
def caseLevels (d : Dialect) (n : Nat) : List Case → List (Nat × String)
  | [] => []
  | .mk v b :: r =>
    (n, "case " ++ d.freeExpr v ++ ":") :: (d.bodyLevels (n + 1) b ++ d.caseLevels n r)

end

/-- The lines of a property table: its rows stand one level below its header. -/
def propertyLevels (p : Property) : List (Nat × String) :=
  let head := p.type ++ " " ++ p.name ++ " = \x7b"
  if p.rows.isEmpty then [(1, head ++ "\x7d;")]
  else (1, head) :: ((rowLines p.rows).map (2, ·) ++ [(1, "\x7d;")])

/-- The lines of a handler. -/
def handlerLevels (d : Dialect) (h : Handler) : List (Nat × String) :=
  (1, "EventHandler " ++ h.name ++ "(" ++ h.variableNames ++ ") \x7b")
    :: (d.bodyLevels 2 h.body ++ [(1, "\x7d")])

/-- A titled section: its title stands where the class does. -/
def titledLevels (title : String) (follows : Bool) (lines : List (Nat × String)) :
    List (Nat × String) :=
  if lines.isEmpty then [] else (if follows then [(1, "")] else []) ++ (0, title) :: lines

/-- The lines of a class with their levels. -/
def classLevels (d : Dialect) (c : ClassDecl) : List (Nat × String) :=
  let parameters := c.parameters.map fun p => (1, d.parameterLine p)
  let properties := c.properties.flatMap propertyLevels
  let handlers := c.handlers.flatMap d.handlerLevels
  (d.optionLines c.kind).map (0, ·)
    ++ (0, "class " ++ c.name ++ (if c.super.isEmpty then "" else " : " ++ c.super) ++ " \x7b")
      :: titledLevels "parameter:" false parameters
    ++ titledLevels "property:" (!parameters.isEmpty) properties
    ++ titledLevels "handler:" (!parameters.isEmpty || !properties.isEmpty) handlers
    ++ [(0, "\x7d")]

/-! ### The lines themselves -/

/-- What stands after the first branch of a conditional, as lines and with levels. -/
theorem elseLevels_cons (d : Dialect) (n : Nat) (s : Stmt) (r : List Stmt) :
    (d.elseLevels n (s :: r) = [(n, "\x7d")] ∧ d.elseLines (s :: r) = ["\x7d"]) ∨
    (s.isIf ∧ d.elseLevels n (s :: r) = d.stmtLevels n "\x7d else " s ∧
      d.elseLines (s :: r) = d.stmtLines "\x7d else " s) ∨
    (d.elseLevels n (s :: r) = (n, "\x7d else \x7b")
        :: (d.stmtLevels (n + 1) "" s ++ d.bodyLevels (n + 1) r ++ [(n, "\x7d")]) ∧
      d.elseLines (s :: r) = "\x7d else \x7b" :: (d.stmtLines "" s ++ d.bodyLines r ++ ["\x7d"])) := by
  cases r with
  | cons t r => exact .inr (.inr ⟨by rw [elseLevels] <;> simp, by rw [elseLines] <;> simp⟩)
  | nil =>
    cases s with
    | missing => exact .inl ⟨by rw [elseLevels], by rw [elseLines]⟩
    | ifElse c yes no => exact .inr (.inl ⟨rfl, by rw [elseLevels], by rw [elseLines]⟩)
    | _ => exact .inr (.inr ⟨by rw [elseLevels] <;> simp, by rw [elseLines] <;> simp⟩)

mutual

theorem map_stmtLevels (d : Dialect) (n : Nat) (lead : String) :
    ∀ s : Stmt, (d.stmtLevels n lead s).map Prod.snd = d.stmtLines lead s
  | .missing | .eval _ | .ret | .brk | .super _ => by simp [stmtLevels, stmtLines]
  | .block b => by simp [stmtLevels, stmtLines, map_bodyLevels d n b]
  | .ifElse _ yes no => by
    simp [stmtLevels, stmtLines, map_bodyLevels d (n + 1) yes, map_elseLevels d n no]
  | .whileLoop _ b => by simp [stmtLevels, stmtLines, map_bodyLevels d (n + 1) b]
  | .forLoop _ _ _ b => by simp [stmtLevels, stmtLines, map_bodyLevels d (n + 1) b]
  | .select _ cases => by simp [stmtLevels, stmtLines, map_caseLevels d n cases]

theorem map_bodyLevels (d : Dialect) (n : Nat) :
    ∀ b : List Stmt, (d.bodyLevels n b).map Prod.snd = d.bodyLines b
  | [] => by simp [bodyLevels, bodyLines]
  | s :: r => by simp [bodyLevels, bodyLines, map_stmtLevels d n "" s, map_bodyLevels d n r]

theorem map_elseLevels (d : Dialect) (n : Nat) :
    ∀ no : List Stmt, (d.elseLevels n no).map Prod.snd = d.elseLines no
  | [] => by simp [elseLevels, elseLines]
  | s :: r => by
    obtain ⟨hlevels, hlines⟩ | ⟨-, hlevels, hlines⟩ | ⟨hlevels, hlines⟩ := d.elseLevels_cons n s r
    · rw [hlevels, hlines]
      rfl
    · rw [hlevels, hlines, map_stmtLevels d n _ s]
    · rw [hlevels, hlines]
      simp [map_stmtLevels d (n + 1) "" s, map_bodyLevels d (n + 1) r]

theorem map_caseLevels (d : Dialect) (n : Nat) :
    ∀ cases : List Case, (d.caseLevels n cases).map Prod.snd = d.caseLines cases
  | [] => by simp [caseLevels, caseLines]
  | .mk _ b :: r => by
    simp [caseLevels, caseLines, map_bodyLevels d (n + 1) b, map_caseLevels d n r]

end

theorem map_propertyLevels (p : Property) : (propertyLevels p).map Prod.snd = propertyLines p := by
  unfold propertyLevels propertyLines
  split_ifs <;> simp [Function.comp_def]

theorem map_handlerLevels (d : Dialect) (h : Handler) :
    (d.handlerLevels h).map Prod.snd = d.handlerLines h := by
  simp [handlerLevels, handlerLines, map_bodyLevels]

theorem map_titledLevels (title : String) (follows : Bool) (lines : List (Nat × String)) :
    (titledLevels title follows lines).map Prod.snd = titled title follows (lines.map Prod.snd) := by
  unfold titledLevels titled
  rw [List.isEmpty_map]
  split_ifs <;> simp

/-- **The levels are those of the lines of a class.** -/
theorem map_classLevels (d : Dialect) (c : ClassDecl) :
    (d.classLevels c).map Prod.snd = d.classLines c := by
  have hparameters : (c.parameters.map fun p => (1, d.parameterLine p)).map Prod.snd =
      c.parameters.map d.parameterLine := by simp
  have hproperties : (c.properties.flatMap propertyLevels).map Prod.snd =
      c.properties.flatMap propertyLines := by simp [List.map_flatMap, map_propertyLevels]
  have hhandlers : (c.handlers.flatMap d.handlerLevels).map Prod.snd =
      c.handlers.flatMap d.handlerLines := by simp [List.map_flatMap, map_handlerLevels]
  have hempty : ∀ ps : List (Nat × String), (ps.map Prod.snd).isEmpty = ps.isEmpty :=
    fun ps => List.isEmpty_map
  simp only [classLevels, classLines, List.map_append, List.map_cons, List.map_map,
    map_titledLevels, ← hparameters, ← hproperties, ← hhandlers, hempty]
  simp [Function.comp_def]

end Dialect

/-! ## The layout of a walk over lines -/

namespace Layout

/-- The layout goes from depth `n` to depth `m` over lines that stand at their levels. No line has a tab
in front or a line feed. -/
inductive Stands : Nat → List (Nat × String) → Nat → Prop
  | nil (n : Nat) : Stands n [] n
  | cons {n k j m : Nat} {line : String} {rest : List (Nat × String)} (hfeed : oneLine line)
      (htab : line.toList.head? ≠ some '\t') (hat : depthAt ⟨n, none⟩ line.toList = k)
      (hnext : (next ⟨n, none⟩ line.toList).depth = j) (hrest : Stands j rest m) :
      Stands n ((k, line) :: rest) m

namespace Stands

variable {n m l k : Nat} {line : String} {ps qs : List (Nat × String)}

theorem append (h : Stands n ps m) (h' : Stands m qs l) : Stands n (ps ++ qs) l := by
  induction h with
  | nil => exact h'
  | cons hfeed htab hat hnext _ ih => exact .cons hfeed htab hat hnext (ih h')

/-! ### Kinds of lines -/

theorem head_of_avoids (h : avoids isMargin line) :
    line.toList.head? ≠ some '\t' ∧ line.toList.head? ≠ some '}' := by
  have hfront := (avoids_iff.mp h).2
  constructor <;>
  · intro hhead
    obtain ⟨r, hr⟩ := List.head?_eq_some_iff.mp hhead
    rw [hr, List.dropWhile_cons_of_neg (by decide)] at hfront
    exact absurd (hfront _ rfl) (by decide)

/-- A line that leaves the depth as it is. -/
theorem plain (h : avoids isMargin line) (hcolon : line.toList.getLast? ≠ some ':')
    (hbrace : line.toList.getLast? ≠ some '{') (hrest : Stands n ps m) :
    Stands n ((n, line) :: ps) m := by
  obtain ⟨htab, hhead⟩ := head_of_avoids h
  refine .cons (oneLine_of_avoids h) htab ?_ ?_ hrest <;>
    simp [next, depthAt, stepsBack, opens, hhead, hcolon, hbrace]

/-- A line that opens a block. -/
theorem opening (h : avoids isMargin line) (hlast : line.toList.getLast? = some '{')
    (hrest : Stands (n + 1) ps m) : Stands n ((n, line) :: ps) m := by
  obtain ⟨htab, hhead⟩ := head_of_avoids h
  refine .cons (oneLine_of_avoids h) htab ?_ ?_ hrest <;>
    simp [next, depthAt, stepsBack, opens, hhead, hlast]

/-- A label, between the lines it stands among. -/
theorem label (h : avoids isMargin line) (hlast : line.toList.getLast? = some ':')
    (hrest : Stands (n + 1) ps m) : Stands (n + 1) ((n, line) :: ps) m := by
  obtain ⟨htab, hhead⟩ := head_of_avoids h
  refine .cons (oneLine_of_avoids h) htab ?_ ?_ hrest <;>
    simp [next, depthAt, stepsBack, opens, hlast]

/-- A line that closes a block. -/
theorem closing (h : line = "\x7d" ∨ line = "\x7d;") (hrest : Stands n ps m) :
    Stands (n + 1) ((n, line) :: ps) m := by
  obtain rfl | rfl := h <;>
  · refine .cons (by decide) (by decide) ?_ ?_ hrest <;> simp [next, depthAt, stepsBack, opens]

/-- A line that closes a block and opens the next. -/
theorem between (hfeed : oneLine line) (hhead : line.toList.head? = some '}')
    (hlast : line.toList.getLast? = some '{') (hrest : Stands (n + 1) ps m) :
    Stands (n + 1) ((n, line) :: ps) m := by
  refine .cons hfeed (by rw [hhead]; decide) ?_ ?_ hrest <;>
    simp [next, depthAt, stepsBack, opens, hhead, hlast]

end Stands

/-! ### The layout of lines that stand at their levels -/

/-- The state after lines. -/
def after (s : State) (lines : List String) : State := lines.foldl (fun s line => next s line.toList) s

variable {n m : Nat} {s : State} {ps : List (Nat × String)}

/-- Where a line stands and leads depends on the depth only. -/
theorem depth_eq (hs : s.depth = n) (line : List Char) :
    depthAt s line = depthAt ⟨n, none⟩ line ∧ (next s line).depth = (next ⟨n, none⟩ line).depth := by
  rw [← hs]
  exact ⟨rfl, rfl⟩

/-- Over lines that stand at their levels the depth is never negative. -/
theorem Stands.nonneg (h : Stands n ps m) (hs : s.depth = n) : ∀ front line rest,
    ps.map Prod.snd = front ++ line :: rest →
    0 ≤ depthAt (after s front) line.toList ∧ 0 ≤ (next (after s front) line.toList).depth := by
  induction h generalizing s with
  | nil => intro front line rest hsplit; simp at hsplit
  | @cons n k j m l ps hfeed htab hat hnext hrest ih =>
    intro front line rest hsplit
    obtain ⟨hplace, hdepth⟩ := depth_eq hs l.toList
    rw [hat] at hplace
    rw [hnext] at hdepth
    cases front with
    | nil =>
      obtain ⟨rfl, -⟩ := List.cons.inj hsplit
      rw [after, List.foldl_nil, hplace, hdepth]
      exact ⟨Int.natCast_nonneg k, Int.natCast_nonneg j⟩
    | cons x front =>
      obtain ⟨rfl, htail⟩ := List.cons.inj hsplit
      exact ih hdepth front line rest htail

theorem Stands.depth_after (h : Stands n ps m) (hs : s.depth = n) :
    (after s (ps.map Prod.snd)).depth = m := by
  induction h generalizing s with
  | nil => exact hs
  | cons hfeed htab hat hnext hrest ih => exact ih ((depth_eq hs _).2.trans hnext)

theorem Stands.oneLine (h : Stands n ps m) : ∀ line ∈ ps.map Prod.snd, oneLine line := by
  induction h with
  | nil => simp
  | cons hfeed _ _ _ _ ih => exact List.forall_mem_cons.mpr ⟨hfeed, ih⟩

end Layout

/-- The number of tabs in front of a line, and the line without them. -/
def indentation (line : String) : Nat × String :=
  ((line.toList.takeWhile (· == '\t')).length, unindented line)

theorem indentation_tabs (n : Nat) {line : String} (h : line.toList.head? ≠ some '\t') :
    indentation (Text.repeated n "\t" ++ line) = (n, line) := by
  have htabs : ∀ c ∈ List.replicate n '\t', (c == '\t') = true := fun c hc => by
    simp [List.eq_of_mem_replicate hc]
  have hnil : line.toList.takeWhile (· == '\t') = [] := by
    cases hline : line.toList with
    | nil => rfl
    | cons c r => exact List.takeWhile_cons_of_neg (by simpa [hline] using h)
  rw [indentation, unindented_tabs, unindented_of_ne_tab h, String.toList_append, toList_tabs,
    List.takeWhile_append_of_pos htabs, hnil, List.append_nil, List.length_replicate]

/-- Lines that stand at their levels are laid out with as many tabs, between empty lines. -/
theorem Layout.Stands.indentation_arrange {n m : Nat} {ps : List (Nat × String)} (h : Stands n ps m)
    {s : State} (hs : s.depth = n) :
    ((arrange s (ps.map Prod.snd)).map indentation).filter (·.2 ≠ "") = ps.filter (·.2 ≠ "") := by
  induction h generalizing s with
  | nil => rfl
  | @cons n k j m line ps hfeed htab hat hnext hrest ih =>
    obtain ⟨hplace, hdepth⟩ := depth_eq hs line.toList
    rw [hat] at hplace
    rw [hnext] at hdepth
    have hempty : indentation "" = (0, "") := rfl
    have hline : ((place s line).map indentation).filter (·.2 ≠ "") = [(k, line)].filter (·.2 ≠ "") := by
      rw [place, hplace, Int.toNat_natCast]
      split_ifs
      · simp [indentation_tabs k htab, hempty]
      · simp [indentation_tabs k htab]
    rw [List.map_cons, arrange, List.map_append, List.filter_append, hline, ih hdepth,
      ← List.filter_append, List.singleton_append]

/-! ## Statements stand at their levels -/

open Layout

theorem avoids_freeExpr {e : Expr} (h : e.isTidy isMargin) :
    avoids isMargin (Dialect.default.freeExpr e) :=
  avoids_expr isMargin_iff h .free

theorem getLast?_append {s : String} {z : Char} (h : s.toList.getLast? = some z) (a : String) :
    (a ++ s).toList.getLast? = some z := by
  rw [String.toList_append, List.getLast?_append, h]
  rfl

/-- A line that ends in a semicolon. -/
theorem Layout.Stands.semicolon {n m : Nat} {t : String} {ps : List (Nat × String)}
    (h : avoids isMargin t) (hrest : Stands n ps m) : Stands n ((n, t ++ ";") :: ps) m := by
  have hlast := getLast?_append (s := ";") rfl t
  exact .plain (avoids_append h (by decide)) (by rw [hlast]; decide) (by rw [hlast]; decide) hrest

/-- The first line of a statement with a body. -/
theorem Layout.Stands.header {n m : Nat} {t : String} {ps : List (Nat × String)}
    (h : avoids isMargin t) (hrest : Stands (n + 1) ps m) : Stands n ((n, t ++ ") \x7b") :: ps) m :=
  .opening (avoids_append h (by decide)) (getLast?_append rfl t) hrest

/-- An empty line. -/
theorem Layout.Stands.empty {n m : Nat} {ps : List (Nat × String)} (hrest : Stands n ps m) :
    Stands n ((n, "") :: ps) m :=
  .plain rfl (by decide) (by decide) hrest

/-- The lines of a statement stand at their levels, also where it follows on the brace that closes the
first branch of a conditional. -/
structure StandsAlone (s : Stmt) : Prop where
  alone : ∀ n, Stands n (Dialect.default.stmtLevels n "" s) n
  inElse : s.isIf → ∀ n, Stands (n + 1) (Dialect.default.stmtLevels n "\x7d else " s) n

theorem StandsAlone.of_not_if {s : Stmt} (hif : s.isIf = false)
    (h : ∀ n, Stands n (Dialect.default.stmtLevels n "" s) n) : StandsAlone s :=
  ⟨h, fun hs => by rw [hif] at hs; cases hs⟩

mutual

/-- **The lines of a statement stand at their levels.** -/
theorem stands_stmt : ∀ {s : Stmt}, s.isTidy → StandsAlone s
  | .missing, _ => .of_not_if rfl fun n => by
    rw [Dialect.stmtLevels]
    exact .nil n
  | .eval e, h => .of_not_if rfl fun n => by
    rw [Dialect.stmtLevels]
    exact .semicolon (avoids_freeExpr h) (.nil n)
  | .block b, h => .of_not_if rfl fun n => by
    rw [Dialect.stmtLevels]
    exact (stands_body h n).append (.empty (.nil n))
  | .ifElse c yes no, h => by
    simp only [Stmt.isTidy, Bool.and_eq_true] at h
    have hbranches : ∀ n, Stands (n + 1)
        (Dialect.default.bodyLevels (n + 1) yes ++ Dialect.default.elseLevels n no) n :=
      fun n => (stands_body h.1.2 (n + 1)).append (stands_else h.2 n)
    refine ⟨fun n => ?_, fun _ n => ?_⟩
    · rw [Dialect.stmtLevels]
      exact .header (avoids_append (by decide) (avoids_freeExpr h.1.1)) (hbranches n)
    · rw [Dialect.stmtLevels]
      refine .between ?_ (by simp) (getLast?_append rfl _) (hbranches n)
      simp only [oneLine_append, oneLine_of_avoids (avoids_freeExpr h.1.1)]
      rfl
  | .whileLoop c b, h => .of_not_if rfl fun n => by
    simp only [Stmt.isTidy, Bool.and_eq_true] at h
    rw [Dialect.stmtLevels]
    exact .header (avoids_append (by decide) (avoids_freeExpr h.1))
      ((stands_body h.2 (n + 1)).append (.closing (.inl rfl) (.nil n)))
  | .forLoop i c u b, h => .of_not_if rfl fun n => by
    simp only [Stmt.isTidy, Bool.and_eq_true] at h
    obtain ⟨⟨⟨hi, hc⟩, hu⟩, hb⟩ := h
    have hinit := avoids_append (a := "for (") (by decide) (avoids_freeExpr hi)
    have hcond := avoids_append (avoids_append hinit (b := "; ") (by decide)) (avoids_freeExpr hc)
    rw [Dialect.stmtLevels]
    exact .header (avoids_append (avoids_append hcond (by decide)) (avoids_freeExpr hu))
      ((stands_body hb (n + 1)).append (.closing (.inl rfl) (.nil n)))
  | .select c cases, h => .of_not_if rfl fun n => by
    simp only [Stmt.isTidy, Bool.and_eq_true] at h
    rw [Dialect.stmtLevels]
    exact .header (avoids_append (by decide) (avoids_freeExpr h.1))
      ((stands_cases h.2 n).append (.closing (.inl rfl) (.nil n)))
  | .ret, _ => .of_not_if rfl fun n => by
    rw [Dialect.stmtLevels]
    exact .semicolon (t := "return") (by decide) (.nil n)
  | .brk, _ => .of_not_if rfl fun n => by
    rw [Dialect.stmtLevels]
    exact .semicolon (t := "break") (by decide) (.nil n)
  | .super _, _ => .of_not_if rfl fun n => by
    rw [Dialect.stmtLevels]
    exact .semicolon (t := "super") (by decide) (.nil n)

theorem stands_body : ∀ {b : List Stmt}, Stmt.areTidy b → ∀ n : Nat,
    Stands n (Dialect.default.bodyLevels n b) n
  | [], _, n => by
    rw [Dialect.bodyLevels]
    exact .nil n
  | s :: r, h, n => by
    simp only [Stmt.areTidy, Bool.and_eq_true] at h
    rw [Dialect.bodyLevels]
    exact ((stands_stmt h.1).alone n).append (stands_body h.2 n)

theorem stands_else : ∀ {no : List Stmt}, Stmt.areTidy no → ∀ n : Nat,
    Stands (n + 1) (Dialect.default.elseLevels n no) n
  | [], _, n => by
    rw [Dialect.elseLevels]
    exact .closing (.inl rfl) (.nil n)
  | s :: r, h, n => by
    simp only [Stmt.areTidy, Bool.and_eq_true] at h
    have hs := stands_stmt h.1
    obtain ⟨hlevels, -⟩ | ⟨hif, hlevels, -⟩ | ⟨hlevels, -⟩ := Dialect.default.elseLevels_cons n s r
    · rw [hlevels]
      exact .closing (.inl rfl) (.nil n)
    · rw [hlevels]
      exact hs.inElse hif n
    · rw [hlevels]
      exact .between (by decide) (by decide) (by decide)
        (((hs.alone (n + 1)).append (stands_body h.2 (n + 1))).append (.closing (.inl rfl) (.nil n)))

theorem stands_cases : ∀ {cases : List Case}, Stmt.casesTidy cases → ∀ n : Nat,
    Stands (n + 1) (Dialect.default.caseLevels n cases) (n + 1)
  | [], _, n => by
    rw [Dialect.caseLevels]
    exact .nil (n + 1)
  | .mk v b :: r, h, n => by
    simp only [Stmt.casesTidy, Bool.and_eq_true] at h
    rw [Dialect.caseLevels]
    refine .label ?_ (getLast?_append rfl _) ((stands_body h.1.2 (n + 1)).append (stands_cases h.2 n))
    exact avoids_append (avoids_append (by decide) (avoids_freeExpr h.1.1)) (by decide)

end

/-! ## Classes stand at their levels -/

theorem Layout.Stands.flatMap {α : Type} {n : Nat} {xs : List α} {f : α → List (Nat × String)}
    (h : ∀ x ∈ xs, Stands n (f x) n) : Stands n (xs.flatMap f) n := by
  induction xs with
  | nil => exact .nil n
  | cons x xs ih =>
    rw [List.forall_mem_cons] at h
    rw [List.flatMap_cons]
    exact h.1.append (ih h.2)

theorem stands_parameter {p : Parameter} (h : p.isTidy) :
    Stands 1 [(1, Dialect.default.parameterLine p)] 1 := by
  simp only [Parameter.isTidy, Bool.and_eq_true] at h
  refine .semicolon (avoids_append (avoids_append (avoids_append (avoids_identifier h.1.1) (by decide))
    (avoids_identifier h.1.2)) ?_) (.nil 1)
  split_ifs
  · rfl
  · exact avoids_append (by decide) (avoids_freeExpr h.2)

/-- A row of a property table ends in a semicolon, a brace or a comment. -/
theorem getLast?_row (cells comment : String) (last : Bool) :
    ∃ z ∈ [';', '}', '/'], ("\x7b" ++ cells ++ "\x7d" ++ Dialect.comment comment
      ++ (if last then "" else ";")).toList.getLast? = some z := by
  cases last with
  | false => exact ⟨';', by decide, getLast?_append rfl _⟩
  | true =>
    rw [if_pos rfl, String.append_empty]
    unfold Dialect.comment
    split_ifs
    · rw [String.append_empty]
      exact ⟨'}', by decide, getLast?_append rfl _⟩
    · rw [← String.append_assoc]
      exact ⟨'/', by decide, getLast?_append rfl _⟩

theorem stands_rows : ∀ {rows : List PropertyRow},
    (∀ r ∈ rows, (∀ c ∈ r.cells, oneLine c) ∧ oneLine r.comment) →
    Stands 2 ((Dialect.rowLines rows).map (2, ·)) 2
  | [], _ => .nil 2
  | row :: rows, h => by
    rw [List.forall_mem_cons] at h
    obtain ⟨⟨hcells, hcomment⟩, hrows⟩ := h
    obtain ⟨z, hz, hlast⟩ := getLast?_row (String.intercalate "; " row.cells) row.comment rows.isEmpty
    have hends : ∀ z ∈ [';', '}', '/'], some z ≠ some ':' ∧ some z ≠ some '{' := by simp
    rw [Dialect.rowLines, List.map_cons]
    refine .plain ?_ (hlast ▸ (hends z hz).1) (hlast ▸ (hends z hz).2) (stands_rows hrows)
    simp only [String.append_assoc]
    refine avoids_guarded (by decide) (by decide) ?_
    simp only [oneLine_append, oneLine_intercalate (by decide : oneLine "; ") hcells,
      oneLine_of_avoids (avoids_comment isMargin_iff hcomment)]
    split_ifs <;> rfl

theorem stands_property {p : Property} (h : p.isTidy) :
    Stands 1 (Dialect.propertyLevels p) 1 := by
  simp only [Property.isTidy, Bool.and_eq_true, List.all_eq_true] at h
  obtain ⟨⟨htype, hname⟩, hrows⟩ := h
  have hhead : avoids isMargin (p.type ++ " " ++ p.name ++ " = \x7b") :=
    avoids_append (avoids_append (avoids_append (avoids_identifier htype) (by decide))
      (avoids_identifier hname)) (by decide)
  unfold Dialect.propertyLevels
  dsimp only
  split_ifs
  · have hlast := getLast?_append (s := "\x7d;") rfl (p.type ++ " " ++ p.name ++ " = \x7b")
    exact .plain (avoids_guarded hhead (by simp [isWordChar]) (by decide)) (by rw [hlast]; decide)
      (by rw [hlast]; decide) (.nil 1)
  · exact .opening hhead (getLast?_append rfl _) ((stands_rows hrows).append (.closing (.inr rfl) (.nil 1)))

theorem stands_handler {h : Handler} (hl : h.isTidy) :
    Stands 1 (Dialect.default.handlerLevels h) 1 := by
  simp only [Handler.isTidy, Bool.and_eq_true, List.all_eq_true] at hl
  have hnames : avoids isMargin h.variableNames := by
    have hcomma : avoids isMargin ", " := by decide
    refine avoids_intercalate hcomma fun n hn => ?_
    obtain ⟨v, hv, rfl⟩ := List.mem_map.mp hn
    exact avoids_identifier (hl.1.2 v hv)
  have hname : avoids isMargin ("EventHandler " ++ h.name) :=
    avoids_append (by decide) (avoids_identifier hl.1.1)
  exact .header (avoids_append (avoids_append hname (by decide)) hnames)
    ((stands_body hl.2 2).append (.closing (.inl rfl) (.nil 1)))

/-- A section stands in its class. -/
theorem stands_titled {title : String} (htitle : title ∈ ["parameter:", "property:", "handler:"])
    (follows : Bool) {lines : List (Nat × String)} (h : Stands 1 lines 1) :
    Stands 1 (Dialect.titledLevels title follows lines) 1 := by
  have hlabel : ∀ t ∈ ["parameter:", "property:", "handler:"],
      avoids isMargin t ∧ t.toList.getLast? = some ':' := by decide
  have hsection : Stands 1 ((0, title) :: lines) 1 :=
    .label (hlabel title htitle).1 (hlabel title htitle).2 h
  unfold Dialect.titledLevels
  split_ifs
  · exact .nil 1
  · exact .empty hsection
  · exact hsection

theorem stands_option (kind : Int64) :
    Stands 0 ((Dialect.default.optionLines kind).map (0, ·)) 0 := by
  unfold Dialect.optionLines
  split_ifs
  · exact .plain (by decide) (by decide) (by decide) (.empty (.nil 0))
  · exact .plain (by decide) (by decide) (by decide) (.empty (.nil 0))
  · exact .nil 0

/-- **The lines of a tidy class stand at their levels.** -/
theorem stands_class {c : ClassDecl} (h : c.isTidy) :
    Stands 0 (Dialect.default.classLevels c) 0 := by
  simp only [ClassDecl.isTidy, Bool.and_eq_true, List.all_eq_true, Bool.or_eq_true] at h
  obtain ⟨⟨⟨⟨hname, hsuper⟩, hparameters⟩, hproperties⟩, hhandlers⟩ := h
  have hclass : avoids isMargin ("class " ++ c.name ++ (if c.super.isEmpty then "" else " : " ++ c.super)
      ++ " \x7b") := by
    refine avoids_append (avoids_append (avoids_append (by decide) (avoids_identifier hname)) ?_)
      (by decide)
    split_ifs with hempty
    · rfl
    · exact avoids_append (by decide) (avoids_identifier (hsuper.resolve_left hempty))
  have hparameterLines : Stands 1 (c.parameters.map fun p => (1, Dialect.default.parameterLine p)) 1 := by
    rw [List.map_eq_flatMap]
    exact .flatMap fun p hp => stands_parameter (hparameters p hp)
  have hpropertyLines : Stands 1 (c.properties.flatMap Dialect.propertyLevels) 1 :=
    .flatMap fun p hp => stands_property (hproperties p hp)
  have hhandlerLines : Stands 1 (c.handlers.flatMap Dialect.default.handlerLevels) 1 :=
    .flatMap fun hd hhd => stands_handler (hhandlers hd hhd)
  have hsection : Stands 1 (Dialect.titledLevels "parameter:" false _) 1 :=
    stands_titled (by decide) false hparameterLines
  have hopening := (stands_option c.kind).append (.opening hclass (getLast?_append rfl _) hsection)
  exact ((hopening.append (stands_titled (by decide) _ hpropertyLines)).append
    (stands_titled (by decide) _ hhandlerLines)).append (.closing (.inl rfl) (.nil 0))

/-! ## Main theorem -/

/-- **Indentation follows nesting.** A tidy class whose bodies are all there has a source. Its lines that
are not empty are those of the class, each behind exactly as many tabs as its level says. The depth that
the layout counts is never negative, neither where a line is placed nor after it, and zero after the last
line. -/
theorem indentation_source {c : ClassDecl} (h : c.isTidy)
    (hbodies : c.handlers.all fun hd => Dialect.haveBodies hd.body) :
    ∃ text, Dialect.default.source? c = some text ∧
      ((Text.split '\n' text).map indentation).filter (·.2 ≠ "") =
        (Dialect.default.classLevels c).filter (·.2 ≠ "") ∧
      (Dialect.default.classLevels c).map Prod.snd = Dialect.default.classLines c ∧
      let lines := Text.split '\n' (String.intercalate "\n" (Dialect.default.classLines c))
      (∀ front line rest, lines = front ++ line :: rest →
        0 ≤ depthAt (after start front) line.toList ∧
        0 ≤ (next (after start front) line.toList).depth) ∧
      (after start lines).depth = 0 := by
  have hstands := stands_class h
  have hlines := Dialect.default.map_classLevels c
  have hone := hstands.oneLine
  have harranged := hstands.indentation_arrange (s := start) rfl
  have hnonneg := hstands.nonneg (s := start) rfl
  have hafter := hstands.depth_after (s := start) rfl
  rw [hlines] at hone harranged hnonneg hafter
  have hsource : Dialect.default.source? c = some (Dialect.default.source c) := by
    rw [Dialect.source?, if_pos hbodies]
  refine ⟨_, hsource, ?_, hlines, ?_⟩
  · have hempty : indentation "" = (0, "") := rfl
    rw [split_source hone, List.map_append, List.filter_append, harranged]
    simp [hempty]
  · rw [split_lines hone (Dialect.default.classLines_ne_nil c)]
    exact ⟨hnonneg, hafter⟩

/-- A class with statements of every form, nested. -/
theorem indentation_patrol :
    ((patrol rightSum).isTidy ∧
      (patrol rightSum).handlers.all fun hd => Dialect.haveBodies hd.body) ∧
    ∃ text, Dialect.default.source? (patrol rightSum) = some text ∧
      ((Text.split '\n' text).map indentation).filter (·.2 ≠ "") =
        (Dialect.default.classLevels (patrol rightSum)).filter (·.2 ≠ "") ∧
      (Dialect.default.classLevels (patrol rightSum)).map Prod.snd =
        Dialect.default.classLines (patrol rightSum) ∧
      let lines := Text.split '\n'
        (String.intercalate "\n" (Dialect.default.classLines (patrol rightSum)))
      (∀ front line rest, lines = front ++ line :: rest →
        0 ≤ depthAt (after start front) line.toList ∧
        0 ≤ (next (after start front) line.toList).depth) ∧
      (after start lines).depth = 0 := by
  have htidy : (patrol rightSum).isTidy := by decide
  have hbodies : (patrol rightSum).handlers.all fun hd => Dialect.haveBodies hd.body := by decide
  exact ⟨⟨htidy, hbodies⟩, indentation_source htidy hbodies⟩

end ScriptLift
