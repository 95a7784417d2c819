import ScriptLift.Proofs.Dialect.Line

/-!
# Legible classes

In a legible class all names are identifiers, none of them a word that is a statement, and no text
breaks a line. The expressions of such a class then stand on one line each, do not start with a tab,
and are no statements by themselves.

* `isName`: what is asked of names; `Expr.isLegible`, `Stmt.isLegible`, `ClassDecl.isLegible`: what is
  asked of a class.
* `isLine`: a text that may follow the tabs of a line.
* **`isLine_expr`**: legible expressions are such texts.
* **`expr_ne_word`**: they are none of the words that are statements.
-/

namespace ScriptLift

/-! ## Names and texts -/

/-- The words that are statements. -/
def statementWords : List String := ["return", "break", "super"]

/-- An identifier that is no statement by itself. The other words of the dialect need not be
excluded: what follows them on a line tells them apart. -/
def isName (s : String) : Bool := isIdentifier s && !statementWords.contains s

/-- A mark between or before operands: no character of a word, and nothing that breaks or indents a
line. -/
def isSymbol (s : String) : Bool :=
  !s.toList.isEmpty && s.toList.all fun c => !isWordChar c && c != '\n' && c != '\t'

namespace Expr

mutual

/-- Whether all names of an expression are names, its operators are written as symbols, and its texts
stand on one line. -/
def isLegible : Expr → Bool
  | .hole | .int _ | .real _ => true
  | .str s => oneLine s
  | .const _ name | .param name _ | .prop name _ => isName name
  | .var name _ owner => isName name && owner.isLegible
  | .unary op e => isSymbol op.symbol && e.isLegible
  | .binary op l r => isSymbol op.symbol && l.isLegible && r.isLegible
  | .assign name _ owner v => isName name && owner.isLegible && v.isLegible
  | .call f _ owner args note => isName f && owner.isLegible && allLegible args && oneLine note

/-- Whether all arguments are legible. -/
def allLegible : List Expr → Bool
  | [] => true
  | e :: r => e.isLegible && allLegible r

end

end Expr

namespace Stmt

mutual

/-- Whether all expressions of a statement are legible. -/
def isLegible : Stmt → Bool
  | .missing | .ret | .brk | .super _ => true
  | .eval e => e.isLegible
  | .block b => areLegible b
  | .ifElse c yes no => c.isLegible && areLegible yes && areLegible no
  | .whileLoop c b => c.isLegible && areLegible b
  | .forLoop i c u b => i.isLegible && c.isLegible && u.isLegible && areLegible b
  | .select c cases => c.isLegible && casesLegible cases

/-- Whether all statements of a body are legible. -/
def areLegible : List Stmt → Bool
  | [] => true
  | s :: r => s.isLegible && areLegible r

/-- Whether all arms are legible. -/
def casesLegible : List Case → Bool
  | [] => true
  | .mk v b :: r => v.isLegible && areLegible b && casesLegible r

end

end Stmt

/-- Whether a parameter is legible. -/
def Parameter.isLegible (p : Parameter) : Bool := isName p.type && isName p.name && p.value.isLegible

/-- Whether a property table is legible. -/
def Property.isLegible (p : Property) : Bool :=
  isName p.type && isName p.name && p.rows.all fun r => r.cells.all oneLine && oneLine r.comment

/-- Whether a handler is legible. -/
def Handler.isLegible (h : Handler) : Bool :=
  isName h.name && h.locals.all (fun v => isName v.name) && Stmt.areLegible h.body

/-- **Whether a class is legible**: its names are identifiers and no statements, and its texts stand
on one line. -/
def ClassDecl.isLegible (c : ClassDecl) : Bool :=
  isName c.name && (c.super.isEmpty || isName c.super) && c.parameters.all Parameter.isLegible
    && c.properties.all Property.isLegible && c.handlers.all Handler.isLegible

/-! ## Lines -/

/-- A text without line feeds that does not start with a tab, also when the word in front is left
out. -/
def isLine (s : String) : Bool :=
  oneLine s && (s.toList.dropWhile isWordChar).head? != some '\t'

theorem isLine_eq (s : String) : isLine s = avoids (· == '\t') s := by
  rw [isLine, avoids]
  cases (s.toList.dropWhile isWordChar).head? <;> simp [bne]

theorem oneLine_of_isLine {s : String} (h : isLine s) : oneLine s := (Bool.and_eq_true_iff.mp h).1

theorem isLine_append {a b : String} (ha : isLine a) (hb : isLine b) : isLine (a ++ b) := by
  rw [isLine_eq] at *
  exact avoids_append ha hb

/-- After a character that belongs to no word anything may follow on the line. -/
theorem isLine_guarded {a b : String} (ha : isLine a) (hguard : a.toList.all isWordChar = false)
    (hb : oneLine b) : isLine (a ++ b) := by
  rw [isLine_eq] at *
  exact avoids_guarded ha hguard hb

theorem head_ne_tab {s : String} (h : isLine s) : s.toList.head? ≠ some '\t' := by
  intro hhead
  obtain ⟨r, hr⟩ := List.head?_eq_some_iff.mp hhead
  simp only [isLine, Bool.and_eq_true, bne_iff_ne, hr] at h
  exact h.2 rfl

theorem isLine_name {s : String} (h : isName s) : isLine s := by
  simp only [isName, Bool.and_eq_true] at h
  rw [isLine_eq]
  exact avoids_identifier h.1

theorem isTab_iff (c : Char) (h : (c == '\t') = true) : c = '\t' ∨ c = '}' := .inl (by simpa using h)

theorem isLine_comment {s : String} (h : oneLine s) : isLine (Dialect.comment s) := by
  rw [isLine_eq]
  exact avoids_comment isTab_iff h

/-! ## Expressions -/

theorem avoids_symbol {s : String} (h : isSymbol s) : avoids (· == '\t') s := by
  simp only [isSymbol, Bool.and_eq_true, List.all_eq_true] at h
  exact avoids_of_chars fun c hc => by simpa using (h.2 c hc).imp_left And.right

theorem isIdentifier_of_isName {s : String} (h : isName s) : isIdentifier s :=
  (Bool.and_eq_true_iff.mp h).1

mutual

theorem isTidy_of_isLegible : ∀ {e : Expr}, e.isLegible → e.isTidy (· == '\t')
  | .hole, _ | .int _, _ | .real _, _ => rfl
  | .str _, h => h
  | .const _ _, h | .param _ _, h | .prop _ _, h => isIdentifier_of_isName h
  | .var _ _ _, h => by
    simp only [Expr.isLegible, Expr.isTidy, Bool.and_eq_true] at *
    exact ⟨isIdentifier_of_isName h.1, isTidy_of_isLegible h.2⟩
  | .unary _ _, h => by
    simp only [Expr.isLegible, Expr.isTidy, Bool.and_eq_true] at *
    exact ⟨avoids_symbol h.1, isTidy_of_isLegible h.2⟩
  | .binary _ _ _, h => by
    simp only [Expr.isLegible, Expr.isTidy, Bool.and_eq_true] at *
    exact ⟨⟨oneLine_of_avoids (avoids_symbol h.1.1), isTidy_of_isLegible h.1.2⟩,
      isTidy_of_isLegible h.2⟩
  | .assign _ _ _ _, h => by
    simp only [Expr.isLegible, Expr.isTidy, Bool.and_eq_true] at *
    exact ⟨⟨isIdentifier_of_isName h.1.1, isTidy_of_isLegible h.1.2⟩, isTidy_of_isLegible h.2⟩
  | .call _ _ _ _ _, h => by
    simp only [Expr.isLegible, Expr.isTidy, Bool.and_eq_true] at *
    exact ⟨⟨⟨isIdentifier_of_isName h.1.1.1, isTidy_of_isLegible h.1.1.2⟩,
      allTidy_of_allLegible h.1.2⟩, h.2⟩

theorem allTidy_of_allLegible : ∀ {es : List Expr}, Expr.allLegible es → Expr.allTidy (· == '\t') es
  | [], _ => rfl
  | _ :: _, h => by
    simp only [Expr.allLegible, Expr.allTidy, Bool.and_eq_true] at *
    exact ⟨isTidy_of_isLegible h.1, allTidy_of_allLegible h.2⟩

end

/-- **A legible expression stands on one line and starts with no tab.** -/
theorem isLine_expr {e : Expr} (h : e.isLegible) (place : Place) :
    isLine (Dialect.default.expr place e) := by
  rw [isLine_eq]
  exact avoids_expr isTab_iff (isTidy_of_isLegible h) place

/-! ## Statements of one word -/

theorem ne_word_of_name {s : String} (h : isName s) : s ∉ statementWords := by
  simp only [isName, Bool.and_eq_true, Bool.not_eq_true', List.contains_eq_mem,
    decide_eq_false_iff_not] at h
  exact h.2

/-- A word has small letters only. -/
theorem ne_word_of_mem {s : String} {c : Char} (hc : c ∈ s.toList) (hlower : c.isLower = false) :
    s ∉ statementWords := by
  have hletters : ∀ w ∈ statementWords, w.toList.all Char.isLower := by decide
  intro hs
  rw [List.all_eq_true.mp (hletters s hs) c hc] at hlower
  exact absurd hlower (by simp)

theorem exists_of_isSymbol {s : String} (h : isSymbol s) : ∃ c ∈ s.toList, c.isLower = false := by
  simp only [isSymbol, Bool.and_eq_true, List.all_eq_true, Bool.not_eq_true', List.isEmpty_eq_false_iff]
    at h
  obtain ⟨c, hc⟩ := List.exists_mem_of_ne_nil _ h.1
  refine ⟨c, hc, ?_⟩
  have hword := (h.2 c hc).1.1
  simp only [isWordChar, Char.isAlphanum, Char.isAlpha, Bool.or_eq_false_iff] at hword
  exact hword.1.1.1.1.2

theorem ne_word_of_numeral {s : String} (h : s.toList.all isNumeralChar) : s ∉ statementWords := by
  have hletters : ∀ w ∈ statementWords, w.toList.all isNumeralChar = false := by decide
  intro hs
  rw [hletters s hs] at h
  exact absurd h (by simp)

/-- **A legible expression is no statement by itself.** -/
theorem expr_ne_word {e : Expr} (h : e.isLegible) :
    Dialect.default.expr .free e ∉ statementWords := by
  cases e with
  | hole => rw [Dialect.expr]; decide
  | int v => rw [Dialect.expr]; exact ne_word_of_numeral (all_decimal _)
  | real x => rw [Dialect.expr]; exact ne_word_of_numeral (all_realLiteral x)
  | str s => rw [Dialect.expr]; exact ne_word_of_mem (c := '"') (by simp) (by decide)
  | const domain name =>
    rw [Dialect.expr, Dialect.constant]
    split_ifs
    · exact ne_word_of_name h
    · exact ne_word_of_mem (c := '@') (by simp [Dialect.default]) (by decide)
  | param name _ | prop name _ => rw [Dialect.expr]; exact ne_word_of_name h
  | var name type owner =>
    simp only [Expr.isLegible, Bool.and_eq_true] at h
    rw [Dialect.expr]
    split_ifs
    · exact ne_word_of_name h.1
    · exact ne_word_of_mem (c := '.') (by simp) (by decide)
  | unary op e =>
    simp only [Expr.isLegible, Bool.and_eq_true] at h
    obtain ⟨c, hc, hlower⟩ := exists_of_isSymbol h.1
    rw [Dialect.expr]
    exact ne_word_of_mem (c := c) (by simp [hc]) hlower
  | binary op l r =>
    rw [Dialect.expr_free_binary]
    exact ne_word_of_mem (c := ' ') (by simp) (by decide)
  | assign name type owner v =>
    rw [Dialect.expr]
    split
    · rename_i mark hmark
      rcases stepMark?_eq hmark with rfl | rfl
      · exact ne_word_of_mem (c := '+') (by simp) (by decide)
      · exact ne_word_of_mem (c := '-') (by simp) (by decide)
    · exact ne_word_of_mem (c := ' ') (by simp) (by decide)
  | call f type owner args note =>
    rw [Dialect.expr]
    exact ne_word_of_mem (c := '(') (by simp) (by decide)

end ScriptLift
