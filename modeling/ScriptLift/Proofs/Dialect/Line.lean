import ScriptLift.Dialect.Source
import ScriptLift.Proofs.Dialect.ReadBack

/-!
# Expressions on a line

Expressions whose names are identifiers and whose texts break no line are written on one line. Neither
the whole text nor what follows the word in front of it starts with a character that counts at the front
of a line, a tab or a closing brace.

* `oneLine`: a text without line feeds; `avoids`: one that starts with none of some characters.
* `Expr.isTidy`: what is asked of an expression.
* `all_realLiteral`: floating point literals are numerals.
* **`avoids_expr`**: tidy expressions are written on one line.
-/

namespace ScriptLift

/-! ## Texts on one line -/

/-- A text without line feeds. -/
def oneLine (s : String) : Bool := !s.toList.contains '\n'

theorem oneLine_append {a b : String} : oneLine (a ++ b) = (oneLine a && oneLine b) := by
  simp [oneLine]

/-- What is kept by appending is kept by joining. -/
theorem intercalate_of_append {P : String → Prop} (hempty : P "")
    (happend : ∀ {a b}, P a → P b → P (a ++ b)) {sep : String} (hsep : P sep) :
    ∀ {ls : List String}, (∀ l ∈ ls, P l) → P (String.intercalate sep ls)
  | [], _ => by rw [String.intercalate_nil]; exact hempty
  | [l], h => by rw [String.intercalate_singleton]; exact h l (by simp)
  | l :: l' :: ls, h => by
    rw [List.forall_mem_cons] at h
    rw [String.intercalate_cons_cons]
    exact happend (happend h.1 hsep) (intercalate_of_append hempty happend hsep h.2)

theorem oneLine_intercalate {sep : String} (hsep : oneLine sep) {ls : List String}
    (h : ∀ l ∈ ls, oneLine l) : oneLine (String.intercalate sep ls) :=
  intercalate_of_append (P := (oneLine ·)) rfl
    (fun ha hb => by rw [oneLine_append, ha, hb]; rfl) hsep h

/-! ## Fronts of lines -/

/-- A text without line feeds that starts with no character that is `bad`, also when the word in front is
left out. -/
def avoids (bad : Char → Bool) (s : String) : Bool :=
  oneLine s && !(s.toList.dropWhile isWordChar).head?.any bad

section Avoids

variable {bad : Char → Bool} {a b s : String}

theorem avoids_iff : avoids bad s ↔
    oneLine s ∧ ∀ c ∈ (s.toList.dropWhile isWordChar).head?, bad c = false := by
  rw [avoids, Bool.and_eq_true]
  cases (s.toList.dropWhile isWordChar).head? <;> simp

theorem oneLine_of_avoids (h : avoids bad s) : oneLine s := (avoids_iff.mp h).1

theorem avoids_append (ha : avoids bad a) (hb : avoids bad b) : avoids bad (a ++ b) := by
  rw [avoids_iff] at *
  rw [oneLine_append, ha.1, hb.1, String.toList_append, List.dropWhile_append]
  refine ⟨rfl, ?_⟩
  split_ifs with h
  · exact hb.2
  · rw [List.head?_append_of_ne_nil _ (by simpa using h)]
    exact ha.2

/-- After a character that belongs to no word anything may follow on the line. -/
theorem avoids_guarded (ha : avoids bad a) (hguard : a.toList.all isWordChar = false)
    (hb : oneLine b) : avoids bad (a ++ b) := by
  rw [avoids_iff] at *
  have hne : a.toList.dropWhile isWordChar ≠ [] := by
    intro hnil
    rw [List.dropWhile_eq_nil_iff] at hnil
    rw [List.all_eq_true.mpr hnil] at hguard
    cases hguard
  rw [oneLine_append, ha.1, hb, String.toList_append, List.dropWhile_append,
    if_neg (by simpa using hne), List.head?_append_of_ne_nil _ hne]
  exact ⟨rfl, ha.2⟩

/-- The word in front may be left out. -/
theorem avoids_of_append (ha : a.toList.all isWordChar) (h : avoids bad (a ++ b)) : avoids bad b := by
  rw [avoids_iff] at *
  have hnil : a.toList.dropWhile isWordChar = [] :=
    List.dropWhile_eq_nil_iff.mpr (List.all_eq_true.mp ha)
  rw [oneLine_append, Bool.and_eq_true, String.toList_append, List.dropWhile_append, hnil] at h
  exact ⟨h.1.2, h.2⟩

theorem avoids_of_chars (h : ∀ c ∈ s.toList, c ≠ '\n' ∧ bad c = false) : avoids bad s := by
  refine avoids_iff.mpr ⟨?_, fun c hc => ?_⟩
  · simpa [oneLine] using fun hmem => (h _ hmem).1 rfl
  · exact (h c (List.dropWhile_subset _ (List.mem_of_mem_head? hc))).2

theorem avoids_of_word (h : ∀ c ∈ s.toList, isWordChar c) : avoids bad s := by
  have hnil : s.toList.dropWhile isWordChar = [] := List.dropWhile_eq_nil_iff.mpr h
  refine avoids_iff.mpr ⟨?_, by simp [hnil]⟩
  simpa [oneLine] using fun hmem => absurd (h _ hmem) (by decide)

theorem avoids_identifier (h : isIdentifier s) : avoids bad s :=
  avoids_of_word (Reader.isName_of_isIdentifier h).word

theorem avoids_intercalate {sep : String} (hsep : avoids bad sep) {ls : List String}
    (h : ∀ l ∈ ls, avoids bad l) : avoids bad (String.intercalate sep ls) :=
  intercalate_of_append (P := (avoids bad ·)) rfl avoids_append hsep h

end Avoids

/-! ## Numerals -/

/-- A character of a numeral. -/
def isNumeralChar (c : Char) : Bool := c.isDigit || "+-.NaInf".toList.contains c

theorem all_toDigits (n : Nat) : (Nat.toDigits 10 n).all isNumeralChar := by
  refine List.all_eq_true.mpr fun c hc => ?_
  simp [isNumeralChar, Numeral.isDigit_of_mem_decimal hc]

theorem all_decimal (n : Int) : (Numeral.decimal n).toList.all isNumeralChar := by
  rw [Numeral.decimal, String.toList_ofList, Numeral.decimalList]
  split_ifs
  · rw [List.all_cons, all_toDigits]
    rfl
  · exact all_toDigits _

theorem all_write {x : Double} {finite : Double → List Char} (h : (finite x).all isNumeralChar) :
    (x.write finite).toList.all isNumeralChar := by
  unfold Double.write Double.signText
  split_ifs
  · decide
  · decide
  · decide
  all_goals
    rw [String.toList_append, List.all_append, String.toList_ofList (l := finite x), h]
    rfl

theorem all_layOut {ds : List Char} (h : ds.all isNumeralChar) (point : Int) :
    (Double.layOut ds point).all isNumeralChar := by
  have htake : ∀ n, (ds.take n).all isNumeralChar := fun n =>
    List.all_eq_true.mpr fun c hc => List.all_eq_true.mp h c (List.mem_of_mem_take hc)
  have hdrop : ∀ n, (ds.drop n).all isNumeralChar := fun n =>
    List.all_eq_true.mpr fun c hc => List.all_eq_true.mp h c (List.mem_of_mem_drop hc)
  have hdot : isNumeralChar '.' := rfl
  have hzero : isNumeralChar '0' := rfl
  unfold Double.layOut
  by_cases hpoint : 0 < point
  · simp only [hpoint, if_true]
    split_ifs <;> simp [htake, hdrop, hdot, hzero]
  · simp only [hpoint, if_false]
    split_ifs <;> simp [h, hdot, hzero]

theorem all_digits (x : Double) : x.digits.1.all isNumeralChar := by
  unfold Double.digits
  split_ifs
  · rfl
  · exact all_toDigits _

/-- **A floating point literal is made of the characters of numerals.** -/
theorem all_realLiteral (x : Double) : (realLiteral x).toList.all isNumeralChar := by
  have hfixed : x.fixed.toList.all isNumeralChar := all_write (by
    simp only [List.all_append, List.all_cons, all_toDigits, Bool.true_and, Bool.and_true]
    rfl)
  have hpositional : x.positional.toList.all isNumeralChar := all_write (by
    dsimp only
    split_ifs
    · rfl
    · exact all_layOut (all_digits x) _)
  unfold realLiteral
  dsimp only
  split_ifs
  · exact hfixed
  · exact hpositional
  · rw [String.toList_append, List.all_append, hpositional]
    rfl

/-! ## Tidy expressions -/

namespace Expr

mutual

/-- Whether all names of an expression are identifiers and its texts stand on one line, as do its
operators, the unary ones starting with no character that is `bad`. -/
def isTidy (bad : Char → Bool) : Expr → Bool
  | .hole | .int _ | .real _ => true
  | .str s => oneLine s
  | .const _ name | .param name _ | .prop name _ => isIdentifier name
  | .var name _ owner => isIdentifier name && owner.isTidy bad
  | .unary op e => avoids bad op.symbol && e.isTidy bad
  | .binary op l r => oneLine op.symbol && l.isTidy bad && r.isTidy bad
  | .assign name _ owner v => isIdentifier name && owner.isTidy bad && v.isTidy bad
  | .call f _ owner args note =>
    isIdentifier f && owner.isTidy bad && allTidy bad args && oneLine note

/-- Whether all arguments are tidy. -/
def allTidy (bad : Char → Bool) : List Expr → Bool
  | [] => true
  | e :: r => e.isTidy bad && allTidy bad r

end

end Expr

theorem cutPrefix?_eq_some_iff {p s t : String} : Text.cutPrefix? p s = some t ↔ s = p ++ t := by
  simp only [Text.cutPrefix?, Option.map_eq_some_iff, List.isPrefixOf?_eq_some_iff_append_eq]
  constructor
  · rintro ⟨r, hr, rfl⟩
    exact String.toList_inj.mp (by simp [hr])
  · rintro rfl
    exact ⟨t.toList, by simp, String.ofList_toList⟩

theorem stepMark?_eq {d : Dialect} {target : String} {v : Expr} {mark : String}
    (h : d.stepMark? target v = some mark) : mark = "++" ∨ mark = "--" := by
  unfold Dialect.stepMark? at h
  split at h
  · split_ifs at h
    exact .inl (Option.some.inj h).symm
  · split_ifs at h
    exact .inr (Option.some.inj h).symm
  · simp at h

section Expressions

variable {bad : Char → Bool} {s : String}

theorem avoids_hexLiteral (v : Int64) : avoids bad (hexLiteral v) := by
  refine avoids_append (avoids_of_word (List.all_eq_true.mp (by decide))) (avoids_of_word fun c hc => ?_)
  rw [String.toList_ofList, Numeral.hex_one] at hc
  obtain ⟨n, hn, rfl⟩ := Numeral.mem_toDigits (by omega) hc
  exact Reader.isWordChar_digitChar n hn

-- expressions may start with any character but these
variable (hbad : ∀ c, bad c → c = '\t' ∨ c = '}')

include hbad

theorem avoids_of_free (h : s.toList.all fun c => c != '\n' && c != '\t' && c != '}') :
    avoids bad s :=
  avoids_of_chars fun c hc => by
    have hfree := List.all_eq_true.mp h c hc
    simp only [Bool.and_eq_true, bne_iff_ne] at hfree
    refine ⟨hfree.1.1, Bool.eq_false_iff.mpr fun hc => ?_⟩
    exact (hbad c hc).elim hfree.1.2 hfree.2

theorem avoids_numeral (h : s.toList.all isNumeralChar) : avoids bad s :=
  avoids_of_free hbad (List.all_eq_true.mpr fun c hc => by
    have hnumeral := List.all_eq_true.mp h c hc
    simp only [Bool.and_eq_true, bne_iff_ne]
    refine ⟨⟨?_, ?_⟩, ?_⟩ <;> (rintro rfl; exact absurd hnumeral (by decide)))

theorem avoids_parenthesized (h : avoids bad s) (yes : Bool) : avoids bad (parenthesized yes s) := by
  cases yes with
  | false => exact h
  | true =>
    exact avoids_append (avoids_append (avoids_of_free hbad (by decide)) h)
      (avoids_of_free hbad (by decide))

theorem avoids_comment (h : oneLine s) : avoids bad (Dialect.comment s) := by
  unfold Dialect.comment
  split_ifs
  · rfl
  · rw [String.append_assoc]
    refine avoids_guarded (avoids_of_free hbad (by decide)) (by decide) ?_
    rw [oneLine_append, h]
    rfl

theorem avoids_constant (domain : String) {name : String} (h : isIdentifier name) :
    avoids bad (Dialect.default.constant domain name) := by
  unfold Dialect.constant
  split_ifs
  · exact avoids_identifier h
  · exact avoids_append (avoids_of_free hbad (by decide)) (avoids_identifier h)

omit hbad in
/-- What is left of an owner path starts as the path does. -/
theorem avoids_elide {owner : String} (h : avoids bad owner) :
    avoids bad (Dialect.default.elide owner) := by
  unfold Dialect.elide
  cases hcut : Dialect.default.implicitReceivers.findSome?
      (fun name => Text.cutPrefix? (name ++ ".") owner) with
  | none => exact h
  | some rest =>
    obtain ⟨name, hname, hrest⟩ := List.exists_of_findSome?_eq_some hcut
    have hword : ∀ n ∈ Dialect.default.implicitReceivers, (n ++ ".").toList.all isWordChar := by
      decide
    rw [cutPrefix?_eq_some_iff.mp hrest] at h
    exact avoids_of_append (hword name hname) h

/-- The target of an assignment, or a variable. -/
theorem avoids_path {name : String} {owner : Expr} (hn : isIdentifier name)
    (ho : avoids bad (Dialect.default.expr .free owner)) :
    avoids bad (if owner.isHole then name else Dialect.default.expr .free owner ++ "." ++ name) := by
  split_ifs
  · exact avoids_identifier hn
  · exact avoids_append (avoids_append ho (avoids_of_free hbad (by decide))) (avoids_identifier hn)

end Expressions

mutual

/-- **A tidy expression is written on one line, which starts with no character that is `bad`.** -/
theorem avoids_expr {bad : Char → Bool} (hbad : ∀ c, bad c → c = '\t' ∨ c = '}') :
    ∀ {e : Expr}, e.isTidy bad → ∀ place : Place, avoids bad (Dialect.default.expr place e)
  | .hole, _, _ => by rw [Dialect.expr]; rfl
  | .int v, _, place => by
    rw [Dialect.expr]
    split_ifs
    · exact avoids_hexLiteral v
    · exact avoids_numeral hbad (all_decimal _)
  | .real x, _, _ => by rw [Dialect.expr]; exact avoids_numeral hbad (all_realLiteral x)
  | .str s, h, _ => by
    rw [Dialect.expr, String.append_assoc]
    refine avoids_guarded (avoids_of_free hbad (by decide)) (by decide) ?_
    rw [oneLine_append, show oneLine s from h]
    rfl
  | .const domain name, h, _ => by rw [Dialect.expr]; exact avoids_constant hbad domain h
  | .param name _, h, _ | .prop name _, h, _ => by rw [Dialect.expr]; exact avoids_identifier h
  | .var name type owner, h, _ => by
    simp only [Expr.isTidy, Bool.and_eq_true] at h
    rw [Dialect.expr]
    exact avoids_path hbad h.1 (avoids_expr hbad h.2 .free)
  | .unary op e, h, _ => by
    simp only [Expr.isTidy, Bool.and_eq_true] at h
    rw [Dialect.expr]
    exact avoids_append h.1 (avoids_parenthesized hbad (avoids_expr hbad h.2 _) _)
  | .binary op l r, h, place => by
    simp only [Expr.isTidy, Bool.and_eq_true] at h
    obtain ⟨⟨hop, hl⟩, hr⟩ := h
    have hright : oneLine (op.symbol ++ (" " ++ Dialect.default.expr (.beside op true) r)) := by
      rw [oneLine_append, oneLine_append, hop, oneLine_of_avoids (avoids_expr hbad hr _)]
      rfl
    rw [Dialect.expr]
    refine avoids_parenthesized hbad ?_ _
    rw [String.append_assoc, String.append_assoc, String.append_assoc]
    exact avoids_append (avoids_expr hbad hl _)
      (avoids_guarded (avoids_of_free hbad (by decide)) (by decide) hright)
  | .assign name type owner v, h, _ => by
    simp only [Expr.isTidy, Bool.and_eq_true] at h
    obtain ⟨⟨hn, ho⟩, hv⟩ := h
    have htarget := avoids_path hbad hn (avoids_expr hbad ho .free)
    rw [Dialect.expr]
    split
    · rename_i mark hmark
      rcases stepMark?_eq hmark with rfl | rfl
      · exact avoids_append (avoids_of_free hbad (by decide)) htarget
      · exact avoids_append (avoids_of_free hbad (by decide)) htarget
    · exact avoids_append (avoids_append htarget (avoids_of_free hbad (by decide)))
        (avoids_expr hbad hv .free)
  | .call f type owner args note, h, _ => by
    simp only [Expr.isTidy, Bool.and_eq_true] at h
    obtain ⟨⟨⟨hf, ho⟩, hargs⟩, hnote⟩ := h
    have howner : avoids bad (if owner.isHole then ""
        else Dialect.default.elide (Dialect.default.expr .free owner ++ ".")) := by
      split_ifs
      · rfl
      · exact avoids_elide (avoids_append (avoids_expr hbad ho .free) (avoids_of_free hbad (by decide)))
    have hcomma : avoids bad ", " := avoids_of_free hbad (by decide)
    have hlist := avoids_intercalate hcomma (avoids_exprs hbad hargs)
    rw [Dialect.expr]
    refine avoids_append (avoids_append (avoids_append (avoids_append (avoids_append howner
      (avoids_identifier hf)) ?_) hlist) ?_) (avoids_comment hbad hnote)
    · exact avoids_of_free hbad (by decide)
    · exact avoids_of_free hbad (by decide)

theorem avoids_exprs {bad : Char → Bool} (hbad : ∀ c, bad c → c = '\t' ∨ c = '}') :
    ∀ {es : List Expr}, Expr.allTidy bad es → ∀ s ∈ Dialect.default.exprs es, avoids bad s
  | [], _ => by simp [Dialect.exprs]
  | e :: es, h => by
    simp only [Expr.allTidy, Bool.and_eq_true] at h
    rw [Dialect.exprs]
    exact List.forall_mem_cons.mpr ⟨avoids_expr hbad h.1 .free, avoids_exprs hbad h.2⟩

end

end ScriptLift
