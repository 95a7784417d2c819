import ScriptLift.Proofs.Numeral
import ScriptLift.Row.Scan

/-!
# Lines with a quoted text

A text in quotes stays whole when a line is cut, as long as a backslash stands before each quote
inside. Its quotes are taken off later, and with them every further quote at its ends.

* `Text.Quotable`: texts that may stand in quotes.
* **`Text.unquoted_quoted_iff`**: when the text between the quotes comes back.
* **`Row.scan_record`**: the row of a string record.
* **`Row.scan_declared`**: the row of a declaration with a quoted text.
-/

namespace ScriptLift

namespace Text

/-! ## Texts in quotes -/

/-- A text of printable characters in which a backslash stands before each quote. -/
structure Quotable (s : String) : Prop where
  printable : ∀ c ∈ s.toList, ' ' ≤ c ∧ c ≤ '~'
  escaped : ∀ p q, s.toList = p ++ '"' :: q → p.getLast? = some '\\'

/-- A backslash stands before each quote of a text that follows the character `before`. -/
def EscapedFrom (before : Char) (s : List Char) : Prop :=
  ∀ p q, s = p ++ '"' :: q → p.getLast?.getD before = '\\'

theorem EscapedFrom.head {before c : Char} {s : List Char} (h : EscapedFrom before (c :: s))
    (hc : c = '"') : before = '\\' :=
  h [] s (by rw [hc]; rfl)

theorem EscapedFrom.tail {before c : Char} {s : List Char} (h : EscapedFrom before (c :: s)) :
    EscapedFrom c s := by
  rintro p q rfl
  simpa [List.getLast?_cons] using h (c :: p) q rfl

theorem Quotable.escapedFrom {s : String} (h : Quotable s) (before : Char) :
    EscapedFrom before s.toList := fun p q hpq => by
  rw [h.escaped p q hpq]
  rfl

/-- **When the text between the quotes comes back**: it ends in no quote itself. -/
theorem unquoted_quoted_iff {s : String} (h : Quotable s) :
    unquoted ("\"" ++ s ++ "\"") = s ↔ s.toList.getLast? ≠ some '"' := by
  have hfront : ('"' :: (s.toList ++ ['"'])).dropWhile (· == '"') =
      if s.toList = [] then [] else s.toList ++ ['"'] := by
    cases hs : s.toList with
    | nil => rfl
    | cons c r =>
      have hc : c ≠ '"' := by
        rintro rfl
        simpa using h.escaped [] r hs
      simp [hc]
  have hlist : ("\"" ++ s ++ "\"").toList = '"' :: (s.toList ++ ['"']) := by simp
  have hback : stripList (· == '"') ('"' :: (s.toList ++ ['"'])) =
      (s.toList.reverse.dropWhile (· == '"')).reverse := by
    rw [stripList, hfront]
    split_ifs with hs
    · simp [hs]
    · simp
  rw [unquoted, stripBy, hlist, hback, ← String.toList_inj, String.toList_ofList,
    List.reverse_eq_iff, ← List.head?_reverse]
  cases s.toList.reverse with
  | nil => simp
  | cons z r =>
    by_cases hz : z = '"'
    · have hlt : (r.dropWhile (· == '"')).length < (z :: r).length :=
        Nat.lt_succ_of_le (List.dropWhile_sublist _).length_le
      simp only [hz, List.dropWhile_cons, beq_self_eq_true, if_true, List.head?_cons, ne_eq,
        not_true_eq_false, iff_false]
      exact fun heq => absurd (congrArg List.length heq) (by simpa [hz] using hlt.ne)
    · simp [hz]

end Text

namespace Row

open Text

/-! ## Cutting lines -/

/-- Two characters that make no comment mark. -/
def NoMark (a b : Char) : Prop := ¬ (a = '/' ∧ b = '/')

instance (a b : Char) : Decidable (NoMark a b) := inferInstanceAs (Decidable (¬ _))

/-- A word of a line: visible characters, without quotes and comment marks. -/
structure IsWord (w : String) : Prop where
  nonempty : w ≠ ""
  visible : ∀ c ∈ w.toList, isVisible c ∧ c ≠ '"'
  unmarked : w.toList.IsChain NoMark

theorem cutComment_quoted {before : Char} {s : List Char} (h : EscapedFrom before s) :
    ∃ closed, cutComment true before (s ++ ['"']) = ⟨s ++ ['"'], [], closed⟩ := by
  induction s generalizing before with
  | nil =>
    by_cases hb : before = '\\'
    · exact ⟨false, by simp [cutComment, hb, Cut.push]⟩
    · exact ⟨true, by simp [cutComment, hb, Cut.push]⟩
  | cons c s ih =>
    obtain ⟨closed, hcut⟩ := ih h.tail
    have hstay : (c == '"' && (!true || before != '\\')) = false := by
      by_cases hc : c = '"'
      · simp [h.head hc]
      · simp [hc]
    refine ⟨closed, ?_⟩
    rw [List.cons_append, cutComment, hstay]
    simp [hcut, Cut.push]

/-- Code without quotes and comment marks is kept up to the first quote. -/
theorem cutComment_code {before : Char} {s r : List Char} (hq : '"' ∉ s) (hs : s.IsChain NoMark)
    {x : Cut} (hx : cutComment true '"' r = x) :
    cutComment false before (s ++ '"' :: r) = ⟨s ++ '"' :: x.code, x.comment, x.closed⟩ := by
  induction s generalizing before with
  | nil => simp [cutComment, hx, Cut.push]
  | cons c s ih =>
    have hopen : (c == '"' && (!false || before != '\\')) = false := by
      have hc : c ≠ '"' := fun h => hq (h ▸ List.mem_cons_self)
      simp [hc]
    have hmark : (!false && c == '/' && (s ++ '"' :: r).head? == some '/') = false := by
      cases s with
      | nil => simp
      | cons b s =>
        have hb : NoMark c b := (List.isChain_cons_cons.mp hs).1
        simpa [NoMark] using hb
    rw [List.cons_append, cutComment, hopen, hmark, ih (fun h => hq (List.mem_cons_of_mem _ h)) hs.tail]
    rfl

/-! ## Fields -/

theorem fieldsFrom_quoted {before : Char} {s : List Char} (h : EscapedFrom before s) (part : List Char) :
    ∃ closed, fieldsFrom true before part (s ++ ['"']) = ([part.reverse ++ (s ++ ['"'])], closed) := by
  induction s generalizing before part with
  | nil =>
    by_cases hb : before = '\\'
    · exact ⟨false, by simp [fieldsFrom, hb, flush]⟩
    · exact ⟨true, by simp [fieldsFrom, hb, flush]⟩
  | cons c s ih =>
    obtain ⟨closed, hfields⟩ := ih h.tail (c :: part)
    refine ⟨closed, ?_⟩
    have hstay : (true && c == '"' && before != '\\') = false := by
      by_cases hc : c = '"'
      · simp [h.head hc]
      · simp [hc]
    rw [List.cons_append, fieldsFrom, hstay]
    simpa using hfields

theorem not_gap_of_visible {c : Char} (h : isVisible c) : c ≠ ' ' ∧ c ≠ '\t' := by
  constructor <;> rintro rfl <;> simp [isVisible] at h

/-- A word in front of a blank is a field. -/
theorem fieldsFrom_word {before : Char} {w r : List Char} (part : List Char)
    (hw : ∀ c ∈ w, isVisible c ∧ c ≠ '"') (hne : w ≠ [] ∨ part ≠ []) :
    fieldsFrom false before part (w ++ ' ' :: r) =
      ((part.reverse ++ w) :: (fieldsFrom false ' ' [] r).1, (fieldsFrom false ' ' [] r).2) := by
  induction w generalizing before part with
  | nil =>
    have hpart : part ≠ [] := by simpa using hne
    simp [fieldsFrom, flush, hpart]
  | cons c w ih =>
    obtain ⟨hv, hq⟩ := hw c (by simp)
    have hgap := not_gap_of_visible hv
    rw [List.cons_append, fieldsFrom]
    simp [hq, hgap, ih (c :: part) (fun x hx => hw x (List.mem_cons_of_mem _ hx)) (.inr (by simp))]

/-! ## Rows -/

theorem sanitize_of_printable {s : String} (hs : ∀ c ∈ s.toList, ' ' ≤ c ∧ c ≤ '~')
    (ht : trim s.toList = s.toList) : sanitize s = s := by
  have hplain : s.toList.filter isPlain = s.toList := by
    rw [List.filter_eq_self]
    intro c hc
    simp [isPlain, hs c hc]
  rw [sanitize, hplain, ht, String.ofList_toList]

theorem printable_of_visible {c : Char} (h : isVisible c) : ' ' ≤ c ∧ c ≤ '~' := by
  have hc := bounds_of_visible h
  exact ⟨show 32 ≤ c.toNat by omega, hc.2⟩

/-- A line that ends in a quoted text stays as it is. -/
theorem sanitize_quoted {front s : String} {a : Char} {w : List Char} (hfront : front.toList = a :: w)
    (ha : isVisible a) (hw : ∀ c ∈ w, isVisible c ∨ c = ' ') (hs : Quotable s) :
    sanitize (front ++ "\"" ++ s ++ "\"") = front ++ "\"" ++ s ++ "\"" := by
  have hline : (front ++ "\"" ++ s ++ "\"").toList = a :: ((w ++ '"' :: s.toList) ++ ['"']) := by
    simp [hfront]
  refine sanitize_of_printable (fun c hc => ?_) ?_
  · have hcases : c = a ∨ c ∈ w ∨ c = '"' ∨ c ∈ s.toList := by
      rw [hline] at hc
      simp only [List.mem_cons, List.mem_append, List.not_mem_nil, or_false] at hc
      tauto
    rcases hcases with rfl | hc | rfl | hc
    · exact printable_of_visible ha
    · rcases hw c hc with hv | rfl
      · exact printable_of_visible hv
      · decide
    · decide
    · exact hs.printable c hc
  · rw [hline, trim_of_ends ha (by decide)]

/-- The id of a record without the point after it. -/
theorem recordName_point (id : List Char) (c : Char) : recordName (c :: (id ++ ['.'])) = c :: id := by
  rw [recordName, ← List.cons_append, List.reverse_concat]
  simp

theorem isNumbered_digits {n : String} (hn : n ≠ "") (hd : ∀ c ∈ n.toList, c.isDigit) {a : Char}
    (r : List Char) : isNumbered a (a :: (n.toList ++ r)) := by
  cases hlist : n.toList with
  | nil => exact absurd (String.toList_eq_nil_iff.mp hlist) hn
  | cons d l =>
    have hdigit := hd d (by simp [hlist])
    simp only [Char.isDigit, Bool.and_eq_true, decide_eq_true_eq] at hdigit
    simp only [List.cons_append, isNumbered, beq_self_eq_true, Bool.true_and, Bool.and_eq_true,
      decide_eq_true_eq]
    exact hdigit

/-- **The row of a string record.** -/
theorem scan_record {n s : String} (hn : n ≠ "") (hd : ∀ c ∈ n.toList, c.isDigit) (hs : Quotable s)
    (line : Int) : (scan (sanitize ("S" ++ n ++ ". \"" ++ s ++ "\"")) line).row =
      ⟨"S" ++ n, ["\"" ++ s ++ "\""], "", "\"" ++ s ++ "\"", line⟩ := by
  have hvisible : ∀ c ∈ n.toList, isVisible c := fun c hc => Numeral.isVisible_of_isDigit (hd c hc)
  have hclean : sanitize ("S" ++ n ++ ". \"" ++ s ++ "\"") = "S" ++ n ++ ". \"" ++ s ++ "\"" := by
    have hfront : ("S" ++ n ++ ". ").toList = 'S' :: (n.toList ++ ['.', ' ']) := by simp
    have h := sanitize_quoted hfront (by decide) (fun c hc => ?_) hs
    · simpa [String.append_assoc] using h
    · simp only [List.mem_append, List.mem_cons, List.not_mem_nil, or_false] at hc
      rcases hc with hc | rfl | rfl
      · exact .inl (hvisible c hc)
      · exact .inl (by decide)
      · exact .inr rfl
  have hline : ("S" ++ n ++ ". \"" ++ s ++ "\"").toList =
      ('S' :: (n.toList ++ ['.'])) ++ ' ' :: '"' :: (s.toList ++ ['"']) := by simp
  have hid : ∀ c ∈ 'S' :: (n.toList ++ ['.']), (!isGap c) = true := by
    intro c hc
    have hv : isVisible c := by
      simp only [List.mem_append, List.mem_cons, List.not_mem_nil, or_false] at hc
      rcases hc with rfl | hc | rfl
      · decide
      · exact hvisible c hc
      · decide
    simp [isGap, not_gap_of_visible hv]
  have hrecord : isNumbered 'S' (('S' :: (n.toList ++ ['.'])) ++ ' ' :: '"' :: (s.toList ++ ['"'])) := by
    rw [List.cons_append, List.append_assoc]
    exact isNumbered_digits hn hd _
  rw [hclean, scan, hline]
  simp only [hrecord, if_true, List.takeWhile_append_of_pos hid, List.dropWhile_append_of_pos hid]
  have hback : String.ofList ('S' :: n.toList) = "S" ++ n := by
    rw [← String.toList_inj]
    simp
  have hquoted : String.ofList ('"' :: (s.toList ++ ['"'])) = "\"" ++ s ++ "\"" := by
    rw [← String.toList_inj]
    simp
  simp [isGap, recordName_point, hback, hquoted]

theorem isNumbered_append_blank {a : Char} {w : List Char} (h : isNumbered a w = false) (hw : w ≠ [])
    (r : List Char) : isNumbered a (w ++ ' ' :: r) = false := by
  match w with
  | [] => exact absurd rfl hw
  | [b] => simp [isNumbered]
  | _ :: _ :: _ => exact h

/-- **The row of a declaration with a quoted text.** -/
theorem scan_declared {w p s : String} (hw : IsWord w) (hrecord : isNumbered 'S' w.toList = false)
    (hp : IsWord p) (hs : Quotable s) (line : Int) :
    (scan (sanitize (w ++ " " ++ p ++ " \"" ++ s ++ "\"")) line).row =
      ⟨w, [p, "\"" ++ s ++ "\""], "", w ++ " " ++ p ++ " \"" ++ s ++ "\"", line⟩ := by
  obtain ⟨a, w', hw'⟩ := List.exists_cons_of_ne_nil (mt String.toList_eq_nil_iff.mp hw.nonempty)
  have ha : isVisible a := (hw.visible a (by simp [hw'])).1
  have hclean : sanitize (w ++ " " ++ p ++ " \"" ++ s ++ "\"") =
      w ++ " " ++ p ++ " \"" ++ s ++ "\"" := by
    have hfront : (w ++ " " ++ p ++ " ").toList = a :: (w' ++ ' ' :: (p.toList ++ [' '])) := by
      simp [hw']
    have h := sanitize_quoted hfront ha (fun c hc => ?_) hs
    · simpa [String.append_assoc] using h
    · simp only [List.mem_append, List.mem_cons, List.not_mem_nil, or_false] at hc
      rcases hc with hc | rfl | hc | rfl
      · exact .inl (hw.visible c (by simp [hw', hc])).1
      · exact .inr rfl
      · exact .inl (hp.visible c hc).1
      · exact .inr rfl
  have hline : (w ++ " " ++ p ++ " \"" ++ s ++ "\"").toList =
      (w.toList ++ ' ' :: (p.toList ++ [' '])) ++ '"' :: (s.toList ++ ['"']) := by simp
  have hquote : '"' ∉ w.toList ++ ' ' :: (p.toList ++ [' ']) := by
    simp only [List.mem_append, List.mem_cons, List.not_mem_nil, or_false, not_or]
    exact ⟨fun hq => (hw.visible _ hq).2 rfl, by decide, fun hq => (hp.visible _ hq).2 rfl, by decide⟩
  have hmarks : (w.toList ++ ' ' :: (p.toList ++ [' '])).IsChain NoMark := by
    refine hw.unmarked.append ((hp.unmarked.append (.singleton ' ') ?_).cons ?_) ?_ <;>
      simp [NoMark]
  obtain ⟨closed, hcut⟩ := cutComment_quoted (hs.escapedFrom '"')
  obtain ⟨closed', hfields⟩ := fieldsFrom_quoted (hs.escapedFrom '"') ['"']
  have hcomment : splitComment ((w.toList ++ ' ' :: (p.toList ++ [' '])) ++ '"' :: (s.toList ++ ['"'])) =
      ⟨(w.toList ++ ' ' :: (p.toList ++ [' '])) ++ '"' :: (s.toList ++ ['"']), [], closed⟩ := by
    have htrim := trim_of_ends ha (by decide : isVisible '"')
      (w' ++ ' ' :: (p.toList ++ ' ' :: '"' :: s.toList))
    rw [splitComment, cutComment_code hquote hmarks hcut]
    have hnil : trim [] = [] := trim_of_visible (by simp)
    simp only [hnil]
    congr 1
    simpa [hw'] using htrim
  have hsplit : splitFields ((w.toList ++ ' ' :: (p.toList ++ [' '])) ++ '"' :: (s.toList ++ ['"'])) =
      ([w.toList, p.toList, '"' :: (s.toList ++ ['"'])], closed') := by
    have hopen : fieldsFrom false ' ' [] ('"' :: (s.toList ++ ['"'])) =
        fieldsFrom true '"' ['"'] (s.toList ++ ['"']) := by simp [fieldsFrom]
    rw [splitFields, List.append_assoc, List.cons_append, List.append_assoc, List.singleton_append,
      fieldsFrom_word [] hw.visible (.inl (by simp [hw'])),
      fieldsFrom_word [] hp.visible (.inl (mt String.toList_eq_nil_iff.mp hp.nonempty)), hopen, hfields]
    simp
  have hnot : isNumbered 'S' ((w.toList ++ ' ' :: (p.toList ++ [' '])) ++ '"' :: (s.toList ++ ['"'])) =
      false := by
    rw [List.append_assoc]
    exact isNumbered_append_blank hrecord (by simp [hw']) _
  have hquoted : String.ofList ('"' :: (s.toList ++ ['"'])) = "\"" ++ s ++ "\"" := by
    rw [← String.toList_inj]
    simp
  rw [hclean, scan, hline]
  simp only [hnot, Bool.false_eq_true, if_false, hcomment, hsplit]
  rw [← hline, String.ofList_toList]
  simp [hquoted]

end Row

end ScriptLift
