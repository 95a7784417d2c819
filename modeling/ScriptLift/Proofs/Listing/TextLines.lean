import ScriptLift.Proofs.Listing.Printed

/-!
# Lines of a text

A quoted text may begin on one line and go on over further lines, the last of which ends in the closing
quote. Each of these lines is scanned like any other: a comment mark cuts it, and a line that looks like a
string record loses its first word.

* `Text.Quoteless`: printable texts without quotes and without white space at their ends.
* `scan_opened`: the row of a declaration whose text begins.
* `TextLine`: the further lines; `staysText`: those that are kept, and open or close no class.
* `weight`: the number of characters that are no quotes.
* **`scan_of_staysText`**, **`weight_raw_lt`**: a line that stays is kept, any other loses characters.
-/

namespace ScriptLift

namespace Text

/-- A printable text without quotes and without white space at its ends. -/
structure Quoteless (s : String) : Prop where
  printable : ∀ c ∈ s.toList, ' ' ≤ c ∧ c ≤ '~'
  trimmed : trim s.toList = s.toList
  unquoted : '"' ∉ s.toList

theorem hasInfixList_iff {sub s : List Char} : hasInfixList sub s ↔ sub <:+: s := by
  induction s with
  | nil => simp [hasInfixList]
  | cons c r ih =>
    rw [hasInfixList, Bool.or_eq_true, ih, List.isPrefixOf_iff_prefix, List.infix_cons_iff]

end Text

namespace Row

open Text Quotes

variable {c : Char} {s : List Char}

theorem printable_plain (h : ' ' ≤ c ∧ c ≤ '~') : isPlain c := by simp [isPlain, h]

theorem not_tab_of_printable (h : ' ' ≤ c ∧ c ≤ '~') : c ≠ '\t' := by
  rintro rfl
  exact absurd h.1 (by decide)

theorem visible_ends_of_quoteless {t : String} (h : Quoteless t) :
    (∀ a ∈ t.toList.head?, isVisible a) ∧ ∀ z ∈ t.toList.getLast?, isVisible z :=
  visible_ends_of_plain (fun c hc => printable_plain (h.printable c hc)) h.trimmed

/-! ## Where a text begins -/

/-- Where a quote stands at the end of a text only, no shorter front of it has one. -/
theorem not_mem_front {p t : List Char} (hquote : '"' ∉ s.dropLast) (hs : s = p ++ t) (ht : t ≠ []) :
    '"' ∉ p := fun hmem => hquote (by
  rw [hs, List.dropLast_append_of_ne_nil ht]
  exact List.mem_append_left _ hmem)

/-- A text without blanks and comment marks, and with a quote at its end at most, is a field. -/
theorem isField_of_unquoted (hne : s ≠ []) (hgap : ∀ c ∈ s, isGap c = false) (hquote : '"' ∉ s.dropLast)
    (hm : start.Unmarked s) : IsField s := by
  refine ⟨hne, fun p c r hp => ⟨fun hc => ?_, fun hopen hr => ?_⟩, hm⟩
  · rw [hgap c (by simp [hp])] at hc
    cases hc
  · rw [isOpen_after_of_unquoted (not_mem_front hquote hp (by simp))] at hopen
    cases hopen

theorem isField_of_word {w : String} (hw : IsWord w) : IsField w.toList ∧ leavesOpen w.toList = false := by
  have hquote : '"' ∉ w.toList := fun hmem => (hw.visible _ hmem).2 rfl
  refine ⟨isField_of_unquoted (mt String.toList_eq_nil_iff.mp hw.nonempty) (fun c hc => ?_)
    (fun hmem => hquote (List.mem_of_mem_dropLast hmem)) fun p r hp => ?_,
    isOpen_after_of_unquoted hquote⟩
  · simp [isGap, not_gap_of_visible (hw.visible c hc).1]
  · have hchain := hw.unmarked
    rw [hp] at hchain
    exact absurd ⟨rfl, rfl⟩ (List.isChain_cons_cons.mp hchain.right_of_append).1

/-- A quoted text that begins is a field. -/
theorem isField_opened (hquote : '"' ∉ s) :
    IsField ('"' :: s) ∧ leavesOpen ('"' :: s) := by
  have hopen : ∀ p : List Char, '"' ∉ p → (start.after ('"' :: p)).isOpen := fun p hp => by
    rw [after_cons, isOpen_after_of_unquoted hp]
    rfl
  refine ⟨⟨by simp, fun p c r hp => ?_, fun p r hp => ?_⟩, hopen s hquote⟩
  · cases p with
    | nil =>
      obtain ⟨rfl, -⟩ := List.cons.inj hp
      exact ⟨fun hc => absurd hc (by decide), fun ho => absurd ho (by decide)⟩
    | cons x p =>
      obtain ⟨rfl, rfl⟩ := List.cons.inj hp
      have hparts : '"' ∉ p ++ c :: r := hquote
      rw [List.mem_append, List.mem_cons, not_or, not_or] at hparts
      refine ⟨fun _ => hopen p hparts.1, fun _ _ => hopen (p ++ [c]) ?_⟩
      simpa using ⟨hparts.1, hparts.2.1⟩
  · cases p with
    | nil => exact absurd (List.cons.inj hp).1 (by decide)
    | cons x p =>
      obtain ⟨rfl, rfl⟩ := List.cons.inj hp
      exact hopen p fun hmem => hquote (List.mem_append_left _ hmem)

theorem separate_opened {p t : String} (hp : IsWord p) (ht : Quoteless t) :
    Separate ["string".toList, p.toList, '"' :: t.toList] false := by
  have hword : IsWord "string" := ⟨by decide, by simp [isVisible], by simp [NoMark]⟩
  obtain ⟨hstring, hstringClosed⟩ := isField_of_word hword
  obtain ⟨hname, hnameClosed⟩ := isField_of_word hp
  obtain ⟨htext, hopen⟩ := isField_opened ht.unquoted
  exact .cons hstring hstringClosed (.cons hname hnameClosed (.unclosed htext hopen))

theorem printable_opened {p t : String} (hp : IsWord p) (ht : Quoteless t) :
    ∀ c ∈ ("string " ++ p ++ " \"" ++ t).toList, ' ' ≤ c ∧ c ≤ '~' := by
  have hfixed : ∀ s ∈ ["string ", " \""], ∀ c ∈ s.toList, ' ' ≤ c ∧ c ≤ '~' := by simp
  simp only [String.toList_append, List.forall_mem_append]
  exact ⟨⟨⟨hfixed _ (by simp), fun c hc => printable_of_visible (hp.visible c hc).1⟩,
    hfixed _ (by simp)⟩, ht.printable⟩

/-- The line ends where the text does, or in the quote if nothing of the text stands on it. -/
theorem trim_opened (p : String) {t : String} (ht : Quoteless t) :
    trim ("string " ++ p ++ " \"" ++ t).toList = ("string " ++ p ++ " \"" ++ t).toList := by
  refine trim_of_visible_ends (by simpa using (by decide : isVisible 's')) fun z hz => ?_
  rw [String.toList_append, List.getLast?_append] at hz
  cases hlast : t.toList.getLast? with
  | none =>
    rw [hlast, String.toList_append, List.getLast?_append] at hz
    obtain rfl : '"' = z := by simpa using hz
    decide
  | some y =>
    obtain rfl : y = z := by simpa [hlast] using hz
    exact (visible_ends_of_quoteless ht).2 y hlast

/-- **The row of a declaration whose text begins.** -/
theorem scan_opened {p t : String} (hp : IsWord p) (ht : Quoteless t) (n : Int) :
    (scan (sanitize ("string " ++ p ++ " \"" ++ t)) n).row =
      ⟨"string", [p, "\"" ++ t], "", "string " ++ p ++ " \"" ++ t, n⟩ := by
  have hfields := separate_opened hp ht
  have htrim := trim_opened p ht
  have hline : ("string " ++ p ++ " \"" ++ t).toList =
      joined ["string".toList, p.toList, '"' :: t.toList] := by simp
  have hcode : IsCode ("string " ++ p ++ " \"" ++ t).toList :=
    ⟨by rw [hline]; exact unmarked_joined hfields, htrim⟩
  have hsplit : splitFields ("string " ++ p ++ " \"" ++ t).toList =
      (["string".toList, p.toList, '"' :: t.toList], false) := by
    rw [hline]
    exact splitFields_joined hfields
  rw [sanitize_of_printable (printable_opened hp ht) htrim,
    scan_of_isCode (by simp [isNumbered]) hcode hsplit]
  simp

/-! ## Further lines -/

/-- A printable line in which a quote stands at the end only. -/
structure TextLine (s : String) : Prop where
  nonempty : s ≠ ""
  printable : ∀ c ∈ s.toList, ' ' ≤ c ∧ c ≤ '~'
  trimmed : trim s.toList = s.toList
  unquoted : '"' ∉ s.toList.dropLast

/-- A further line in the middle of a text. -/
theorem textLine_of_quoteless {t : String} (h : Quoteless t) (hne : t ≠ "") : TextLine t :=
  ⟨hne, h.printable, h.trimmed, fun hmem => h.unquoted (List.mem_of_mem_dropLast hmem)⟩

/-- The last line of a text. -/
theorem textLine_closed {t : String} (h : Quoteless t) (hne : t ≠ "") : TextLine (t ++ "\"") := by
  have hlist : (t ++ "\"").toList = t.toList ++ ['"'] := by simp
  refine ⟨fun hempty => ?_, ?_, ?_, ?_⟩
  · rw [← String.toList_inj, hlist] at hempty
    simp at hempty
  · rw [hlist, List.forall_mem_append]
    exact ⟨h.printable, by simp⟩
  · rw [hlist]
    refine trim_of_visible_ends ?_ ?_
    · rw [List.head?_append_of_ne_nil _ (mt String.toList_eq_nil_iff.mp hne)]
      exact (visible_ends_of_quoteless h).1
    · rw [List.getLast?_concat]
      simpa using (by decide : isVisible '"')
  · rw [hlist, List.dropLast_concat]
    exact h.unquoted

/-- The first word of a line. -/
def firstWord (s : String) : String := String.ofList (s.toList.takeWhile (· != ' '))

/-- Whether a line stays as it is where it stands in a text, and opens or closes no class there: it has no
comment mark, is no string record and does not start with one of two words. -/
def staysText (s : String) : Bool :=
  !Text.hasInfix "//" s && !isNumbered 'S' s.toList && firstWord s != "class"
    && firstWord s != "class_end"

/-- The number of characters that are no quotes. -/
def weight (s : List Char) : Nat := s.countP (· != '"')

namespace TextLine

variable {s : String}

theorem clean (h : TextLine s) : sanitize s = s := sanitize_of_printable h.printable h.trimmed

/-- Outside quotes all of a further line is, so a comment mark anywhere counts. -/
theorem unmarked_iff (h : TextLine s) :
    start.Unmarked s.toList ↔ ∀ p r, s.toList ≠ p ++ '/' :: '/' :: r := by
  refine ⟨fun hm p r hp => ?_, fun hm p r hp => absurd hp (hm p r)⟩
  have hquote : '"' ∉ p := not_mem_front h.unquoted hp (by simp)
  have hopen := hm p r hp
  rw [isOpen_after_of_unquoted hquote] at hopen
  cases hopen

end TextLine

theorem hasInfix_mark_iff {s : String} :
    Text.hasInfix "//" s = false ↔ ∀ p r, s.toList ≠ p ++ '/' :: '/' :: r := by
  rw [Bool.eq_false_iff, ne_eq, Text.hasInfix, hasInfixList_iff]
  constructor
  · intro hfree p r hp
    exact hfree ⟨p, r, by rw [hp]; simp⟩
  · rintro hmark ⟨p, r, hp⟩
    exact hmark p r (by rw [← hp]; simp)

/-! ### What is kept of them -/

theorem weight_append (s t : List Char) : weight (s ++ t) = weight s + weight t := List.countP_append

/-- What is kept of a line is a part of it. -/
theorem raw_subset {s : String} (n : Int) : (scan s n).row.raw.toList ⊆ s.toList := by
  rw [scan]
  split_ifs
  · rw [String.toList_ofList]
    exact fun c hc => List.dropWhile_subset _ (List.dropWhile_subset _ hc)
  · rw [String.toList_ofList]
    exact fun c hc => (cutComment_spec start s.toList).1.subset (mem_of_mem_trim hc)

namespace TextLine

variable {s : String}

/-- The id of a string record is lost. -/
theorem weight_raw_record (hrecord : isNumbered 'S' s.toList) (n : Int) :
    weight (scan s n).row.raw.toList < weight s.toList := by
  simp only [scan, hrecord, if_true, String.toList_ofList]
  obtain ⟨r, hr⟩ : ∃ r, s.toList = 'S' :: r := by
    unfold isNumbered at hrecord
    split at hrecord
    · rename_i c d r hs
      simp only [Bool.and_eq_true, beq_iff_eq] at hrecord
      exact ⟨d :: r, by rw [hs, hrecord.1.1]⟩
    · cases hrecord
  have hsuffix : (r.dropWhile (!isGap ·)).dropWhile isGap <:+ r :=
    (List.dropWhile_suffix _).trans (List.dropWhile_suffix _)
  rw [hr, List.dropWhile_cons_of_pos (by decide), weight, weight, List.countP_cons_of_pos (by decide)]
  exact Nat.lt_succ_of_le hsuffix.sublist.countP_le

/-- What a comment mark cuts off is lost. -/
theorem weight_raw_marked (h : TextLine s) (hrecord : isNumbered 'S' s.toList = false)
    {p r : List Char} (hp : s.toList = p ++ '/' :: '/' :: r) (n : Int) :
    weight (scan s n).row.raw.toList < weight s.toList := by
  have hclean : IsClean s.toList := ⟨fun c hc => printable_plain (h.printable c hc), h.trimmed⟩
  have hcode := (isCode_splitComment s.toList).unmarked
  have hkept := hclean.prefix_code
  have hquote : '"' ∉ p := not_mem_front h.unquoted hp (by simp)
  simp only [scan, hrecord, Bool.false_eq_true, if_false, String.toList_ofList]
  generalize (splitComment s.toList).code = code at hcode hkept
  -- code that reached behind the mark would have it
  have hshort : code <+: p ++ ['/'] := by
    have hmark : p ++ ['/', '/'] <+: s.toList := ⟨r, by rw [hp]; simp⟩
    have hfront : p ++ ['/'] <+: s.toList := ⟨'/' :: r, by rw [hp]; simp⟩
    by_contra hlong
    have hlen : (p ++ ['/']).length < code.length := by
      by_contra hle
      exact hlong (List.prefix_of_prefix_length_le hkept hfront (by omega))
    obtain ⟨u, hu⟩ := List.prefix_of_prefix_length_le hmark hkept (by simp at hlen ⊢; omega)
    have hopen := hcode p u (by rw [← hu]; simp)
    rw [isOpen_after_of_unquoted hquote] at hopen
    cases hopen
  have hle : weight code ≤ weight (p ++ ['/']) := hshort.sublist.countP_le
  have hone : weight ('/' :: '/' :: r) = weight r + 2 := by simp [weight]
  have hslash : weight ['/'] = 1 := rfl
  rw [weight_append, hslash] at hle
  rw [hp, weight_append, hone]
  omega

/-- **A line that does not stay as it is loses characters.** -/
theorem weight_raw_lt (h : TextLine s)
    (hlost : ¬ (Text.hasInfix "//" s = false ∧ isNumbered 'S' s.toList = false)) (n : Int) :
    weight (scan s n).row.raw.toList < weight s.toList := by
  cases hrecord : isNumbered 'S' s.toList with
  | true => exact weight_raw_record hrecord n
  | false =>
    have hmark : ¬ ∀ p r, s.toList ≠ p ++ '/' :: '/' :: r := fun hm =>
      hlost ⟨hasInfix_mark_iff.mpr hm, hrecord⟩
    push Not at hmark
    obtain ⟨p, r, hp⟩ := hmark
    exact h.weight_raw_marked hrecord hp n

/-- A line without blanks and comment marks is a field. -/
theorem splitFields_of_unspaced (h : TextLine s) (hm : start.Unmarked s.toList)
    (hword : ∀ c ∈ s.toList, c ≠ ' ') : (splitFields s.toList).1 = [s.toList] := by
  have hgap : ∀ c ∈ s.toList, isGap c = false := fun c hc => by
    simp [isGap, hword c hc, not_tab_of_printable (h.printable c hc)]
  have hfield := isField_of_unquoted (mt String.toList_eq_nil_iff.mp h.nonempty) hgap h.unquoted hm
  have hsep : ∃ closed, Separate [s.toList] closed := by
    cases hopen : leavesOpen s.toList with
    | true => exact ⟨false, .unclosed hfield hopen⟩
    | false => exact ⟨true, .cons hfield hopen .nil⟩
  obtain ⟨closed, hsep⟩ := hsep
  have hfields := splitFields_joined hsep
  rw [joined_singleton] at hfields
  rw [hfields]

/-- The first word of a line with blanks is a field. -/
theorem splitFields_of_spaced (h : TextLine s) {w r : List Char} (hline : s.toList = w ++ ' ' :: r)
    (hword : ∀ c ∈ w, c ≠ ' ') : (splitFields s.toList).1 = w :: (splitFields r).1 := by
  have hne : w ≠ [] := by
    rintro rfl
    have hfront := (visible_ends_of_plain (fun c hc => printable_plain (h.printable c hc)) h.trimmed).1
    rw [hline] at hfront
    exact absurd (hfront ' ' rfl) (by decide)
  have hvisible : ∀ c ∈ w, isVisible c ∧ c ≠ '"' := fun c hc => by
    refine ⟨visible_of_printable (h.printable c (by rw [hline]; simp [hc])) (hword c hc), ?_⟩
    rintro rfl
    exact not_mem_front h.unquoted hline (by simp) hc
  rw [hline, splitFields, fieldsFrom_word [] hvisible (.inl hne)]
  rfl

/-- The name of a line that stays as it is. -/
theorem headD_splitFields (h : TextLine s) (hm : start.Unmarked s.toList) :
    (splitFields s.toList).1.headD [] = s.toList.takeWhile (· != ' ') := by
  have hword : ∀ c ∈ s.toList.takeWhile (· != ' '), c ≠ ' ' := fun c hc => by
    simpa using List.mem_takeWhile_imp hc
  have hline := List.takeWhile_append_dropWhile (p := (· != ' ')) (l := s.toList)
  cases hrest : s.toList.dropWhile (· != ' ') with
  | nil =>
    rw [hrest, List.append_nil] at hline
    rw [hline] at hword ⊢
    rw [h.splitFields_of_unspaced hm hword]
    rfl
  | cons c r =>
    obtain rfl : c = ' ' := by
      have hfirst := List.head?_dropWhile_not (· != ' ') s.toList
      rw [hrest] at hfirst
      simpa using hfirst
    rw [hrest] at hline
    rw [h.splitFields_of_spaced hline.symm hword]
    rfl

/-- **A line that stays as it is, as a row.** -/
theorem scan_of_staysText (h : TextLine s) (hmark : Text.hasInfix "//" s = false)
    (hrecord : isNumbered 'S' s.toList = false) (n : Int) :
    (scan s n).row.name = firstWord s ∧ (scan s n).row.raw = s := by
  have hm : start.Unmarked s.toList := h.unmarked_iff.mpr (hasInfix_mark_iff.mp hmark)
  have hrow := scan_of_isCode hrecord ⟨hm, h.trimmed⟩ (Prod.mk.eta (p := splitFields s.toList)).symm n
  rw [hrow]
  refine ⟨?_, rfl⟩
  rw [firstWord, ← h.headD_splitFields hm]
  cases (splitFields s.toList).1 <;> rfl

end TextLine

end Row

end ScriptLift
