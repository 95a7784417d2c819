import ScriptLift.Proofs.Symbols.Expression

/-!
# Patterns as regular expressions

Anywhere in a name, the regular expression of a pattern finds a place exactly when the whole name
fits one of the alternatives.

* `Fits`: the globs; `glob_iff_fits`.
* `branchSigns`: the signs of an alternative; `spelled_regexWith`.
* `runs_branchSigns_iff`: a search for one alternative.
* **`found_regexWith_iff`**: searching for the expression of a pattern is matching its globs.
* `matchesName_iff_found`: the matcher searches for that expression.
-/

namespace ScriptLift.Pattern

open Text

/-! ## Globs -/

/-- **A text fits a glob**: a star stands for any text, and all else for itself. -/
inductive Fits : List Char → List Char → Prop
  | nil : Fits [] []
  | star {p s : List Char} (u : List Char) : Fits p s → Fits ('*' :: p) (u ++ s)
  | char {c : Char} {p s : List Char} : c ≠ '*' → Fits p s → Fits (c :: p) (c :: s)

theorem anySuffix_iff {fits : List Char → Bool} {s : List Char} :
    anySuffix fits s = true ↔ ∃ u v, s = u ++ v ∧ fits v = true := by
  induction s with
  | nil => simp [anySuffix]
  | cons c s ih =>
    rw [anySuffix, Bool.or_eq_true, ih]
    constructor
    · rintro (h | ⟨u, v, rfl, hv⟩)
      · exact ⟨[], c :: s, rfl, h⟩
      · exact ⟨c :: u, v, rfl, hv⟩
    · rintro ⟨u, v, huv, hv⟩
      rcases List.append_eq_cons_iff.mp huv.symm with ⟨rfl, rfl⟩ | ⟨u', rfl, hu'⟩
      · exact .inl hv
      · exact .inr ⟨u', v, hu', hv⟩

theorem fits_nil_iff {s : List Char} : Fits [] s ↔ s = [] :=
  ⟨fun h => by cases h; rfl, fun h => h ▸ .nil⟩

theorem fits_star_iff {p s : List Char} :
    Fits ('*' :: p) s ↔ ∃ u v, s = u ++ v ∧ Fits p v := by
  constructor
  · intro h
    cases h with
    | star u h => exact ⟨u, _, rfl, h⟩
    | char hne h => exact absurd rfl hne
  · rintro ⟨u, v, rfl, h⟩
    exact h.star u

theorem fits_char_iff {c : Char} (hc : c ≠ '*') {p s : List Char} :
    Fits (c :: p) s ↔ ∃ r, s = c :: r ∧ Fits p r := by
  constructor
  · intro h
    cases h with
    | star u h => exact absurd rfl hc
    | char hne h => exact ⟨_, rfl, h⟩
  · rintro ⟨r, rfl, h⟩
    exact h.char hc

/-- **The matcher decides what fits.** -/
theorem glob_iff_fits {p s : List Char} : glob p s = true ↔ Fits p s := by
  induction p generalizing s with
  | nil => rw [fits_nil_iff, glob, List.isEmpty_iff]
  | cons c p ih =>
    by_cases hc : c = '*'
    · subst hc
      rw [fits_star_iff, glob, anySuffix_iff]
      simp only [ih]
    · rw [fits_char_iff hc]
      cases s with
      | nil => simp [glob]
      | cons d s =>
        rw [glob, Bool.and_eq_true, beq_iff_eq, ih]
        · simp [eq_comm]
        · exact hc

/-- What fits two globs in a row falls into two parts. -/
theorem fits_append {p q s : List Char} :
    Fits (p ++ q) s ↔ ∃ u v, s = u ++ v ∧ Fits p u ∧ Fits q v := by
  induction p generalizing s with
  | nil => simp [fits_nil_iff]
  | cons c p ih =>
    by_cases hc : c = '*'
    · subst hc
      simp only [List.cons_append, fits_star_iff, ih]
      constructor
      · rintro ⟨u, _, rfl, v, w, rfl, hv, hw⟩
        exact ⟨u ++ v, w, by rw [List.append_assoc], ⟨u, v, rfl, hv⟩, hw⟩
      · rintro ⟨_, w, rfl, ⟨u, v, rfl, hv⟩, hw⟩
        exact ⟨u, v ++ w, by rw [List.append_assoc], v, w, rfl, hv, hw⟩
    · simp only [List.cons_append, fits_char_iff hc, ih]
      constructor
      · rintro ⟨_, rfl, v, w, rfl, hv, hw⟩
        exact ⟨c :: v, w, rfl, ⟨v, rfl, hv⟩, hw⟩
      · rintro ⟨_, w, rfl, ⟨v, rfl, hv⟩, hw⟩
        exact ⟨v ++ w, rfl, v, w, rfl, hv, hw⟩

/-- A star in front takes along what stands before. -/
theorem Fits.behind {p s : List Char} (h : Fits ('*' :: p) s) (u : List Char) :
    Fits ('*' :: p) (u ++ s) := by
  obtain ⟨v, w, rfl, hw⟩ := fits_star_iff.mp h
  rw [← List.append_assoc]
  exact hw.star (u ++ v)

/-- A star at the end takes along what follows. -/
theorem Fits.before {p s : List Char} (h : Fits (p ++ ['*']) s) (u : List Char) :
    Fits (p ++ ['*']) (s ++ u) := by
  obtain ⟨v, w, rfl, hv, hw⟩ := fits_append.mp h
  have hstar : Fits ['*'] (w ++ u) := by simpa using Fits.nil.star (w ++ u)
  rw [List.append_assoc]
  exact fits_append.mpr ⟨v, w ++ u, rfl, hv, hstar⟩

/-! ## Expressions of patterns -/

/-- The sign of a character of an alternative. -/
def signOf (c : Char) : Sign := if c = '*' then .any else .char c

/-- The signs of an alternative. -/
def branchSigns (p : List Char) : List Sign :=
  (if p.head? != some '*' then [.start] else []) ++ (chars p).map signOf
    ++ (if p.getLast? != some '*' then [.stop] else [])

theorem not_mem_of_mem_splitOn {x : Char} {s l : List Char} (h : l ∈ s.splitOn x) : x ∉ l := by
  induction s generalizing l with
  | nil =>
    obtain rfl : l = [] := by simpa using h
    exact List.not_mem_nil
  | cons c s ih =>
    rw [List.splitOn_cons_eq_if_modifyHead] at h
    split_ifs at h with hc
    · rcases List.mem_cons.mp h with rfl | h
      · exact List.not_mem_nil
      · exact ih h
    · cases hs : s.splitOn x with
      | nil => exact absurd hs (List.splitOn_ne_nil x s)
      | cons y ys =>
        rw [hs, List.modifyHead_cons, List.mem_cons] at h
        rcases h with rfl | h
        · have hy : x ∉ y := ih (hs ▸ List.mem_cons_self)
          rw [beq_iff_eq] at hc
          simp [hy, Ne.symm hc]
        · exact ih (hs ▸ List.mem_cons_of_mem y h)

theorem map_intercalate {α β : Type} (f : α → β) (sep : List α) : ∀ parts : List (List α),
    (List.intercalate sep parts).map f = List.intercalate (sep.map f) (parts.map (List.map f))
  | [] => rfl
  | [x] => by simp
  | x :: y :: ys => by
    have ih := map_intercalate f sep (y :: ys)
    simp only [List.map_cons, List.intercalate_cons_cons, List.map_append] at ih ⊢
    rw [ih]

/-- The signs of pieces with any text between them are those of the whole alternative. -/
theorem intercalate_any_map {parts : List (List Char)} (h : ∀ part ∈ parts, '*' ∉ part) :
    List.intercalate [.any] (parts.map fun part => (chars part).map .char) =
      (chars (List.intercalate ['*'] parts)).map signOf := by
  have hlit : ∀ part ∈ parts, (chars part).map Sign.char = (chars part).map signOf :=
    fun part hpart => List.map_congr_left fun c hc => by
      rw [signOf, if_neg]
      rintro rfl
      exact h part hpart ((mem_chars_ascii (by decide)).mp hc)
  rw [chars_intercalate (by decide), map_intercalate, List.map_map, List.map_congr_left hlit]
  rfl

/-- **The expression of an alternative is read as its signs.** -/
theorem spelled_branch {quote : List Char → List Char} {p : List Char}
    (literal : ∀ part ∈ p.splitOn '*', Spelled (quote part) ((chars part).map .char)) :
    Spelled ((branch p).text quote) (branchSigns p) := by
  have hparts : Spelled (List.intercalate "(.*)".toList ((p.splitOn '*').map quote))
      ((chars p).map signOf) := by
    have h := spelled_any.intercalate literal
    rwa [intercalate_any_map fun part => not_mem_of_mem_splitOn, List.intercalate_splitOn] at h
  refine (Spelled.append ?_ hparts).append ?_
  · rw [branch]
    split_ifs
    · exact spelled_start
    · exact .nil
  · rw [branch]
    split_ifs
    · exact spelled_stop
    · exact .nil

/-- **The expression of a pattern is read as the signs of its alternatives**, with bars between
them. -/
theorem spelled_regexWith {quote : List Char → List Char} {pattern : String}
    (literal : ∀ p ∈ alternatives pattern, ∀ part ∈ p.splitOn '*',
      Spelled (quote part) ((chars part).map .char)) :
    Spelled (regexWith quote pattern).toList
      (List.intercalate [.bar] ((alternatives pattern).map branchSigns)) := by
  rw [regexWith, String.toList_ofList]
  exact spelled_bar.intercalate fun p hp => spelled_branch (literal p hp)

theorem mem_intercalate {α : Type} {sep part : List α} {c : α} (hc : c ∈ part) :
    ∀ {parts : List (List α)}, part ∈ parts → c ∈ List.intercalate sep parts
  | [y], h => by
    obtain rfl := List.mem_singleton.mp h
    rwa [List.intercalate_singleton]
  | y :: z :: zs, h => by
    rw [List.intercalate_cons_cons, List.mem_append, List.mem_append]
    rcases List.mem_cons.mp h with rfl | h
    · exact .inl (.inl hc)
    · exact .inr (mem_intercalate hc h)

/-- The characters of a piece between separators are characters of the whole. -/
theorem mem_chars_of_mem_splitOn {x : Char} (hx : x.toNat < 0x80) {s part : List Char}
    (hpart : part ∈ s.splitOn x) {c : Char} (hc : c ∈ chars part) : c ∈ chars s := by
  rw [← @List.intercalate_splitOn _ s _ _ x, chars_intercalate hx]
  exact mem_intercalate hc (List.mem_map_of_mem hpart)

/-- **The pieces of a pattern of plain characters are escaped as themselves.** -/
theorem spelled_escape_pieces {pattern : String} (h : ∀ c ∈ chars pattern.toList, isPlain c) :
    ∀ p ∈ alternatives pattern, ∀ part ∈ p.splitOn '*',
      Spelled (escape part) ((chars part).map .char) := fun _ hp _ hpart =>
  spelled_escape fun c hc =>
    h c (mem_chars_of_mem_splitOn (by decide) hp (mem_chars_of_mem_splitOn (by decide) hpart hc))

/-! ## Matching -/

/-- **The signs of a glob pass over what fits it.** -/
theorem runs_map_signOf_append {q : List Char} {ss : List Sign} {passed rest : List Char}
    (hrest : '\n' ∉ rest) :
    Runs (q.map signOf ++ ss) passed rest ↔
      ∃ u v, rest = u ++ v ∧ Fits q u ∧ Runs ss (passed ++ u) v := by
  induction q generalizing passed rest with
  | nil => simp [fits_nil_iff]
  | cons c q ih =>
    by_cases hc : c = '*'
    · subst hc
      have hsign : signOf '*' = .any := rfl
      simp only [List.map_cons, List.cons_append, hsign, Runs, fits_star_iff]
      constructor
      · rintro ⟨u, v, rfl, -, hv⟩
        obtain ⟨w, x, rfl, hw, hx⟩ := (ih fun h => hrest (List.mem_append_right u h)).mp hv
        exact ⟨u ++ w, x, by rw [List.append_assoc], ⟨u, w, rfl, hw⟩,
          by rwa [List.append_assoc] at hx⟩
      · rintro ⟨_, x, rfl, ⟨u, w, rfl, hw⟩, hx⟩
        rw [List.append_assoc, List.mem_append, not_or] at hrest
        exact ⟨u, w ++ x, by rw [List.append_assoc], hrest.1,
          (ih hrest.2).mpr ⟨w, x, rfl, hw, by rwa [List.append_assoc]⟩⟩
    · have hsign : signOf c = .char c := if_neg hc
      simp only [List.map_cons, List.cons_append, hsign, Runs, fits_char_iff hc]
      constructor
      · rintro ⟨r, rfl, hr⟩
        obtain ⟨w, x, rfl, hw, hx⟩ := (ih fun h => hrest (List.mem_cons_of_mem c h)).mp hr
        exact ⟨c :: w, x, rfl, ⟨w, rfl, hw⟩, by rwa [List.append_assoc] at hx⟩
      · rintro ⟨_, x, rfl, ⟨w, rfl, hw⟩, hx⟩
        refine ⟨w ++ x, rfl, (ih fun h => hrest (List.mem_cons_of_mem c h)).mpr ⟨w, x, rfl, hw, ?_⟩⟩
        rwa [List.append_assoc]

/-- **A search for an alternative finds a place exactly when the whole text fits.** -/
theorem runs_branchSigns_iff {p s : List Char} (hs : '\n' ∉ s) :
    (∃ passed rest, s = passed ++ rest ∧ Runs (branchSigns p) passed rest) ↔
      Fits (chars p) s := by
  constructor
  · rintro ⟨passed, rest, rfl, h⟩
    have hrest : '\n' ∉ rest := fun h => hs (List.mem_append_right passed h)
    obtain ⟨hpassed, hmid⟩ : (p.head? ≠ some '*' → passed = []) ∧
        Runs ((chars p).map signOf ++ if p.getLast? != some '*' then [.stop] else []) passed rest := by
      by_cases hhead : p.head? = some '*' <;> simpa [branchSigns, hhead, Runs] using h
    obtain ⟨u, v, rfl, hfits, hend⟩ := (runs_map_signOf_append hrest).mp hmid
    have hv : p.getLast? ≠ some '*' → v = [] := by
      intro hlast
      simp only [bne_iff_ne, ne_eq, hlast, not_false_iff, if_true, Runs, and_true] at hend
      exact hend.resolve_right fun h => hrest (by simp [h])
    have hfront : Fits (chars p) (passed ++ u) := by
      by_cases hhead : p.head? = some '*'
      · obtain ⟨p', rfl⟩ := List.head?_eq_some_iff.mp hhead
        rw [chars_cons_ascii (by decide)] at hfits ⊢
        exact hfits.behind passed
      · rwa [hpassed hhead]
    rw [← List.append_assoc]
    by_cases hlast : p.getLast? = some '*'
    · obtain ⟨p', rfl⟩ := List.getLast?_eq_some_iff.mp hlast
      rw [chars_append_ascii (by decide), chars_nil] at hfront ⊢
      exact hfront.before v
    · rwa [hv hlast, List.append_nil]
  · intro h
    have hend : Runs (if p.getLast? != some '*' then [.stop] else []) ([] ++ s) [] := by
      split_ifs <;> simp [Runs]
    have hmid := (runs_map_signOf_append hs).mpr ⟨s, [], by rw [List.append_nil], h, hend⟩
    refine ⟨[], s, rfl, ?_⟩
    by_cases hhead : p.head? = some '*' <;> simpa [branchSigns, hhead, Runs] using hmid

theorem bar_not_mem_branchSigns (p : List Char) : .bar ∉ branchSigns p := by
  have hsign : ∀ c, signOf c ≠ .bar := by
    intro c
    unfold signOf
    split_ifs <;> simp
  simp only [branchSigns, List.mem_append, List.mem_map, not_or, not_exists, not_and]
  refine ⟨⟨?_, fun c _ => hsign c⟩, ?_⟩ <;> split_ifs <;> simp

/-- **A search for alternatives** finds a place exactly when the whole text fits one of them. -/
theorem found_alternatives_iff {pattern : String} {s : List Char} (hs : '\n' ∉ s) :
    Found (List.intercalate [.bar] ((alternatives pattern).map branchSigns)) s ↔
      ∃ p ∈ alternatives pattern, Fits (chars p) s := by
  have hcut : (List.intercalate [.bar] ((alternatives pattern).map branchSigns)).splitOn .bar =
      (alternatives pattern).map branchSigns :=
    List.splitOn_intercalate Sign.bar (by simpa using fun p _ => bar_not_mem_branchSigns p)
      (by simp [alternatives, List.splitOn_ne_nil])
  simp only [Found, hcut, List.mem_map, exists_exists_and_eq_and, runs_branchSigns_iff hs]

/-- **Searching for the expression of a pattern is matching its globs.** If the literal pieces are
written as texts that stand for themselves, the expression can be read, and in a name of one line it
finds a place exactly when the whole name fits some alternative. -/
theorem found_regexWith_iff {quote : List Char → List Char} {pattern name : String}
    (literal : ∀ p ∈ alternatives pattern, ∀ part ∈ p.splitOn '*',
      Spelled (quote part) ((chars part).map .char))
    (oneLine : '\n' ∉ name.toList) :
    ∃ ss, signs? (chars (regexWith quote pattern).toList) = some ss ∧
      (Found ss (chars name.toList) ↔
        ∃ p ∈ alternatives pattern, Fits (chars p) (chars name.toList)) :=
  ⟨_, (spelled_regexWith literal).read,
    found_alternatives_iff (by rwa [mem_chars_ascii (by decide)])⟩

/-- A pattern with a character that has a meaning, a star at either end and an empty alternative. -/
theorem found_regexWith_mixed :
    ((∀ p ∈ alternatives "q.(r*|*_boss|", ∀ part ∈ p.splitOn '*',
        Spelled (escape part) ((chars part).map .char)) ∧ '\n' ∉ "the_boss".toList) ∧
    ∃ ss, signs? (chars (regexWith escape "q.(r*|*_boss|").toList) = some ss ∧
      Found ss (chars "the_boss".toList) := by
  have literal : ∀ p ∈ alternatives "q.(r*|*_boss|", ∀ part ∈ p.splitOn '*',
      Spelled (escape part) ((chars part).map .char) := by
    refine spelled_escape_pieces ?_
    have hchars : chars "q.(r*|*_boss|".toList = "q.(r*|*_boss|".toList := by
      simp [chars_cons_ascii]
    rw [hchars]
    exact List.all_eq_true.mp (by decide)
  have oneLine : '\n' ∉ "the_boss".toList := by decide
  obtain ⟨ss, hss, hfound⟩ := found_regexWith_iff literal oneLine
  refine ⟨⟨literal, oneLine⟩, ss, hss, hfound.mpr ⟨"*_boss".toList, by decide, ?_⟩⟩
  have hname : chars "the_boss".toList = "the_boss".toList := by simp [chars_cons_ascii]
  have hglob : chars "*_boss".toList = "*_boss".toList := by simp [chars_cons_ascii]
  rw [hname, hglob, ← glob_iff_fits]
  decide

/-! ## The matcher -/

/-- An alternative of plain characters is read back as it is. -/
theorem readBack_eq {p : List Char} (h : ∀ c ∈ chars p, isPlain c) : readBack p = chars p := by
  have hpart : ∀ part ∈ p.splitOn '*',
      unescape (toUnicode (String.ofList (escape part))).toList = chars part := by
    intro part hpart
    rw [toList_toUnicode, String.toList_ofList]
    refine unescape_of_signs? (spelled_escape fun c hc => h c ?_).read
    exact mem_chars_of_mem_splitOn (by decide) hpart hc
  rw [readBack, branch, List.map_congr_left hpart, ← chars_intercalate (by decide),
    List.intercalate_splitOn]

/-- **The matcher searches for the regular expression**, as far as the characters of the pattern are
plain. -/
theorem matchesName_iff_found {pattern name : String} (h : ∀ c ∈ chars pattern.toList, isPlain c)
    (oneLine : '\n' ∉ name.toList) :
    ∃ ss, signs? (chars (regex pattern).toList) = some ss ∧
      (matchesName pattern name = true ↔ Found ss (chars name.toList)) := by
  refine ⟨_, (spelled_regexWith (spelled_escape_pieces h)).read, ?_⟩
  rw [found_alternatives_iff (by rwa [mem_chars_ascii (by decide)]), matchesName, List.any_eq_true]
  refine exists_congr fun p => and_congr_right fun hp => ?_
  rw [glob_iff_fits, toList_toUnicode,
    readBack_eq fun c hc => h c (mem_chars_of_mem_splitOn (by decide) hp hc)]

end ScriptLift.Pattern
