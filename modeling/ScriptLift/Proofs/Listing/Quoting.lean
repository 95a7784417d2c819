import ScriptLift.Proofs.Trim
import ScriptLift.Row.Scan

/-!
# Quoting

A line is scanned twice: once for its comment, and then, without it and trimmed, for its fields. Both
scanners keep track of quotes, each with its own look at the character before.

* `Quotes`: where a text stands as to quotes; `leavesOpen`: whether it ends within a quoted span.
* `cutComment_spec`, `splitComment_of_isCode`: what the comment scanner keeps, and that it keeps all of
  it the second time.
* `IsField`, `Separate`: fields of code; `separate_splitFields`: the field scanner gives them.
* **`splitFields_splitComment`**: the two scanners agree on quotes.
-/

namespace ScriptLift.Row

open Text

/-! ## Quotes -/

/-- Where a text stands as to quotes: whether a quoted span is open, and the character just before. -/
structure Quotes where
  isOpen : Bool
  before : Char

namespace Quotes

/-- At the front of a text. -/
def start : Quotes := ⟨false, ' '⟩

/-- What a character does. A quote opens a span, and closes the one that is open unless a backslash
stands before it. -/
def next (q : Quotes) (c : Char) : Quotes :=
  ⟨if c = '"' then !q.isOpen || q.before == '\\' else q.isOpen, c⟩

/-- Where a text leads. -/
def after (q : Quotes) (s : List Char) : Quotes := s.foldl next q

variable {q : Quotes} {c : Char} {r s t : List Char}

@[simp] theorem after_nil : q.after [] = q := rfl

@[simp] theorem after_cons : q.after (c :: s) = (q.next c).after s := rfl

@[simp] theorem after_append : q.after (s ++ t) = (q.after s).after t := List.foldl_append

@[simp] theorem before_next : (q.next c).before = c := rfl

/-- Where no span is open, the character before does not matter. -/
theorem next_of_closed (h : q.isOpen = false) : q.next c = start.next c := by
  simp [next, start, h]

theorem isOpen_after_of_closed (h : q.isOpen = false) (s : List Char) :
    (q.after s).isOpen = (start.after s).isOpen := by
  cases s with
  | nil => exact h
  | cons c s => rw [after_cons, after_cons, next_of_closed h]

theorem isOpen_after_of_unquoted (h : '"' ∉ s) : (q.after s).isOpen = q.isOpen := by
  induction s generalizing q with
  | nil => rfl
  | cons c s ih =>
    rw [List.mem_cons, not_or] at h
    rw [after_cons, ih h.2, next, if_neg (Ne.symm h.1)]

end Quotes

open Quotes

/-- Whether a text ends within a quoted span. -/
def leavesOpen (s : List Char) : Bool := (start.after s).isOpen

/-- A text without the blanks and tabs outside its quoted spans. -/
def Quotes.ungapped (q : Quotes) : List Char → List Char
  | [] => []
  | c :: r => if q.isOpen = false ∧ isGap c then (q.next c).ungapped r else c :: (q.next c).ungapped r

/-- No comment mark stands outside the quoted spans of a text. -/
def Quotes.Unmarked (q : Quotes) (s : List Char) : Prop :=
  ∀ p r, s = p ++ '/' :: '/' :: r → (q.after p).isOpen

namespace Quotes

variable {q : Quotes} {c : Char} {r s t : List Char}

theorem ungapped_of_closed (h : q.isOpen = false) (s : List Char) :
    q.ungapped s = start.ungapped s := by
  cases s with
  | nil => rfl
  | cons c s =>
    have hstart : start.isOpen = false := rfl
    rw [ungapped, ungapped, next_of_closed h, h, hstart]

theorem unmarked_nil : q.Unmarked [] := fun p r h => by simp at h

theorem unmarked_cons : q.Unmarked (c :: s) ↔
    (q.isOpen = false → c = '/' → s.head? ≠ some '/') ∧ (q.next c).Unmarked s := by
  constructor
  · intro h
    refine ⟨fun hclosed hc hs => ?_, fun p r hp => h (c :: p) r (by rw [hp]; rfl)⟩
    obtain ⟨r, rfl⟩ := List.head?_eq_some_iff.mp hs
    have hopen := h [] r (by rw [hc]; rfl)
    rw [after_nil, hclosed] at hopen
    cases hopen
  · rintro ⟨hfirst, hrest⟩ p r hp
    cases p with
    | nil =>
      obtain ⟨rfl, rfl⟩ := List.cons.inj hp
      by_contra hclosed
      exact hfirst (by simpa using hclosed) rfl rfl
    | cons x p =>
      obtain ⟨rfl, rfl⟩ := List.cons.inj hp
      exact hrest p r rfl

theorem Unmarked.left (h : q.Unmarked (s ++ t)) : q.Unmarked s := fun p r hp =>
  h p (r ++ t) (by rw [hp]; simp)

theorem Unmarked.right (h : q.Unmarked (s ++ t)) (hs : (q.after s).isOpen = false) :
    start.Unmarked t := fun p r hp => by
  have hopen := h (s ++ p) r (by rw [hp]; simp)
  rwa [after_append, isOpen_after_of_closed hs] at hopen

end Quotes

/-! ## Comments -/

variable {q : Quotes} {c : Char} {f r s t w : List Char} {fs : List (List Char)}

theorem cutComment_cons (q : Quotes) (c : Char) (r : List Char) :
    cutComment q.isOpen q.before (c :: r) =
      if q.isOpen = false ∧ c = '/' ∧ r.head? = some '/' then ⟨[], r.drop 1, true⟩
      else (cutComment (q.next c).isOpen c r).push c := by
  rw [cutComment]
  by_cases hc : c = '"'
  · subst hc
    cases ho : q.isOpen <;> cases hb : q.before == '\\' <;> simp [next, bne, ho, hb]
  · cases ho : q.isOpen <;> simp [next, ho, hc]

/-- What the comment scanner cuts is the front of a text, without comment marks outside its quoted
spans. -/
theorem cutComment_spec (q : Quotes) (s : List Char) :
    (cutComment q.isOpen q.before s).code <+: s ∧
      q.Unmarked (cutComment q.isOpen q.before s).code ∧
      (cutComment q.isOpen q.before s).closed =
        !(q.after (cutComment q.isOpen q.before s).code).isOpen := by
  induction s generalizing q with
  | nil => exact ⟨List.nil_prefix, unmarked_nil, rfl⟩
  | cons c r ih =>
    rw [cutComment_cons]
    split_ifs with h
    · exact ⟨List.nil_prefix, unmarked_nil, by simp [h.1]⟩
    · obtain ⟨hfront, hmarks, hclosed⟩ := ih (q.next c)
      refine ⟨List.cons_prefix_cons.mpr ⟨rfl, hfront⟩, unmarked_cons.mpr ⟨fun ho hc hr => ?_, hmarks⟩,
        hclosed⟩
      -- the second half of a mark would stand in the rest of the text too
      obtain ⟨t, ht⟩ := List.head?_eq_some_iff.mp hr
      obtain ⟨u, hu⟩ := hfront
      rw [before_next, ht] at hu
      exact h ⟨ho, hc, by rw [← hu]; rfl⟩

/-- A text without comment marks outside its quoted spans is not cut. -/
theorem cutComment_of_unmarked (h : q.Unmarked s) :
    cutComment q.isOpen q.before s = ⟨s, [], !(q.after s).isOpen⟩ := by
  induction s generalizing q with
  | nil => rfl
  | cons c r ih =>
    obtain ⟨hfirst, hrest⟩ := unmarked_cons.mp h
    have hcut := ih hrest
    rw [before_next] at hcut
    rw [cutComment_cons, if_neg fun hmark => hfirst hmark.1 hmark.2.1 hmark.2.2, hcut]
    rfl

/-- White space at the ends of a text leaves its quoted spans as they are. -/
theorem exists_trim (s : List Char) : ∃ a b, s = a ++ (trim s ++ b) ∧ (start.after a).isOpen = false ∧
    ∀ q : Quotes, (q.after b).isOpen = q.isOpen := by
  obtain ⟨a, b, hs, ha, hb⟩ := exists_append_trim s
  have hquote : ∀ {t : List Char}, (∀ c ∈ t, isVisible c = false) → '"' ∉ t := fun ht hmem =>
    absurd (ht _ hmem) (by decide)
  exact ⟨a, b, hs, isOpen_after_of_unquoted (hquote ha), fun q => isOpen_after_of_unquoted (hquote hb)⟩

theorem leavesOpen_trim (s : List Char) : leavesOpen (trim s) = leavesOpen s := by
  obtain ⟨a, b, hs, ha, hb⟩ := exists_trim s
  conv_rhs => rw [hs, leavesOpen, after_append, after_append, hb, isOpen_after_of_closed ha]
  rfl

theorem unmarked_trim (h : start.Unmarked s) : start.Unmarked (trim s) := by
  obtain ⟨a, b, hs, ha, -⟩ := exists_trim s
  rw [hs] at h
  exact (h.right ha).left

/-- What is left of a line without its comment. -/
structure IsCode (s : List Char) : Prop where
  unmarked : start.Unmarked s
  trimmed : trim s = s

theorem isCode_splitComment (line : List Char) : IsCode (splitComment line).code :=
  ⟨unmarked_trim (cutComment_spec start line).2.1, trim_trim _⟩

theorem closed_splitComment (line : List Char) :
    (splitComment line).closed = !leavesOpen (splitComment line).code := by
  rw [splitComment, leavesOpen_trim]
  exact (cutComment_spec start line).2.2

/-- **Code has no comment to cut.** -/
theorem splitComment_of_isCode (h : IsCode s) : splitComment s = ⟨s, [], !leavesOpen s⟩ := by
  have hnil : trim [] = [] := trim_of_visible (by simp)
  have hcut : cutComment false ' ' s = ⟨s, [], !leavesOpen s⟩ := cutComment_of_unmarked h.unmarked
  rw [splitComment, hcut]
  dsimp only
  rw [h.trimmed, hnil]

/-! ## Fields -/

/-- A blank or tab is no quote. -/
theorem isOpen_next_of_gap (h : isGap c) : (q.next c).isOpen = q.isOpen := by
  have hc : c ≠ '"' := by
    rintro rfl
    simp [isGap] at h
  rw [next, if_neg hc]

theorem flush_of_ne_nil {part : List Char} (h : part ≠ []) (fields : List (List Char)) :
    Row.flush part fields = part.reverse :: fields := by
  rw [Row.flush, if_neg (by simpa using h)]

/-- Where no span is open and no field begun, the scanner is as at the front of a text. -/
theorem fieldsFrom_closed (before : Char) (s : List Char) :
    fieldsFrom false before [] s = splitFields s := by
  cases s with
  | nil => rfl
  | cons c s => rw [splitFields, fieldsFrom, fieldsFrom]; simp only [Bool.false_and]

theorem fieldsFrom_cons (q : Quotes) (part : List Char) (c : Char) (r : List Char) :
    fieldsFrom q.isOpen q.before part (c :: r) =
      if q.isOpen = false ∧ isGap c then
        (flush part (splitFields r).1, (splitFields r).2)
      else if q.isOpen ∧ (q.next c).isOpen = false then
        (flush (c :: part) (splitFields r).1, (splitFields r).2)
      else fieldsFrom (q.next c).isOpen c (c :: part) r := by
  rw [fieldsFrom, fieldsFrom_closed]
  by_cases hc : c = '"'
  · subst hc
    cases ho : q.isOpen <;> cases hb : q.before == '\\' <;> simp [next, bne, isGap, ho, hb]
  · cases ho : q.isOpen <;> simp [next, isGap, ho, hc]

/-- A text that goes on a field or ends it: blanks stand in its quoted spans only, and nothing follows
the quote that closes one. -/
def Quotes.Fits (q : Quotes) (s : List Char) : Prop :=
  ∀ p c r, s = p ++ c :: r → (isGap c → (q.after p).isOpen) ∧
    ((q.after p).isOpen → r ≠ [] → (q.after (p ++ [c])).isOpen)

/-- A field of code. -/
structure IsField (f : List Char) : Prop where
  nonempty : f ≠ []
  fits : start.Fits f
  unmarked : start.Unmarked f

/-- Fields one after another, only the last of which may end within a quoted span, and whether it does
not. -/
inductive Separate : List (List Char) → Bool → Prop
  | nil : Separate [] true
  | unclosed {f : List Char} (hf : IsField f) (hopen : leavesOpen f) : Separate [f] false
  | cons {f : List Char} {fs : List (List Char)} {closed : Bool} (hf : IsField f)
      (hclosed : leavesOpen f = false) (hfs : Separate fs closed) : Separate (f :: fs) closed

/-! ### Reading fields -/

/-- The front of a field: it goes on. -/
def GoesOn (w : List Char) : Prop :=
  ∀ p c r, w = p ++ c :: r → (isGap c → leavesOpen p) ∧ (leavesOpen p → leavesOpen (p ++ [c]))

theorem GoesOn.concat (h : GoesOn w) (hgap : isGap c → leavesOpen w)
    (hopen : leavesOpen w → leavesOpen (w ++ [c])) : GoesOn (w ++ [c]) := by
  intro p x r hp
  rcases List.eq_nil_or_concat r with rfl | ⟨r, y, rfl⟩
  · obtain ⟨rfl, hx⟩ := List.append_inj' hp rfl
    obtain rfl := List.singleton_inj.mp hx
    exact ⟨hgap, hopen⟩
  · have hp : w ++ [c] = (p ++ x :: r) ++ [y] := by simpa using hp
    exact h p x r (List.append_inj' hp rfl).1

theorem GoesOn.isField (h : GoesOn w) (hne : w ≠ []) (hm : start.Unmarked w) : IsField w :=
  ⟨hne, fun p c r hp => ⟨(h p c r hp).1, fun ho _ => (h p c r hp).2 ho⟩, hm⟩

/-- The quote that closes a span ends a field. -/
theorem GoesOn.isField_concat (h : GoesOn w) (hopen : leavesOpen w) (hm : start.Unmarked (w ++ [c])) :
    IsField (w ++ [c]) := by
  refine ⟨by simp, fun p x r hp => ?_, hm⟩
  rcases List.eq_nil_or_concat r with rfl | ⟨r, y, rfl⟩
  · obtain ⟨rfl, -⟩ := List.append_inj' hp rfl
    exact ⟨fun _ => hopen, fun _ hr => absurd rfl hr⟩
  · have hp : w ++ [c] = (p ++ x :: r) ++ [y] := by simpa using hp
    have hx := h p x r (List.append_inj' hp rfl).1
    exact ⟨hx.1, fun ho _ => hx.2 ho⟩

theorem Separate.flush {closed : Bool} (h : GoesOn w) (hm : start.Unmarked w)
    (hclosed : leavesOpen w = false) (hfs : Separate fs closed) :
    Separate (Row.flush w.reverse fs) closed := by
  unfold Row.flush
  split_ifs with hw
  · exact hfs
  · rw [List.reverse_reverse]
    exact .cons (h.isField (by simpa using hw) hm) hclosed hfs

/-- The text ends in the field that is begun. -/
theorem separate_last (h : GoesOn w) (hm : start.Unmarked w) :
    Separate (Row.flush w.reverse []) (!leavesOpen w) := by
  cases ho : leavesOpen w with
  | false => exact .flush h hm ho .nil
  | true =>
    have hw : w ≠ [] := by
      rintro rfl
      cases ho
    rw [flush_of_ne_nil (by simpa using hw), List.reverse_reverse]
    exact .unclosed (h.isField hw hm) ho

/-- The scanner gives separate fields, `w` being the field begun before the text. -/
theorem separate_fieldsFrom (s w : List Char) (h : GoesOn w) (hm : start.Unmarked (w ++ s)) :
    Separate (fieldsFrom (start.after w).isOpen (start.after w).before w.reverse s).1
      (fieldsFrom (start.after w).isOpen (start.after w).before w.reverse s).2 := by
  induction s generalizing w with
  | nil =>
    rw [List.append_nil] at hm
    exact separate_last h hm
  | cons c r ih =>
    have hw : w ++ c :: r = (w ++ [c]) ++ r := by simp
    have hrest : (start.after (w ++ [c])).isOpen = false → Separate (splitFields r).1 (splitFields r).2 :=
      fun hclosed => ih [] (fun p c r hp => by simp at hp) (by rw [hw] at hm; exact hm.right hclosed)
    rw [fieldsFrom_cons]
    split_ifs with hgap hcloses
    · have hnext : (start.after (w ++ [c])).isOpen = false := by
        rw [after_append, after_cons, after_nil, isOpen_next_of_gap hgap.2, hgap.1]
      exact .flush h hm.left hgap.1 (hrest hnext)
    · have hnext : leavesOpen (w ++ [c]) = false := by simpa [leavesOpen] using hcloses.2
      have hunmarked : start.Unmarked (w ++ [c]) := by
        rw [hw] at hm
        exact hm.left
      have hfield := h.isField_concat (c := c) hcloses.1 hunmarked
      rw [flush_of_ne_nil (by simp), List.reverse_cons, List.reverse_reverse]
      exact .cons hfield hnext (hrest hnext)
    · have hon : GoesOn (w ++ [c]) := by
        refine h.concat (fun hc => ?_) fun ho => ?_
        · by_contra hopen
          exact hgap ⟨by simpa [leavesOpen] using hopen, hc⟩
        · by_contra hopen
          exact hcloses ⟨ho, by simpa [leavesOpen] using hopen⟩
      have hfields := ih (w ++ [c]) hon (by rwa [hw] at hm)
      rw [after_append, List.reverse_concat] at hfields
      exact hfields

theorem separate_splitFields (h : start.Unmarked s) :
    Separate (splitFields s).1 (splitFields s).2 :=
  separate_fieldsFrom s [] (fun p c r hp => by simp at hp) h

theorem Separate.isField {closed : Bool} (h : Separate fs closed) : ∀ f ∈ fs, IsField f := by
  induction h with
  | nil => simp
  | unclosed hf _ => simpa using hf
  | cons hf _ _ ih => exact List.forall_mem_cons.mpr ⟨hf, ih⟩

theorem flatten_flush (part : List Char) (fields : List (List Char)) :
    (Row.flush part fields).flatten = part.reverse ++ fields.flatten := by
  unfold Row.flush
  split_ifs with h
  · rw [List.isEmpty_iff.mp h]
    rfl
  · rfl

/-- What the fields hold together, and whether a quoted span is left open. -/
theorem fieldsFrom_spec (q : Quotes) (part s : List Char) :
    (fieldsFrom q.isOpen q.before part s).1.flatten = part.reverse ++ q.ungapped s ∧
      (fieldsFrom q.isOpen q.before part s).2 = !(q.after s).isOpen := by
  induction s generalizing q part with
  | nil => exact ⟨by rw [ungapped, fieldsFrom, flatten_flush, List.flatten_nil], rfl⟩
  | cons c r ih =>
    have hrest : (q.next c).isOpen = false → (splitFields r).1.flatten = (q.next c).ungapped r ∧
        (splitFields r).2 = !((q.next c).after r).isOpen := fun hclosed => by
      rw [ungapped_of_closed hclosed, isOpen_after_of_closed hclosed]
      exact ih start []
    rw [fieldsFrom_cons, ungapped, after_cons]
    split_ifs with hgap hcloses
    · have hclosed : (q.next c).isOpen = false := (isOpen_next_of_gap hgap.2).trans hgap.1
      exact ⟨by rw [flatten_flush, (hrest hclosed).1], (hrest hclosed).2⟩
    · refine ⟨?_, (hrest hcloses.2).2⟩
      rw [flatten_flush, (hrest hcloses.2).1, List.reverse_cons, List.append_assoc]
      rfl
    · have hfields := ih (q.next c) (c :: part)
      rw [List.reverse_cons, List.append_assoc] at hfields
      exact hfields

/-! ## Main theorem -/

/-- **The two scanners agree on quotes.** Of any line, what stands before the comment has no comment
mark outside its quoted spans and nothing to trim, so that cutting it again changes nothing; both
scanners say of it whether a quoted span is left open. Its fields are not empty, blanks stand in their
quoted spans only, nothing follows a quote that closes one, and together they are the code without the
blanks outside quoted spans. -/
theorem splitFields_splitComment (line : List Char) :
    let cut := splitComment line
    let fields := (splitFields cut.code).1
    cut.closed = (splitFields cut.code).2 ∧ cut.closed = !leavesOpen cut.code ∧
    splitComment cut.code = ⟨cut.code, [], cut.closed⟩ ∧
    (∀ p r, cut.code = p ++ '/' :: '/' :: r → leavesOpen p) ∧
    (∀ f ∈ fields, f ≠ [] ∧ ∀ p c r, f = p ++ c :: r →
      (isGap c → leavesOpen p) ∧ (leavesOpen p → r ≠ [] → leavesOpen (p ++ [c]))) ∧
    fields.flatten = start.ungapped cut.code := by
  intro cut fields
  have hcode : IsCode cut.code := isCode_splitComment line
  have hclosed : cut.closed = !leavesOpen cut.code := closed_splitComment line
  obtain ⟨hflatten, hbalanced⟩ := fieldsFrom_spec start [] cut.code
  refine ⟨hclosed.trans hbalanced.symm, hclosed, ?_, hcode.unmarked, fun f hf => ?_, hflatten⟩
  · rw [splitComment_of_isCode hcode, hclosed]
  · have hfield := (separate_splitFields hcode.unmarked).isField f hf
    exact ⟨hfield.nonempty, hfield.fits⟩

end ScriptLift.Row
