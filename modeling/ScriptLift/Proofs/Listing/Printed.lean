import ScriptLift.Proofs.Listing.Quoted
import ScriptLift.Proofs.Listing.Quoting

/-!
# Printed rows

A row is printed as its fields with blanks between them. Scanned again, the text gives the same fields:
blanks in quoted spans are kept, a comment mark in quotes stays in quotes, and only the last field may
leave its quotes open. A string record keeps its id and its text.

* `splitFields_joined`: fields with blanks between them are cut where they were.
* `isCode_joined`: nothing of them is a comment or trimmed off.
* `HasPlainId`: a record id that is printed as it is read.
* **`scan_text`**: a printed row reads back.
-/

namespace ScriptLift.Row

open Text Quotes

variable {q : Quotes} {c : Char} {f s t : List Char} {fs : List (List Char)} {closed : Bool}

/-! ## Fields with blanks between them -/

/-- Fields with blanks between them. -/
def joined (fs : List (List Char)) : List Char := List.intercalate [' '] fs

@[simp] theorem joined_singleton (f : List Char) : joined [f] = f := by simp [joined]

@[simp] theorem joined_cons_cons (f g : List Char) (fs : List (List Char)) :
    joined (f :: g :: fs) = f ++ ' ' :: joined (g :: fs) := by
  simp [joined, List.intercalate_cons_cons]

theorem head?_joined (h : ∀ f ∈ fs, f ≠ []) : (joined fs).head? = fs.flatten.head? := by
  match fs with
  | [] => rfl
  | [f] => simp
  | f :: g :: fs => simp [List.head?_append_of_ne_nil _ (h f (by simp))]

theorem getLast?_joined (h : ∀ f ∈ fs, f ≠ []) : (joined fs).getLast? = fs.flatten.getLast? := by
  induction fs with
  | nil => rfl
  | cons f fs ih =>
    cases fs with
    | nil => simp
    | cons g fs =>
      have hrest := ih fun f hf => h f (List.mem_cons_of_mem _ hf)
      have hg : (g :: fs).flatten ≠ [] := by simpa using fun hg => absurd hg (h g (by simp))
      obtain ⟨z, hz⟩ := Option.ne_none_iff_exists'.mp (mt List.getLast?_eq_none_iff.mp hg)
      rw [joined_cons_cons, List.getLast?_append, List.getLast?_cons, hrest, hz, List.flatten_cons,
        List.getLast?_append, hz]
      rfl

/-! ## Cutting them again -/

theorem Quotes.Fits.cons (h : q.Fits (c :: s)) : ¬ (q.isOpen = false ∧ isGap c) ∧
    (q.isOpen → s ≠ [] → (q.next c).isOpen) ∧ (q.next c).Fits s := by
  obtain ⟨hgap, hcloses⟩ := h [] c s rfl
  refine ⟨fun hc => ?_, hcloses, fun p x r hp => h (c :: p) x r (by rw [hp]; rfl)⟩
  have hopen : q.isOpen = true := hgap hc.2
  rw [hc.1] at hopen
  cases hopen

/-- A blank outside a quoted span only ends the field before it. -/
theorem fieldsFrom_blank (hclosed : q.isOpen = false) (part r : List Char) :
    fieldsFrom q.isOpen q.before part (' ' :: r) =
      (Row.flush part (splitFields r).1, (splitFields r).2) := by
  rw [fieldsFrom_cons, if_pos ⟨hclosed, by decide⟩]

/-- The rest of a field that leaves its quotes open. -/
theorem fieldsFrom_unclosed (h : q.Fits s) (hopen : (q.after s).isOpen) (part : List Char) :
    fieldsFrom q.isOpen q.before part s = (Row.flush (s.reverse ++ part) [], false) := by
  induction s generalizing q part with
  | nil =>
    rw [after_nil] at hopen
    rw [fieldsFrom, hopen]
    rfl
  | cons c s ih =>
    obtain ⟨hstays, hcloses, hfits⟩ := h.cons
    have hon : ¬ (q.isOpen ∧ (q.next c).isOpen = false) := by
      rintro ⟨ho, hc⟩
      cases s with
      | nil =>
        rw [after_cons, after_nil, hc] at hopen
        cases hopen
      | cons d s =>
        rw [hcloses ho (by simp)] at hc
        cases hc
    have hrest := ih hfits hopen (c :: part)
    rw [before_next] at hrest
    rw [fieldsFrom_cons, if_neg hstays, if_neg hon, hrest]
    simp

/-- The rest of a field before a blank or the end. -/
theorem fieldsFrom_append (h : q.Fits s) (hclosed : (q.after s).isOpen = false)
    (ht : t = [] ∨ ∃ r, t = ' ' :: r) (part : List Char) :
    fieldsFrom q.isOpen q.before part (s ++ t) =
      (Row.flush (s.reverse ++ part) (splitFields t).1, (splitFields t).2) := by
  induction s generalizing q part with
  | nil =>
    rw [after_nil] at hclosed
    obtain rfl | ⟨r, rfl⟩ := ht
    · rw [List.append_nil, fieldsFrom, hclosed]
      rfl
    · have hskip : splitFields (' ' :: r) = splitFields r := fieldsFrom_blank (q := start) rfl [] r
      rw [hskip]
      exact fieldsFrom_blank hclosed part r
  | cons c s ih =>
    obtain ⟨hstays, hcloses, hfits⟩ := h.cons
    rw [List.cons_append, fieldsFrom_cons, if_neg hstays]
    split_ifs with hc
    · -- only the last character of a field closes a span
      obtain rfl : s = [] := by
        by_contra hs
        rw [hcloses hc.1 hs] at hc
        cases hc.2
      rfl
    · have hrest := ih hfits hclosed (c :: part)
      rw [before_next] at hrest
      rw [hrest]
      simp

theorem splitFields_field (hf : IsField f) (hclosed : leavesOpen f = false)
    (ht : t = [] ∨ ∃ r, t = ' ' :: r) :
    splitFields (f ++ t) = (f :: (splitFields t).1, (splitFields t).2) := by
  have hfields := fieldsFrom_append (q := start) hf.fits hclosed ht []
  rw [List.append_nil, flush_of_ne_nil (by simpa using hf.nonempty), List.reverse_reverse] at hfields
  exact hfields

/-- **Fields with blanks between them are cut where they were.** -/
theorem splitFields_joined (h : Separate fs closed) : splitFields (joined fs) = (fs, closed) := by
  induction h with
  | nil => rfl
  | @unclosed f hf hopen =>
    have hfields := fieldsFrom_unclosed (q := start) hf.fits hopen []
    rw [List.append_nil, flush_of_ne_nil (by simpa using hf.nonempty), List.reverse_reverse] at hfields
    rw [joined_singleton]
    exact hfields
  | @cons f fs closed hf hclosed hfs ih =>
    cases fs with
    | nil =>
      have hfields := splitFields_field (t := []) hf hclosed (.inl rfl)
      rw [List.append_nil] at hfields
      rw [joined_singleton, hfields]
      exact congrArg (fun x => (f :: x.1, x.2)) ih
    | cons g fs =>
      have hskip := fieldsFrom_blank (q := start) rfl [] (joined (g :: fs))
      rw [joined_cons_cons, splitFields_field hf hclosed (.inr ⟨_, rfl⟩)]
      exact congrArg (fun x => (f :: x.1, x.2)) (hskip.trans ih)

/-! ## Nothing to cut or trim -/

theorem Quotes.Unmarked.append_blank (hs : q.Unmarked s) (hclosed : (q.after s).isOpen = false)
    (ht : start.Unmarked t) : q.Unmarked (s ++ ' ' :: t) := by
  induction s generalizing q with
  | nil =>
    refine unmarked_cons.mpr ⟨fun _ hc => absurd hc (by decide), fun p r hp => ?_⟩
    have hnext : (q.next ' ').isOpen = false := hclosed
    rw [isOpen_after_of_closed hnext]
    exact ht p r hp
  | cons c s ih =>
    obtain ⟨hfirst, hrest⟩ := unmarked_cons.mp hs
    refine unmarked_cons.mpr ⟨fun ho hc => ?_, ih hrest hclosed⟩
    cases s with
    | nil => simp
    | cons d s => exact hfirst ho hc

theorem unmarked_joined (h : Separate fs closed) : start.Unmarked (joined fs) := by
  induction h with
  | nil => exact unmarked_nil
  | unclosed hf _ => simpa using hf.unmarked
  | @cons f fs closed hf hclosed hfs ih =>
    cases fs with
    | nil => simpa using hf.unmarked
    | cons g fs =>
      rw [joined_cons_cons]
      exact hf.unmarked.append_blank hclosed ih

theorem getLast?_ungapped (hne : s ≠ []) (h : ∀ z ∈ s.getLast?, isGap z = false) :
    (q.ungapped s).getLast? = s.getLast? := by
  induction s generalizing q with
  | nil => exact absurd rfl hne
  | cons c s ih =>
    rw [ungapped]
    cases s with
    | nil => simp [h c (by simp), ungapped]
    | cons d s =>
      rw [List.getLast?_cons_cons] at h ⊢
      have hrest := ih (q := q.next c) (by simp) h
      split_ifs
      · exact hrest
      · rw [List.getLast?_cons, hrest, List.getLast?_cons]
        rfl

/-- The field that is begun goes on with a front of the text. -/
theorem fieldsFrom_begun {part : List Char} (hpart : part ≠ []) (q : Quotes) (s : List Char) :
    ∃ a fs, (fieldsFrom q.isOpen q.before part s).1 = (part.reverse ++ a) :: fs ∧ a <+: s := by
  induction s generalizing part q with
  | nil => exact ⟨[], [], by rw [fieldsFrom, flush_of_ne_nil hpart, List.append_nil], List.nil_prefix⟩
  | cons d s ih =>
    rw [fieldsFrom_cons]
    split_ifs
    · exact ⟨[], _, by rw [flush_of_ne_nil hpart, List.append_nil], List.nil_prefix⟩
    · exact ⟨[d], _, by rw [flush_of_ne_nil (by simp), List.reverse_cons], by simp⟩
    · obtain ⟨a, fs, hfields, ha⟩ := ih (List.cons_ne_nil d part) (q.next d)
      refine ⟨d :: a, fs, ?_, List.cons_prefix_cons.mpr ⟨rfl, ha⟩⟩
      rw [before_next] at hfields
      rw [hfields, List.reverse_cons, List.append_assoc]
      rfl

/-- The first field starts as the text does. -/
theorem splitFields_cons (hc : isGap c = false) (s : List Char) :
    ∃ a fs, (splitFields (c :: s)).1 = (c :: a) :: fs ∧ a <+: s := by
  have hfirst : splitFields (c :: s) = fieldsFrom (start.next c).isOpen c [c] s := by
    have hcons := fieldsFrom_cons start [] c s
    rwa [if_neg (by simp [hc]), if_neg (by simp [start])] at hcons
  rw [hfirst]
  exact fieldsFrom_begun (List.cons_ne_nil c []) (start.next c) s

/-- The fields of a text with visible ends, with blanks between them, are code. -/
theorem isCode_joined (hm : start.Unmarked s) (hfront : ∀ a ∈ s.head?, isVisible a)
    (hback : ∀ z ∈ s.getLast?, isVisible z) : IsCode (joined (splitFields s).1) := by
  have hsep := separate_splitFields hm
  have hne : ∀ f ∈ (splitFields s).1, f ≠ [] := fun f hf => (hsep.isField f hf).nonempty
  have hflatten : (splitFields s).1.flatten = start.ungapped s := (fieldsFrom_spec start [] s).1
  have hgap : ∀ {a : Char}, isVisible a → isGap a = false := fun ha => by
    simp [isGap, not_gap_of_visible ha]
  refine ⟨unmarked_joined hsep, ?_⟩
  cases s with
  | nil => exact trim_of_visible (by simp [joined, splitFields, fieldsFrom, Row.flush])
  | cons c s =>
    have hc : isVisible c := hfront c rfl
    refine trim_of_visible_ends ?_ ?_
    · rw [head?_joined hne, hflatten, ungapped, if_neg (by simp [hgap hc])]
      simpa using hc
    · rw [getLast?_joined hne, hflatten,
        getLast?_ungapped (by simp) fun z hz => hgap (hback z hz)]
      exact hback

/-! ## Printed rows -/

/-- A record id of `S`, digits and at most one more character, which is no digit. -/
def HasPlainId (line : List Char) : Prop :=
  isNumbered 'S' line → ∃ digits point, line.takeWhile (!isGap ·) = 'S' :: (digits ++ point) ∧
    digits ≠ [] ∧ (∀ c ∈ digits, c.isDigit) ∧ point.length ≤ 1 ∧ ∀ c ∈ point, c.isDigit = false

theorem isNumbered_mono {a : Char} (hs : s <+: t) (h : isNumbered a s) : isNumbered a t := by
  obtain ⟨r, rfl⟩ := hs
  match s with
  | [] => cases h
  | [_] => cases h
  | _ :: _ :: _ => exact h

/-- Fields with blanks between them start as a record only where the text does. -/
theorem isNumbered_of_joined {a : Char} (hfront : ∀ c ∈ s.head?, isVisible c)
    (h : isNumbered a (joined (splitFields s).1)) : isNumbered a s := by
  cases s with
  | nil => exact h
  | cons c s =>
    have hgap : isGap c = false := by simp [isGap, not_gap_of_visible (hfront c rfl)]
    obtain ⟨w, fs, hfields, hw⟩ := splitFields_cons hgap s
    rw [hfields] at h
    cases w with
    | nil => cases fs <;> simp [isNumbered] at h
    | cons d w =>
      refine isNumbered_mono (List.cons_prefix_cons.mpr ⟨rfl, hw⟩) ?_
      cases fs with
      | nil => simpa using h
      | cons g fs => simpa [isNumbered] using h

theorem visible_of_printable {a : Char} (h : ' ' ≤ a ∧ a ≤ '~') (hne : a ≠ ' ') : isVisible a := by
  have hle : 32 ≤ a.toNat := h.1
  have hlt : a.toNat ≠ 32 := fun heq => hne (Char.toNat_inj.mp heq)
  simp only [isVisible, Bool.and_eq_true, decide_eq_true_eq]
  exact ⟨show 33 ≤ a.toNat by omega, h.2⟩

/-- ASCII text that is no white space is visible. -/
theorem visible_of_plain {a : Char} (ha : isPlain a) (h : isBlank [a] = false) : isVisible a := by
  simp only [isBlank, Bool.or_eq_false_iff, beq_eq_false_iff_ne] at h
  simp only [isPlain, h.2, Bool.or_false, Bool.and_eq_true, decide_eq_true_eq] at ha
  exact visible_of_printable ha h.1

theorem not_blank_of_blankWidth {a : Char} (h : blankWidth (a :: s) = 0) : isBlank [a] = false := by
  by_contra hb
  rw [Bool.not_eq_false] at hb
  simp [blankWidth, hb] at h

theorem not_blank_of_blankWidthBack {a : Char} (h : blankWidthBack (a :: s) = 0) :
    isBlank [a] = false := by
  by_contra hb
  rw [Bool.not_eq_false] at hb
  simp [blankWidthBack, hb] at h

/-- ASCII text without white space at its ends has visible ends. -/
theorem visible_ends_of_plain (hplain : ∀ c ∈ s, isPlain c) (htrim : trim s = s) :
    (∀ a ∈ s.head?, isVisible a) ∧ ∀ z ∈ s.getLast?, isVisible z := by
  have hfront := blankWidth_trim s
  have hback := blankWidthBack_trim s
  rw [htrim] at hfront hback
  constructor
  · intro a ha
    obtain ⟨r, rfl⟩ := List.head?_eq_some_iff.mp ha
    exact visible_of_plain (hplain a (by simp)) (not_blank_of_blankWidth hfront)
  · intro z hz
    obtain ⟨r, rfl⟩ := List.getLast?_eq_some_iff.mp hz
    rw [List.reverse_concat] at hback
    exact visible_of_plain (hplain z (by simp)) (not_blank_of_blankWidthBack hback)

/-- A line that sanitizing leaves as it is. -/
structure IsClean (line : List Char) : Prop where
  plain : ∀ c ∈ line, isPlain c
  trimmed : trim line = line

theorem isClean_of_sanitize {line : String} (h : sanitize line = line) : IsClean line.toList := by
  have hlist : trim (line.toList.filter isPlain) = line.toList := by
    rw [← String.toList_inj, sanitize, String.toList_ofList] at h
    exact h
  refine ⟨fun c hc => ?_, ?_⟩
  · rw [← hlist] at hc
    exact List.of_mem_filter (mem_of_mem_trim hc)
  · rw [← hlist, trim_trim]

theorem IsClean.prefix_code {line : List Char} (h : IsClean line) : (splitComment line).code <+: line := by
  have hcut := (cutComment_spec start line).1
  have hfront := blankWidth_trim line
  rw [h.trimmed] at hfront
  obtain ⟨r, hr⟩ := hcut
  rw [← hr] at hfront
  exact (prefix_trim (blankWidth_of_append hfront)).trans ⟨r, hr⟩

theorem IsClean.code {line : List Char} (h : IsClean line) : IsClean (splitComment line).code :=
  ⟨fun c hc => h.plain c (h.prefix_code.subset hc), (isCode_splitComment line).trimmed⟩

/-- Code that is no record, as a row. -/
theorem scan_of_isCode {line : String} (hrecord : isNumbered 'S' line.toList = false)
    (hcode : IsCode line.toList) (hfields : splitFields line.toList = (fs, closed)) (n : Int) :
    scan line n = ⟨⟨(fs.map String.ofList).headD "", (fs.map String.ofList).drop 1, "", line, n⟩,
      closed⟩ := by
  have hopen : closed = !leavesOpen line.toList := by
    have hspec := (fieldsFrom_spec start [] line.toList).2
    exact (congrArg Prod.snd hfields).symm.trans hspec
  rw [scan]
  simp [hrecord, splitComment_of_isCode hcode, hfields, ← hopen]

theorem toList_text (fs : List (List Char)) (comment raw : String) (n : Int) :
    (Row.text ⟨(fs.map String.ofList).headD "", (fs.map String.ofList).drop 1, comment, raw, n⟩).toList =
      joined fs := by
  match fs with
  | [] => rfl
  | [f] => simp [Row.text]
  | f :: g :: fs =>
    have hmap : String.toList ∘ String.ofList = id := by
      funext l
      exact String.toList_ofList
    simp [Row.text, String.toList_intercalate, joined, hmap, List.intercalate_cons_cons]

/-! ### String records -/

theorem recordName_digits {digits point : List Char} (hd : ∀ c ∈ digits, c.isDigit)
    (hlen : point.length ≤ 1) (hpoint : ∀ c ∈ point, c.isDigit = false) :
    recordName ('S' :: (digits ++ point)) = 'S' :: digits := by
  have hdigit : ∀ c : Char, c.isDigit = false ↔ c < '0' ∨ '9' < c := fun c => by
    rw [Char.isDigit, Bool.and_eq_false_iff, decide_eq_false_iff_not, decide_eq_false_iff_not]
    exact or_congr Char.not_le Char.not_le
  match point with
  | [] =>
    rcases List.eq_nil_or_concat digits with rfl | ⟨ds, d, rfl⟩
    · rfl
    · have hlast : ¬ (d < '0' ∨ '9' < d) := by simp [← hdigit, hd d (by simp)]
      rw [List.append_nil, List.concat_eq_append, recordName, ← List.cons_append, List.reverse_concat]
      simp [hlast]
  | [c] =>
    have hlast : c < '0' ∨ '9' < c := (hdigit c).mp (hpoint c (by simp))
    rw [recordName, ← List.cons_append, List.reverse_concat]
    simp [hlast]
  | _ :: _ :: _ => simp at hlen

/-- The row of a string record whose id has nothing to take off. -/
theorem scan_of_id {id payload : List Char} (hid : isNumbered 'S' id) (hgap : ∀ c ∈ id, isGap c = false)
    (hname : recordName id = id) (hpayload : payload.dropWhile isGap = payload) (n : Int) :
    scan (String.ofList (id ++ ' ' :: payload)) n =
      ⟨⟨String.ofList id, [String.ofList payload], "", String.ofList payload, n⟩, true⟩ := by
  have hrecord : isNumbered 'S' (id ++ ' ' :: payload) :=
    isNumbered_mono (List.prefix_append id _) hid
  have hword : ∀ c ∈ id, (!isGap c) = true := fun c hc => by simp [hgap c hc]
  have hblank : isGap ' ' := by decide
  rw [scan, String.toList_ofList]
  simp only [hrecord, if_true, List.takeWhile_append_of_pos hword, List.dropWhile_append_of_pos hword]
  simp [hblank, hname, hpayload]

/-- A string record with a plain id, as a row. -/
theorem exists_scan_of_record {line : String} (hrecord : isNumbered 'S' line.toList)
    (hid : HasPlainId line.toList) (n : Int) : ∃ id payload,
      scan line n = ⟨⟨String.ofList id, [String.ofList payload], "", String.ofList payload, n⟩, true⟩ ∧
      isNumbered 'S' id ∧ (∀ c ∈ id, isGap c = false) ∧ recordName id = id ∧
      payload.dropWhile isGap = payload := by
  obtain ⟨digits, point, htake, hne, hd, hlen, hpoint⟩ := hid hrecord
  have hname := recordName_digits hd hlen hpoint
  refine ⟨'S' :: digits, (line.toList.dropWhile (!isGap ·)).dropWhile isGap, ?_, ?_, ?_, ?_,
    List.dropWhile_idempotent _ _⟩
  · simp only [scan, hrecord, if_true, htake, hname]
  · have h := isNumbered_digits (n := String.ofList digits) (by simpa using hne) (by simpa using hd)
      (a := 'S') []
    simpa using h
  · exact List.forall_mem_cons.mpr ⟨by decide, fun c hc => by
      simp [isGap, not_gap_of_visible (Numeral.isVisible_of_isDigit (hd c hc))]⟩
  · have h := @recordName_digits digits [] hd (Nat.zero_le 1) (List.forall_mem_nil _)
    rwa [List.append_nil] at h

/-! ### Other rows -/

/-- A clean line that is no record, as a row; its fields, with blanks between them, are code that is no
record either. -/
theorem exists_scan_of_code {line : String} (hrecord : isNumbered 'S' line.toList = false)
    (hclean : IsClean line.toList) (n : Int) : ∃ fs comment raw closed,
      scan line n = ⟨⟨(fs.map String.ofList).headD "", (fs.map String.ofList).drop 1, comment, raw, n⟩,
        closed⟩ ∧
      Separate fs closed ∧ IsCode (joined fs) ∧ isNumbered 'S' (joined fs) = false := by
  have hm : start.Unmarked (splitComment line.toList).code := (isCode_splitComment line.toList).unmarked
  have hclosed : (splitComment line.toList).closed = (splitFields (splitComment line.toList).code).2 :=
    (closed_splitComment line.toList).trans (fieldsFrom_spec start [] _).2.symm
  obtain ⟨hfront, hback⟩ := visible_ends_of_plain hclean.code.plain hclean.code.trimmed
  refine ⟨_, String.ofList (splitComment line.toList).comment,
    String.ofList (splitComment line.toList).code, _, ?_, separate_splitFields hm,
    isCode_joined hm hfront hback, ?_⟩
  · simp only [scan, hrecord, Bool.false_eq_true, if_false, hclosed, Bool.and_self]
  · by_contra hnumbered
    rw [Bool.not_eq_false] at hnumbered
    have hstart := isNumbered_mono hclean.prefix_code (isNumbered_of_joined hfront hnumbered)
    rw [hrecord] at hstart
    cases hstart

/-! ## Main theorem -/

/-- **A printed row reads back.** Of a line that sanitizing leaves as it is, and that is no string record
or one with a plain id, the row is printed as a text that gives the same name, the same operands and the
same verdict on its quotes. -/
theorem scan_text {line : String} (hclean : sanitize line = line) (hid : HasPlainId line.toList)
    (n m : Int) :
    let x := scan line n
    let y := scan x.row.text m
    y.row.name = x.row.name ∧ y.row.operands = x.row.operands ∧ y.closed = x.closed := by
  intro x y
  cases hrecord : isNumbered 'S' line.toList with
  | true =>
    obtain ⟨id, payload, hx, hnumbered, hgap, hname, hpayload⟩ := exists_scan_of_record hrecord hid n
    have htext : x.row.text = String.ofList (id ++ ' ' :: payload) := by
      rw [← String.toList_inj]
      simp [x, hx, Row.text]
    have hy : y = _ := (congrArg (scan · m) htext).trans (scan_of_id hnumbered hgap hname hpayload m)
    simp only [hy, x, hx, and_self]
  | false =>
    obtain ⟨fs, comment, raw, closed, hx, hfs, hcode, hnumbered⟩ :=
      exists_scan_of_code hrecord (isClean_of_sanitize hclean) n
    have htext : x.row.text.toList = joined fs := by
      rw [show x = _ from hx]
      exact toList_text fs comment raw n
    rw [← htext] at hcode hnumbered
    have hfields : splitFields x.row.text.toList = (fs, closed) := by
      rw [htext]
      exact splitFields_joined hfs
    have hy : y = _ := scan_of_isCode hnumbered hcode hfields m
    simp only [hy, x, hx, and_self]

/-- Quoted spans that touch, one of them with blanks and a comment mark, an escaped quote and a span that
is left open; and a string record with a point after its id. -/
theorem scan_text_quoted :
    (let x := scan "call \"a  //b\"\"\\\"c\" x\"y\"  \t z \"// open" 1
     let y := scan x.row.text 2
     (y.row.name = x.row.name ∧ y.row.operands = x.row.operands ∧ y.closed = x.closed) ∧
       x.row.operands = ["\"a  //b\"", "\"\\\"c\"", "x\"y\"", "z", "\"// open"] ∧ x.closed = false) ∧
    (let x := scan "S12.  \"a  // b" 1
     let y := scan x.row.text 2
     (y.row.name = x.row.name ∧ y.row.operands = x.row.operands ∧ y.closed = x.closed) ∧
       x.row.name = "S12" ∧ x.row.operands = ["\"a  // b"]) := by
  refine ⟨⟨?_, by decide +kernel⟩, ⟨?_, by decide +kernel⟩⟩
  · exact scan_text (by decide +kernel) (fun hrecord => absurd hrecord (by decide +kernel)) 1 2
  · exact scan_text (by decide +kernel)
      (fun _ => ⟨['1', '2'], ['.'], by decide +kernel, by simp, by simp, by simp, by simp⟩) 1 2

end ScriptLift.Row
