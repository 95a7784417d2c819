import Mathlib.Tactic
import ScriptLift.Tape

/-!
# Strands of a tape

* `Tape.Strand`: the current sequence of a tape, row by row with its links. Scanning adds a row to
  it, beginning anew leaves one row of it.
* `Tape.Laid`: rows that one listing took. **`Tape.laid_take`**: taking a linked part lays it out;
  other rows stay as they are.
* `Tape.Carries`: a tape shows a listing by its cells. **`Tape.Laid.carries`**.
-/

namespace ScriptLift.Tape

variable {t t' : Tape} {h len i j k n : Nat} {r : Row} {rows : List Row} {line : String}
  {number : Int}

/-- The row after a row. -/
def next? (t : Tape) (i : Nat) : Option Nat :=
  match t.cells[i]? with
  | some c => if c.on then some (i + 1) else none
  | none => none

/-! ## Cells -/

theorem getElem?_change (t : Tape) (i j : Nat) (f : Cell → Cell) :
    (t.change i f).cells[j]? = if i = j then t.cells[j]?.map f else t.cells[j]? := by
  rw [change, List.getElem?_modify]
  split <;> simp

theorem getElem?_placed (t : Tape) (h len k j : Nat) :
    (((List.range' h len).zipIdx k).foldl
        (fun t x => t.change x.1 fun c => { c with place := x.2 }) t).cells[j]? =
      if h ≤ j ∧ j < h + len then t.cells[j]?.map fun c => { c with place := k + (j - h) }
      else t.cells[j]? := by
  induction len generalizing h k t with
  | zero => rw [if_neg (by omega)]; rfl
  | succ len ih =>
    rw [List.range'_succ, List.zipIdx_cons, List.foldl_cons, ih, getElem?_change]
    rcases Nat.lt_trichotomy j h with hlt | rfl | hlt
    · rw [if_neg (by omega), if_neg (by omega), if_neg (by omega)]
    · rw [if_neg (by omega), if_pos rfl, if_pos (by omega), Nat.sub_self]
      rfl
    · rw [if_neg (by omega : ¬ h = j), show k + 1 + (j - (h + 1)) = k + (j - h) by omega]
      exact if_congr (by omega) rfl rfl

/-- Where a row of the part `h, …, h + len - 1` stands after this part was taken, and that other
rows stay as they are. -/
theorem getElem?_take (t : Tape) (h len j : Nat) :
    (t.take (List.range' h len)).cells[j]? =
      if h ≤ j ∧ j < h + len then
        t.cells[j]?.map fun c => ⟨c.row, c.back && decide (j ≠ h),
          c.on && !(decide (j + 1 = h + len) && c.row.closesClass), j - h⟩
      else t.cells[j]? := by
  cases len with
  | zero =>
    rw [if_neg (by omega)]
    rfl
  | succ len =>
    have hlast : (List.range' h (len + 1)).getLast? = some (h + len) := by
      simp [List.getLast?_range']
    have hhead : (List.range' h (len + 1)).head? = some h := by simp [List.range'_succ]
    have hcell : (t.take (List.range' h (len + 1))).cells[j]? =
        if h ≤ j ∧ j < h + (len + 1) then
          t.cells[j]?.map fun c => ⟨c.row, c.back && decide (j ≠ h),
            c.on && !(decide (j = h + len) && t.holds Row.closesClass (h + len)), j - h⟩
        else t.cells[j]? := by
      simp only [take, hlast, hhead, getElem?_change]
      cases t.holds Row.closesClass (h + len) with
      | false | true =>
        simp only [if_true, Bool.false_eq_true, if_false, getElem?_change, getElem?_placed]
        rcases t.cells[j]? with _ | c <;> grind
    rw [hcell]
    refine if_ctx_congr Iff.rfl (fun _ => ?_) fun _ => rfl
    cases hj : t.cells[j]? with
    | none => rfl
    | some c =>
      by_cases hjl : j = h + len
      · subst hjl
        simp [holds, hj, Nat.add_assoc]
      · have hne : ¬ j + 1 = h + (len + 1) := by omega
        simp [hjl, hne]

theorem length_change (t : Tape) (i : Nat) (f : Cell → Cell) :
    (t.change i f).cells.length = t.cells.length := List.length_modify _ _ _

theorem length_take (t : Tape) (is : List Nat) : (t.take is).cells.length = t.cells.length := by
  have hplaced : ∀ (xs : List (Nat × Nat)) (t : Tape),
      (xs.foldl (fun t x => t.change x.1 fun c => { c with place := x.2 }) t).cells.length =
        t.cells.length := by
    intro xs
    induction xs with
    | nil => exact fun _ => rfl
    | cons x xs ih => exact fun t => (ih _).trans (length_change t _ _)
  have hcut : ∀ (u : Tape) (b : Bool) (i : Nat) (f : Cell → Cell),
      (if b then u.change i f else u).cells.length = u.cells.length := by
    intro u b i f
    cases b with
    | true => exact length_change u i f
    | false => rfl
  rw [← hplaced is.zipIdx t, take]
  rcases is.getLast? with _ | last <;> rcases is.head? with _ | first
  · rfl
  · exact length_change _ _ _
  · exact hcut _ _ _ _
  · exact (length_change _ _ _).trans (hcut _ _ _ _)

/-! ## Strands -/

/-- The current sequence of a tape is `rows`, numbered from `h` to the end of the tape, each row
linked to its neighbours. -/
structure Strand (t : Tape) (h : Nat) (rows : List Row) : Prop where
  length : h + rows.length = t.cells.length
  head : t.head = if rows.isEmpty then none else some h
  tail : t.tail = if rows.isEmpty then none else some (t.cells.length - 1)
  cell : ∀ n r, rows[n]? = some r →
    ∃ p, t.cells[h + n]? = some ⟨r, decide (n ≠ 0), decide (n + 1 < rows.length), p⟩

theorem strand_reset (t : Tape) : t.reset.Strand t.cells.length [] :=
  ⟨rfl, rfl, rfl, by simp⟩

theorem length_scan (t : Tape) (line : String) (number : Int) :
    (t.scan line number).cells.length = t.cells.length + 1 := by
  rcases h : t.tail with _ | j <;> simp [Tape.scan, h, change]

theorem getElem?_scan (t : Tape) (line : String) (number : Int) (j : Nat) :
    (t.scan line number).cells[j]? =
      if j = t.cells.length then some ⟨(Row.scan line number).row, t.tail.isSome, false, 0⟩
      else if t.tail = some j then t.cells[j]?.map fun c => { c with on := true }
      else t.cells[j]? := by
  have hend : ∀ cells : List Cell, cells.length = t.cells.length → ∀ c,
      (cells ++ [c])[j]? = if j = t.cells.length then some c else cells[j]? := by
    intro cells hlen c
    rw [List.getElem?_append, hlen]
    split
    · rw [if_neg (by omega)]
    · split
      · rw [show j - t.cells.length = 0 by omega]
        rfl
      · rw [List.getElem?_eq_none (by simp; omega), List.getElem?_eq_none (by omega)]
  rcases h : t.tail with _ | i
  · simp only [Tape.scan, h]
    rw [hend _ rfl]
    simp
  · simp only [Tape.scan, h]
    rw [hend _ (by simp [change]), getElem?_change]
    simp

/-- Scanning a line links the row to the last one of the sequence. -/
theorem Strand.scan (hs : t.Strand h rows) (line : String) (number : Int) :
    (t.scan line number).Strand h (rows ++ [(Row.scan line number).row]) := by
  have hlen := hs.length
  refine ⟨by simp [length_scan]; omega, ?_, ?_, fun n r hn => ?_⟩
  · cases rows with
    | nil => simpa [Tape.scan, hs.head] using hlen.symm
    | cons => simp [Tape.scan, hs.head]
  · rw [length_scan]
    simp [Tape.scan]
  · rw [getElem?_scan, hs.tail]
    rcases Nat.lt_trichotomy n rows.length with hlt | rfl | hgt
    · rw [List.getElem?_append_left hlt] at hn
      obtain ⟨p, hp⟩ := hs.cell n r hn
      rw [if_neg (by omega), hp]
      have hne : rows.isEmpty = false := by
        cases rows with
        | nil => simp at hlt
        | cons => rfl
      by_cases hl : n + 1 = rows.length
      · rw [if_pos (by simp [hne]; omega)]
        exact ⟨p, by simp [← hl]⟩
      · rw [if_neg (by simp [hne]; omega)]
        exact ⟨p, by simp; omega⟩
    · obtain rfl : (Row.scan line number).row = r := by simpa using hn
      rw [if_pos hlen]
      exact ⟨0, by cases rows <;> simp⟩
    · rw [List.getElem?_eq_none (by simp; omega)] at hn
      cases hn

theorem Strand.getElem?_scan (hs : t.Strand h rows) (hi : i < h) (line : String) (number : Int) :
    (t.scan line number).cells[i]? = t.cells[i]? := by
  have hlen := hs.length
  rw [Tape.getElem?_scan, if_neg (by omega), hs.tail, if_neg]
  cases rows with
  | nil => simp
  | cons => simp at hlen ⊢; omega

/-- Beginning at the row scanned last leaves this row alone. -/
theorem Strand.begin (hs : t.Strand h (rows ++ [r])) :
    ∃ t', t.begin? (h + rows.length : Nat) = some t' ∧ t'.Strand (h + rows.length) [r] ∧
      ∀ i < h + rows.length, t'.cells[i]? = t.cells[i]? := by
  obtain ⟨p, hp⟩ := hs.cell rows.length r (by simp)
  have hlen : h + (rows.length + 1) = t.cells.length := by simpa using hs.length
  have hget : t.get? (h + rows.length : Nat) = t.cells[h + rows.length]? := by
    rw [get?, if_neg (by omega), Int.toNat_natCast]
  refine ⟨_, by rw [begin?, hget, hp]; rfl, ⟨?_, rfl, ?_, fun n r' hn => ?_⟩, fun i hi => ?_⟩
  · simpa [change, Nat.add_assoc] using hlen
  · simpa [change] using hs.tail
  · cases n with
    | zero =>
      obtain rfl : r = r' := by simpa using hn
      refine ⟨p, ?_⟩
      rw [Int.toNat_natCast, getElem?_change, Nat.add_zero, if_pos rfl, hp]
      simp
    | succ n => simp at hn
  · rw [Int.toNat_natCast, getElem?_change, if_neg (by omega)]

theorem chainFrom_eq (cells : List Cell) (i len : Nat)
    (hon : ∀ n < len, ∃ c, cells[n]? = some c ∧ c.on)
    (hlast : ∃ c, cells[len]? = some c ∧ c.on = false) :
    chainFrom i cells = List.range' i (len + 1) := by
  induction cells generalizing i len with
  | nil => simp at hlast
  | cons c cells ih =>
    rw [chainFrom, List.range'_succ]
    cases len with
    | zero =>
      obtain ⟨c', hc', hoff⟩ := hlast
      obtain rfl : c = c' := by simpa using hc'
      simp [hoff]
    | succ len =>
      obtain ⟨c', hc', hc⟩ := hon 0 (by omega)
      obtain rfl : c = c' := by simpa using hc'
      rw [if_pos hc, ih (i + 1) len (fun n hn => ?_) (by simpa using hlast)]
      simpa using hon (n + 1) (by omega)

theorem Strand.chain (hs : t.Strand h rows) : t.chain = List.range' h rows.length := by
  cases hrows : rows with
  | nil => simp [Tape.chain, hs.head, hrows]
  | cons r rest =>
    rw [Tape.chain, hs.head, hrows]
    have hcell : ∀ n < rows.length, ∃ c, (t.cells.drop h)[n]? = some c ∧
        c.on = decide (n + 1 < rows.length) := by
      intro n hn
      obtain ⟨p, hp⟩ := hs.cell n (rows.get ⟨n, hn⟩) (by simp)
      exact ⟨_, by rw [List.getElem?_drop, hp], rfl⟩
    rw [hrows] at hcell
    simp only [List.length_cons] at hcell ⊢
    refine chainFrom_eq _ h rest.length (fun n hn => ?_) ?_
    · obtain ⟨c, hc, hon⟩ := hcell n (by omega)
      exact ⟨c, hc, by simp [hon, hn]⟩
    · obtain ⟨c, hc, hon⟩ := hcell rest.length (by omega)
      exact ⟨c, hc, by simp [hon]⟩

/-! ## Listings on a tape -/

/-- The rows from number `h` on stand on the tape as a listing of their own. -/
def Laid (t : Tape) (h : Nat) (rows : List Row) : Prop :=
  ∀ n r, rows[n]? = some r →
    t.cells[h + n]? = some ⟨r, decide (n ≠ 0), decide (n + 1 < rows.length), n⟩

/-- **Taking a linked part lays it out**, where its last row closes the class or is linked to
nothing after it. -/
theorem laid_take
    (hc : ∀ n r, rows[n]? = some r → ∃ c, t.cells[h + n]? = some c ∧ c.row = r ∧ (n ≠ 0 → c.back) ∧
      (n + 1 < rows.length → c.on) ∧ (n + 1 = rows.length → c.on → r.closesClass)) :
    (t.take (List.range' h rows.length)).Laid h rows := by
  intro n r hr
  have hn : n < rows.length := (List.getElem?_eq_some_iff.mp hr).1
  obtain ⟨c, hcell, rfl, hback, hon, hlast⟩ := hc n r hr
  rw [getElem?_take, if_pos (by omega), hcell]
  simp only [Option.map_some, Option.some.injEq, Cell.mk.injEq, true_and]
  refine ⟨?_, ?_, by omega⟩
  · by_cases h0 : n = 0
    · simp [h0]
    · simp [h0, hback h0]
  · by_cases hl : n + 1 = rows.length
    · have hoff : c.on = true → c.row.closesClass = true := hlast hl
      cases hco : c.on <;> simp_all
      omega
    · have hlt : n + 1 < rows.length := by omega
      simp [hon hlt, hlt]
      omega

/-- A tape shows a listing by the rows with these numbers: each stands at its place and is linked to
its neighbours and to nothing else. -/
structure Carries (t : Tape) (numbers : List Nat) (l : Listing) : Prop where
  rows : numbers.map (fun i => t.cells[i]?.map Cell.row) = l.rows.map some
  place : ∀ n i, numbers[n]? = some i → t.cells[i]?.map Cell.place = some n
  prev : ∀ n i, numbers[n]? = some i → t.prev? i = if n = 0 then none else numbers[n - 1]?
  next : ∀ n i, numbers[n]? = some i → t.next? i = numbers[n + 1]?

theorem Laid.carries (hl : t.Laid h rows) (l : Listing) (hrows : l.rows = rows) :
    t.Carries (List.range' h rows.length) l := by
  have hcell : ∀ n i, (List.range' h rows.length)[n]? = some i → i = h + n ∧ ∃ hn : n < rows.length,
      t.cells[i]? = some ⟨rows.get ⟨n, hn⟩, decide (n ≠ 0), decide (n + 1 < rows.length), n⟩ := by
    intro n i hi
    obtain ⟨hn, rfl⟩ := List.getElem?_eq_some_iff.mp hi
    rw [List.length_range'] at hn
    rw [List.getElem_range', Nat.one_mul]
    exact ⟨rfl, hn, hl n _ (by simp)⟩
  refine ⟨?_, fun n i hi => ?_, fun n i hi => ?_, fun n i hi => ?_⟩
  · rw [hrows]
    refine List.ext_getElem (by simp) fun n hn hn' => ?_
    obtain ⟨-, hlt, hc⟩ := hcell n (h + n) (by
      rw [List.getElem?_range' (by simpa using hn), Nat.one_mul])
    simp [hc]
  · obtain ⟨rfl, hn, hc⟩ := hcell n i hi
    rw [hc, Option.map_some]
  · obtain ⟨rfl, hn, hc⟩ := hcell n i hi
    rw [prev?, hc]
    cases n with
    | zero => rfl
    | succ n => simp [List.getElem?_range' (by omega : n < rows.length)]
  · obtain ⟨rfl, hn, hc⟩ := hcell n i hi
    rw [next?, hc]
    by_cases hlt : n + 1 < rows.length
    · simp [hlt, Nat.add_assoc]
    · rw [List.getElem?_eq_none (by simp; omega)]
      simp [hlt]

theorem Carries.congr {numbers : List Nat} {l : Listing} (hc : t.Carries numbers l)
    (h : ∀ i ∈ numbers, t'.cells[i]? = t.cells[i]?) : t'.Carries numbers l := by
  refine ⟨?_, fun n i hi => ?_, fun n i hi => ?_, fun n i hi => ?_⟩
  · rw [← hc.rows]
    exact List.map_congr_left fun i hi => by rw [h i hi]
  · rw [h i (List.mem_of_getElem? hi)]
    exact hc.place n i hi
  · rw [prev?, h i (List.mem_of_getElem? hi)]
    exact hc.prev n i hi
  · rw [next?, h i (List.mem_of_getElem? hi)]
    exact hc.next n i hi

end ScriptLift.Tape
