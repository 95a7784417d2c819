import ScriptLift.Proofs.Listing.Spans
import ScriptLift.Proofs.Listing.Strand

/-!
# Listings and the text they come from

A text is scanned onto one tape, and the listings are cut out of it one after the other.

* `Source.rows`: the rows of a text; each stands on the line it says.
* `Listing.label?_spec`: of several labels with one name, the last one counts.
* `Tape.cuts`: the parts of a strand that listings are made of; `Tape.getElem?_foldl_take_mem`:
  cutting them out one after the other leaves each as it would be left alone.
* **`ofSource_faithful`**: the listings of a text are the spans of its rows, on the tape and off it.
-/

namespace ScriptLift

/-! ## Rows of a text -/

/-- The sanitized non-empty lines of a text with their numbers. -/
def Row.cleanLines (lines : List String) : List (String × Int) :=
  lines.zipIdx.filterMap fun (line, i) =>
    let clean := Row.sanitize line
    if clean.isEmpty then none else some (clean, (i : Int) + 1)

theorem Row.ofLines_eq (lines : List String) :
    Row.ofLines lines = (Row.cleanLines lines).map fun x => Row.scan x.1 x.2 := by
  rw [Row.ofLines, Row.cleanLines, List.map_filterMap]
  congr 1
  funext ⟨line, i⟩
  dsimp only
  split <;> rfl

@[simp]
theorem Row.line_scan (line : String) (number : Int) : (Row.scan line number).row.line = number := by
  rw [Row.scan]
  split <;> rfl

/-- The rows of a text. -/
def Source.rows (src : Source) : List Row := (Row.ofLines src.lines).map Row.Scanned.row

theorem Source.rows_eq (src : Source) :
    src.rows = (Row.cleanLines src.lines).map fun x => (Row.scan x.1 x.2).row := by
  rw [Source.rows, Row.ofLines_eq, List.map_map]
  rfl

theorem Row.mem_cleanLines {lines : List String} {x : String × Int} (h : x ∈ Row.cleanLines lines) :
    ∃ (i : Nat) (line : String), lines[i]? = some line ∧ x = (Row.sanitize line, (i : Int) + 1) ∧
      x.1 ≠ "" := by
  obtain ⟨⟨line, i⟩, hmem, hx⟩ := List.mem_filterMap.mp h
  rw [List.mk_mem_zipIdx_iff_getElem?] at hmem
  dsimp only at hx
  split at hx
  · cases hx
  · rename_i hne
    cases hx
    exact ⟨i, line, hmem, rfl, by simpa using hne⟩

/-- A row is what is scanned on its line. -/
theorem Source.scan_line {src : Source} {r : Row} (h : r ∈ src.rows) :
    Row.sanitize (src.line r.line) ≠ "" ∧
      r = (Row.scan (Row.sanitize (src.line r.line)) r.line).row := by
  rw [Source.rows_eq] at h
  obtain ⟨x, hx, rfl⟩ := List.mem_map.mp h
  obtain ⟨i, line, hline, rfl, hne⟩ := Row.mem_cleanLines hx
  have hsrc : src.line ((i : Int) + 1) = line := by
    rw [Source.line, if_neg (by omega), show ((i : Int) + 1 - 1).toNat = i by omega, hline]
    rfl
  simpa only [Row.line_scan, hsrc, and_true] using hne

theorem Source.pairwise_line (src : Source) : src.rows.Pairwise (·.line < ·.line) := by
  rw [Source.rows_eq, List.pairwise_map, Row.cleanLines, List.pairwise_filterMap]
  have hnum : (src.lines.zipIdx).Pairwise (·.2 < ·.2) := by
    rw [← List.pairwise_map, List.zipIdx_map_snd]
    exact List.pairwise_lt_range'
  refine hnum.imp fun {a b} hab x hx y hy => ?_
  simp only [Row.line_scan]
  grind

/-! ## Labels -/

theorem Listing.label?_append (name key : String) (rows : List Row) (r : Row) :
    (Listing.mk name (rows ++ [r])).label? key =
      if r.isLabel ∧ r.name = key then some rows.length else (Listing.mk name rows).label? key := by
  rw [Listing.label?, Listing.labelRows, List.zipIdx_append, List.filterMap_append]
  by_cases hl : r.isLabel
  · by_cases hk : r.name = key
    · simp [hl, hk]
    · have hk' : (key == r.name) = false := by simpa using Ne.symm hk
      simp [hl, hk, hk', List.lookup_cons, Listing.label?, Listing.labelRows]
  · simp [hl, Listing.label?, Listing.labelRows]

/-- The places of the labels with a name. -/
def Listing.labelPlaces (l : Listing) (key : String) : Set Nat :=
  {i | ∃ r, l.get? i = some r ∧ r.isLabel ∧ r.name = key}

theorem Listing.labelPlaces_append (name key : String) (rows : List Row) (r : Row) :
    (Listing.mk name (rows ++ [r])).labelPlaces key =
      (Listing.mk name rows).labelPlaces key ∪
        {i | i = rows.length ∧ r.isLabel ∧ r.name = key} := by
  ext i
  simp only [labelPlaces, get?, Set.mem_ofPred_eq, Set.mem_union, List.getElem?_append]
  split
  · simp only [or_iff_left (fun h => by omega : ¬ (i = rows.length ∧ r.isLabel ∧ r.name = key))]
  · rw [List.getElem?_eq_none (by omega : rows.length ≤ i)]
    rcases Nat.lt_or_ge rows.length i with hlt | hge
    · rw [List.getElem?_eq_none (by simp; omega)]
      simp; omega
    · obtain rfl : i = rows.length := by omega
      simp

/-- **Of several labels with one name, the last one counts.** -/
theorem Listing.label?_spec (l : Listing) (key : String) :
    (∀ i, l.label? key = some i ↔ IsGreatest (l.labelPlaces key) i) ∧
      (l.label? key = none ↔ l.labelPlaces key = ∅) := by
  have hlt : ∀ (name : String) (rows : List Row), ∀ i ∈ (Listing.mk name rows).labelPlaces key,
      i < rows.length := by
    rintro name rows i ⟨r, hr, -⟩
    exact (List.getElem?_eq_some_iff.mp hr).1
  obtain ⟨name, rows⟩ := l
  induction rows using List.reverseRecOn with
  | nil => simp [label?, labelRows, labelPlaces, get?, IsGreatest]
  | append_singleton rows r ih =>
    rw [label?_append, labelPlaces_append]
    split
    · rename_i hr
      have hgreatest : IsGreatest ((Listing.mk name rows).labelPlaces key ∪
          {i | i = rows.length ∧ r.isLabel ∧ r.name = key}) rows.length := by
        refine ⟨.inr ⟨rfl, hr⟩, ?_⟩
        rintro i (hi | ⟨rfl, -⟩)
        · exact (hlt name rows i hi).le
        · exact le_rfl
      refine ⟨fun i => ⟨fun hi => Option.some.inj hi ▸ hgreatest, fun hi => ?_⟩, ?_⟩
      · rw [hi.unique hgreatest]
      · simp only [reduceCtorEq, false_iff]
        exact hgreatest.nonempty.ne_empty
    · rename_i hr
      simpa [hr] using ih

/-! ## Parts of a strand -/

theorem through_eq_self {α : Type} {p : α → Bool} {xs : List α} (h : ∀ z ∈ xs.dropLast, p z = false) :
    through p xs = xs := by
  induction xs with
  | nil => rfl
  | cons x xs ih =>
    cases xs with
    | nil =>
      rw [through]
      split <;> rfl
    | cons y ys =>
      rw [List.dropLast_cons_cons] at h
      rw [through, if_neg (by simp [h x List.mem_cons_self]),
        ih fun z hz => h z (List.mem_cons_of_mem _ hz)]

theorem Row.closesClass_of_opensClass {r : Row} (h : r.opensClass) : r.closesClass = false := by
  have hop : r.opcode = .classBegin := by simpa [Row.opensClass] using h
  simp [Row.closesClass, hop]

theorem rows_ofRows {rows part : List Row} (hp : part ∈ spans Row.opensClass Row.closesClass rows) :
    (Listing.ofRows part).rows = part := by
  obtain ⟨-, -, -, hinner, -⟩ :=
    Divides.part (fun _ hz => Row.closesClass_of_opensClass hz) (divides_spans _) hp
  exact through_eq_self hinner

namespace Tape

variable {t : Tape} {h n : Nat} {rows : List Row}

/-- The numbers of the rows of each class listing in the current sequence. -/
def parts (t : Tape) : List (List Nat) :=
  spans (t.holds Row.opensClass) (t.holds Row.closesClass) t.chain

theorem Strand.cell_mem (hs : t.Strand h rows) {x : Row × Nat} (hx : x ∈ rows.zipIdx h) :
    t.cells[x.2]?.map Cell.row = some x.1 := by
  obtain ⟨n, hn⟩ := List.mem_iff_getElem?.mp hx
  rw [List.getElem?_zipIdx] at hn
  obtain ⟨r, hr, rfl⟩ := Option.map_eq_some_iff.mp hn
  obtain ⟨p, hp⟩ := hs.cell n r hr
  rw [hp]
  rfl

/-- The parts of the rows of a strand that listings are made of, with their numbers. -/
def cuts (h : Nat) (rows : List Row) : List (List (Row × Nat)) :=
  spans (Row.opensClass ∘ Prod.fst) (Row.closesClass ∘ Prod.fst) (rows.zipIdx h)

theorem map_fst_cuts (h : Nat) (rows : List Row) :
    (cuts h rows).map (List.map Prod.fst) = spans Row.opensClass Row.closesClass rows := by
  rw [cuts, spans, ← spansFrom_map, List.zipIdx_map_fst]
  rfl

theorem Strand.parts_eq (hs : t.Strand h rows) : t.parts = (cuts h rows).map (List.map Prod.snd) := by
  have hholds : ∀ p : Row → Bool, ∀ x ∈ rows.zipIdx h, t.holds p x.2 = p x.1 := by
    intro p x hx
    obtain ⟨c, hc, hrow⟩ := Option.map_eq_some_iff.mp (hs.cell_mem hx)
    rw [Tape.holds, hc, ← hrow]
    rfl
  rw [parts, hs.chain, ← List.zipIdx_map_snd h rows, spans]
  exact (spansFrom_map Prod.snd none _).trans
    (congrArg _ (spansFrom_congr none (hholds _) (hholds _)))

theorem Strand.listing (hs : t.Strand h rows) (part : List (Row × Nat))
    (hp : ∀ x ∈ part, x ∈ rows.zipIdx h) :
    t.listing (part.map Prod.snd) = .ofRows (part.map Prod.fst) := by
  rw [Tape.listing, List.filterMap_map, ← List.filterMap_eq_map]
  exact congrArg _ (List.filterMap_congr fun x hx => hs.cell_mem (hp x hx))

/-- Where a part of a strand lies. -/
theorem mem_cuts {part : List (Row × Nat)} (hp : part ∈ cuts h rows) :
    ∃ before mid after, rows = before ++ mid ++ after ∧ part = mid.zipIdx (h + before.length) ∧
      (after = [] ∨ ∃ r ∈ mid.getLast?, r.closesClass) := by
  obtain ⟨a, b, hab, -, hend⟩ :=
    Divides.part (fun _ hz => Row.closesClass_of_opensClass hz) (divides_spans _) hp
  obtain ⟨front, after, rfl, hfront, rfl⟩ := List.zipIdx_eq_append_iff.mp hab
  obtain ⟨before, mid, rfl, -, rfl⟩ := List.zipIdx_eq_append_iff.mp hfront.symm
  refine ⟨before, mid, after, rfl, rfl, hend.imp (fun hnil => ?_) fun ⟨x, hx, hcloses⟩ => ?_⟩
  · simpa using hnil
  · refine ⟨x.1, ?_, hcloses⟩
    rw [← List.zipIdx_map_fst (h + before.length) mid, List.getLast?_map]
    exact Option.mem_map_of_mem _ hx

theorem Strand.takeAll_snd (hs : t.Strand h rows) :
    t.takeAll.2 = Listing.ofAllRows rows := by
  show t.parts.map t.listing = _
  rw [hs.parts_eq, Listing.ofAllRows, ← map_fst_cuts h, List.map_map, List.map_map]
  refine List.map_congr_left fun part hpart => hs.listing part fun x hx => ?_
  exact (divides_spans _).sublist.subset (List.mem_flatten.mpr ⟨part, hpart, hx⟩)

/-! ## Cutting out all listings -/

theorem getElem?_foldl_take {ps : List (List Nat)} {i : Nat}
    (hrange : ∀ p ∈ ps, ∃ h len, p = List.range' h len) (hi : ∀ p ∈ ps, i ∉ p) (t : Tape) :
    (ps.foldl take t).cells[i]? = t.cells[i]? := by
  induction ps generalizing t with
  | nil => rfl
  | cons p ps ih =>
    obtain ⟨h, len, rfl⟩ := hrange p List.mem_cons_self
    have hout := hi _ List.mem_cons_self
    rw [List.mem_range'_1] at hout
    rw [List.foldl_cons, ih (fun q hq => hrange q (List.mem_cons_of_mem _ hq))
      fun q hq => hi q (List.mem_cons_of_mem _ hq), getElem?_take, if_neg hout]

/-- Cutting out parts one after the other leaves each as it would be left alone. -/
theorem getElem?_foldl_take_mem {ps : List (List Nat)} {p : List Nat} {i : Nat}
    (hrange : ∀ p ∈ ps, ∃ h len, p = List.range' h len) (hnodup : ps.flatten.Nodup) (hp : p ∈ ps)
    (hi : i ∈ p) (t : Tape) : (ps.foldl take t).cells[i]? = (t.take p).cells[i]? := by
  obtain ⟨before, after, rfl⟩ := List.append_of_mem hp
  rw [List.flatten_append, List.flatten_cons, List.nodup_append] at hnodup
  have hbefore : ∀ q ∈ before, i ∉ q := fun q hq hiq =>
    hnodup.2.2 i (List.mem_flatten.mpr ⟨q, hq, hiq⟩) i (List.mem_append_left _ hi) rfl
  have hafter : ∀ q ∈ after, i ∉ q := fun q hq hiq =>
    (List.nodup_append.mp hnodup.2.1).2.2 i hi i (List.mem_flatten.mpr ⟨q, hq, hiq⟩) rfl
  obtain ⟨h, len, rfl⟩ := hrange p hp
  rw [List.foldl_append, List.foldl_cons,
    getElem?_foldl_take (fun q hq => hrange q (by simp [hq])) hafter, getElem?_take, getElem?_take,
    getElem?_foldl_take (fun q hq => hrange q (by simp [hq])) hbefore]

/-- **After the walk, a tape carries its listings.** -/
theorem Strand.carries_takeAll (hs : t.Strand h rows) :
    List.Forall₂ t.takeAll.1.Carries t.parts (Listing.ofAllRows rows) := by
  have hrange : ∀ p ∈ t.parts, ∃ h len, p = List.range' h len := by
    intro p hp
    rw [hs.parts_eq] at hp
    obtain ⟨part, hpart, rfl⟩ := List.mem_map.mp hp
    obtain ⟨before, mid, after, -, rfl, -⟩ := mem_cuts hpart
    exact ⟨_, _, List.zipIdx_map_snd _ _⟩
  have hnodup : t.parts.flatten.Nodup := by
    refine (divides_spans _).sublist.nodup ?_
    rw [hs.chain]
    exact List.nodup_range'
  rw [Listing.ofAllRows, ← map_fst_cuts h, hs.parts_eq, List.map_map, List.forall₂_map_left_iff,
    List.forall₂_map_right_iff, List.forall₂_same]
  intro part hpart
  have hmem : part.map Prod.snd ∈ t.parts := hs.parts_eq ▸ List.mem_map_of_mem hpart
  have hfst : part.map Prod.fst ∈ spans Row.opensClass Row.closesClass rows :=
    map_fst_cuts h rows ▸ List.mem_map_of_mem hpart
  obtain ⟨before, mid, after, rfl, rfl, hend⟩ := mem_cuts hpart
  rw [List.zipIdx_map_fst] at hfst
  rw [Function.comp_apply, List.zipIdx_map_fst]
  have hlaid : (t.take (List.range' (h + before.length) mid.length)).Laid (h + before.length) mid := by
    refine laid_take fun n r hr => ?_
    have hn : n < mid.length := (List.getElem?_eq_some_iff.mp hr).1
    obtain ⟨p, hp⟩ := hs.cell (before.length + n) r (by
      rw [List.append_assoc, List.getElem?_append_right (by omega), Nat.add_sub_cancel_left,
        List.getElem?_append_left hn, hr])
    rw [← Nat.add_assoc] at hp
    refine ⟨_, hp, rfl, fun h0 => decide_eq_true (by omega), ?_⟩
    refine ⟨fun hlt => decide_eq_true (by simp only [List.length_append]; omega), fun hlast hon => ?_⟩
    · -- The last row of the part closes it, or there is nothing it could be linked to.
      rcases hend with rfl | ⟨r', hr', hcloses⟩
      · have hlt := of_decide_eq_true hon
        simp only [List.length_append, List.length_nil] at hlt
        omega
      · obtain rfl : n = mid.length - 1 := by omega
        rw [← List.getLast?_eq_getElem?, hr'] at hr
        exact Option.some.inj hr ▸ hcloses
  rw [List.zipIdx_map_snd] at hmem ⊢
  refine (hlaid.carries _ (rows_ofRows hfst)).congr fun i hi => ?_
  exact getElem?_foldl_take_mem hrange hnodup hmem hi t

end Tape

/-! ## A text on a tape -/

/-- A text scanned onto a tape. -/
def Tape.ofSource (src : Source) : Tape :=
  (Row.cleanLines src.lines).foldl (fun t x => t.scan x.1 x.2) .empty

theorem Tape.Strand.foldl_scan {t : Tape} {h : Nat} {rows : List Row} (hs : t.Strand h rows)
    (lines : List (String × Int)) :
    (lines.foldl (fun t x => t.scan x.1 x.2) t).Strand h
      (rows ++ lines.map fun x => (Row.scan x.1 x.2).row) := by
  induction lines generalizing t rows with
  | nil => simpa using hs
  | cons x lines ih => simpa using ih (hs.scan x.1 x.2)

theorem Tape.strand_ofSource (src : Source) : (Tape.ofSource src).Strand 0 src.rows := by
  have hempty : Tape.empty.Strand 0 [] := ⟨rfl, rfl, rfl, by simp⟩
  rw [Source.rows_eq]
  exact hempty.foldl_scan _

theorem Listing.map_rows_ofAllRows (rows : List Row) :
    (Listing.ofAllRows rows).map Listing.rows = spans Row.opensClass Row.closesClass rows := by
  rw [Listing.ofAllRows, List.map_map]
  conv_rhs => rw [← List.map_id (spans Row.opensClass Row.closesClass rows)]
  exact List.map_congr_left fun part hp => rows_ofRows hp

/-- **The listings of a text are the spans of its rows, on the tape and off it.** A row stands at its
place, next to its neighbours; its line is where it was scanned, and lines only grow. -/
theorem ofSource_faithful (src : Source) :
    (Tape.ofSource src).takeAll.2 = Listing.ofSource src ∧
    List.Forall₂ (Tape.ofSource src).takeAll.1.Carries (Tape.ofSource src).parts
      (Listing.ofSource src) ∧
    (∀ l ∈ Listing.ofSource src, ∀ key,
      (∀ i, l.label? key = some i ↔ IsGreatest (l.labelPlaces key) i) ∧
      (l.label? key = none ↔ l.labelPlaces key = ∅)) ∧
    ((Listing.ofSource src).flatMap Listing.rows).Pairwise (·.line < ·.line) ∧
    (∀ l ∈ Listing.ofSource src, ∀ r ∈ l.rows, Row.sanitize (src.line r.line) ≠ "" ∧
      r = (Row.scan (Row.sanitize (src.line r.line)) r.line).row) ∧
    Divides Row.opensClass Row.closesClass src.rows ((Listing.ofSource src).map Listing.rows) := by
  have hdivides : Divides Row.opensClass Row.closesClass src.rows
      ((Listing.ofSource src).map Listing.rows) :=
    divides_iff.mpr (Listing.map_rows_ofAllRows src.rows)
  have hsub : ((Listing.ofSource src).flatMap Listing.rows).Sublist src.rows := by
    rw [List.flatMap_def]
    exact hdivides.sublist
  have hstrand := Tape.strand_ofSource src
  refine ⟨hstrand.takeAll_snd, hstrand.carries_takeAll, fun l _ key => l.label?_spec key,
    src.pairwise_line.sublist hsub, fun l hl r hr => ?_, hdivides⟩
  exact Source.scan_line (hsub.subset (List.mem_flatMap.mpr ⟨l, hl, hr⟩))

/-- A class with one label twice, rows that belong to no class, and a class that is not closed. -/
def openSpan : Source := .memory
  "x\nclass 0 a : b\nL1\n\nL1\nclass_end\ny\nclass 0 c : d\nz"

theorem ofSource_faithful_openSpan :
    (Listing.ofSource openSpan).map (·.rows.map Row.line) = [[2, 3, 5, 6], [8, 9]] ∧
      ∃ l ∈ Listing.ofSource openSpan, l.label? "L1" = some 2 ∧
        IsGreatest (l.labelPlaces "L1") 2 := by
  have hfound : ∃ l ∈ Listing.ofSource openSpan, l.label? "L1" = some 2 := by decide +kernel
  obtain ⟨l, hl, hplace⟩ := hfound
  obtain ⟨-, -, hlabels, -⟩ := ofSource_faithful openSpan
  exact ⟨by decide +kernel, l, hl, hplace, ((hlabels l hl "L1").1 2).mp hplace⟩

end ScriptLift
