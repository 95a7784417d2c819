import ScriptLift.Batch.Job
import ScriptLift.Proofs.Listing.Faithful

/-!
# Reading classes one by one

A run does not wait for the whole text: it cuts a class out of the tape as soon as its `class_end`
is scanned, and drops what came before it.

* `ClassReader`, `ClassReader.read`: reading line by line.
* `ClassReader.foldl_read`: what reading lines takes, from any state that a reader may be in.
* `listings_eventsFrom`: the jobs of a run are these listings.
* **`jobs_eq_ofSource`**: where classes are closed, reading finds what walking over the whole tape
  does.
-/

namespace ScriptLift

/-- A tape that is read line by line, with what was cut out of it. -/
structure ClassReader where
  tape : Tape
  /-- The row numbers of each listing. -/
  taken : List (List Nat)
  listings : List Listing

namespace ClassReader

/-- A reader of nothing. -/
def new : ClassReader := ⟨.empty, [], []⟩

/-- Reads a line. A `class` row begins a new sequence; a `class_end` ends it, and cuts out a listing
if it began with a `class` row. -/
def read (s : ClassReader) (x : String × Int) : ClassReader :=
  let t := s.tape.scan x.1 x.2
  let row := (Row.scan x.1 x.2).row
  if row.opensClass then { s with tape := (t.begin? s.tape.cells.length).getD t }
  else if row.closesClass then
    if t.head.any (t.holds Row.opensClass) then
      { tape := t.takeListing.1.reset
        taken := s.taken ++ [t.takeListing.1.latest]
        listings := s.listings ++ [t.takeListing.2] }
    else { s with tape := t.reset }
  else { s with tape := t }

/-- A text read line by line. -/
def ofSource (src : Source) : ClassReader := (Row.cleanLines src.lines).foldl read new

/-! ## One line -/

variable {s : ClassReader} {t : Tape} {h : Nat} {rows : List Row} {r : Row}

/-- The rows of the open class, in reverse. -/
def openRows (h : Nat) (rows : List Row) : Option (List (Row × Nat)) :=
  if rows.head?.any Row.opensClass then some (rows.zipIdx h).reverse else none

/-- A row that begins no class goes to the open one. -/
theorem openRows_append (h : Nat) (rows : List Row) (hr : r.opensClass = false) :
    openRows h (rows ++ [r]) = (openRows h rows).map ((r, h + rows.length) :: ·) := by
  cases rows with
  | nil => simp [openRows, hr]
  | cons x rows =>
    by_cases hx : x.opensClass
    · simp [openRows, hx, List.zipIdx_append]
      omega
    · simp [openRows, hx]

theorem head_any (hs : t.Strand h rows) :
    t.head.any (t.holds Row.opensClass) = rows.head?.any Row.opensClass := by
  cases rows with
  | nil => simp [hs.head]
  | cons x rows =>
    obtain ⟨p, hp⟩ := hs.cell 0 x rfl
    rw [hs.head]
    show t.holds Row.opensClass h = _
    rw [Tape.holds, ← Nat.add_zero h, hp]
    rfl

/-- The sequence up to a `class_end` is taken as one listing. -/
theorem takeListing_eq (hs : t.Strand h (rows ++ [r])) (hfree : ∀ x ∈ rows, x.closesClass = false) :
    t.takeListing.1.latest = List.range' h (rows ++ [r]).length ∧
      t.takeListing.2 = .ofRows (rows ++ [r]) ∧
      t.takeListing.1.cells = (t.take (List.range' h (rows ++ [r]).length)).cells := by
  have hthrough : through (t.holds Row.closesClass) t.chain = List.range' h (rows ++ [r]).length := by
    rw [hs.chain]
    refine through_eq_self fun i hi => ?_
    rw [List.length_append, List.length_singleton, List.range'_concat, List.dropLast_concat,
      List.mem_range'_1] at hi
    obtain ⟨n, rfl⟩ := Nat.exists_eq_add_of_le hi.1
    have hn : n < rows.length := by omega
    obtain ⟨p, hp⟩ := hs.cell n (rows.get ⟨n, hn⟩) (by
      rw [List.getElem?_append_left hn]
      simp)
    rw [Tape.holds, hp]
    exact hfree _ (List.get_mem _ _)
  have hlisting := hs.listing ((rows ++ [r]).zipIdx h) fun x hx => hx
  rw [List.zipIdx_map_snd, List.zipIdx_map_fst] at hlisting
  rw [Tape.takeListing, hthrough]
  exact ⟨rfl, hlisting, rfl⟩

theorem laid_take_strand (hs : t.Strand h rows) :
    (t.take (List.range' h rows.length)).Laid h rows := by
  refine Tape.laid_take fun n r hr => ?_
  obtain ⟨p, hp⟩ := hs.cell n r hr
  refine ⟨_, hp, rfl, fun h0 => decide_eq_true h0, fun hlt => decide_eq_true hlt, fun hl hon => ?_⟩
  have hlt := of_decide_eq_true hon
  omega

/-- What a reader can be in: the rows scanned since it began anew, none of which closes a class. -/
structure Reads (s : ClassReader) (h : Nat) (rows : List Row) : Prop where
  strand : s.tape.Strand h rows
  free : ∀ r ∈ rows, r.closesClass = false

/-- A reader went on and took parts, and left rows before a number as they were. -/
structure Took (s s' : ClassReader) (h : Nat) (ps : List (List (Row × Nat))) : Prop where
  taken : s'.taken = s.taken ++ ps.map (List.map Prod.snd)
  listings : s'.listings = s.listings ++ ps.map fun p => .ofRows (p.map Prod.fst)
  stays : ∀ i < h, s'.tape.cells[i]? = s.tape.cells[i]?
  carries : ∀ p ∈ ps, s'.tape.Carries (p.map Prod.snd) (.ofRows (p.map Prod.fst))

theorem Took.trans {s s' s'' : ClassReader} {h h' : Nat} {ps qs : List (List (Row × Nat))}
    (hp : Took s s' h ps) (hq : Took s' s'' h' qs) (hle : h ≤ h')
    (hbelow : ∀ p ∈ ps, ∀ x ∈ p, x.2 < h') : Took s s'' h (ps ++ qs) := by
  refine ⟨by rw [hq.taken, hp.taken]; simp, by rw [hq.listings, hp.listings]; simp,
    fun i hi => (hq.stays i (by omega)).trans (hp.stays i hi), fun p hmem => ?_⟩
  rcases List.mem_append.mp hmem with hmem | hmem
  · refine (hp.carries p hmem).congr fun i hi => hq.stays i ?_
    obtain ⟨x, hx, rfl⟩ := List.mem_map.mp hi
    exact hbelow p hmem x hx
  · exact hq.carries p hmem

theorem Took.none {s' : ClassReader} (ht : s'.taken = s.taken) (hl : s'.listings = s.listings)
    (hstays : ∀ i < h, s'.tape.cells[i]? = s.tape.cells[i]?) : Took s s' h [] :=
  ⟨by simp [ht], by simp [hl], hstays, by simp⟩

/-- What the next row makes of a reader: it goes on with the rows `rows'` and has taken what the row
closes. -/
def Goes (s s' : ClassReader) (h : Nat) (rows : List Row) (r : Row) : Prop :=
  ∃ h' rows' ps, s'.Reads h' rows' ∧ Took s s' h ps ∧ h ≤ h' ∧ (∀ p ∈ ps, ∀ y ∈ p, y.2 < h') ∧
    h' + rows'.length = h + rows.length + 1 ∧
    ∀ rest, closedSpansFrom (Row.opensClass ∘ Prod.fst) (Row.closesClass ∘ Prod.fst)
        (openRows h rows) ((r, h + rows.length) :: rest) =
      ps ++ closedSpansFrom (Row.opensClass ∘ Prod.fst) (Row.closesClass ∘ Prod.fst)
        (openRows h' rows') rest

section Step

variable (hs : s.Reads h rows) (hscan : t.Strand h (rows ++ [r]))
  (hstays : ∀ i < h, t.cells[i]? = s.tape.cells[i]?)

include hscan hstays in
theorem goes_begin {t' : Tape} (hopens : r.opensClass)
    (hbegin : t.begin? (h + rows.length : Nat) = some t') :
    Goes s { s with tape := t' } h rows r := by
  obtain ⟨_, hbegin', hstrand, hbefore⟩ := hscan.begin
  obtain rfl := Option.some.inj (hbegin.symm.trans hbegin')
  refine ⟨h + rows.length, [r], [], ⟨hstrand, ?_⟩, .none rfl rfl fun i hi => ?_, by omega, by simp,
    rfl, fun rest => ?_⟩
  · simpa using Row.closesClass_of_opensClass hopens
  · exact (hbefore i (by omega)).trans (hstays i hi)
  · simp [closedSpansFrom, hopens, openRows]

include hs hscan hstays in
theorem goes_on (hopens : r.opensClass = false) (hcloses : r.closesClass = false) :
    Goes s { s with tape := t } h rows r := by
  refine ⟨h, rows ++ [r], [], ⟨hscan, ?_⟩, .none rfl rfl hstays, le_rfl, by simp,
    by simp [Nat.add_assoc], fun rest => ?_⟩
  · simpa [or_imp, forall_and, hcloses] using hs.free
  · simp [closedSpansFrom, hopens, hcloses, openRows_append h rows hopens]

include hscan hstays in
theorem goes_drop (hopens : r.opensClass = false) (hcloses : r.closesClass)
    (hopen : rows.head?.any Row.opensClass = false) :
    Goes s { s with tape := t.reset } h rows r := by
  have hlen : h + (rows.length + 1) = t.cells.length := by simpa using hscan.length
  refine ⟨t.cells.length, [], [], ⟨Tape.strand_reset t, by simp⟩, .none rfl rfl hstays, by omega,
    by simp, hlen.symm, fun rest => ?_⟩
  simp [closedSpansFrom, hopens, hcloses, openRows, hopen]

include hs hscan hstays in
theorem goes_take (hopens : r.opensClass = false) (hcloses : r.closesClass)
    (hopen : rows.head?.any Row.opensClass) :
    Goes s ⟨t.takeListing.1.reset, s.taken ++ [t.takeListing.1.latest],
      s.listings ++ [t.takeListing.2]⟩ h rows r := by
  have hlen : h + (rows.length + 1) = t.cells.length := by simpa using hscan.length
  obtain ⟨hlatest, hlisting, hcells⟩ := takeListing_eq hscan hs.free
  have hbound : t.takeListing.1.cells.length = h + (rows.length + 1) := by
    rw [hcells, Tape.length_take, hlen]
  have hlaid : t.takeListing.1.reset.Laid h (rows ++ [r]) := by
    intro n q hq
    rw [Tape.reset, hcells]
    exact laid_take_strand hscan n q hq
  have hrows : (Listing.ofRows (rows ++ [r])).rows = rows ++ [r] :=
    through_eq_self fun z hz => hs.free z (by simpa using hz)
  rw [hlatest, hlisting]
  refine ⟨t.takeListing.1.cells.length, [], [(rows ++ [r]).zipIdx h],
    ⟨Tape.strand_reset _, by simp⟩, ⟨by simp, by simp, fun i hi => ?_, ?_⟩, by omega, ?_, hbound,
    fun rest => ?_⟩
  · rw [Tape.reset, hcells, Tape.getElem?_take, if_neg (by omega), hstays i hi]
  · simpa using hlaid.carries _ hrows
  · rintro p hp y hy
    obtain rfl := List.mem_singleton.mp hp
    have hlt := List.snd_lt_add_of_mem_zipIdx hy
    simp only [List.length_append, List.length_singleton] at hlt
    omega
  · simp [closedSpansFrom, hopens, hcloses, openRows, hopen, List.zipIdx_append]

end Step

/-- Reading a line takes what the line closes. -/
theorem Reads.read (hs : s.Reads h rows) (x : String × Int) :
    Goes s (s.read x) h rows (Row.scan x.1 x.2).row := by
  have hscan := hs.strand.scan x.1 x.2
  have hstays : ∀ i < h, (s.tape.scan x.1 x.2).cells[i]? = s.tape.cells[i]? :=
    fun i hi => hs.strand.getElem?_scan hi x.1 x.2
  rw [ClassReader.read]
  generalize (Row.scan x.1 x.2).row = r at hscan
  generalize s.tape.scan x.1 x.2 = t at hscan hstays
  split
  · rename_i hopens
    obtain ⟨t', hbegin, -⟩ := hscan.begin
    rw [← hs.strand.length, hbegin]
    exact goes_begin hscan hstays hopens hbegin
  · rename_i hopens
    replace hopens : r.opensClass = false := by simpa using hopens
    have hhead : t.head.any (t.holds Row.opensClass) = rows.head?.any Row.opensClass := by
      rw [head_any hscan]
      cases rows <;> simp [hopens]
    rw [hhead]
    split
    · rename_i hcloses
      split
      · rename_i hopen
        exact goes_take hs hscan hstays hopens hcloses hopen
      · rename_i hopen
        exact goes_drop hscan hstays hopens hcloses (by simpa using hopen)
    · rename_i hcloses
      exact goes_on hs hscan hstays hopens (by simpa using hcloses)

/-- Reading lines takes the spans they close. -/
theorem Reads.foldl_read (hs : s.Reads h rows) (lines : List (String × Int)) :
    Took s (lines.foldl ClassReader.read s) h (closedSpansFrom (Row.opensClass ∘ Prod.fst)
      (Row.closesClass ∘ Prod.fst) (openRows h rows)
      ((lines.map fun x => (Row.scan x.1 x.2).row).zipIdx (h + rows.length))) := by
  induction lines generalizing s h rows with
  | nil => exact .none rfl rfl fun _ _ => rfl
  | cons x lines ih =>
    obtain ⟨h', rows', ps, hreads, htook, hle, hbelow, hlen, hspans⟩ := hs.read x
    rw [List.map_cons, List.zipIdx_cons, hspans, ← hlen]
    exact htook.trans (ih hreads) hle hbelow

end ClassReader

/-! ## Jobs -/

theorem listings_eventsFrom (src : Source) (open? : Option (List Row)) (xs : List Row.Scanned) :
    (Batch.eventsFrom src open? xs).filterMap Batch.Event.listing? =
      (closedSpansFrom Row.opensClass Row.closesClass open? (xs.map Row.Scanned.row)).map .ofRows := by
  have hwarning : ∀ ps : List Problem, (ps.map .warning).filterMap Batch.Event.listing? = [] := by
    intro ps
    induction ps with
    | nil => rfl
    | cons p ps ih => exact ih
  have hcomplete : ∀ ls : List Listing, (ls.map .complete).filterMap Batch.Event.listing? = ls := by
    intro ls
    induction ls with
    | nil => rfl
    | cons l ls ih => exact congrArg (l :: ·) ih
  induction xs generalizing open? with
  | nil => rfl
  | cons x xs ih =>
    rw [Batch.eventsFrom, List.filterMap_append, List.filterMap_append, hwarning, hcomplete,
      List.nil_append, ih, List.map_cons, closedSpansFrom, Batch.completed?, Batch.openAfter]
    cases hopens : x.row.opensClass with
    | true => simp
    | false =>
      cases hcloses : x.row.closesClass with
      | true => cases open? <;> simp
      | false => simp

theorem listings_jobs (s : Settings) (src : Source) :
    (Batch.jobs s src).map Batch.Job.listing =
      (closedSpansFrom Row.opensClass Row.closesClass none src.rows).map .ofRows := by
  rw [Batch.jobs, List.map_map, Batch.events, listings_eventsFrom]
  exact List.map_id _

/-- **Where every class is closed, reading a text class by class finds what walking over its whole
tape does**: the same listings in the same order, which both tapes carry by the same rows, and these
are the jobs of a run. -/
theorem jobs_eq_ofSource (s : Settings) (src : Source)
    (h : Paired Row.opensClass Row.closesClass src.rows) :
    (Batch.jobs s src).map Batch.Job.listing = Listing.ofSource src ∧
    (ClassReader.ofSource src).listings = (Batch.jobs s src).map Batch.Job.listing ∧
    (Tape.ofSource src).takeAll.2 = Listing.ofSource src ∧
    (ClassReader.ofSource src).taken = (Tape.ofSource src).parts ∧
    List.Forall₂ (ClassReader.ofSource src).tape.Carries (Tape.ofSource src).parts
      (Listing.ofSource src) ∧
    List.Forall₂ (Tape.ofSource src).takeAll.1.Carries (Tape.ofSource src).parts
      (Listing.ofSource src) := by
  have hstrand := Tape.strand_ofSource src
  have hdisjoint : ∀ r : Row, r.opensClass → r.closesClass = false :=
    fun _ => Row.closesClass_of_opensClass
  have hjobs : (Batch.jobs s src).map Batch.Job.listing = Listing.ofSource src := by
    rw [listings_jobs, closedSpans_eq_spans hdisjoint h]
    rfl
  have hpaired : Paired (Row.opensClass ∘ Prod.fst) (Row.closesClass ∘ Prod.fst)
      (src.rows.zipIdx 0) := by
    rw [← List.zipIdx_map_fst 0 src.rows] at h
    exact h.of_map
  have hcuts : closedSpansFrom (Row.opensClass ∘ Prod.fst) (Row.closesClass ∘ Prod.fst) none
      (src.rows.zipIdx 0) = Tape.cuts 0 src.rows :=
    closedSpans_eq_spans (fun x hx => hdisjoint x.1 hx) hpaired
  have htook : ClassReader.Took .new (ClassReader.ofSource src) 0 (Tape.cuts 0 src.rows) := by
    have hnew : ClassReader.new.Reads 0 [] := ⟨Tape.strand_reset .empty, by simp⟩
    rw [← hcuts, Source.rows_eq]
    exact hnew.foldl_read (Row.cleanLines src.lines)
  have hlistings : Listing.ofSource src =
      (Tape.cuts 0 src.rows).map fun p => .ofRows (p.map Prod.fst) := by
    show (spans Row.opensClass Row.closesClass src.rows).map Listing.ofRows = _
    rw [← Tape.map_fst_cuts 0, List.map_map]
    rfl
  refine ⟨hjobs, ?_, hstrand.takeAll_snd, ?_, ?_, hstrand.carries_takeAll⟩
  · rw [hjobs, hlistings]
    exact htook.listings
  · rw [hstrand.parts_eq]
    exact htook.taken
  · rw [hstrand.parts_eq, hlistings, List.forall₂_map_left_iff, List.forall₂_map_right_iff,
      List.forall₂_same]
    exact htook.carries

/-- Two classes with rows before, between and after them. -/
def strayRows : Source := .memory
  "x\nclass_end\nclass 0 a : b\nL1\nclass_end\n\nL1\nclass 0 c : d\nclass_end\nclass_end\ny"

theorem jobs_eq_ofSource_strayRows :
    Paired Row.opensClass Row.closesClass strayRows.rows ∧
      (Batch.jobs default strayRows).map Batch.Job.listing = Listing.ofSource strayRows ∧
      (Listing.ofSource strayRows).map (·.rows.map Row.line) = [[3, 4, 5], [8, 9]] :=
  ⟨by decide +kernel, (jobs_eq_ofSource default strayRows (by decide +kernel)).1, by decide +kernel⟩

end ScriptLift
