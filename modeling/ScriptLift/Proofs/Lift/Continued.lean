import ScriptLift.Batch.Job
import ScriptLift.Proofs.Lift.Handlers
import ScriptLift.Proofs.Lift.Trace
import ScriptLift.Proofs.Listing.TextLines

/-!
# Texts over several lines

The default of a string parameter may go on over further lines. Each of them is a row of its own, and what
the row keeps of the line is put behind the text so far.

* `rowsFrom`: the rows of lines.
* `declaring`, `spliced`: a text that is being declared, and what it is put together of.
* `run_rowsFrom`: what a text over several lines declares, whatever the lines are; `run_rowsFrom_iff`:
  when that is what is written.
* `foldl_openAfter_iff`: when rows leave a class open.
* **`declares_lines_iff`**: when the lines are declared as they are written.
-/

namespace ScriptLift.Lift

open Text

/-- The rows of lines, numbered from `n` on. -/
def rowsFrom (n : Nat) (lines : List String) : List Row :=
  (lines.zipIdx n).map fun x => (Row.scan (Row.sanitize x.1) x.2).row

/-- A text with further lines. -/
def spliced (text : String) (lines : List String) : String :=
  lines.foldl (fun s t => s ++ "\n\t" ++ t) text

/-- The state in which a string parameter is declared with a text, in a section that is in `mode`. -/
def declaring (st : State) (decl : ClassDecl) (p text : String) (mode : Mode) : State :=
  { st with
    mode
    decl := some { decl with parameters := decl.parameters ++ [⟨"string", p, .str text⟩] }
    types := st.types.put p "string" }

/-- What a further line adds to a text. -/
def keptOf (line : String) : String := unquoted (Row.scan (Row.sanitize line) 0).row.raw

theorem raw_scan (s : String) (n : Int) : (Row.scan s n).row.raw = (Row.scan s 0).row.raw := by
  rw [Row.scan, Row.scan]
  split_ifs <;> rfl

theorem rowsFrom_cons (n : Nat) (line : String) (lines : List String) :
    rowsFrom n (line :: lines) = (Row.scan (Row.sanitize line) n).row :: rowsFrom (n + 1) lines := by
  rw [rowsFrom, List.zipIdx_cons, List.map_cons]
  rfl

theorem exists_of_mem_rowsFrom {n : Nat} {lines : List String} {r : Row} (h : r ∈ rowsFrom n lines) :
    ∃ line ∈ lines, ∃ m : Int, r = (Row.scan (Row.sanitize line) m).row := by
  obtain ⟨x, hx, rfl⟩ := List.mem_map.mp h
  exact ⟨x.1, List.fst_mem_of_mem_zipIdx hx, x.2, rfl⟩

/-! ## Quotes at the ends -/

/-- Quotes around a text without quotes are taken off. -/
theorem unquoted_between {a t b : String} (ha : ∀ c ∈ a.toList, c = '"') (hb : ∀ c ∈ b.toList, c = '"')
    (ht : '"' ∉ t.toList) : unquoted (a ++ t ++ b) = t := by
  have hfront : ∀ c ∈ a.toList, (c == '"') = true := fun c hc => by simp [ha c hc]
  have hback : ∀ c ∈ b.toList.reverse, (c == '"') = true := fun c hc => by
    simp [hb c (List.mem_reverse.mp hc)]
  have hkeep : ∀ l : List Char, '"' ∉ l → l.dropWhile (· == '"') = l := fun l hl => by
    cases l with
    | nil => rfl
    | cons c l =>
      have hc : c ≠ '"' := fun h => hl (h ▸ List.mem_cons_self)
      exact List.dropWhile_cons_of_neg (by simpa using hc)
  have hlist : stripList (· == '"') (a ++ t ++ b).toList = t.toList := by
    rw [stripList, String.toList_append, String.toList_append, List.append_assoc,
      List.dropWhile_append_of_pos hfront, List.dropWhile_append, hkeep _ ht]
    split_ifs with hempty
    · have hnil : t.toList = [] := by simpa using hempty
      rw [List.dropWhile_eq_nil_iff.mpr fun c hc => hback c (List.mem_reverse.mpr hc), hnil]
      rfl
    · rw [List.reverse_append, List.dropWhile_append_of_pos hback,
        hkeep _ fun h => ht (List.mem_reverse.mp h), List.reverse_reverse]
  rw [unquoted, stripBy, hlist, String.ofList_toList]

theorem unquoted_of_not_mem {t : String} (ht : '"' ∉ t.toList) : unquoted t = t := by
  simpa using unquoted_between (a := "") (b := "") (by simp) (by simp) ht

theorem endsWith_quote_iff {s : String} : endsWith "\"" s ↔ s.toList.getLast? = some '"' := by
  rw [endsWith, List.isSuffixOf_iff_suffix, List.getLast?_eq_some_iff]
  exact ⟨fun ⟨r, hr⟩ => ⟨r, hr.symm⟩, fun ⟨r, hr⟩ => ⟨r, hr.symm⟩⟩

theorem endsWith_of_unquoted {s : String} (hs : '"' ∉ s.toList) : endsWith "\"" s = false := by
  by_contra h
  rw [Bool.not_eq_false, endsWith_quote_iff] at h
  exact hs (List.mem_of_getLast? h)

/-! ## Runs -/

section Runs

variable {sy : Symbols} {opts : Options} {before after : List Row} {st : State} {decl : ClassDecl}
  {row : Row} {p t : String}

/-- The text of a default that has a quote in front only goes on. -/
theorem parameterDefault_opened (sy : Symbols) (p : String) (ht : '"' ∉ t.toList) :
    parameterDefault sy p ("\"" ++ t) = .ok (.str t, true) := by
  have hstart : startsWith "\"" ("\"" ++ t) = true := by simp [startsWith]
  have htext : unquoted ("\"" ++ t) = t := by
    simpa using unquoted_between (a := "\"") (b := "") (by simp) (by simp) ht
  have hgoes : ("\"" ++ t == "\"" || !endsWith "\"" ("\"" ++ t)) = true := by
    cases hlast : t.toList.getLast? with
    | none =>
      obtain rfl := String.toList_eq_nil_iff.mp (List.getLast?_eq_none_iff.mp hlast)
      rfl
    | some z =>
      have hz : z ≠ '"' := by
        rintro rfl
        exact ht (List.mem_of_getLast? hlast)
      have hend : endsWith "\"" ("\"" ++ t) = false := by
        rw [Bool.eq_false_iff, ne_eq, endsWith_quote_iff, String.toList_append, List.getLast?_append, hlast]
        simpa using hz
      rw [hend]
      simp
  rw [parameterDefault, if_pos hstart, htext, hgoes]

/-- A declaration whose text begins. -/
theorem step_opened (hm : st.mode = .parameters) (hd : st.decl = some decl) (hname : row.name = "string")
    (hops : row.operands = [p, "\"" ++ t]) (ht : '"' ∉ t.toList) :
    step sy opts ⟨before, row, after⟩ st = .ok (declaring st decl p t .parameterText) := by
  have hop : row.opcode = .declaration := by
    rw [Row.opcode, hname]
    decide
  have htype : typeName "string" = "string" := by decide
  rw [step_eq_dispatch (by simp [hm])]
  simp only [dispatch, hop, declarationRow, hm, parameterRow, hd, hops, List.getElem?_cons_succ,
    List.getElem?_cons_zero, parameterDefault_opened sy _ ht, hname, htype]
  rw [Row.operand, hops]
  rfl

/-- A further line is put behind the text, and ends it if it ends in a quote. -/
theorem step_continued : step sy opts ⟨before, row, after⟩ (declaring st decl p t .parameterText) =
    .ok (declaring st decl p (t ++ "\n\t" ++ unquoted row.raw)
      (if endsWith "\"" row.raw then .parameters else .parameterText)) := by
  have hlast : ∀ f : Parameter → Parameter, ∀ ps : List Parameter, ∀ x,
      (ps ++ [x]).modify ((ps ++ [x]).length - 1) f = ps ++ [f x] := fun f ps x => by
    rw [List.modify_eq_take_drop]
    simp
  simp only [step, declaring, parameterText, Option.map_some, hlast, appendText]

/-- Further lines, none of which ends in a quote. -/
theorem run_continued {rows : List Row} (h : ∀ r ∈ rows, endsWith "\"" r.raw = false) :
    run sy opts before (rows ++ after) (declaring st decl p t .parameterText) =
      run sy opts (rows.reverse ++ before) after
        (declaring st decl p (spliced t (rows.map (unquoted ·.raw))) .parameterText) := by
  induction rows generalizing before t with
  | nil => rfl
  | cons row rows ih =>
    rw [List.forall_mem_cons] at h
    rw [List.cons_append, run_ok step_continued, h.1, if_neg (by simp), ih h.2, List.reverse_cons,
      List.append_assoc]
    rfl

end Runs

theorem mem_rowsFrom {n : Nat} {lines : List String} {line : String} (h : line ∈ lines) :
    ∃ m : Int, (Row.scan (Row.sanitize line) m).row ∈ rowsFrom n lines := by
  obtain ⟨i, hi, rfl⟩ := List.mem_iff_getElem.mp h
  refine ⟨(n + i : Nat), List.mem_map.mpr ⟨(lines[i], n + i), ?_, rfl⟩⟩
  exact List.mk_add_mem_zipIdx_iff_getElem?.mpr (List.getElem?_eq_getElem hi)

/-! ## Lines as they are kept -/

theorem map_rowsFrom (n : Nat) (lines : List String) :
    (rowsFrom n lines).map (unquoted ·.raw) = lines.map keptOf := by
  induction lines generalizing n with
  | nil => rfl
  | cons line lines ih =>
    rw [rowsFrom_cons, List.map_cons, ih, List.map_cons, keptOf, raw_scan]

theorem rowsFrom_concat (n : Nat) (lines : List String) (line : String) : ∃ m : Int,
    rowsFrom n (lines ++ [line]) = rowsFrom n lines ++ [(Row.scan (Row.sanitize line) m).row] := by
  induction lines generalizing n with
  | nil => exact ⟨n, rfl⟩
  | cons l lines ih =>
    obtain ⟨m, hm⟩ := ih (n + 1)
    exact ⟨m, by rw [List.cons_append, rowsFrom_cons, rowsFrom_cons, hm, List.cons_append]⟩

/-- **What a text over several lines declares**, whatever the lines are: the text of the first line and what
is kept of the others. -/
theorem run_rowsFrom {sy : Symbols} {opts : Options} {before : List Row} {st : State} {decl : ClassDecl}
    (hm : st.mode = .parameters) (hd : st.decl = some decl) {p t last : String} {mid : List String}
    (hp : Row.IsWord p) (ht : Quoteless t) (hmid : ∀ t ∈ mid, Quoteless t) (n : Nat) (after : List Row) :
    ∃ mode, (mode = .parameters ↔ endsWith "\"" (Row.scan (Row.sanitize last) 0).row.raw) ∧
      run sy opts before (rowsFrom n (("string " ++ p ++ " \"" ++ t) :: (mid ++ [last])) ++ after) st =
        run sy opts ((rowsFrom n (("string " ++ p ++ " \"" ++ t) :: (mid ++ [last]))).reverse ++ before) after
          (declaring st decl p (spliced t ((mid ++ [last]).map keptOf)) mode) := by
  obtain ⟨m, hrows⟩ := rowsFrom_concat (n + 1) mid last
  have hmidRows : ∀ r ∈ rowsFrom (n + 1) mid, endsWith "\"" r.raw = false := fun r hr => by
    obtain ⟨line, hline, k, rfl⟩ := exists_of_mem_rowsFrom hr
    have hfree := hmid line hline
    rw [Row.sanitize_of_printable hfree.printable hfree.trimmed]
    exact endsWith_of_unquoted fun hq => hfree.unquoted (Row.raw_subset k hq)
  have hopened := Row.scan_opened hp ht n
  have hfirst := @step_opened sy opts before
    (rowsFrom (n + 1) mid ++ [(Row.scan (Row.sanitize last) m).row] ++ after) st decl _ p t hm hd
    (congrArg Row.name hopened) (congrArg Row.operands hopened) ht.unquoted
  refine ⟨if endsWith "\"" (Row.scan (Row.sanitize last) m).row.raw then .parameters else .parameterText,
    ?_, ?_⟩
  · rw [raw_scan]
    split_ifs <;> simp_all
  · have hkept : spliced (spliced t (mid.map keptOf)) [keptOf last] =
        spliced t ((mid ++ [last]).map keptOf) := by
      rw [List.map_append, spliced, spliced, spliced, List.foldl_append]
      rfl
    rw [rowsFrom_cons, hrows, List.cons_append, run_ok hfirst, List.append_assoc, run_continued hmidRows,
      map_rowsFrom, List.singleton_append, run_ok step_continued, ← hkept]
    simp [keptOf, raw_scan _ m, spliced]

/-! ## Characters that are lost -/

theorem weight_unquoted_le (s : String) : Row.weight (unquoted s).toList ≤ Row.weight s.toList := by
  have hsub : (unquoted s).toList.Sublist s.toList := by
    rw [unquoted, stripBy, String.toList_ofList, stripList, ← List.reverse_reverse s.toList,
      List.reverse_sublist, List.reverse_reverse]
    exact (List.dropWhile_sublist _).trans (List.reverse_sublist.mpr (List.dropWhile_sublist _))
  exact hsub.countP_le

/-- A further line adds no more than it holds, and less if it does not stay as it is. -/
theorem weight_keptOf {line : String} (h : Row.TextLine line) :
    Row.weight (keptOf line).toList ≤ Row.weight line.toList ∧
      (¬ (hasInfix "//" line = false ∧ Row.isNumbered 'S' line.toList = false) →
        Row.weight (keptOf line).toList < Row.weight line.toList) := by
  have hle := weight_unquoted_le (Row.scan line 0).row.raw
  rw [keptOf, h.clean]
  by_cases hstays : hasInfix "//" line = false ∧ Row.isNumbered 'S' line.toList = false
  · rw [(h.scan_of_staysText hstays.1 hstays.2 0).2]
    exact ⟨weight_unquoted_le line, fun hlost => absurd hstays hlost⟩
  · have hlt := hle.trans_lt (h.weight_raw_lt hstays 0)
    exact ⟨hlt.le, fun _ => hlt⟩

theorem weight_spliced (text : String) (lines : List String) :
    Row.weight (spliced text lines).toList =
      Row.weight text.toList + (lines.map fun l => Row.weight l.toList + 2).sum := by
  induction lines generalizing text with
  | nil => simp [spliced]
  | cons l lines ih =>
    have hbreak : Row.weight "\n\t".toList = 2 := by decide
    have hrest := ih (text ++ "\n\t" ++ l)
    rw [String.toList_append, String.toList_append, Row.weight_append, Row.weight_append, hbreak] at hrest
    rw [List.map_cons, List.sum_cons, ← Nat.add_assoc, ← Nat.add_assoc, Nat.add_right_comm _ _ 2]
    exact hrest

/-- Lines that add all they hold stay as they are. -/
theorem stays_of_weight {text : String} {lines : List String} (hlines : ∀ l ∈ lines, Row.TextLine l)
    (h : Row.weight (spliced text (lines.map keptOf)).toList = Row.weight (spliced text lines).toList) :
    ∀ l ∈ lines, hasInfix "//" l = false ∧ Row.isNumbered 'S' l.toList = false := by
  rw [weight_spliced, weight_spliced, List.map_map, Nat.add_left_cancel_iff] at h
  by_contra hlost
  push Not at hlost
  obtain ⟨line, hline, hbad⟩ := hlost
  refine absurd h (ne_of_lt (List.sum_lt_sum _ _ (fun l hl => ?_) ⟨line, hline, ?_⟩))
  · exact Nat.add_le_add_right (weight_keptOf (hlines l hl)).1 2
  · exact Nat.add_lt_add_right ((weight_keptOf (hlines line hline)).2 fun hok => hbad hok.1 hok.2) 2

/-! ## Rows that leave a class open -/

theorem ofName_eq_class {name : String} {op : Opcode} {word : String}
    (hword : ∀ x ∈ Opcode.named, x.2 = op → x.1 = word) (hself : Opcode.ofName word = op)
    (hother : op ≠ .record ∧ op ≠ .label ∧ op ≠ .declaration) :
    Opcode.ofName name = op ↔ name = word := by
  refine ⟨fun h => ?_, fun h => h ▸ hself⟩
  unfold Opcode.ofName at h
  split at h
  · rename_i o hlookup
    obtain ⟨l₁, l₂, hnamed, -⟩ := List.lookup_eq_some_iff.mp hlookup
    exact hword (name, o) (by rw [hnamed]; simp) h
  · split_ifs at h
    · exact absurd h.symm hother.1
    · exact absurd h.symm hother.2.1
    · exact absurd h.symm hother.2.2

theorem opensClass_iff (r : Row) : r.opensClass ↔ r.name = "class" := by
  rw [Row.opensClass, beq_iff_eq]
  exact ofName_eq_class (by decide) (by decide) (by decide)

theorem closesClass_iff (r : Row) : r.closesClass ↔ r.name = "class_end" := by
  rw [Row.closesClass, beq_iff_eq]
  exact ofName_eq_class (by decide) (by decide) (by decide)

/-- Each row adds at most itself to what is open. -/
theorem length_foldl_openAfter {rows : List Row} {open? : Option (List Row)} {x : List Row}
    (h : rows.foldl Batch.openAfter open? = some x) :
    x.length ≤ rows.length + (open?.getD []).length := by
  induction rows generalizing open? with
  | nil =>
    obtain rfl : open? = some x := h
    simp
  | cons r rows ih =>
    have hrest := ih h
    have hone : ((Batch.openAfter open? r).getD []).length ≤ (open?.getD []).length + 1 := by
      unfold Batch.openAfter
      split_ifs
      · simp
      · simp
      · cases open? <;> simp
    rw [List.length_cons]
    omega

/-- **When rows leave a class open**: none of them opens or closes one. -/
theorem foldl_openAfter_iff {rows opened : List Row} (hne : opened ≠ []) :
    rows.foldl Batch.openAfter (some opened) = some (rows.reverse ++ opened) ↔
      ∀ r ∈ rows, r.name ≠ "class" ∧ r.name ≠ "class_end" := by
  induction rows generalizing opened with
  | nil => simp
  | cons r rows ih =>
    have hpos := List.length_pos_of_ne_nil hne
    have hback : (r :: rows).reverse ++ opened = rows.reverse ++ (r :: opened) := by simp
    rw [List.foldl_cons, List.forall_mem_cons, hback, Batch.openAfter]
    split_ifs with hopens hcloses
    · refine iff_of_false (fun h => ?_) fun h => h.1.1 ((opensClass_iff r).mp hopens)
      have hlen := length_foldl_openAfter h
      simp only [List.length_append, List.length_reverse, List.length_cons, List.length_nil,
        Option.getD_some] at hlen
      omega
    · refine iff_of_false (fun h => ?_) fun h => h.1.2 ((closesClass_iff r).mp hcloses)
      have hlen := length_foldl_openAfter h
      simp only [List.length_append, List.length_reverse, List.length_cons, Option.getD_none,
        List.length_nil] at hlen
      omega
    · rw [opensClass_iff] at hopens
      rw [closesClass_iff] at hcloses
      rw [Option.map_some, ih (by simp), and_iff_right ⟨hopens, hcloses⟩]

/-- The row of a declaration whose text begins opens and closes no class. -/
theorem foldl_openAfter_rowsFrom_iff {p t : String} (hp : Row.IsWord p) (ht : Quoteless t) (n : Nat)
    (lines : List String) (opened : List Row) :
    let rows := rowsFrom n (("string " ++ p ++ " \"" ++ t) :: lines)
    rows.foldl Batch.openAfter (some opened) = some (rows.reverse ++ opened) ↔
      ∀ r ∈ rowsFrom (n + 1) lines, r.name ≠ "class" ∧ r.name ≠ "class_end" := by
  have hname : (Row.scan (Row.sanitize ("string " ++ p ++ " \"" ++ t)) n).row.name = "string" :=
    congrArg Row.name (Row.scan_opened hp ht n)
  simp only [rowsFrom_cons]
  generalize (Row.scan (Row.sanitize ("string " ++ p ++ " \"" ++ t)) n).row = first at hname
  have hfirst : Batch.openAfter (some opened) first = some (first :: opened) := by
    rw [Batch.openAfter, if_neg (by rw [opensClass_iff, hname]; decide),
      if_neg (by rw [closesClass_iff, hname]; decide)]
    rfl
  rw [List.foldl_cons, hfirst, List.reverse_cons, List.append_assoc]
  exact foldl_openAfter_iff (by simp)

/-! ## Lines that stay as they are -/

/-- The name of a further line that stays as it is. -/
theorem name_of_stays {l : String} (h : Row.TextLine l)
    (hstays : hasInfix "//" l = false ∧ Row.isNumbered 'S' l.toList = false) (m : Int) :
    (Row.scan (Row.sanitize l) m).row.name = Row.firstWord l := by
  rw [h.clean]
  exact (h.scan_of_staysText hstays.1 hstays.2 m).1

/-- Which of the rows of such lines open or close a class. -/
theorem names_rowsFrom_iff {lines : List String} (hlines : ∀ l ∈ lines, Row.TextLine l)
    (hstays : ∀ l ∈ lines, hasInfix "//" l = false ∧ Row.isNumbered 'S' l.toList = false) (n : Nat) :
    (∀ r ∈ rowsFrom n lines, r.name ≠ "class" ∧ r.name ≠ "class_end") ↔
      ∀ l ∈ lines, Row.firstWord l ≠ "class" ∧ Row.firstWord l ≠ "class_end" := by
  constructor
  · intro h l hl
    obtain ⟨m, hr⟩ := mem_rowsFrom (n := n) hl
    have hname := h _ hr
    rwa [name_of_stays (hlines l hl) (hstays l hl)] at hname
  · intro h r hr
    obtain ⟨l, hl, m, rfl⟩ := exists_of_mem_rowsFrom hr
    rw [name_of_stays (hlines l hl) (hstays l hl)]
    exact h l hl

/-- Texts without quotes, the last of them with a quote behind it, are further lines. -/
theorem textLine_lines {mid : List String} {last : String} (hmid : ∀ t ∈ mid, Quoteless t ∧ t ≠ "")
    (hlast : Quoteless last ∧ last ≠ "") : ∀ l ∈ mid ++ [last ++ "\""], Row.TextLine l := by
  rw [List.forall_mem_append, List.forall_mem_singleton]
  exact ⟨fun l hl => Row.textLine_of_quoteless (hmid l hl).1 (hmid l hl).2,
    Row.textLine_closed hlast.1 hlast.2⟩

/-- Lines that stay as they are, the last of them with its quote, add themselves. -/
theorem map_keptOf {mid : List String} {last : String} (hmid : ∀ t ∈ mid, Quoteless t ∧ t ≠ "")
    (hlast : Quoteless last ∧ last ≠ "")
    (hstays : ∀ l ∈ mid ++ [last ++ "\""], hasInfix "//" l = false ∧ Row.isNumbered 'S' l.toList = false) :
    (mid ++ [last ++ "\""]).map keptOf = mid ++ [last] ∧
      (Row.scan (Row.sanitize (last ++ "\"")) 0).row.raw = last ++ "\"" := by
  rw [List.forall_mem_append, List.forall_mem_singleton] at hstays
  have hclosed := Row.textLine_closed hlast.1 hlast.2
  have hraw : (Row.scan (Row.sanitize (last ++ "\"")) 0).row.raw = last ++ "\"" := by
    rw [hclosed.clean]
    exact (hclosed.scan_of_staysText hstays.2.1 hstays.2.2 0).2
  refine ⟨?_, hraw⟩
  have hmidKept : ∀ l ∈ mid, keptOf l = l := fun l hl => by
    have hline := Row.textLine_of_quoteless (hmid l hl).1 (hmid l hl).2
    rw [keptOf, hline.clean, (hline.scan_of_staysText (hstays.1 l hl).1 (hstays.1 l hl).2 0).2]
    exact unquoted_of_not_mem (hmid l hl).1.unquoted
  have hlastKept : keptOf (last ++ "\"") = last := by
    rw [keptOf, hraw]
    simpa using unquoted_between (a := "") (b := "\"") (by simp) (by simp) hlast.1.unquoted
  rw [List.map_append, List.map_congr_left hmidKept, List.map_id', List.map_singleton, hlastKept]

/-! ## Main theorem -/

theorem text_of_declaring {st : State} {decl : ClassDecl} {p a b : String} {mode mode' : Mode}
    (h : declaring st decl p a mode = declaring st decl p b mode') : a = b := by
  have hdecl := congrArg State.decl h
  simpa [declaring] using hdecl

/-- **When a text over several lines is the text that is written**: none of its lines loses characters. -/
theorem run_rowsFrom_iff (sy : Symbols) (opts : Options) (before : List Row) {st : State}
    {decl : ClassDecl} (hm : st.mode = .parameters) (hd : st.decl = some decl) {p t last : String}
    {mid : List String} (hp : Row.IsWord p) (ht : Quoteless t) (hmid : ∀ t ∈ mid, Quoteless t ∧ t ≠ "")
    (hlast : Quoteless last ∧ last ≠ "") (n : Nat) :
    let lines := mid ++ [last ++ "\""]
    let rows := rowsFrom n (("string " ++ p ++ " \"" ++ t) :: lines)
    (∀ after, run sy opts before (rows ++ after) st = run sy opts (rows.reverse ++ before) after
        (declaring st decl p (spliced t (mid ++ [last])) .parameters)) ↔
      ∀ l ∈ lines, hasInfix "//" l = false ∧ Row.isNumbered 'S' l.toList = false := by
  intro lines rows
  have hlines : ∀ l ∈ lines, Row.TextLine l := textLine_lines hmid hlast
  have hrun := @run_rowsFrom sy opts before st decl hm hd p t (last ++ "\"") mid hp ht
    (fun l hl => (hmid l hl).1) n
  constructor
  · intro h
    obtain ⟨mode, -, hend⟩ := hrun []
    have htext := text_of_declaring (Except.ok.inj (hend.symm.trans (h [])))
    have hweight : Row.weight (spliced t (lines.map keptOf)).toList =
        Row.weight (spliced t lines).toList := by
      rw [htext, weight_spliced, weight_spliced]
      simp [lines, Row.weight]
    exact stays_of_weight hlines hweight
  · intro hstays after
    obtain ⟨hmap, hraw⟩ := map_keptOf hmid hlast hstays
    obtain ⟨mode, hmode, hend⟩ := hrun after
    have hquote : endsWith "\"" (last ++ "\"") := endsWith_quote_iff.mpr (by simp)
    rw [hmap, hmode.mpr (by rw [hraw]; exact hquote)] at hend
    exact hend

/-- **When a text over several lines is declared as it is written.** Let a parameter section of an open
class hold a string parameter whose text begins on its line and goes on over at least one more line, the
last of which ends in the only quote. The rows of these lines stay in the class, and leave a run as it was
but for one more parameter, whose text is that of all lines, exactly if each of the further lines has no
comment mark, does not start like a string record and has neither of the words that open and close classes
in front. -/
theorem declares_lines_iff (sy : Symbols) (opts : Options) (before : List Row) {st : State}
    {decl : ClassDecl} (hm : st.mode = .parameters) (hd : st.decl = some decl) {p t last : String}
    {mid : List String} (hp : Row.IsWord p) (ht : Quoteless t) (hmid : ∀ t ∈ mid, Quoteless t ∧ t ≠ "")
    (hlast : Quoteless last ∧ last ≠ "") (n : Nat) (opened : List Row) :
    let lines := mid ++ [last ++ "\""]
    let rows := rowsFrom n (("string " ++ p ++ " \"" ++ t) :: lines)
    (rows.foldl Batch.openAfter (some opened) = some (rows.reverse ++ opened) ∧
      ∀ after, run sy opts before (rows ++ after) st = run sy opts (rows.reverse ++ before) after
        (declaring st decl p (spliced t (mid ++ [last])) .parameters)) ↔
    ∀ line ∈ lines, Row.staysText line := by
  intro lines rows
  have hlines : ∀ l ∈ lines, Row.TextLine l := textLine_lines hmid hlast
  have hstaysText : ∀ l, Row.staysText l ↔ (hasInfix "//" l = false ∧ Row.isNumbered 'S' l.toList = false) ∧
      Row.firstWord l ≠ "class" ∧ Row.firstWord l ≠ "class_end" := fun l => by
    simp [Row.staysText, and_assoc]
  refine (and_congr (foldl_openAfter_rowsFrom_iff hp ht n lines opened)
    (run_rowsFrom_iff sy opts before hm hd hp ht hmid hlast n)).trans ?_
  constructor
  · rintro ⟨hnames, hstays⟩ l hl
    exact (hstaysText l).mpr ⟨hstays l hl, (names_rowsFrom_iff hlines hstays _).mp hnames l hl⟩
  · intro h
    have hstays := fun l hl => ((hstaysText l).mp (h l hl)).1
    exact ⟨(names_rowsFrom_iff hlines hstays _).mpr fun l hl => ((hstaysText l).mp (h l hl)).2, hstays⟩

/-- Inside the parameter section of a class. -/
def sectionState : State :=
  { State.initial with mode := .parameters, decl := some (newClass 0 "guard" "") }

/-- A text with a web address on its second line is not declared as it is written, a text without one is. -/
theorem declares_lines_address :
    (Row.IsWord "p" ∧ Quoteless "see" ∧ (∀ t ∈ ["http://x.y for more"], Quoteless t ∧ t ≠ "") ∧
      (∀ t ∈ ["the S1 class"], Quoteless t ∧ t ≠ "") ∧ Quoteless "end" ∧ "end" ≠ "") ∧
    ¬ ((rowsFrom 3 ["string p \"see", "http://x.y for more", "end\""]).foldl Batch.openAfter (some []) =
        some ((rowsFrom 3 ["string p \"see", "http://x.y for more", "end\""]).reverse ++ []) ∧
      ∀ after, run guardSymbols ⟨2, none⟩ []
          (rowsFrom 3 ["string p \"see", "http://x.y for more", "end\""] ++ after) sectionState =
        run guardSymbols ⟨2, none⟩
          ((rowsFrom 3 ["string p \"see", "http://x.y for more", "end\""]).reverse ++ []) after
          (declaring sectionState (newClass 0 "guard" "") "p" "see\n\thttp://x.y for more\n\tend"
            .parameters)) ∧
    (rowsFrom 3 ["string p \"see", "the S1 class", "end\""]).foldl Batch.openAfter (some []) =
        some ((rowsFrom 3 ["string p \"see", "the S1 class", "end\""]).reverse ++ []) ∧
      ∀ after, run guardSymbols ⟨2, none⟩ []
          (rowsFrom 3 ["string p \"see", "the S1 class", "end\""] ++ after) sectionState =
        run guardSymbols ⟨2, none⟩
          ((rowsFrom 3 ["string p \"see", "the S1 class", "end\""]).reverse ++ []) after
          (declaring sectionState (newClass 0 "guard" "") "p" "see\n\tthe S1 class\n\tend" .parameters) := by
  have hfree : ∀ t ∈ ["see", "http://x.y for more", "the S1 class", "end"], Quoteless t ∧ t ≠ "" := by
    have hends : ∀ t ∈ ["see", "http://x.y for more", "the S1 class", "end"],
        t.toList.all (fun c => ' ' ≤ c && c ≤ '~' && c != '"') ∧ trim t.toList = t.toList ∧ t ≠ "" := by
      decide +kernel
    intro t ht
    obtain ⟨hchars, htrim, hne⟩ := hends t ht
    simp only [List.all_eq_true, Bool.and_eq_true, decide_eq_true_eq, bne_iff_ne] at hchars
    exact ⟨⟨fun c hc => (hchars c hc).1, htrim, fun hq => (hchars _ hq).2 rfl⟩, hne⟩
  have hp : Row.IsWord "p" := ⟨by decide, by simp [isVisible], by simp⟩
  have hlast := hfree "end" (by simp)
  have hsee := (hfree "see" (by simp)).1
  have haddress : ∀ t ∈ ["http://x.y for more"], Quoteless t ∧ t ≠ "" := by
    simpa using hfree "http://x.y for more" (by simp)
  have hplain : ∀ t ∈ ["the S1 class"], Quoteless t ∧ t ≠ "" := by
    simpa using hfree "the S1 class" (by simp)
  refine ⟨⟨hp, hsee, haddress, hplain, hlast.1, hlast.2⟩, ?_, ?_⟩
  · exact (not_congr (declares_lines_iff guardSymbols ⟨2, none⟩ [] rfl rfl hp hsee haddress hlast 3 [])).mpr
      (by decide)
  · exact (declares_lines_iff guardSymbols ⟨2, none⟩ [] rfl rfl hp hsee hplain hlast 3 []).mpr (by decide)

end ScriptLift.Lift
