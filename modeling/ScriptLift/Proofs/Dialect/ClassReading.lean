import ScriptLift.Proofs.Dialect.Shape

/-!
# Reading handlers from the source of a class

The source of a legible class is read line by line. Its indentation and its empty lines carry
nothing, the lines before the first handler are passed over, and every handler gives back its name,
the names of its variables and the shapes of its statements.

* `oneLine_stmtLines`: statements break no line.
* `Scan.run_arrange`: the layout leaves the reading as it is.
* `Passes`: lines that are passed over between handlers.
* `readHandlers`: the reader; **`readHandlers_source`**: on the source of a legible class it gives
  the shapes of the handlers.
* **`handlerShapes_eq_of_source_eq`**: legible classes with the same source have handlers of the
  same shapes.
-/

namespace ScriptLift

/-! ## Statements break no line -/

theorem oneLine_expr {e : Expr} (h : e.isLegible) : oneLine (Dialect.default.freeExpr e) :=
  oneLine_of_isLine (isLine_expr h .free)

mutual

theorem oneLine_stmtLines : ∀ {s : Stmt}, s.isLegible → ∀ {lead : String}, oneLine lead →
    ∀ l ∈ Dialect.default.stmtLines lead s, oneLine l
  | .missing, _, _, _ => by simp [Dialect.stmtLines]
  | .eval e, h, _, _ => by
    simp only [Dialect.stmtLines, List.forall_mem_singleton, oneLine_append, oneLine_expr h]
    rfl
  | .block b, h, _, _ => by
    simp only [Dialect.stmtLines, List.forall_mem_append, List.forall_mem_singleton]
    exact ⟨oneLine_bodyLines h, rfl⟩
  | .ifElse c yes no, h, lead, hlead => by
    simp only [Stmt.isLegible, Bool.and_eq_true] at h
    simp only [Dialect.stmtLines, List.forall_mem_cons, List.forall_mem_append, oneLine_append,
      oneLine_expr h.1.1, hlead]
    exact ⟨rfl, oneLine_bodyLines h.1.2, oneLine_elseLines h.2⟩
  | .whileLoop c b, h, _, _ => by
    simp only [Stmt.isLegible, Bool.and_eq_true] at h
    simp only [Dialect.stmtLines, List.forall_mem_cons, List.forall_mem_append, oneLine_append,
      oneLine_expr h.1]
    exact ⟨rfl, oneLine_bodyLines h.2, by decide⟩
  | .forLoop i c u b, h, _, _ => by
    simp only [Stmt.isLegible, Bool.and_eq_true] at h
    simp only [Dialect.stmtLines, List.forall_mem_cons, List.forall_mem_append, oneLine_append,
      oneLine_expr h.1.1.1, oneLine_expr h.1.1.2, oneLine_expr h.1.2]
    exact ⟨rfl, oneLine_bodyLines h.2, by decide⟩
  | .select c cases, h, _, _ => by
    simp only [Stmt.isLegible, Bool.and_eq_true] at h
    simp only [Dialect.stmtLines, List.forall_mem_cons, List.forall_mem_append, oneLine_append,
      oneLine_expr h.1]
    exact ⟨rfl, oneLine_caseLines h.2, by decide⟩
  | .ret, _, _, _ | .brk, _, _, _ | .super _, _, _, _ => by
    rw [Dialect.stmtLines]
    decide

theorem oneLine_bodyLines : ∀ {b : List Stmt}, Stmt.areLegible b →
    ∀ l ∈ Dialect.default.bodyLines b, oneLine l
  | [], _ => by simp [Dialect.bodyLines]
  | s :: r, h => by
    simp only [Stmt.areLegible, Bool.and_eq_true] at h
    rw [Dialect.bodyLines, List.forall_mem_append]
    exact ⟨oneLine_stmtLines h.1 rfl, oneLine_bodyLines h.2⟩

theorem oneLine_elseLines : ∀ {no : List Stmt}, Stmt.areLegible no →
    ∀ l ∈ Dialect.default.elseLines no, oneLine l
  | [], _ => by
    rw [Dialect.elseLines]
    decide
  | s :: r, h => by
    simp only [Stmt.areLegible, Bool.and_eq_true] at h
    obtain ⟨-, -, heq⟩ | ⟨-, -, heq⟩ | heq := Dialect.default.elseLines_cons s r
    · rw [heq]
      decide
    · rw [heq]
      exact oneLine_stmtLines h.1 (by decide)
    · rw [heq, List.forall_mem_cons, List.forall_mem_append, List.forall_mem_append]
      exact ⟨by decide, ⟨oneLine_stmtLines h.1 rfl, oneLine_bodyLines h.2⟩, by decide⟩

theorem oneLine_caseLines : ∀ {cases : List Case}, Stmt.casesLegible cases →
    ∀ l ∈ Dialect.default.caseLines cases, oneLine l
  | [], _ => by simp [Dialect.caseLines]
  | .mk v b :: r, h => by
    simp only [Stmt.casesLegible, Bool.and_eq_true] at h
    simp only [Dialect.caseLines, List.forall_mem_cons, List.forall_mem_append, oneLine_append,
      oneLine_expr h.1.1]
    exact ⟨rfl, oneLine_bodyLines h.1.2, oneLine_caseLines h.2⟩

end

/-! ## Layout -/

theorem toList_tabs (n : Nat) : (Text.repeated n "\t").toList = List.replicate n '\t' := by
  rw [Text.repeated, String.toList_join]
  induction n with
  | zero => rfl
  | succ n ih => rw [List.replicate_succ, List.flatMap_cons, ih]; rfl

theorem unindented_tabs (n : Nat) (l : String) :
    unindented (Text.repeated n "\t" ++ l) = unindented l := by
  rw [unindented, String.toList_append, toList_tabs, List.dropWhile_append_of_pos, unindented]
  intro c hc
  rw [List.eq_of_mem_replicate hc]
  rfl

theorem oneLine_tabs (n : Nat) : oneLine (Text.repeated n "\t") := by
  rw [oneLine, toList_tabs]
  simp [List.mem_replicate]

/-- **The layout leaves the reading as it is.** -/
theorem Scan.run_arrange : ∀ (ls : List String) (s : Layout.State) (st : Scan),
    st.run (Layout.arrange s ls) = st.run ls
  | [], _, _ => rfl
  | l :: ls, s, st => by
    have hline : ∀ n, st.readLine (Text.repeated n "\t" ++ l) = st.readLine l := fun n => by
      rw [readLine, unindented_tabs, readLine]
    rw [Layout.arrange, run_append, run_arrange ls, run_cons, Layout.place]
    split_ifs
    · rw [run_cons, run_cons, readLine_empty, hline, run_nil]
    · rw [run_cons, hline, run_nil]

theorem oneLine_arrange : ∀ {ls : List String} (s : Layout.State), (∀ l ∈ ls, oneLine l) →
    ∀ l ∈ Layout.arrange s ls, oneLine l
  | [], _, _ => by simp [Layout.arrange]
  | l :: ls, s, h => by
    rw [List.forall_mem_cons] at h
    have hline : ∀ n, oneLine (Text.repeated n "\t" ++ l) := fun n => by
      rw [oneLine_append, oneLine_tabs, h.1]
      rfl
    rw [Layout.arrange, List.forall_mem_append, Layout.place]
    refine ⟨?_, oneLine_arrange _ h.2⟩
    split_ifs
    · exact List.forall_mem_cons.mpr ⟨rfl, by simpa using hline _⟩
    · simpa using hline _

/-- Lines joined by line feeds are cut again at the line feeds. -/
theorem split_lines {ls : List String} (h : ∀ l ∈ ls, oneLine l) (hne : ls ≠ []) :
    Text.split '\n' (String.intercalate "\n" ls) = ls := by
  have hfree : ∀ l ∈ ls.map String.toList, '\n' ∉ l := by
    simpa [oneLine] using h
  have hcut := List.splitOn_intercalate '\n' hfree (by simpa using hne)
  rw [Text.split, String.toList_intercalate]
  rw [show "\n".toList = ['\n'] from rfl, hcut, List.map_map]
  simp [Function.comp_def]

/-! ## Names -/

theorem words_cut {c : Char} (hc : isWordChar c = false) (a b : String) :
    words (a ++ String.singleton c ++ b) = words a ++ words b := by
  have hlist : (a ++ String.singleton c ++ b).toList = a.toList ++ c :: b.toList := by simp
  rw [words, hlist, List.splitOnP_append_cons _ _ (by simpa using hc), List.filter_append,
    List.map_append, words, words]

theorem words_name {s : String} (h : isName s) : words s = [s] := by
  simp only [isName, Bool.and_eq_true] at h
  have hname := Reader.isName_of_isIdentifier h.1
  rw [words, List.splitOnP_eq_singleton (by simpa using hname.word)]
  simp [hname.ne_nil]

theorem words_comma (a b : String) : words (a ++ ", " ++ b) = words a ++ words b := by
  have hsplit : a ++ ", " ++ b = a ++ String.singleton ',' ++ ("" ++ String.singleton ' ' ++ b) := by
    simp only [String.append_assoc, String.empty_append]
    rfl
  have hnil : words "" = [] := rfl
  rw [hsplit, words_cut rfl, words_cut rfl, hnil, List.nil_append]

theorem words_names : ∀ {names : List String}, (∀ n ∈ names, isName n) →
    words (String.intercalate ", " names) = names
  | [], _ => by rw [String.intercalate_nil]; rfl
  | [n], h => by rw [String.intercalate_singleton]; exact words_name (h n (by simp))
  | n :: n' :: names, h => by
    rw [List.forall_mem_cons] at h
    rw [String.intercalate_cons_cons, words_comma, words_name h.1, words_names h.2]
    rfl

/-! ## Lines outside of handlers -/

/-- A line that is passed over where no part is open. -/
structure Passes (line : String) : Prop where
  isLine : isLine line
  inside? : ∀ h : Head, h.inside? line = none

theorem Passes.readLine {line : String} (h : Passes line) (hs : List HandlerShape) :
    Scan.readLine ⟨hs, []⟩ line = ⟨hs, []⟩ := by
  rw [Scan.readLine, unindented_of_ne_tab (head_ne_tab h.isLine)]
  cases hl : Line.read line with
  | head hd t => exact absurd hl (Line.read_ne_head h.inside? hd t)
  | _ => rfl

theorem Passes.run {ls : List String} (h : ∀ l ∈ ls, Passes l) (hs : List HandlerShape) :
    Scan.run ⟨hs, []⟩ ls = ⟨hs, []⟩ := by
  induction ls with
  | nil => rfl
  | cons l ls ih =>
    rw [List.forall_mem_cons] at h
    rw [Scan.run_cons, h.1.readLine, ih h.2]

theorem passes_semicolon {t : String} (h : isLine t) : Passes (t ++ ";") :=
  ⟨isLine_append h (by decide), (Line.inside?_semicolon · t)⟩

/-- A line that starts as no head does. -/
theorem passes_of_start {line : String} (h : isLine line)
    (hstart : ∀ hd : Head, line.toList.head? ≠ hd.opening.toList.head?) : Passes line :=
  ⟨h, fun hd => Option.eq_none_iff_forall_ne_some.mpr fun t ht => by
    have htake := congrArg List.head? (Head.take_opening ht)
    exact hstart hd (by simpa [List.head?_take] using htake)⟩

theorem passes_parameter {p : Parameter} (h : p.isLegible) :
    Passes (Dialect.default.parameterLine p) := by
  simp only [Parameter.isLegible, Bool.and_eq_true] at h
  refine passes_semicolon (isLine_append (isLine_append (isLine_append (isLine_name h.1.1) ?_)
    (isLine_name h.1.2)) ?_)
  · decide
  · split_ifs
    · rfl
    · exact isLine_append (by decide) (isLine_expr h.2 .free)

theorem oneLine_comment {s : String} (h : oneLine s) : oneLine (Dialect.comment s) :=
  oneLine_of_isLine (isLine_comment h)

theorem passes_rows : ∀ {rows : List PropertyRow},
    (∀ r ∈ rows, (∀ c ∈ r.cells, oneLine c) ∧ oneLine r.comment) →
    ∀ l ∈ Dialect.rowLines rows, Passes l
  | [], _ => by simp [Dialect.rowLines]
  | row :: rows, h => by
    rw [List.forall_mem_cons] at h
    obtain ⟨⟨hcells, hcomment⟩, hrows⟩ := h
    rw [Dialect.rowLines, List.forall_mem_cons]
    refine ⟨passes_of_start ?_ ?_, passes_rows hrows⟩
    · simp only [String.append_assoc]
      refine isLine_guarded (by decide) (by decide) ?_
      simp only [oneLine_append, oneLine_intercalate (by decide : oneLine "; ") hcells,
        oneLine_comment hcomment]
      split_ifs <;> rfl
    · intro hd
      simp only [String.append_assoc]
      rw [String.toList_append, List.head?_append_of_ne_nil _ (by decide)]
      cases hd <;> decide

/-- The first line of a property table ends as no head does. -/
theorem inside?_table (h : Head) (t : String) : h.inside? (t ++ " = \x7b") = none := by
  refine Option.eq_none_iff_forall_ne_some.mpr fun u hu => ?_
  have hends := congrArg (List.reverse ∘ String.toList) (Head.inside?_eq_some_iff.mp hu)
  cases h <;> simp [Head.closing] at hends

theorem passes_property {p : Property} (h : p.isLegible) :
    ∀ l ∈ Dialect.propertyLines p, Passes l := by
  simp only [Property.isLegible, Bool.and_eq_true, List.all_eq_true] at h
  obtain ⟨⟨htype, hname⟩, hrows⟩ := h
  have hstart : isLine (p.type ++ " " ++ p.name) :=
    isLine_append (isLine_append (isLine_name htype) (by decide)) (isLine_name hname)
  unfold Dialect.propertyLines
  dsimp only
  split_ifs
  · rw [List.forall_mem_singleton]
    rw [show "\x7d;" = "\x7d" ++ ";" from rfl, ← String.append_assoc]
    exact passes_semicolon (isLine_append (isLine_append hstart (by decide)) (by decide))
  · rw [List.forall_mem_cons, List.forall_mem_append, List.forall_mem_singleton]
    refine ⟨⟨isLine_append hstart (by decide), (inside?_table · _)⟩, passes_rows hrows, ?_⟩
    exact passes_semicolon (t := "\x7d") (by decide)

/-- The first line of a class starts as no head does. -/
theorem passes_class {t : String} (h : isLine t) : Passes ("class " ++ t) := by
  refine ⟨isLine_append (by decide) h, fun hd => ?_⟩
  refine Option.eq_none_iff_forall_ne_some.mpr fun u hu => ?_
  have hstarts := Head.take_opening hu
  rw [String.toList_append, List.take_append_of_le_length (by decide)] at hstarts
  revert hstarts
  cases hd <;> decide

theorem passes_fixed : ∀ l ∈ ["", "parameter:", "property:", "handler:", "\x7d"], Passes l := by
  have hline : ∀ l ∈ ["", "parameter:", "property:", "handler:", "\x7d"], isLine l := by decide
  refine fun l hl => ⟨hline l hl, fun h => ?_⟩
  simp only [List.mem_cons, List.not_mem_nil, or_false] at hl
  obtain rfl | rfl | rfl | rfl | rfl := hl <;> cases h <;> rfl

theorem passes_option (kind : Int64) : ∀ l ∈ Dialect.default.optionLines kind, Passes l := by
  unfold Dialect.optionLines
  split_ifs
  · rw [List.forall_mem_cons]
    exact ⟨⟨by decide, fun h => by cases h <;> rfl⟩, by simpa using passes_fixed "" (by simp)⟩
  · rw [List.forall_mem_cons]
    exact ⟨⟨by decide, fun h => by cases h <;> rfl⟩, by simpa using passes_fixed "" (by simp)⟩
  · simp

/-- What holds of an empty line, a title and the lines below it holds of the section. -/
theorem forall_mem_titled {P : String → Prop} (hempty : P "") {title : String} (htitle : P title)
    {ls : List String} (h : ∀ l ∈ ls, P l) (follows : Bool) :
    ∀ l ∈ Dialect.titled title follows ls, P l := by
  unfold Dialect.titled
  split_ifs
  · simp
  · simpa using ⟨hempty, htitle, h⟩
  · simpa using ⟨htitle, h⟩

/-! ## Handlers -/

theorem readLine_handler {h : Handler} (hname : isName h.name)
    (hlocals : ∀ v ∈ h.locals, isName v.name) (st : Scan) :
    st.readLine ("EventHandler " ++ h.name ++ "(" ++ h.variableNames ++ ") \x7b") =
      st.push (.handler h.name (h.locals.map Variable.name)) := by
  have hwords : words (h.name ++ "(" ++ h.variableNames) = h.name :: h.locals.map Variable.name := by
    have hcut := words_cut (c := '(') rfl h.name h.variableNames
    rw [words_name hname, Handler.variableNames, words_names (by simpa using hlocals)] at hcut
    exact hcut
  have hread := @Scan.readLine_head st .handler (h.name ++ "(" ++ h.variableNames)
  rw [Scan.step, hwords] at hread
  simpa only [Head.opening, Head.closing, String.append_assoc] using hread

theorem run_handler {h : Handler} (hl : h.isLegible) (hs : List HandlerShape) :
    Scan.run ⟨hs, []⟩ (Dialect.default.handlerLines h) =
      ⟨hs ++ [Dialect.default.handlerShape h], []⟩ := by
  simp only [Handler.isLegible, Bool.and_eq_true, List.all_eq_true] at hl
  rw [Dialect.handlerLines, Scan.run_cons, readLine_handler hl.1.1 hl.1.2, Scan.run_append,
    run_body hl.2, Scan.push, Scan.add_open, Scan.run_cons, Scan.readLine_close]
  rfl

theorem run_handlers : ∀ {handlers : List Handler}, (∀ h ∈ handlers, h.isLegible) →
    ∀ hs : List HandlerShape, Scan.run ⟨hs, []⟩ (handlers.flatMap Dialect.default.handlerLines) =
      ⟨hs ++ handlers.map Dialect.default.handlerShape, []⟩
  | [], _, hs => by rw [List.map_nil, List.append_nil]; rfl
  | h :: r, hl, hs => by
    rw [List.forall_mem_cons] at hl
    rw [List.flatMap_cons, Scan.run_append, run_handler hl.1, run_handlers hl.2, List.map_cons,
      List.append_assoc, List.singleton_append]

theorem oneLine_handlerLines {h : Handler} (hl : h.isLegible) :
    ∀ l ∈ Dialect.default.handlerLines h, oneLine l := by
  simp only [Handler.isLegible, Bool.and_eq_true, List.all_eq_true] at hl
  have hnames : oneLine h.variableNames := by
    refine oneLine_intercalate (by decide) fun n hn => ?_
    obtain ⟨v, hv, rfl⟩ := List.mem_map.mp hn
    exact oneLine_of_isLine (isLine_name (hl.1.2 v hv))
  simp only [Dialect.handlerLines, List.forall_mem_cons, List.forall_mem_append, oneLine_append,
    oneLine_of_isLine (isLine_name hl.1.1), hnames]
  exact ⟨rfl, oneLine_bodyLines hl.2, by decide⟩

/-! ## Classes -/

/-- The lines of a class before its handlers. -/
def Dialect.preamble (d : Dialect) (c : ClassDecl) : List String :=
  d.optionLines c.kind
    ++ ("class " ++ c.name ++ (if c.super.isEmpty then "" else " : " ++ c.super) ++ " \x7b")
      :: titled "parameter:" false (c.parameters.map d.parameterLine)
    ++ titled "property:" (!(c.parameters.map d.parameterLine).isEmpty)
      (c.properties.flatMap propertyLines)

theorem Dialect.classLines_eq (d : Dialect) (c : ClassDecl) : ∃ follows, d.classLines c =
    d.preamble c ++ titled "handler:" follows (c.handlers.flatMap d.handlerLines) ++ ["\x7d"] :=
  ⟨_, rfl⟩

theorem passes_preamble {c : ClassDecl} (h : c.isLegible) :
    ∀ l ∈ Dialect.default.preamble c, Passes l := by
  simp only [ClassDecl.isLegible, Bool.and_eq_true, List.all_eq_true, Bool.or_eq_true] at h
  obtain ⟨⟨⟨⟨hname, hsuper⟩, hparameters⟩, hproperties⟩, -⟩ := h
  have hclass : Passes ("class " ++ c.name ++ (if c.super.isEmpty then "" else " : " ++ c.super)
      ++ " \x7b") := by
    simp only [String.append_assoc]
    refine passes_class (isLine_append (isLine_name hname) (isLine_append ?_ (by decide)))
    split_ifs with hempty
    · rfl
    · exact isLine_append (by decide) (isLine_name (hsuper.resolve_left hempty))
  rw [Dialect.preamble, List.forall_mem_append, List.forall_mem_append, List.forall_mem_cons]
  have hempty : Passes "" := passes_fixed "" (by simp)
  refine ⟨⟨passes_option _, hclass, forall_mem_titled hempty (passes_fixed _ (by simp)) ?_ _⟩,
    forall_mem_titled hempty (passes_fixed _ (by simp)) ?_ _⟩
  · simpa using fun p hp => passes_parameter (hparameters p hp)
  · simpa using fun l p hp hl => passes_property (hproperties p hp) l hl

theorem oneLine_classLines {c : ClassDecl} (h : c.isLegible) :
    ∀ l ∈ Dialect.default.classLines c, oneLine l := by
  have hhandlers : ∀ l ∈ c.handlers.flatMap Dialect.default.handlerLines, oneLine l := by
    simp only [ClassDecl.isLegible, Bool.and_eq_true, List.all_eq_true] at h
    simpa using fun l hd hhd hl => oneLine_handlerLines (h.2 hd hhd) l hl
  obtain ⟨follows, heq⟩ := Dialect.default.classLines_eq c
  rw [heq, List.forall_mem_append, List.forall_mem_append]
  refine ⟨⟨fun l hl => oneLine_of_isLine (passes_preamble h l hl).isLine, ?_⟩, by decide⟩
  exact forall_mem_titled (P := (oneLine ·)) rfl (by decide) hhandlers follows

theorem run_classLines {c : ClassDecl} (h : c.isLegible) :
    Scan.run ⟨[], []⟩ (Dialect.default.classLines c) =
      ⟨c.handlers.map Dialect.default.handlerShape, []⟩ := by
  have hhandlers : ∀ hd ∈ c.handlers, hd.isLegible := by
    simp only [ClassDecl.isLegible, Bool.and_eq_true, List.all_eq_true] at h
    exact h.2
  have htitled : ∀ follows, Scan.run ⟨[], []⟩ (Dialect.titled "handler:" follows
      (c.handlers.flatMap Dialect.default.handlerLines)) =
        ⟨c.handlers.map Dialect.default.handlerShape, []⟩ := by
    intro follows
    have hrun := run_handlers hhandlers []
    unfold Dialect.titled
    split_ifs with hempty
    · rw [List.isEmpty_iff.mp hempty] at hrun
      exact hrun
    · exact hrun
    · exact hrun
  obtain ⟨follows, heq⟩ := Dialect.default.classLines_eq c
  rw [heq, Scan.run_append, Scan.run_append, Passes.run (passes_preamble h), htitled]
  rfl

theorem Dialect.classLines_ne_nil (d : Dialect) (c : ClassDecl) : d.classLines c ≠ [] := by
  obtain ⟨follows, heq⟩ := d.classLines_eq c
  rw [heq]
  simp

/-- The lines of the source of a class: its own, laid out, and two empty ones. -/
theorem split_source {d : Dialect} {c : ClassDecl} (h : ∀ l ∈ d.classLines c, oneLine l) :
    Text.split '\n' (d.source c) = Layout.arrange Layout.start (d.classLines c) ++ ["", ""] := by
  have hlines := d.classLines_ne_nil c
  have harranged : Layout.arrange Layout.start (d.classLines c) ≠ [] := by
    obtain ⟨l, ls, hls⟩ := List.exists_cons_of_ne_nil hlines
    rw [hls, Layout.arrange, Layout.place]
    split_ifs <;> simp
  have hsource : d.source c =
      String.intercalate "\n" (Layout.arrange Layout.start (d.classLines c) ++ ["", ""]) := by
    rw [Dialect.source, Layout.indent, split_lines h hlines,
      String.intercalate_append_of_ne_nil harranged (by simp), String.append_assoc,
      String.append_assoc]
    rfl
  have hone : ∀ l ∈ Layout.arrange Layout.start (d.classLines c) ++ ["", ""], oneLine l := by
    rw [List.forall_mem_append]
    exact ⟨oneLine_arrange _ h, by decide⟩
  rw [hsource, split_lines hone (by simp)]

/-- The handlers a source shows. -/
def readHandlers (source : String) : List HandlerShape :=
  (Scan.run ⟨[], []⟩ (Text.split '\n' source)).handlers

/-- **The source of a legible class shows its handlers.** -/
theorem readHandlers_source {c : ClassDecl} (h : c.isLegible) :
    readHandlers (Dialect.default.source c) = c.handlers.map Dialect.default.handlerShape := by
  rw [readHandlers, split_source (oneLine_classLines h), Scan.run_append, Scan.run_arrange,
    run_classLines h]
  rfl

/-- **The source of a class determines the statements of its handlers.** Legible classes with the
same source have handlers of the same names, variables and shapes. -/
theorem handlerShapes_eq_of_source_eq {c c' : ClassDecl} (h : c.isLegible) (h' : c'.isLegible)
    (hsource : Dialect.default.source c = Dialect.default.source c') :
    c.handlers.map Dialect.default.handlerShape = c'.handlers.map Dialect.default.handlerShape := by
  rw [← readHandlers_source h, ← readHandlers_source h', hsource]

/-- A class with statements of every form, nested; the condition of its first conditional is left
open. -/
def patrol (cond : Expr) : ClassDecl where
  kind := 0
  name := "patrol"
  super := "guard"
  parameters := [⟨"int", "range", .int 5⟩]
  properties := [⟨"table", "spots", [⟨["1", "a:\x7b"], "x"⟩, ⟨["2"], ""⟩]⟩]
  handlers := [
    ⟨"CREATED", [⟨"a", "int"⟩, ⟨"b", "int"⟩],
      [.ifElse cond [.eval (.call "f" "void" .hole [.str ") \x7b"] "")]
          [.ifElse (.param "range" "int") [] [.ret, .ifElse (.int 1) [.brk] []]],
        .forLoop (.assign "a" "int" .hole (.int 0)) (.var "a" "int" .hole)
          (.assign "a" "int" .hole (.binary .add (.var "a" "int" .hole) (.int 1)))
          [.whileLoop (.var "b" "int" .hole) [.brk]],
        .select (.var "a" "int" .hole)
          [.mk (.int 1) [], .mk (.int 2) [.super none, .brk], .mk (.int 3) [.brk]]]⟩,
    ⟨"DYING", [], []⟩]

/-- `a + (b - c)`. -/
def rightSum : Expr :=
  .binary .add (.prop "a" "int") (.binary .sub (.prop "b" "int") (.prop "c" "int"))

/-- `(a + b) - c`, written as `rightSum` is. -/
def leftSum : Expr :=
  .binary .sub (.binary .add (.prop "a" "int") (.prop "b" "int")) (.prop "c" "int")

theorem handlerShapes_patrol :
    ((patrol rightSum).isLegible ∧ (patrol leftSum).isLegible ∧
      Dialect.default.source (patrol rightSum) = Dialect.default.source (patrol leftSum)) ∧
    (patrol rightSum).handlers.map Dialect.default.handlerShape =
      (patrol leftSum).handlers.map Dialect.default.handlerShape := by
  have htext : Dialect.default.freeExpr rightSum = Dialect.default.freeExpr leftSum := by decide
  have hlines : (patrol rightSum).handlers.map Dialect.default.handlerLines =
      (patrol leftSum).handlers.map Dialect.default.handlerLines := by
    simp only [patrol, List.map_cons, Dialect.handlerLines, Handler.variableNames,
      Dialect.bodyLines, Dialect.stmtLines, htext]
  have hsource : Dialect.default.source (patrol rightSum) =
      Dialect.default.source (patrol leftSum) := by
    simp only [Dialect.source, Dialect.classLines, List.flatMap_def, hlines]
    rfl
  have hright : (patrol rightSum).isLegible := by decide
  have hleft : (patrol leftSum).isLegible := by decide
  exact ⟨⟨hright, hleft, hsource⟩, handlerShapes_eq_of_source_eq hright hleft hsource⟩

end ScriptLift
