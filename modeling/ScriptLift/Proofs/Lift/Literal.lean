import ScriptLift.Dialect.Source
import ScriptLift.Proofs.Lift.Handlers
import ScriptLift.Proofs.Lift.Notes
import ScriptLift.Proofs.Listing.Quoted

/-!
# Texts from listing to source

A text in quotes goes from its line into the tree without them, and from the tree into the source
with new ones. The quotes are taken off by dropping all quotes at both ends, so a text that ends in
an escaped quote loses it.

* `PushesRecord`: a row pushes a string record of its handler.
* `step_pushesRecord`: what it pushes.
* `step_declares`: what a declaration with a quoted text declares.
* **`text_kept_iff`**: when both are written as they were.
-/

namespace ScriptLift.Lift

open Text

/-! ## Records -/

theorem get?_foldl_put {kvs : List (String × String)} {k v : String} {a b : List (String × String)}
    (h : kvs = a ++ (k, v) :: b) (hb : ∀ x ∈ b, x.1 ≠ k) (t : Table String String) :
    (kvs.foldl (fun t (k, v) => t.put k v) t).get? k = some v := by
  have hput : ∀ (kvs : List (String × String)) (t : Table String String),
      kvs.foldl (fun t (k, v) => t.put k v) t = kvs.reverse ++ t := by
    intro kvs
    induction kvs with
    | nil => exact fun _ => rfl
    | cons x kvs ih =>
      intro t
      rw [List.foldl_cons, ih, List.reverse_cons, List.append_assoc]
      rfl
  have hnone : b.reverse.lookup k = none := by
    refine List.lookup_eq_none_iff.mpr fun x hx => ?_
    simpa using (hb x (List.mem_reverse.mp hx)).symm
  rw [hput, h, Table.get?]
  simp [List.lookup_append, hnone]

/-- The rows of a handler behind its first one. -/
def handlerRows (rows : List Row) : List Row :=
  rows.takeWhile fun r => r.opcode != .handlerEnd && r.opcode != .classEnd

/-- In a run, the row of `m` pushes a string record of the handler begun at `start`, of several with
one name the last. -/
structure PushesRecord (sy : Symbols) (opts : Options) (l : Listing) (start m : Moment)
    (record : Row) : Prop where
  inside : ∃ earlier inner later, moments sy opts l = earlier ++ start :: (inner ++ m :: later) ∧
    ∀ x ∈ inner, x.does .handlerBegin = false ∧ x.does .handlerEnd = false
  begins : start.does .handlerBegin
  pushes : m.does .pushString
  named : m.cursor.row.operand 0 = record.name
  stands : ∃ p q, handlerRows start.cursor.after = p ++ record :: q ∧
    ∀ r ∈ q, r.isRecord → r.name ≠ record.name

theorem step_pushesRecord {sy : Symbols} {opts : Options} {l : Listing} {start m : Moment}
    {record : Row} (h : PushesRecord sy opts l start m record) (hr : record.isRecord) :
    step sy opts m.cursor m.state = .ok (m.state.push (.str (unquoted (record.operand 0)))) := by
  obtain ⟨earlier, inner, later, hrun, hinner⟩ := h.inside
  obtain ⟨p, q, hrows, hq⟩ := h.stands
  have hpush := h.pushes
  simp only [Moment.does, Bool.and_eq_true, bne_iff_ne, ne_eq, beq_iff_eq] at hpush
  have hknown : m.state.records.get? record.name = some (unquoted (record.operand 0)) := by
    rw [records_moments hrun h.begins hinner]
    refine get?_foldl_put (a := (p.filter Row.isRecord).map fun r => (r.name, unquoted (r.operand 0)))
      (b := (q.filter Row.isRecord).map fun r => (r.name, unquoted (r.operand 0))) ?_ ?_ _
    · have hr' : record.isRecord = true := hr
      rw [handlerRecords, show List.takeWhile _ _ = _ from hrows]
      simp [hr']
    · intro x hx
      obtain ⟨r, hr, rfl⟩ := List.mem_map.mp hx
      obtain ⟨hmem, hrec⟩ := List.mem_filter.mp hr
      exact hq r hmem hrec
  exact step_pushString hpush.1 hpush.2 (by rw [h.named]; exact hknown)

/-! ## Declarations -/

theorem parameterDefault_quoted (sy : Symbols) (name s : String) :
    parameterDefault sy name ("\"" ++ s ++ "\"") = .ok (.str (unquoted ("\"" ++ s ++ "\"")), false) := by
  have hstart : startsWith "\"" ("\"" ++ s ++ "\"") = true := by simp [startsWith]
  have hend : endsWith "\"" ("\"" ++ s ++ "\"") = true := by
    simp [endsWith]
  have hne : ("\"" ++ s ++ "\"" == "\"") = false := by
    rw [beq_eq_false_iff_ne, ne_eq, ← String.toList_inj]
    simp
  rw [parameterDefault, if_pos hstart, hne, hend]
  rfl

variable {sy : Symbols} {opts : Options} {before after : List Row} {st : State} {decl : ClassDecl}

/-- A declaration with a quoted text declares a parameter with the text between the quotes. -/
theorem step_declares (hm : st.mode = .parameters) (hd : st.decl = some decl) {row : Row} {p s : String}
    (hname : row.name = "string") (hops : row.operands = [p, "\"" ++ s ++ "\""]) :
    ∃ st', step sy opts ⟨before, row, after⟩ st = .ok st' ∧ st'.mode = .parameters ∧
      st'.decl = some { decl with
        parameters := decl.parameters ++ [⟨"string", p, .str (unquoted ("\"" ++ s ++ "\""))⟩] } := by
  have hop : row.opcode = .declaration := by
    rw [Row.opcode, hname]
    decide
  have htype : typeName "string" = "string" := by decide
  rw [step_eq_dispatch (by simp [hm])]
  simp only [dispatch, hop, declarationRow, hm, parameterRow, hd, hops, List.getElem?_cons_succ,
    List.getElem?_cons_zero, parameterDefault_quoted, hname, htype]
  refine ⟨_, rfl, rfl, ?_⟩
  rw [Row.operand, hops]
  rfl

/-! ## Main theorem -/

theorem quoted_eq_iff {s t : String} : "\"" ++ t ++ "\"" = "\"" ++ s ++ "\"" ↔ t = s := by
  rw [← String.toList_inj, ← @String.toList_inj t]
  simp

/-- **When texts are written as they were.** For a text of printable characters with a backslash before
each quote, pushing a string record succeeds and declaring a parameter with it does too; what is pushed
and what is declared are written with the text itself exactly if it ends in no quote. -/
theorem text_kept_iff (sy : Symbols) (opts : Options) (d : Dialect) {s : String} (hs : Quotable s) :
    (∀ l start m n line, n ≠ "" → (∀ c ∈ n.toList, c.isDigit) →
      PushesRecord sy opts l start m
        (Row.scan (Row.sanitize ("S" ++ n ++ ". \"" ++ s ++ "\"")) line).row →
      ∃ e, step sy opts m.cursor m.state = .ok (m.state.push e) ∧
        (d.expr .free e = "\"" ++ s ++ "\"" ↔ s.toList.getLast? ≠ some '"')) ∧
    ∀ before after st decl p line, st.mode = .parameters → st.decl = some decl → Row.IsWord p →
      ∃ st' x, step sy opts
          ⟨before, (Row.scan (Row.sanitize ("string " ++ p ++ " \"" ++ s ++ "\"")) line).row, after⟩ st =
            .ok st' ∧
        st'.mode = .parameters ∧
        st'.decl = some { decl with parameters := decl.parameters ++ [x] } ∧
        (d.parameterLine x = "string " ++ p ++ " = \"" ++ s ++ "\";" ↔ s.toList.getLast? ≠ some '"') := by
  constructor
  · intro l start m n line hn hd h
    rw [Row.scan_record hn hd hs] at h
    have hrec : Row.isNumbered 'S' ("S" ++ n).toList := by
      simpa using Row.isNumbered_digits hn hd (a := 'S') []
    refine ⟨_, step_pushesRecord h hrec, ?_⟩
    rw [Dialect.expr, quoted_eq_iff, ← unquoted_quoted_iff hs]
    rfl
  · intro before after st decl p line hm hd hp
    have hword : Row.IsWord "string" := ⟨by decide, by simp [isVisible], by simp [Row.NoMark]⟩
    have hrow := Row.scan_declared hword (by decide) hp hs line
    rw [show "string" ++ " " = "string " from rfl] at hrow
    obtain ⟨st', hstep, hmode, hdecl⟩ := @step_declares sy opts before after _ _ hm hd _ _ _
      (congrArg Row.name hrow) (congrArg Row.operands hrow)
    refine ⟨st', _, hstep, hmode, hdecl, ?_⟩
    rw [← unquoted_quoted_iff hs, ← quoted_eq_iff (s := s), Dialect.parameterLine, Dialect.freeExpr,
      Dialect.expr]
    have hright : "string " ++ p ++ " = \"" ++ s ++ "\";" =
        "string" ++ " " ++ p ++ (" = " ++ ("\"" ++ s ++ "\"")) ++ ";" := by
      rw [← String.toList_inj]
      simp
    have hcancel (x y : String) : "string" ++ " " ++ p ++ (" = " ++ x) ++ ";" =
        "string" ++ " " ++ p ++ (" = " ++ y) ++ ";" ↔ x = y := by
      rw [← String.toList_inj, ← @String.toList_inj x]
      simp
    rw [hright]
    exact hcancel _ _

/-- A handler that pushes a text with a quote at its end. -/
def quoteListing : Listing := .ofRows
  [plainRow "class" ["0", "guard", ":", "(null)"], plainRow "handler" ["1"],
    plainRow "push_string" ["S1"], ⟨"S1", ["\"a\\\"\""], "", "\"a\\\"\"", 4⟩,
    plainRow "handler_end" [], plainRow "class_end" []]

/-- A text that ends in a quote is written without it, as a record and as a default. -/
theorem text_kept_quote : Quotable "a\\\"" ∧
    (∃ m ∈ moments guardSymbols ⟨2, none⟩ quoteListing, m.does .pushString ∧
      ∃ e, step guardSymbols ⟨2, none⟩ m.cursor m.state = .ok (m.state.push e) ∧
        Dialect.default.expr .free e ≠ "\"a\\\"\"") ∧
    ∃ st' x, step guardSymbols ⟨2, none⟩
        ⟨[], (Row.scan (Row.sanitize "string p \"a\\\"\"") 3).row, []⟩
        { State.initial with mode := .parameters, decl := some (newClass 0 "guard" "") } = .ok st' ∧
      st'.decl = some { newClass 0 "guard" "" with parameters := [x] } ∧
      Dialect.default.parameterLine x ≠ "string p = \"a\\\"\";" := by
  have hs : Quotable "a\\\"" := by
    refine ⟨by simp, fun p q h => ?_⟩
    match p with
    | [] | [_] => simp at h
    | [a, b] => simpa [eq_comm] using (by simpa using h : 'a' = a ∧ '\\' = b ∧ q = []).2.1
    | _ :: _ :: _ :: _ => simp at h
  obtain ⟨hrecords, hdefaults⟩ := text_kept_iff guardSymbols ⟨2, none⟩ .default hs
  refine ⟨hs, ?_, ?_⟩
  · obtain ⟨e, s, m, later, h, hbegin, hpush, hrow, hafter⟩ :
        ∃ e s m later, moments guardSymbols ⟨2, none⟩ quoteListing = [e] ++ s :: ([] ++ m :: later) ∧
          s.does .handlerBegin ∧ m.does .pushString ∧ m.cursor.row.operand 0 = "S1" ∧
          handlerRows s.cursor.after = [plainRow "push_string" ["S1"]] ++
            ⟨"S1", ["\"a\\\"\""], "", "\"a\\\"\"", 4⟩ :: [] :=
      ⟨_, _, _, _, by with_unfolding_all rfl, by with_unfolding_all rfl, by with_unfolding_all rfl,
        by with_unfolding_all rfl, by with_unfolding_all rfl⟩
    have hrecord := Row.scan_record (n := "1") (by decide) (by simp) hs 4
    obtain ⟨e, hstep, htext⟩ := hrecords quoteListing s m "1" 4 (by decide) (by simp)
      ⟨⟨_, [], _, h, by simp⟩, hbegin, hpush, by rw [hrecord, hrow]; rfl,
        [plainRow "push_string" ["S1"]], [], by rw [hrecord, hafter]; rfl, by simp⟩
    exact ⟨m, by simp [h], hpush, e, hstep, fun hkept => by simpa using htext.mp hkept⟩
  · obtain ⟨st', x, hstep, -, hdecl, htext⟩ := hdefaults [] []
      { State.initial with mode := .parameters, decl := some (newClass 0 "guard" "") }
      (newClass 0 "guard" "") "p" 3 rfl rfl ⟨by decide, by simp [isVisible], by simp⟩
    exact ⟨st', x, hstep, hdecl, fun hkept => by simpa using htext.mp hkept⟩

end ScriptLift.Lift
