import ScriptLift.Proofs.Lift.Handlers
import ScriptLift.Proofs.Lift.Notes
import ScriptLift.Proofs.Listing.Faithful

/-!
# Where branches go

The label that a row branches to is looked up in the whole class, while the labels met are forgotten
at the end of every handler. So a branch finds the label of its own handler unless a later handler
has one of the same name, or one was met outside of handlers.

* `Listing.goal?`: the place that a row branches to.
* `ahead?_eq_goal?`: the rows around it are those that the shape of a statement is read from.
* `label?_middle`: when a label is the last one of its name.
* **`goal?_eq_iff`**: when a row branches to the label of its own handler.
-/

namespace ScriptLift

/-! ## Places of labels -/

namespace Listing

/-- The place that a row at place `i` branches to: that of the last label with the name it refers
to, when that lies ahead and is not among the labels met. -/
def goal? (l : Listing) (seen : List String) (i : Nat) (row : Row) : Option Nat :=
  if seen.contains (row.operand 0) then none
  else (l.label? (row.operand 0)).filter fun j => decide (i ≤ j)

/-- The row before a place and the one after it. -/
def around? (l : Listing) (j : Nat) : Option (Row × Option Row) :=
  (l.prev? j).map fun prev => (prev, l.next? j)

variable {name key : String} {rows rest : List Row} {row : Row}

theorem label?_nil : (Listing.mk name []).label? key = none := rfl

theorem label?_cons : (Listing.mk name (row :: rows)).label? key =
    match (Listing.mk name rows).label? key with
    | some j => some (j + 1)
    | none => if row.isLabel ∧ row.name = key then some 0 else none := by
  induction rows using List.reverseRecOn with
  | nil => simpa [label?_nil] using label?_append name key [] row
  | append_singleton rows x ih =>
    rw [← List.cons_append, label?_append, label?_append]
    by_cases hx : x.isLabel ∧ x.name = key
    · rw [if_pos hx, if_pos hx]
      rfl
    · rw [if_neg hx, if_neg hx, ih]

theorem label?_eq_none : (Listing.mk name rows).label? key = none ↔ key ∉ Lift.labelsOf rows := by
  induction rows with
  | nil => simp [label?_nil, Lift.labelsOf]
  | cons row rows ih =>
    rw [label?_cons, Lift.mem_labelsOf_cons, not_or, ← ih, @eq_comm _ key]
    cases (Listing.mk name rows).label? key <;> simp

theorem label?_append_list : (Listing.mk name (rows ++ rest)).label? key =
    match (Listing.mk name rest).label? key with
    | some j => some (rows.length + j)
    | none => (Listing.mk name rows).label? key := by
  induction rows with
  | nil => cases h : (Listing.mk name rest).label? key <;> simp [h, label?_nil]
  | cons row rows ih =>
    rw [List.cons_append, label?_cons, ih]
    cases (Listing.mk name rest).label? key with
    | none => exact label?_cons.symm
    | some j => simp [Nat.add_right_comm]

/-- A label counts if no later one has its name. -/
theorem label?_middle (hrow : row.isLabel) : (Listing.mk name (rows ++ row :: rest)).label? row.name =
    some rows.length ↔ row.name ∉ Lift.labelsOf rest := by
  rw [label?_append_list, label?_cons, ← @label?_eq_none name]
  cases (Listing.mk name rest).label? row.name <;> simp [hrow]

theorem label?_lt {j : Nat} (h : (Listing.mk name rows).label? key = some j) : j < rows.length := by
  obtain ⟨r, hr, -⟩ := (((label?_spec _ _).1 j).mp h).1
  exact (List.getElem?_eq_some_iff.mp hr).1

end Listing

namespace Lift

/-! ## Rows around a label -/

/-- What a search among rows finds, by its place. -/
theorem lastLabel?_eq (name key : String) (rows : List Row) (r : Row) : lastLabel? key r rows =
    ((Listing.mk name rows).label? key).bind fun j =>
      ((r :: rows)[j]?).map fun prev => (prev, rows[j + 1]?) := by
  induction rows generalizing r with
  | nil => rfl
  | cons row rows ih =>
    rw [lastLabel?, ih row, Listing.label?_cons]
    cases hj : (Listing.mk name rows).label? key with
    | none =>
      by_cases hrow : row.isLabel ∧ row.name = key
      · simp [hrow, List.head?_eq_getElem?]
      · simp [hrow]
    | some j =>
      have hlt : j < (row :: rows).length := Nat.lt_succ_of_lt (Listing.label?_lt hj)
      simp [List.getElem?_eq_getElem hlt]

section

variable {l : Listing} {before after : List Row} {row : Row}

/-- A row that is no label goes to the last label behind it. -/
theorem goal?_eq_ahead (hl : l.rows = before.reverse ++ row :: after) (hrow : row.isLabel = false)
    (seen : List String) : l.goal? seen before.length row =
      if seen.contains (row.operand 0) then none
      else ((Listing.mk l.name after).label? (row.operand 0)).map (before.length + 1 + ·) := by
  have hplace : l.label? (row.operand 0) = (Listing.mk l.name l.rows).label? (row.operand 0) := rfl
  rw [Listing.goal?, hplace, hl, Listing.label?_append_list, Listing.label?_cons]
  cases (Listing.mk l.name after).label? (row.operand 0) with
  | some j =>
    have hplace : before.reverse.length + (j + 1) = before.length + 1 + j := by simp; omega
    have hle : before.length ≤ before.length + 1 + j := by omega
    simp only [hplace, Option.filter_some, hle, decide_true, if_true, Option.map_some]
  | none =>
    simp only [hrow, Bool.false_eq_true, false_and, if_false]
    cases hk : (Listing.mk l.name before.reverse).label? (row.operand 0) with
    | none => rfl
    | some k =>
      have hlt : k < before.length := by simpa using Listing.label?_lt hk
      simp [hlt]

/-- **The rows around the place that a row branches to** are those that the shape of a statement is
read from. -/
theorem ahead?_eq_goal? (hl : l.rows = before.reverse ++ row :: after) (hrow : row.isLabel = false)
    (st : State) : ahead? st row after = (l.goal? st.seen before.length row).bind l.around? := by
  rw [ahead?, goal?_eq_ahead hl hrow, lastLabel?_eq l.name]
  by_cases hseen : st.seen.contains (row.operand 0)
  · simp only [hseen, if_true]
    rfl
  · simp only [hseen, Bool.false_eq_true, if_false]
    cases (Listing.mk l.name after).label? (row.operand 0) with
    | none => rfl
    | some j =>
      have hprev : l.prev? (before.length + 1 + j) = (row :: after)[j]? := by
        rw [Listing.prev?, if_neg (by omega), hl, List.getElem?_append_right (by simp)]
        congr 1
        simp
      have hnext : l.next? (before.length + 1 + j) = after[j + 1]? := by
        rw [Listing.next?, hl, List.getElem?_append_right (by simp; omega), List.length_reverse,
          show before.length + 1 + j + 1 - before.length = j + 1 + 1 by omega]
        rfl
      simp only [Option.bind_some, Option.map_some, Listing.around?, hprev, hnext]

end

/-! ## Moments -/

theorem isLabel_of_opcode {r : Row} (h : r.opcode = .label) : r.isLabel := by
  rw [Row.opcode] at h
  rcases ofName_spec r.name with hmem | heq
  · have hnot : ∀ x ∈ Opcode.named, x.2 ≠ .label := by decide
    exact absurd h (hnot _ hmem)
  · rw [h] at heq
    rw [Row.isLabel]
    split_ifs at heq with _ hlabel
    exact hlabel

/-- The rows of the moments before one are those before its row. -/
theorem trace_rows {sy : Symbols} {opts : Options} {before rows : List Row} {st : State}
    {earlier later : List Moment} {m : Moment}
    (h : trace sy opts before rows st = earlier ++ m :: later) :
    m.cursor.before = (earlier.map (·.cursor.row)).reverse ++ before ∧
      rows = earlier.map (·.cursor.row) ++ m.cursor.row :: m.cursor.after := by
  induction rows generalizing before st earlier with
  | nil => simp [trace] at h
  | cons row after ih =>
    cases earlier with
    | nil =>
      rw [trace, List.nil_append, List.cons.injEq] at h
      rw [← h.1]
      exact ⟨rfl, rfl⟩
    | cons x earlier =>
      cases hstep : step sy opts ⟨before, row, after⟩ st with
      | error e => simp [trace_error hstep] at h
      | ok st₁ =>
        rw [trace_ok hstep, List.cons_append, List.cons.injEq] at h
        obtain ⟨rfl, h⟩ := h
        obtain ⟨hbefore, hrows⟩ := ih h
        exact ⟨by simp [hbefore], by rw [hrows]; rfl⟩

theorem moments_rows {sy : Symbols} {opts : Options} {l : Listing} {earlier later : List Moment}
    {m : Moment} (h : moments sy opts l = earlier ++ m :: later) :
    l.rows = m.cursor.before.reverse ++ m.cursor.row :: m.cursor.after := by
  obtain ⟨hbefore, hrows⟩ := trace_rows h
  rw [hrows, hbefore]
  simp

/-! ## Main theorem -/

/-- The rows of a handler from a row on. -/
def inHandler (rows : List Row) : List Row := rows.takeWhile (·.opcode != .handlerEnd)

/-- The rows from the end of a handler on. -/
def behindHandler (rows : List Row) : List Row := rows.dropWhile (·.opcode != .handlerEnd)

/-- **When a row branches to the label of its own handler.** Let a handler have a label with the name
that a branch or jump refers to, behind that row, and none before it; of several the last. The row
goes there exactly if no later handler of the class has a label of that name and none was met between
the last handler and this one. -/
theorem goal?_eq_iff (sy : Symbols) (opts : Options) (l : Listing)
    {earlier inner later : List Moment} {start m : Moment}
    (h : moments sy opts l = earlier ++ start :: (inner ++ m :: later))
    (hstart : start.does .handlerBegin) (hinner : ∀ x ∈ inner, x.does .handlerEnd = false)
    (hm : m.does .branchFalse ∨ m.does .jump) {label : Row} {p q : List Row}
    (hahead : inHandler m.cursor.after = p ++ label :: q) (hlabel : label.isLabel)
    (hname : m.cursor.row.operand 0 = label.name)
    (honce : label.name ∉ labelsOf (inner.map (·.cursor.row) ++ q)) :
    l.get? (m.cursor.before.length + 1 + p.length) = some label ∧
      ahead? m.state m.cursor.row m.cursor.after =
        (l.goal? m.state.seen m.cursor.before.length m.cursor.row).bind l.around? ∧
      (l.goal? m.state.seen m.cursor.before.length m.cursor.row =
          some (m.cursor.before.length + 1 + p.length) ↔
        label.name ∉ labelsOf (behindHandler m.cursor.after) ∧ ¬ MetIn earlier label.name) := by
  have hsplit : moments sy opts l = (earlier ++ start :: inner) ++ m :: later := by simpa using h
  have hrows := moments_rows hsplit
  have hafter : m.cursor.after = p ++ label :: (q ++ behindHandler m.cursor.after) := by
    rw [← List.cons_append, ← List.append_assoc, ← hahead]
    exact (List.takeWhile_append_dropWhile).symm
  have hrow : m.cursor.row.isLabel = false := by
    by_contra hl
    have hop := opcode_of_isLabel (by simpa using hl)
    simp [Moment.does, hop] at hm
  rw [labelsOf_append, List.mem_append, not_or] at honce
  have hseen : label.name ∈ m.state.seen ↔ MetIn earlier label.name := by
    rw [mem_seen_moments hsplit, List.append_cons, metIn_append hinner, metIn_concat]
    have hinner' : ¬ ∃ k ∈ inner, k.does .label ∧ k.cursor.row.name = label.name := by
      rintro ⟨k, hk, hdoes, hkname⟩
      rw [Moment.does, Bool.and_eq_true, beq_iff_eq] at hdoes
      refine honce.1 ?_
      rw [← hkname]
      exact List.mem_map_of_mem (List.mem_filter.mpr
        ⟨List.mem_map_of_mem hk, isLabel_of_opcode hdoes.2⟩)
    simp [hinner', does_unique hstart]
  have hlast : (Listing.mk l.name m.cursor.after).label? label.name = some p.length ↔
      label.name ∉ labelsOf (behindHandler m.cursor.after) := by
    rw [hafter, Listing.label?_middle hlabel, labelsOf_append, List.mem_append, ← hafter]
    simp [honce.2]
  refine ⟨?_, ahead?_eq_goal? hrows hrow _, ?_⟩
  · rw [Listing.get?, hrows, hafter, List.getElem?_append_right (by simp; omega), List.length_reverse,
      show m.cursor.before.length + 1 + p.length - m.cursor.before.length = p.length + 1 by omega,
      List.getElem?_cons_succ, List.getElem?_append_right le_rfl]
    simp
  · rw [goal?_eq_ahead hrows hrow, hname, ← hlast, ← hseen]
    by_cases hmet : label.name ∈ m.state.seen
    · simp [hmet]
    · simp [hmet]

/-- Two handlers with a label of one name. -/
def reusedListing : Listing := .ofRows
  [plainRow "class" ["0", "guard", ":", "(null)"], plainRow "handler" ["1"],
    plainRow "push_const" ["1"], plainRow "branch_false" ["L1"], plainRow "L1" [],
    plainRow "handler_end" [], plainRow "handler" ["1"], plainRow "L1" [],
    plainRow "handler_end" [], plainRow "class_end" []]

/-- The branch of the first handler goes past its label. -/
theorem goal?_reused : ∃ m ∈ moments guardSymbols ⟨2, none⟩ reusedListing,
    m.does .branchFalse ∧ m.cursor.before.length = 3 ∧
      reusedListing.get? 4 = some (plainRow "L1" []) ∧
      reusedListing.goal? m.state.seen 3 m.cursor.row ≠ some 4 := by
  obtain ⟨e, s, i, m, later, h, hs, hi, hm, ha, hb⟩ :
      ∃ e s i m later, moments guardSymbols ⟨2, none⟩ reusedListing = [e] ++ s :: ([i] ++ m :: later) ∧
        s.does .handlerBegin ∧ i.does .handlerEnd = false ∧ m.does .branchFalse ∧
        i.cursor.row = plainRow "push_const" ["1"] ∧
        m.cursor = ⟨(reusedListing.rows.take 3).reverse, plainRow "branch_false" ["L1"],
          reusedListing.rows.drop 4⟩ :=
    ⟨_, _, _, _, _, by with_unfolding_all rfl, by with_unfolding_all rfl, by with_unfolding_all rfl,
      by with_unfolding_all rfl, by with_unfolding_all rfl, by with_unfolding_all rfl⟩
  have hahead : inHandler m.cursor.after = [] ++ plainRow "L1" [] :: [] := by rw [hb]; decide +kernel
  have hiff := (goal?_eq_iff guardSymbols ⟨2, none⟩ reusedListing h hs (by simpa using hi) (.inl hm)
    hahead (by decide) (by rw [hb]; rfl) (by rw [List.map_singleton, ha]; decide)).2.2
  have hlen : m.cursor.before.length = 3 := by rw [hb]; rfl
  refine ⟨m, by simp [h], hm, hlen, rfl, fun hgoal => ?_⟩
  rw [hlen] at hiff
  refine (hiff.mp hgoal).1 ?_
  rw [hb]
  decide +kernel

end Lift

end ScriptLift
