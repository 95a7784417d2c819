import ScriptLift.Proofs.Lift.Handlers
import ScriptLift.Proofs.Lift.Quiet
import ScriptLift.Proofs.Lift.RowMoves

/-!
# The one breakdown

Lifting gives a class or a problem, whatever the rows are, but for one case: a handler ends with work
left over where no handler was begun.

* `faultsOnly_dispatch`: the rows other than the end of a handler do not break down.
* `Moves.length_handlers`: there are as many handlers as were begun.
* **`lift_breakdown_iff`**: when lifting breaks down; that all which rows take for granted is there
  at every moment; and that the source and the outline of a class that is lifted can be written.
-/

namespace ScriptLift.Lift

variable {sy : Symbols} {opts : Options} {c : Cursor} {st st' : State}

/-! ## Rows and runs -/

theorem faultsOnly_handlerBegin : FaultsOnly (handlerBegin sy c st) := by
  unfold handlerBegin
  repeat' split
  all_goals nofun

theorem handlerEnd_breakdown_iff : handlerEnd st = .error .breakdown ↔
    st.handlers = [] ∧ (st.statements.tail ≠ [] ∨ st.operands ≠ []) := by
  unfold handlerEnd
  split
  · rename_i h
    simpa using h
  · rename_i h
    simpa using h

/-- The rows other than the end of a handler do not break down. -/
theorem faultsOnly_dispatch (h : c.row.opcode ≠ .handlerEnd) : FaultsOnly (dispatch sy opts c st) := by
  by_cases hlabel : c.row.opcode = .label
  · simp only [dispatch, hlabel]
    exact quiet_closeAll.faultsOnly
  by_cases hbegin : c.row.opcode = .handlerBegin
  · simp only [dispatch, hbegin]
    exact faultsOnly_handlerBegin
  exact (quiet_dispatch hlabel hbegin h).faultsOnly

theorem step_breakdown_iff : step sy opts c st = .error .breakdown ↔
    (⟨c, st⟩ : Moment).does .handlerEnd ∧ st.handlers = [] ∧
      (st.statements.tail ≠ [] ∨ st.operands ≠ []) := by
  by_cases hm : st.mode = .parameterText
  · simp [step, hm, Moment.does]
  · rw [step_eq_dispatch hm]
    by_cases hop : c.row.opcode = .handlerEnd
    · simp only [dispatch, hop, handlerEnd_breakdown_iff, Moment.does]
      simp [hm]
    · have hnot : ¬ (⟨c, st⟩ : Moment).does .handlerEnd := by simp [Moment.does, hop]
      simp only [hnot, false_and, iff_false, Bool.false_eq_true]
      exact faultsOnly_dispatch hop

/-- A run breaks down at the row that does. -/
theorem run_breakdown_iff {before rows : List Row} :
    (∃ s, run sy opts before rows st = .error s ∧ s.halt = .breakdown) ↔
      ∃ earlier m later, trace sy opts before rows st = earlier ++ m :: later ∧
        step sy opts m.cursor m.state = .error .breakdown := by
  induction rows generalizing before st with
  | nil => simp [run, trace]
  | cons row after ih =>
    cases hstep : step sy opts ⟨before, row, after⟩ st with
    | error e =>
      rw [run_error hstep, trace_error hstep]
      constructor
      · rintro ⟨s, hs, hh⟩
        cases hs
        exact ⟨[], _, [], rfl, hstep.trans (congrArg _ hh)⟩
      · rintro ⟨earlier, m, later, hsplit, hm⟩
        cases earlier with
        | nil =>
          obtain ⟨rfl, -⟩ := List.cons.inj hsplit
          obtain rfl : e = .breakdown := by simpa [hstep] using hm
          exact ⟨_, rfl, rfl⟩
        | cons x earlier => simp at hsplit
    | ok st₁ =>
      rw [run_ok hstep, trace_ok hstep, ih]
      constructor
      · rintro ⟨earlier, m, later, hsplit, hm⟩
        exact ⟨_ :: earlier, m, later, by rw [hsplit, List.cons_append], hm⟩
      · rintro ⟨earlier, m, later, hsplit, hm⟩
        cases earlier with
        | nil =>
          obtain ⟨rfl, -⟩ := List.cons.inj hsplit
          simp [hstep] at hm
        | cons x earlier => exact ⟨earlier, m, later, (List.cons.inj hsplit).2, hm⟩

theorem lift_breakdown {l : Listing} : lift sy opts l = .error .breakdown ↔
    ∃ s, run sy opts [] l.rows .initial = .error s ∧ s.halt = .breakdown := by
  unfold lift
  cases hrun : run sy opts [] l.rows .initial with
  | error s =>
    have hs : s.failure opts l = .breakdown ↔ s.halt = .breakdown := by
      unfold Stopped.failure
      cases s.halt <;> simp
    simp [hs]
  | ok st => cases hd : st.result? <;> simp [hd]

/-! ## Handlers -/

theorem Move.length_handlers {evs : List Event} (h : Move st evs st') :
    st'.handlers.length = st.handlers.length + Event.countOf .handlerBegin evs := by
  cases h with
  | aside _ _ _ bodies => simpa [Event.countOf] using congrArg List.length bodies
  | @leave a as s k => cases k <;> simp [modifyBlock, Event.countOf, Event.opcode?]
  | @enter st₁ p s o slot k hadd =>
    obtain ⟨a, as, -, -, rfl⟩ := addAt_inv hadd
    cases k <;> simp [State.enter, modifyBlock, Event.countOf, Event.opcode?]
  | take | eval => simp [modifyBlock, Event.countOf]
  | arm => rw [State.handlers_redirect]; simp [modifyBlock, Event.countOf]
  | turn => rw [State.handlers_redirect]; rfl
  | newHandler => simp [State.enter, Event.countOf, Event.opcode?]
  | _ => rfl

/-- There are as many handlers as were begun. -/
theorem Moves.length_handlers {evs : List Event} (h : Moves st evs st') :
    st'.handlers.length = st.handlers.length + Event.countOf .handlerBegin evs := by
  induction h with
  | nil => rfl
  | cons hm _ ih =>
    rw [ih, hm.length_handlers, Event.countOf_append, Nat.add_assoc]

/-- No handler was begun before a moment if and only if there is none. -/
theorem handlers_eq_nil_iff {before rows : List Row} {earlier later : List Moment} {m : Moment}
    (hw : st.WellFormed) (hst : st.handlers = [])
    (h : trace sy opts before rows st = earlier ++ m :: later) :
    m.state.handlers = [] ↔ ∀ m' ∈ earlier, ¬ m'.does .handlerBegin := by
  have hlen := (moves_trace hw h).length_handlers
  rw [countOf_events rfl, hst, List.length_nil, Nat.zero_add] at hlen
  rw [← List.length_eq_zero_iff, hlen, List.countP_eq_zero]

/-! ## Writing what was lifted -/

theorem lifted_written {d : ClassDecl} (hw : st.WellFormed) (hd : st.result? = some d) :
    (∀ dialect : Dialect, (dialect.source? d).isSome) ∧ d.outlineText?.isSome := by
  obtain ⟨d', hd', rfl⟩ := Option.map_eq_some_iff.mp hd
  have hfull : ∀ h ∈ st.handlers.drop st.first, Stmt.areFull h.body :=
    fun h hh => hw.values.bodies h (List.mem_of_mem_drop hh)
  constructor
  · intro dialect
    have hall : (st.handlers.drop st.first).all fun h => Dialect.haveBodies h.body :=
      List.all_eq_true.mpr fun h hh => Dialect.haveBodies_of_areFull _ (hfull h hh)
    simp [Dialect.source?, hall]
  · have hall : (st.handlers.drop st.first).all fun h => Stmt.areOutlined h.body :=
      List.all_eq_true.mpr fun h hh => Stmt.areOutlined_of_areFull _ (hfull h hh)
    have hdefaults : d'.parameters.all fun p => p.value.isHole || p.value.isWhole :=
      List.all_eq_true.mpr (hw.sections.defaults d' hd')
    simp only [ClassDecl.outlineText?, ClassDecl.isOutlined, hall, hdefaults]
    rfl

/-- **The one breakdown.** Lifting any rows breaks down if and only if it meets the end of a handler,
outside default texts, where no handler was begun and, after one open statement is left, an open
statement or an operand remains; else it gives a class or a problem. At every moment all that rows
take for granted is there and all operands have a type, and the source and the outline of a class
that is lifted can be written. -/
theorem lift_breakdown_iff (sy : Symbols) (opts : Options) (rows : List Row) :
    (lift sy opts (.ofRows rows) = .error .breakdown ↔
      ∃ earlier m later, moments sy opts (.ofRows rows) = earlier ++ m :: later ∧
        m.does .handlerEnd ∧ (∀ m' ∈ earlier, ¬ m'.does .handlerBegin) ∧
        (m.state.statements.tail ≠ [] ∨ m.state.operands ≠ [])) ∧
    (∀ m ∈ moments sy opts (.ofRows rows), m.state.WellFormed ∧
      ∀ e ∈ m.state.operands, e.type?.isSome) ∧
    ∀ d, lift sy opts (.ofRows rows) = .ok d →
      (∀ dialect : Dialect, (dialect.source? d).isSome) ∧ d.outlineText?.isSome := by
  have hw := State.wellFormed_initial
  refine ⟨?_, fun m hm => ?_, fun d hd => ?_⟩
  · rw [lift_breakdown, run_breakdown_iff]
    refine exists_congr fun earlier => exists_congr fun m => exists_congr fun later => ?_
    refine and_congr_right fun hsplit => ?_
    rw [step_breakdown_iff, handlers_eq_nil_iff hw rfl hsplit]
  · have hm := trace_keeps wellFormed_step hw m hm
    refine ⟨hm, fun e he => ?_⟩
    simp [Expr.type?, Expr.isTyped_of_isWhole (hm.values.operands e he)]
  · obtain ⟨st, hrun, hd⟩ := run_of_lift hd
    exact lifted_written ((moves_run hw hrun).wellFormed hw) hd

example : lift guardSymbols ⟨2, none⟩
    (.ofRows [plainRow "push_const" ["1"], plainRow "handler_end" []]) = .error .breakdown := by
  with_unfolding_all rfl

end ScriptLift.Lift
