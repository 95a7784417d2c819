import ScriptLift.Proofs.Lift.Handlers
import ScriptLift.Proofs.Lift.RowMoves

/-!
# Every statement ends up in the class

* `Move.first`, `Moves.first_eq_zero`: handlers are left out of the class only when a further class
  is begun.
* **`lift_conserves`**: the statements that are made, other than expression statements, are in the
  class that is lifted, each of them once and where it was made.
-/

namespace ScriptLift.Lift

variable {sy : Symbols} {opts : Options} {st st' : State} {evs : List Event}

/-- The handlers that belong to the class change only with the class. -/
theorem Move.first (h : Move st evs st') :
    (Event.countOf .classBegin evs = 0 ∧ st'.first = st.first ∧ st'.decl.isSome = st.decl.isSome) ∨
      (Event.countOf .classBegin evs = 1 ∧ st'.first = st.handlers.length) := by
  cases h with
  | aside _ _ _ _ first decl => exact .inl ⟨rfl, first, decl⟩
  | newClass => exact .inr ⟨rfl, rfl⟩
  | @leave a as s k => cases k <;> exact .inl ⟨rfl, rfl, rfl⟩
  | @enter st₁ p s o slot k hadd =>
    obtain ⟨a, as, -, -, rfl⟩ := addAt_inv hadd
    cases k <;> exact .inl ⟨rfl, rfl, rfl⟩
  | arm | turn =>
    exact .inl ⟨rfl, by rw [State.first_redirect], by rw [State.decl_redirect]⟩
  | _ => exact .inl ⟨rfl, rfl, rfl⟩

theorem Moves.first_eq (h : Moves st evs st') (hc : Event.countOf .classBegin evs = 0) :
    st'.first = st.first := by
  induction h with
  | nil => rfl
  | cons hm _ ih =>
    rw [Event.countOf_append] at hc
    rcases hm.first with ⟨-, hfirst, -⟩ | ⟨hone, -⟩
    · rw [ih (by omega), hfirst]
    · omega

/-- All handlers belong to the only class. -/
theorem Moves.first_eq_zero (h : Moves st evs st') (hw : st.WellFormed) (hd : st.decl = none)
    (hf : st.first = 0) (hc : Event.countOf .classBegin evs ≤ 1) : st'.first = 0 := by
  induction h with
  | nil => exact hf
  | @cons st st₁ st' evs evs' hm hs ih =>
    rw [Event.countOf_append] at hc
    rcases hm.first with ⟨-, hfirst, hdecl⟩ | ⟨hone, hfirst⟩
    · exact ih (hm.wellFormed hw) (by simpa [hd] using hdecl) (hfirst.trans hf) (by omega)
    · rw [hs.first_eq (by omega), hfirst, hw.places.handlers hd]
      rfl

/-- A run meets as many rows that begin a class as there are, or fewer. -/
theorem countP_trace_le (before rows : List Row) (st : State) :
    (trace sy opts before rows st).countP (·.does .classBegin) ≤ rows.countP Row.opensClass := by
  induction rows generalizing before st with
  | nil => exact Nat.le_refl _
  | cons row after ih =>
    have hrow : (if (⟨⟨before, row, after⟩, st⟩ : Moment).does .classBegin then 1 else 0) ≤
        if row.opensClass then 1 else 0 := by
      unfold Moment.does Row.opensClass
      cases row.opcode == .classBegin <;> simp
      split <;> simp
    cases hstep : step sy opts ⟨before, row, after⟩ st with
    | error e =>
      rw [trace_error hstep, List.countP_singleton, List.countP_cons]
      omega
    | ok st₁ =>
      have := ih (row :: before) st₁
      rw [trace_ok hstep, List.countP_cons, List.countP_cons]
      omega

/-- **No statement is lost or doubled.** Where a listing has one class row and its class is lifted:
at every moment the handlers hold as many statements of a kind as were made, and so does the class;
returns and calls of the parent are as many as the rows for them; and from every moment on all
statements but expression statements stay where they are, up to the class that is lifted. -/
theorem lift_conserves (sy : Symbols) (opts : Options) (l : Listing) (d : ClassDecl)
    (hone : l.rows.countP Row.opensClass = 1) (h : lift sy opts l = .ok d) :
    (∀ k, handlerCount k d.handlers = (made (moments sy opts l)).count k) ∧
    handlerCount .ret d.handlers = (moments sy opts l).countP (·.does .exitHandler) ∧
    handlerCount .super d.handlers = (moments sy opts l).countP (·.does .callSuper) ∧
    ∀ earlier m later, moments sy opts l = earlier ++ m :: later →
      (∀ k, handlerCount k m.state.handlers = (made earlier).count k) ∧
      HandlersStay m.state.handlers d.handlers := by
  obtain ⟨st, hrun, hd⟩ := run_of_lift h
  have hmoves := moves_run State.wellFormed_initial hrun
  have hfirst : st.first = 0 := by
    refine hmoves.first_eq_zero State.wellFormed_initial rfl rfl ?_
    rw [countOf_events rfl]
    exact (countP_trace_le [] l.rows .initial).trans hone.le
  have hhandlers : d.handlers = st.handlers := by
    obtain ⟨d', -, rfl⟩ := Option.map_eq_some_iff.mp hd
    simp [hfirst]
  have hcount : ∀ k, handlerCount k d.handlers =
      Event.countMade k ((moments sy opts l).flatMap events) := by
    intro k
    rw [hhandlers, hmoves.count State.wellFormed_initial k]
    exact Nat.zero_add _
  refine ⟨hcount, ?_, ?_, fun earlier m later hsplit => ⟨fun k => ?_, ?_⟩⟩
  · rw [hcount, Event.countMade_ret, countOf_events rfl]
  · rw [hcount, Event.countMade_super, countOf_events rfl]
  · rw [(moves_trace State.wellFormed_initial hsplit).count State.wellFormed_initial k]
    exact Nat.zero_add _
  · obtain ⟨⟨before, rows, -, hrest⟩, -⟩ := trace_split hsplit
    have hw := (moves_trace State.wellFormed_initial hsplit).wellFormed State.wellFormed_initial
    rw [hhandlers]
    exact (moves_run hw (hrest.trans hrun)).stay

/-- A loop with a conditional in it that ends in a break. -/
theorem lift_conserves_loop :
    handlerCount .brk (guardClass [.whileLoop (.binary .lt guardVar (.int 9))
        [.ifElse (.binary .gt guardVar (.int 5)) [guardCall, .brk] [guardCall]]]).handlers =
      (made (moments guardSymbols ⟨2, none⟩
        (guardListing [loopForm [leaveForm "L3" [despawnForm], despawnForm]]))).count .brk :=
  (lift_conserves guardSymbols ⟨2, none⟩
    (guardListing [loopForm [leaveForm "L3" [despawnForm], despawnForm]]) _ (by decide +kernel)
    (by with_unfolding_all rfl)).1 .brk

end ScriptLift.Lift
