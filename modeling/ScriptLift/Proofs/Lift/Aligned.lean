import ScriptLift.Proofs.Lift.Handlers
import ScriptLift.Proofs.Lift.RowMoves

/-!
# Open statements and their blocks

The blocks that are open belong to the open statements, one by one. A label that closes a statement
leaves or replaces the block of that statement, with one exception: the marks of a for loop and of a
comparison to come have no block, and a label that closes one leaves the block of another statement.

* `Closing.Fits`: the block that is left or replaced belongs to the statement.
* `Closing.Strays`: a mark takes a block away.
* `State.Aligned`: the open blocks are those of the open statements.
* **`closing_fits_iff`**: closings fit up to the first one that strays in a handler, and that one
  does not.
-/

namespace ScriptLift.Lift

namespace Closing

/-- The block that is left or replaced. -/
def taken? (k : Closing) : Option Address := if k.after = k.before then none else k.before.head?

/-- The block that is left or replaced belongs to the statement. -/
def Fits (k : Closing) : Prop := ∀ a, k.taken? = some a → k.statement.own? = some a

/-- A mark takes a block away. -/
def Strays (k : Closing) : Prop := k.statement.own? = none ∧ k.taken? ≠ none

/-- No block is touched but for the last one opened. -/
def AtTop (k : Closing) : Prop :=
  k.after = k.before ∨ ∃ a as, k.before = a :: as ∧ (k.after = as ∨ ∃ b, k.after = b :: as)

theorem fits_iff_of_none {k : Closing} (h : k.statement.own? = none) : k.Fits ↔ ¬ k.Strays := by
  unfold Fits Strays
  rw [h]
  cases k.taken? <;> simp

theorem fits_of_own {k : Closing} (h : k.before.head? = k.statement.own?) : k.Fits := by
  intro a ha
  unfold taken? at ha
  split at ha
  · cases ha
  · exact h ▸ ha

end Closing

/-- The open blocks are those of the open statements. -/
def State.Aligned (st : State) : Prop := st.blocks = st.statements.filterMap Open.own?

/-! ## Moves -/

variable {sy : Symbols} {opts : Options} {st st' : State} {evs : List Event}

theorem State.Aligned.top {o : Open} {os : List Open} {a : Address} (h : st.Aligned)
    (hs : st.statements = o :: os) (ho : o.own? = some a) :
    st.blocks = a :: os.filterMap Open.own? := by
  rw [h, hs, List.filterMap_cons_some ho]

/-- A statement closed in an aligned state. -/
theorem State.Aligned.fits {o : Open} {os : List Open} {after : List Address} (h : st.Aligned)
    (hs : st.statements = o :: os) :
    (⟨o, st.blocks, after⟩ : Closing).Fits ↔ ¬ (⟨o, st.blocks, after⟩ : Closing).Strays := by
  cases ho : o.own? with
  | none => exact Closing.fits_iff_of_none ho
  | some a =>
    have hfits : (⟨o, st.blocks, after⟩ : Closing).Fits :=
      Closing.fits_of_own (by simp [h.top hs ho, ho])
    simp [hfits, Closing.Strays, ho]

/-- What a move does to the open statements and their blocks: it keeps them together, unless it
closes a statement and strays. -/
theorem Move.aligned (h : Move st evs st') (ha : st.Aligned) :
    (evs.filterMap Event.closed? = [] ∧ st'.Aligned) ∨
      ∃ k, evs.filterMap Event.closed? = [k] ∧ k.AtTop ∧ (k.Fits ↔ ¬ k.Strays) ∧
        (¬ k.Strays → st'.Aligned) := by
  have ha' : st.blocks = st.statements.filterMap Open.own? := ha
  cases h with
  | aside _ statements blocks =>
    exact .inl ⟨rfl, by rw [State.Aligned, statements, blocks, ha']⟩
  | newClass | push | drop | take | eval | leave | mark => exact .inl ⟨rfl, ha⟩
  | enter hadd ho =>
    obtain ⟨a, as, -, -, rfl⟩ := addAt_inv hadd
    refine .inl ⟨rfl, ?_⟩
    cases ho <;> simp [State.Aligned, State.enter, Open.own?, ha']
  | arm hs =>
    refine .inl ⟨rfl, ?_⟩
    simp [State.Aligned, State.redirect, ha.top hs rfl, Open.own?]
  | unmark hs ho =>
    refine .inl ⟨rfl, ?_⟩
    rwa [hs, List.filterMap_cons_none ho] at ha'
  | await hs => exact .inr ⟨_, rfl, .inl rfl, ha.fits hs, fun _ => hs ▸ ha'⟩
  | @turn s os hs =>
    have htop := ha.top hs rfl
    refine .inr ⟨_, rfl, ?_, ha.fits hs, fun _ => ?_⟩
    · exact .inr ⟨_, _, htop, .inr ⟨s.body .no, by simp [State.redirect, htop]⟩⟩
    · simp [State.Aligned, State.redirect, htop, Open.own?]
  | @close o os hs =>
    refine .inr ⟨_, rfl, ?_, ha.fits hs, fun hstray => ?_⟩
    · cases hb : st.blocks with
      | nil => exact .inl rfl
      | cons a as => exact .inr ⟨a, as, rfl, .inl rfl⟩
    · cases ho : o.own? with
      | some a => simp [State.Aligned, State.leaveBlock, ha.top hs ho]
      | none =>
        rw [hs, List.filterMap_cons_none ho] at ha'
        -- A mark that does not stray was closed with no block open.
        have hb : st.blocks = [] := by
          cases hb : st.blocks with
          | nil => rfl
          | cons a as => exact absurd ⟨ho, by simp [Closing.taken?, hb]⟩ hstray
        simp [State.Aligned, State.leaveBlock, ← ha', hb]
  | newHandler => exact .inl ⟨rfl, by simp [State.Aligned, State.enter, Open.own?, ha']⟩
  | leaveHandler => exact .inl ⟨rfl, rfl⟩

/-- Closings fit up to the first one that strays. -/
theorem Moves.fits (h : Moves st evs st') (ha : st.Aligned) {before after : List Closing}
    {k : Closing} (hk : evs.filterMap Event.closed? = before ++ k :: after)
    (hbefore : ∀ x ∈ before, ¬ x.Strays) : k.AtTop ∧ (k.Fits ↔ ¬ k.Strays) := by
  induction h generalizing before with
  | nil => simp at hk
  | cons hm _ ih =>
    rw [List.filterMap_append] at hk
    rcases hm.aligned ha with ⟨hnone, ha₁⟩ | ⟨x, hone, htop, hfits, ha₁⟩
    · rw [hnone, List.nil_append] at hk
      exact ih ha₁ hk hbefore
    · rw [hone, List.singleton_append] at hk
      cases before with
      | nil =>
        obtain ⟨rfl, -⟩ := List.cons.inj hk
        exact ⟨htop, hfits⟩
      | cons y before =>
        obtain ⟨rfl, hrest⟩ := List.cons.inj hk
        exact ih (ha₁ (hbefore x List.mem_cons_self)) hrest
          fun z hz => hbefore z (List.mem_cons_of_mem _ hz)

/-! ## Runs -/

theorem closed_rowEvents {c : Cursor} (h : c.row.opcode ≠ .label) :
    (rowEvents c st).filterMap Event.closed? = [] := by
  unfold rowEvents
  split
  case h_5 => unfold branchEvents; split_ifs <;> rfl
  case h_8 heq => exact absurd heq h
  all_goals first | rfl | (split <;> rfl)

/-- A row closes statements by moves, whether it is taken or not. -/
theorem moves_closed (m : Moment) : ∃ evs st', Moves m.state evs st' ∧
    evs.filterMap Event.closed? = (events m).filterMap Event.closed? := by
  obtain ⟨c, st⟩ := m
  by_cases hm : st.mode = .parameterText
  · exact ⟨[], st, .nil _, by simp [events, hm]⟩
  by_cases hop : c.row.opcode = .label
  · obtain ⟨st', hmoves, -⟩ := moves_label c { st with seen := c.row.name :: st.seen }
    refine ⟨_, st', (Moves.one (.noted rfl)).trans hmoves, ?_⟩
    rw [events_of_ne hm]
    simp [rowEvents, hop]
  · refine ⟨[], st, .nil _, ?_⟩
    rw [events_of_ne hm, closed_rowEvents hop]
    rfl

/-- The closings of a run, which may end early, are those of moves. -/
theorem moves_closings {before rows : List Row} (hw : st.WellFormed) : ∃ evs st', Moves st evs st' ∧
    evs.filterMap Event.closed? = closings (trace sy opts before rows st) := by
  induction rows generalizing before st with
  | nil => exact ⟨[], st, .nil _, rfl⟩
  | cons row after ih =>
    cases hstep : step sy opts ⟨before, row, after⟩ st with
    | error e =>
      obtain ⟨evs, st', hmoves, hevs⟩ := moves_closed ⟨⟨before, row, after⟩, st⟩
      refine ⟨evs, st', hmoves, ?_⟩
      rw [trace_error hstep, closings_cons, hevs]
      simp [closings]
    | ok st₁ =>
      have hmove := moves_step hw hstep
      obtain ⟨evs, st', hmoves, hevs⟩ := @ih _ (row :: before) (hmove.wellFormed hw)
      refine ⟨_, st', hmove.trans hmoves, ?_⟩
      rw [trace_ok hstep, closings_cons, List.filterMap_append, hevs]

theorem aligned_handlerEnd {c : Cursor} (hm : (⟨c, st⟩ : Moment).does .handlerEnd)
    (h : step sy opts c st = .ok st') : st'.Aligned := by
  simp only [Moment.does, Bool.and_eq_true, bne_iff_ne, beq_iff_eq] at hm
  rw [step_eq_dispatch hm.1, dispatch, hm.2] at h
  dsimp only [handlerEnd] at h
  split at h
  · cases h
  · cases h
    rfl

/-- **Closings and their blocks.** From the first row on, or from the row after the end of a handler
on, a closing before which none strays touches no block but the last one opened, and that block is
the one of the statement closed unless the statement is a mark with a block open. -/
theorem closing_fits_iff (sy : Symbols) (opts : Options) (l : Listing) {earlier ms : List Moment}
    {before after : List Closing} {k : Closing} (hms : moments sy opts l = earlier ++ ms)
    (hstart : ∀ m, earlier.getLast? = some m → m.does .handlerEnd)
    (hk : closings ms = before ++ k :: after) (hbefore : ∀ x ∈ before, ¬ x.Strays) :
    k.AtTop ∧ (k.Fits ↔ ¬ k.Strays) := by
  cases ms with
  | nil => simp [closings] at hk
  | cons m later =>
    have hw : m.state.WellFormed := (moves_trace State.wellFormed_initial hms).wellFormed
      State.wellFormed_initial
    obtain ⟨⟨rows, rows', htrace, -⟩, hfirst⟩ := trace_split hms
    have haligned : m.state.Aligned := by
      rcases hfirst with ⟨-, hm⟩ | ⟨last, hlast, hstep⟩
      · rw [hm]
        rfl
      · exact aligned_handlerEnd (hstart last hlast) hstep
    obtain ⟨evs, st', hmoves, hevs⟩ : ∃ evs st', Moves m.state evs st' ∧
        evs.filterMap Event.closed? = closings (trace sy opts rows rows' m.state) :=
      moves_closings hw
    rw [htrace, ← hevs] at hk
    exact hmoves.fits haligned hk hbefore

/-- A conditional, and then a loop that is never made. -/
def strayListing : Listing :=
  ⟨"x", [plainRow "class" ["0", "x", ":", "(null)"], plainRow "handler" ["1"],
    plainRow "push_const" ["1"], plainRow "branch_false" ["L1"], plainRow "exit_handler" [],
    plainRow "L1" [], plainRow "push_const" ["1"], plainRow "branch_false" ["L2"],
    plainRow "jump" ["L3"], plainRow "L2" [], plainRow "handler_end" [], plainRow "class_end" []]⟩

/-- The block of the conditional is left for it; the block of the handler is left for the mark. -/
theorem strayListing_fits :
    Closing.Fits ⟨.conditional ⟨⟨0, []⟩, 0⟩, [⟨0, [(0, .yes)]⟩, ⟨0, []⟩], [⟨0, []⟩]⟩ ∧
      ¬ Closing.Fits ⟨.pendingFor, [⟨0, []⟩], []⟩ := by
  have hclosings : closings (moments guardSymbols ⟨2, none⟩ strayListing) =
      [⟨.conditional ⟨⟨0, []⟩, 0⟩, [⟨0, [(0, .yes)]⟩, ⟨0, []⟩], [⟨0, []⟩]⟩,
        ⟨.pendingFor, [⟨0, []⟩], []⟩] := by
    with_unfolding_all rfl
  have hfirst : ¬ Closing.Strays ⟨.conditional ⟨⟨0, []⟩, 0⟩, [⟨0, [(0, .yes)]⟩, ⟨0, []⟩], [⟨0, []⟩]⟩ :=
    fun h => by cases h.1
  have hsecond : Closing.Strays ⟨.pendingFor, [⟨0, []⟩], []⟩ := ⟨rfl, by decide⟩
  constructor
  · exact (closing_fits_iff guardSymbols ⟨2, none⟩ strayListing (List.nil_append _).symm (by simp)
      (hclosings.trans (List.nil_append _).symm) (by simp)).2.mpr hfirst
  · intro hfits
    exact (closing_fits_iff guardSymbols ⟨2, none⟩ strayListing (List.nil_append _).symm (by simp)
      (hclosings.trans (List.singleton_append).symm) (by simpa using hfirst)).2.mp hfits hsecond

end ScriptLift.Lift
