import ScriptLift.Proofs.Lift.Flow

/-!
# Labels are discharged

A label closes statements in rounds. A round takes one label off those that are awaited, but may put
another one there, even the same: a conditional whose first branch ends in a jump awaits the end of
its second branch. That turns the conditional into its second branch, so `openWork`, which counts
the labels awaited and the conditionals, bounds the rounds.

* `closeWithin`: closing in a bounded number of rounds; `closeWithin_eq`: `openWork` rounds suffice.
* `targets_closeOne`, `targets_closeAll`: the labels awaited after one round, and after all.
* **`closeLabel_discharges`**: closing at a label ends, and leaves the labels below it as they were.
-/

namespace ScriptLift.Lift

variable {c : Cursor} {st st' : State}

/-! ## Rounds -/

/-- Closes open statements as long as one of them ends at the label, in at most `rounds` rounds;
gives nothing if one more would be needed. -/
def closeWithin (c : Cursor) : (rounds : Nat) → State → Option (Except Halt State)
  | 0, st => if c.row.name ∈ st.targets then none else some (.ok st)
  | rounds + 1, st =>
    if c.row.name ∈ st.targets then
      match closeOne c st with
      | .ok st' => closeWithin c rounds st'
      | .error e => some (.error e)
    else some (.ok st)

theorem closeWithin_idle (h : c.row.name ∉ st.targets) (rounds : Nat) :
    closeWithin c rounds st = some (.ok st) := by
  cases rounds <;> rw [closeWithin, if_neg h]

/-- **As many rounds as there is work open suffice.** -/
theorem closeWithin_eq {rounds : Nat} (h : openWork st ≤ rounds) :
    closeWithin c rounds st = some (closeAll c st) := by
  induction rounds generalizing st with
  | zero =>
    have ht : st.targets = [] := List.length_eq_zero_iff.mp (by unfold openWork at h; omega)
    have hn : c.row.name ∉ st.targets := by simp [ht]
    rw [closeWithin_idle hn, closeAll_idle hn]
  | succ rounds ih =>
    by_cases hm : c.row.name ∈ st.targets
    · rw [closeWithin, if_pos hm]
      cases hone : closeOne c st with
      | error e => rw [closeAll_stuck hm hone]
      | ok st₁ =>
        have hless : openWork st₁ < openWork st :=
          openWork_closeOne (List.ne_nil_of_mem hm) hone
        rw [closeAll_step hm hone]
        exact ih (by omega)
    · rw [closeWithin_idle hm, closeAll_idle hm]

/-! ## Labels awaited -/

/-- Labels are `rest`, or `rest` below the target of the jump before the row. -/
def Awaits (c : Cursor) (rest labels : List String) : Prop :=
  labels = rest ∨ ∃ jump, c.prev? = some jump ∧ jump.opcode = .jump ∧ labels = jump.operand 0 :: rest

theorem targets_closeArm (c : Cursor) (o : Open) (st : State) :
    (closeArm c o st).targets = st.targets := by
  unfold closeArm
  split <;> rfl

/-- **A round takes the top label off**, and puts at most the target of a jump in its place. -/
theorem targets_closeOne (h : closeOne c st = .ok st') : Awaits c st.targets.tail st'.targets := by
  unfold closeOne at h
  split at h
  · simp [shortage] at h
  · rename_i s e n rest hs
    dsimp only at h
    split at h
    · cases hadd : State.add { st with targets := st.targets.tail, statements := rest } .brk with
      | error e => simp [hadd, Except.map] at h
      | ok st₁ =>
        rw [hadd] at h
        cases h
        exact .inl ((targets_closeArm ..).trans (State.statements_add hadd).2)
    · cases h
      exact .inl (targets_closeArm ..)
  · dsimp only at h
    split at h
    · rename_i jump hprev
      split at h <;> cases h
      · rename_i hjump
        exact .inr ⟨jump, hprev, by simpa using hjump, State.targets_redirect ..⟩
      · exact .inl rfl
    · cases h
      exact .inl rfl
  · cases h
    exact .inl rfl

/-- After all rounds the label is not awaited any more. -/
theorem not_mem_targets_closeAll (h : closeAll c st = .ok st') : c.row.name ∉ st'.targets := by
  induction st using closeAll.induct c with
  | case1 st ht st₁ hone _ ih =>
    rw [closeAll_step (by simpa using ht) hone] at h
    exact ih h
  | case2 st ht e hone =>
    rw [closeAll_stuck (by simpa using ht) hone] at h
    cases h
  | case3 st ht =>
    have hn : c.row.name ∉ st.targets := by simpa using ht
    rw [closeAll_idle hn] at h
    cases h
    exact hn

/-- **The labels below the lowest one with the name stay**, whatever stands above. -/
theorem targets_closeAll {above below : List String} (hbelow : c.row.name ∉ below)
    (ht : st.targets = above ++ c.row.name :: below) (h : closeAll c st = .ok st') :
    Awaits c below st'.targets := by
  induction st using closeAll.induct c generalizing above with
  | case1 st hmem st₁ hone _ ih =>
    rw [closeAll_step (by simpa using hmem) hone] at h
    have hround := targets_closeOne hone
    cases above with
    | nil =>
      -- the lowest label goes; it comes back only if the jump goes there again
      rw [ht, List.nil_append, List.tail_cons] at hround
      rcases hround with hrest | ⟨jump, hprev, hop, hpush⟩
      · rw [closeAll_idle (by rwa [hrest])] at h
        cases h
        exact .inl hrest
      · by_cases hagain : jump.operand 0 = c.row.name
        · have hstack : st₁.targets = [] ++ c.row.name :: below := by
            rw [hpush, hagain, List.nil_append]
          exact ih hstack h
        · rw [closeAll_idle (by simp [hpush, Ne.symm hagain, hbelow])] at h
          cases h
          exact .inr ⟨jump, hprev, hop, hpush⟩
    | cons t above =>
      rw [ht, List.cons_append, List.tail_cons] at hround
      rcases hround with hrest | ⟨jump, -, -, hpush⟩
      · exact ih hrest h
      · have hstack : st₁.targets = (jump.operand 0 :: above) ++ c.row.name :: below := by
          rw [hpush, List.cons_append]
        exact ih hstack h
  | case2 st hmem e hone =>
    rw [closeAll_stuck (by simpa using hmem) hone] at h
    cases h
  | case3 st hmem =>
    simp [ht] at hmem

/-- **A label is discharged**: as many rounds suffice as there are labels awaited and conditionals
in their first branch; then the label is not awaited any more, and the labels below its lowest
occurrence are, as they were before. -/
theorem closeLabel_discharges (c : Cursor) (st : State) :
    closeWithin c (st.targets.length + st.statements.countP Open.isConditional)
        (st.meet c.row.name) = some (closeLabel c st) ∧
      ∀ st', closeLabel c st = .ok st' → c.row.name ∉ st'.targets ∧
        ∀ above below, st.targets = above ++ c.row.name :: below → c.row.name ∉ below →
          Awaits c below st'.targets := by
  refine ⟨closeWithin_eq le_rfl, fun st' h => ⟨not_mem_targets_closeAll h, ?_⟩⟩
  intro above below ht hbelow
  have hmeet : (st.meet c.row.name).targets = above ++ c.row.name :: below := ht
  exact targets_closeAll hbelow hmeet h

/-- At a label just behind a jump to it: a conditional in a conditional, both up to the label, in a
while loop. -/
def rejoined : Cursor × State :=
  let loop : StmtAddress := ⟨⟨0, []⟩, 0⟩
  let outer : StmtAddress := ⟨loop.body .loop, 0⟩
  let inner : StmtAddress := ⟨outer.body .yes, 0⟩
  (⟨[⟨"jump", ["L1"], "", "jump L1", 4⟩], ⟨"L1", [], "", "L1", 5⟩, []⟩,
    { State.initial with
      statements := [.conditional inner, .conditional outer, .whileLoop loop]
      blocks := [inner.body .yes, outer.body .yes, loop.body .loop]
      targets := ["L1", "L1", "L2"] })

/-- Both conditionals await the label again, as the end of their second branches. -/
theorem closeLabel_discharges_rejoined : ∃ st', closeLabel rejoined.1 rejoined.2 = .ok st' ∧
    "L1" ∉ st'.targets ∧ Awaits rejoined.1 ["L2"] st'.targets := by
  obtain ⟨st', h⟩ : ∃ st', closeLabel rejoined.1 rejoined.2 = .ok st' :=
    ⟨_, by with_unfolding_all rfl⟩
  obtain ⟨hout, hbelow⟩ := (closeLabel_discharges rejoined.1 rejoined.2).2 st' h
  exact ⟨st', h, hout, hbelow ["L1"] ["L2"] rfl (by decide)⟩

end ScriptLift.Lift
