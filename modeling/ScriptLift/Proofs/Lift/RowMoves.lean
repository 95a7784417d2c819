import ScriptLift.Proofs.Lift.Flow
import ScriptLift.Proofs.Lift.Move

/-!
# Rows as moves

Every row that is taken changes the state by moves, and the moves bring about the events of the row.

* `Taken`: a value was taken, from the operands or from the current block.
* `moves_openWhile`, `moves_openCase`, `moves_makeFor`, `moves_closeOne`: the rows that open and
  close statements.
* **`moves_step`**: a row as moves.
* **`moves_trace`, `moves_run`**: the rows up to a moment, and all rows, as moves.
-/

namespace ScriptLift.Lift

theorem bind_ok {α β : Type} {x : Except Halt α} {f : α → Except Halt β} {b : β}
    (h : (x >>= f) = .ok b) : ∃ a, x = .ok a ∧ f a = .ok b := by
  cases x with
  | error e => cases h
  | ok a => exact ⟨a, rfl, h⟩

variable {sy : Symbols} {opts : Options} {c : Cursor} {st st' : State}

/-! ## Taking values -/

/-- A value was taken, from the operands or from the current block. -/
structure Taken (st : State) (e : Expr) (st' : State) : Prop where
  moves : Moves st [] st'
  whole : e.isWhole
  statements : st'.statements = st.statements
  blocks : st'.blocks = st.blocks

theorem taken_pop {e : Expr} {needed found : Nat} (hw : st.WellFormed)
    (h : st.pop needed found = .ok (e, st')) : Taken st e st' := by
  unfold State.pop at h
  split at h
  · rename_i e rest ho
    simp only [Except.ok.injEq, Prod.mk.injEq] at h
    obtain ⟨rfl, rfl⟩ := h
    have he : e.isWhole := hw.values.operands e (by simp [ho])
    exact ⟨.one (.drop (by simp [ho])), he, rfl, rfl⟩
  · split at h
    · simp at h
    · rename_i a as ha
      split at h
      · simp at h
      · rename_i e hlast
        simp only [Except.ok.injEq, Prod.mk.injEq] at h
        obtain ⟨rfl, rfl⟩ := h
        obtain ⟨b, hb⟩ := Option.isSome_iff_exists.mp (hw.places.blocks a (by simp [ha]))
        rw [hb, Option.getD_some] at hlast
        have hsplit : b = b.dropLast ++ [.eval e] :=
          (List.dropLast_append_getLast? _ hlast).symm
        have hfull := areFull_of_getBlock? hw.values.bodies hb
        have he : (Stmt.eval e).isFull :=
          Stmt.areFull_iff.mp hfull _ (by rw [hsplit]; simp)
        exact ⟨.one (.take ha (hsplit ▸ hb)), he, rfl, rfl⟩
      · simp at h

theorem Taken.wellFormed {e : Expr} (h : Taken st e st') (hw : st.WellFormed) : st'.WellFormed :=
  h.moves.wellFormed hw

theorem pop2_ok {l r : Expr} (hw : st.WellFormed) (h : st.pop2 = .ok (l, r, st')) :
    ∃ st₁, Taken st r st₁ ∧ Taken st₁ l st' := by
  obtain ⟨⟨r', st₁⟩, h₁, h⟩ := bind_ok h
  obtain ⟨⟨l', st₂⟩, h₂, h⟩ := bind_ok h
  obtain ⟨rfl, rfl, rfl⟩ : l' = l ∧ r' = r ∧ st₂ = st' := by simpa [pure, Except.pure] using h
  have t₁ := taken_pop hw h₁
  exact ⟨st₁, t₁, taken_pop (t₁.wellFormed hw) h₂⟩

/-- Labels, known names and records may change. -/
theorem Move.noted {mode : Mode} {targets seen : List String} {records types : Table String String}
    (hm : mode = st.mode) : Move st [] { st with mode, targets, seen, records, types } := by
  subst hm
  exact .aside rfl rfl rfl rfl rfl rfl id

/-! ## Values -/

theorem moves_pushConst (h : pushConst sy c st = .ok st') : Moves st [] st' := by
  unfold pushConst at h
  dsimp only at h
  split at h
  · split at h
    · simp [malformed] at h
    · split at h
      · simp [unresolved] at h
      · cases h
        exact .one (.push rfl)
  · split at h
    · split at h
      · simp [malformed] at h
      · cases h
        exact .one (.push rfl)
    · split at h
      · simp [malformed] at h
      · cases h
        exact .one (.push rfl)

theorem moves_pushString (h : pushString c st = .ok st') : Moves st [] st' := by
  unfold pushString at h
  dsimp only at h
  split at h
  · simp [malformed] at h
  · cases h
    exact .one (.push rfl)

theorem moves_pushParameter (h : pushParameter c st = .ok st') : Moves st [] st' := by
  unfold pushParameter at h
  dsimp only at h
  split at h
  · simp [malformed] at h
  · split at h <;> cases h
    · exact .one (.push rfl)
    · exact (Moves.one (.push rfl)).trans (.one (.noted rfl))

theorem moves_pushProperty (h : pushProperty c st = .ok st') : Moves st [] st' := by
  unfold pushProperty at h
  dsimp only at h
  split at h
  · simp [malformed] at h
  · split at h
    · simp [malformed] at h
    · cases h
      exact .one (.push rfl)

theorem moves_fetch (hw : st.WellFormed) (h : fetch c st = .ok st') : Moves st [] st' := by
  unfold fetch at h
  split at h
  · split at h
    · rename_i e rest ho
      cases h
      exact .one (.push (hw.values.operands e (by simp [ho])))
    · simp [shortage] at h
  · cases h
    exact .nil _

theorem moves_binary {op : BinaryOp} (hw : st.WellFormed) (h : binary sy op st = .ok st') :
    Moves st [] st' := by
  obtain ⟨⟨l, r, st₂⟩, h₂, h⟩ := bind_ok h
  obtain ⟨st₁, tr, tl⟩ := pop2_ok hw h₂
  cases h
  exact (tr.moves.trans tl.moves).trans (.one (.push (isWhole_combine sy op tl.whole tr.whole)))

theorem moves_add (hw : st.WellFormed) (h : add sy c st = .ok st') : Moves st [] st' := by
  unfold add at h
  split at h
  · cases h
    exact .nil _
  · obtain ⟨⟨l, r, st₂⟩, h₂, h⟩ := bind_ok h
    obtain ⟨st₁, tr, tl⟩ := pop2_ok hw h₂
    have hsum : Moves st [] (st₂.push (combine sy .add l r)) :=
      (tr.moves.trans tl.moves).trans (.one (.push (isWhole_combine sy .add tl.whole tr.whole)))
    dsimp only at h
    split at h
    · split at h
      · cases h
        exact hsum
      · split at h
        · simp [unresolved] at h
        · cases h
          refine (tr.moves.trans tl.moves).trans (.one (.push ?_))
          simp [Expr.isWhole, tl.whole]
    · cases h
      exact hsum

theorem moves_unary {op : UnaryOp} (hw : st.WellFormed) (h : unary op st = .ok st') :
    Moves st [] st' := by
  obtain ⟨⟨e, st₁⟩, h₁, h⟩ := bind_ok h
  have t := taken_pop hw h₁
  cases h
  exact t.moves.trans (.one (.push (Expr.isWhole_ofUnary op t.whole)))

theorem moves_call (hw : st.WellFormed) (h : call sy c st = .ok st') : Moves st [] st' := by
  unfold call at h
  split at h
  · simp [malformed] at h
  · split at h
    · simp [unresolved] at h
    · split at h
      · simp [shortage] at h
      · rename_i args notes operands htake
        obtain ⟨hargs, hrest⟩ := takeArguments_whole sy htake hw.values.operands (by simp)
        have hdrop : Move st [] { st with operands } := .drop hrest
        obtain ⟨⟨owner, st₁⟩, h₁, h⟩ := bind_ok h
        have t := taken_pop (hdrop.wellFormed hw) h₁
        cases h
        refine ((Moves.one hdrop).trans t.moves).trans (.one (.push ?_))
        simp [Expr.isWhole, t.whole, Expr.areWhole_iff.mpr hargs]

theorem add_ok {s : Stmt} (h : st.add s = .ok st') : ∃ a as, st.blocks = a :: as ∧
    st' = { st with handlers := modifyBlock st.handlers a (· ++ [s]) } := by
  unfold State.add at h
  cases hadd : st.addAt s with
  | error e => simp [hadd, Except.map] at h
  | ok x =>
    obtain ⟨st₁, p⟩ := x
    obtain ⟨a, as, ha, -, rfl⟩ := Move.addAt_inv hadd
    simp only [hadd, Except.map, Except.ok.injEq] at h
    exact ⟨a, as, ha, h.symm⟩

theorem moves_shift (hw : st.WellFormed) (h : shift c st = .ok st') : Moves st [] st' := by
  unfold shift at h
  split at h
  · rename_i e rest _ ho
    split at h
    · have he : e.isWhole := hw.values.operands e (by simp [ho])
      have hdrop : Move st [] { st with operands := rest } := .drop (by simp [ho])
      obtain ⟨a, as, ha, rfl⟩ := add_ok h
      exact (Moves.one hdrop).trans (.one (.eval ha he))
    · cases h
      exact .nil _
  · cases h
    exact .nil _

/-! ## Single statements -/

theorem moves_leave {s : Stmt} {k : Kind} (hs : isSingle s) (hk : s.kind? = some k)
    (h : st.add s = .ok st') : Moves st [.made k] st' := by
  obtain ⟨a, as, ha, rfl⟩ := add_ok h
  exact .one (.leave ha hs hk)

theorem moves_jump (h : jump c st = .ok st') :
    Moves st (if leavesLoop c st then [.made .brk] else []) st' := by
  unfold jump at h
  unfold leavesLoop
  cases hd : loopDepth? st with
  | none =>
    simp only [hd, Except.ok.injEq] at h
    subst h
    exact .nil _
  | some i =>
    simp only [hd] at h
    simp only [Option.any_some]
    split at h
    · rename_i ht
      rw [if_pos ht]
      exact moves_leave rfl rfl h
    · rename_i ht
      rw [if_neg ht]
      cases h
      exact .nil _

/-! ## Statements that open -/

theorem moves_assignTo {target value : Expr} (ht : target.isWhole) (hv : value.isWhole)
    (h : assignTo sy target value st = .ok st') :
    Moves st [] st' ∧ st'.statements = st.statements := by
  unfold assignTo at h
  split at h
  · cases h
    exact ⟨.one (.push (Expr.isWhole_assign ht (isWhole_resolveLiteral sy _ hv))), rfl⟩
  · simp [malformed] at h

/-- The three values of a for loop are taken and the mark gives way to the loop. -/
theorem moves_makeFor {os : List Open} (hw : st.WellFormed) (hs : st.statements = .pendingFor :: os)
    (h : makeFor st = .ok st') : Moves st [.made .forLoop] st' := by
  obtain ⟨⟨update, st₁⟩, h₁, h⟩ := bind_ok h
  obtain ⟨⟨cond, st₂⟩, h₂, h⟩ := bind_ok h
  obtain ⟨⟨init, st₃⟩, h₃, h⟩ := bind_ok h
  obtain ⟨⟨st₄, p⟩, h₄, h⟩ := bind_ok h
  have t₁ := taken_pop hw h₁
  have t₂ := taken_pop (t₁.wellFormed hw) h₂
  have t₃ := taken_pop (t₂.wellFormed (t₁.wellFormed hw)) h₃
  have hs₃ : st₃.statements = .pendingFor :: os := by
    rw [t₃.statements, t₂.statements, t₁.statements, hs]
  obtain ⟨a, as, ha, rfl, rfl⟩ := Move.addAt_inv h₄
  cases h
  -- The loop may as well be added after the mark was taken off.
  have hadd : State.addAt { st₃ with statements := os } (.forLoop init cond update []) =
      .ok ({ st₃ with
        statements := os
        handlers := modifyBlock st₃.handlers a (· ++ [.forLoop init cond update []]) },
        ⟨a, ((getBlock? st₃.handlers a).getD []).length⟩) := by
    simp [State.addAt, ha]
  have henter := Move.enter hadd (.forLoop init cond update) rfl
    (by simp [Stmt.isFull, Stmt.areFull, t₁.whole, t₂.whole, t₃.whole])
  have hmoves := (((t₁.moves.trans t₂.moves).trans t₃.moves).trans
    (.one (.unmark hs₃ rfl))).trans (.one henter)
  simpa [State.enter, hs₃] using hmoves

theorem moves_assign (hw : st.WellFormed) (h : assign sy opts.window c st = .ok st') :
    Moves st (if st.topIs Open.isPendingFor then [.made .forLoop] else []) st' := by
  obtain ⟨⟨target, value, st₂⟩, h₂, h⟩ := bind_ok h
  obtain ⟨st₁, tv, tt⟩ := pop2_ok hw h₂
  obtain ⟨st₃, hpush, hsame, h⟩ : ∃ st₃, Moves st₂ [] st₃ ∧ st₃.statements = st₂.statements ∧
      (if st₃.topIs Open.isPendingFor then makeFor st₃ else .ok st₃) = .ok st' := by
    dsimp only at h
    split at h
    · rename_i op _
      exact ⟨st₂.push (.unary op target), .one (.push tt.whole), rfl, h⟩
    · obtain ⟨st₃, h₃, h⟩ := bind_ok h
      obtain ⟨hpush, hsame⟩ := moves_assignTo tt.whole tv.whole h₃
      exact ⟨st₃, hpush, hsame, h⟩
  have hmoves : Moves st [] st₃ := (tv.moves.trans tt.moves).trans hpush
  have hs : st₃.statements = st.statements := by
    rw [hsame, tt.statements, tv.statements]
  have htop : st₃.topIs Open.isPendingFor = st.topIs Open.isPendingFor := by
    simp [State.topIs, hs]
  rw [htop] at h
  split at h
  · rename_i hfor
    rw [if_pos hfor]
    cases hst : st.statements with
    | nil => simp [State.topIs, hst] at hfor
    | cons o os =>
      cases o <;> simp [State.topIs, hst, Open.isPendingFor] at hfor
      exact hmoves.trans (moves_makeFor (hmoves.wellFormed hw) (hs.trans hst) h)
  · rename_i hfor
    rw [if_neg hfor]
    cases h
    exact hmoves

/-- A statement with a first body is added, and its end is awaited. -/
theorem moves_enter {st₁ : State} {p : StmtAddress} {s : Stmt} {o : Open} {slot : Slot} {k : Kind}
    (hadd : st.addAt s = .ok (st₁, p)) (ho : Opens p s o slot) (hk : s.kind? = some k)
    (hs : s.isFull) (target : String) :
    Moves st [.made k] (endsAt target (st₁.enter o (p.body slot))) :=
  (Moves.one (.enter hadd ho hk hs)).trans (.one (.noted rfl))

theorem moves_openWhile {target : String} (hw : st.WellFormed) (h : openWhile target st = .ok st') :
    Moves st [.made .whileLoop] st' := by
  obtain ⟨⟨cond, st₁⟩, h₁, h⟩ := bind_ok h
  obtain ⟨⟨st₂, p⟩, h₂, h⟩ := bind_ok h
  have t := taken_pop hw h₁
  cases h
  exact t.moves.trans (moves_enter h₂ (.whileLoop cond) rfl
    (by simp [Stmt.isFull, Stmt.areFull, t.whole]) target)

theorem moves_openIf {target : String} (hw : st.WellFormed) (h : openIf target st = .ok st') :
    Moves st [.made .ifElse] st' := by
  obtain ⟨⟨cond, st₁⟩, h₁, h⟩ := bind_ok h
  obtain ⟨⟨st₂, p⟩, h₂, h⟩ := bind_ok h
  have t := taken_pop hw h₁
  cases h
  exact t.moves.trans (moves_enter h₂ (.conditional cond) rfl
    (by simp [Stmt.isFull, Stmt.areFull, t.whole]) target)

theorem moves_openSelect {target : String} (hw : st.WellFormed)
    (h : openSelect target st = .ok st') : Moves st [.made .select] st' := by
  obtain ⟨⟨e, st₁⟩, h₁, h⟩ := bind_ok h
  have t := taken_pop hw h₁
  have hwhole := t.whole
  dsimp only at h
  split at h
  · rename_i op scrutinee value
    simp only [Expr.isWhole, Bool.and_eq_true] at hwhole
    obtain ⟨⟨st₂, p⟩, h₂, h⟩ := bind_ok h
    cases h
    exact t.moves.trans (moves_enter h₂ (.select scrutinee value) rfl
      (by simp [Stmt.isFull, Stmt.casesFull, Stmt.areFull, hwhole]) target)
  · cases h

/-- The mark gives way to a further arm of the select below it. -/
theorem moves_openCase {target : String} {o : Open} {os : List Open} (hw : st.WellFormed)
    (hs : st.statements = o :: os) (ho : o.own? = none) (h : openCase sy target st = .ok st') :
    Moves st [] st' := by
  have hunmark : Move st [] { st with statements := st.statements.tail } := by
    rw [hs]
    exact .unmark hs ho
  obtain ⟨⟨value, st₁⟩, h₁, h⟩ := bind_ok h
  have t := taken_pop (hunmark.wellFormed hw) h₁
  dsimp only at h
  split at h
  · rename_i s scrutinee arms rest hs₁
    cases h
    exact (((Moves.one hunmark).trans t.moves).trans
      (.one (.arm hs₁ (isWhole_resolveLiteral sy _ t.whole)))).trans (.one (.noted rfl))
  · simp [malformed] at h

theorem moves_branch (hw : st.WellFormed) (h : branch sy c st = .ok st') :
    Moves st (branchEvents c st) st' := by
  unfold branch at h
  unfold branchEvents
  dsimp only at h
  split at h
  · simp [malformed] at h
  split at h
  · rename_i hwhile
    rw [if_pos hwhile]
    exact moves_openWhile hw h
  rename_i hwhile
  rw [if_neg hwhile]
  split at h
  · rename_i hcase
    rw [if_pos hcase]
    cases hst : st.statements with
    | nil => simp [State.topIs, hst] at hcase
    | cons o os =>
      cases o <;> simp [State.topIs, hst, Open.isPendingCase] at hcase
      exact moves_openCase hw hst rfl h
  rename_i hcase
  rw [if_neg hcase]
  split at h
  · rename_i hselect
    rw [if_pos hselect]
    exact moves_openSelect hw h
  rename_i hselect
  rw [if_neg hselect]
  split at h
  · rename_i hjump
    rw [if_pos hjump]
    cases h
    exact (Moves.one .mark).trans (.one (.noted rfl))
  rename_i hjump
  rw [if_neg hjump]
  split at h
  · rename_i hif
    rw [if_pos hif]
    exact moves_openIf hw h
  · rename_i hif
    rw [if_neg hif]
    cases h
    exact .nil _

/-! ## Statements that close -/

theorem moves_closeArm {s : StmtAddress} {e : Expr} {n : Nat} {os : List Open} {targets : List String}
    (hs : st.statements = .select s e n :: os) :
    Moves st
      [.closed ⟨.select s e n, st.blocks,
        (closeArm c (.select s e n) { st with targets, statements := os }).blocks⟩]
      (closeArm c (.select s e n) { st with targets, statements := os }) := by
  unfold closeArm
  split
  · exact (Moves.one (.await hs)).trans (.one (.noted rfl))
  · exact (Moves.one (.close hs)).trans (.one (.noted rfl))

theorem moves_closeOne (h : closeOne c st = .ok st') : Moves st (closingEvents c st st') st' := by
  unfold closeOne at h
  unfold closingEvents
  split at h
  · simp [shortage] at h
  · rename_i s e n os hs
    simp only [hs, Open.isSelect, Bool.true_and]
    dsimp only at h
    split at h
    · rename_i hbreak
      rw [if_pos hbreak]
      cases hadd : State.add { st with targets := st.targets.tail, statements := os } .brk with
      | error e => simp [hadd, Except.map] at h
      | ok st₁ =>
        simp only [hadd, Except.map, Except.ok.injEq] at h
        obtain ⟨a, as, ha, rfl⟩ := add_ok hadd
        subst h
        -- The break goes into the arm before the select is closed.
        have hleave : Move st [.made .brk]
            { st with handlers := modifyBlock st.handlers a (· ++ [.brk]) } := .leave ha rfl rfl
        exact (Moves.one hleave).trans (moves_closeArm hs)
    · rename_i hbreak
      rw [if_neg hbreak]
      cases h
      exact moves_closeArm hs
  · rename_i s os hs
    simp only [hs, Open.isSelect, Bool.false_and]
    have hclose : Moves st [.closed ⟨.conditional s, st.blocks, st.blocks.tail⟩]
        (State.leaveBlock { st with targets := st.targets.tail, statements := os }) :=
      (Moves.one (.close hs)).trans (.one (.noted rfl))
    dsimp only at h
    split at h
    · rename_i prev _
      split at h <;> cases h
      · have hnoted : Move st [] { st with targets := prev.operand 0 :: st.targets.tail } :=
          .noted rfl
        exact (Moves.one hnoted).trans (.one (.turn hs))
      · exact hclose
    · cases h
      exact hclose
  · rename_i o os hselect hif hs
    have ho : o.isSelect = false := by
      cases o <;> first | rfl | exact absurd rfl (hselect _ _ _)
    simp only [hs, ho, Bool.false_and]
    cases h
    exact (Moves.one (.close hs)).trans (.one (.noted rfl))

/-- Closing at a label, up to the statement that cannot be closed, if there is one. -/
theorem moves_label (c : Cursor) (st : State) : ∃ st', Moves st (labelEvents c st) st' ∧
    ∀ st₁, closeAll c st = .ok st₁ → st₁ = st' := by
  induction st using closeAll.induct c with
  | case1 st ht st₁ hone _ ih =>
    have hmem : c.row.name ∈ st.targets := by simpa using ht
    rw [labelEvents_step hmem hone, closeAll_step hmem hone]
    obtain ⟨st', hmoves, hend⟩ := ih
    exact ⟨st', (moves_closeOne hone).trans hmoves, hend⟩
  | case2 st ht e hone =>
    have hmem : c.row.name ∈ st.targets := by simpa using ht
    rw [labelEvents_stuck hmem hone, closeAll_stuck hmem hone]
    exact ⟨st, .nil _, by simp⟩
  | case3 st ht =>
    have hmem : c.row.name ∉ st.targets := by simpa using ht
    rw [labelEvents_idle hmem, closeAll_idle hmem]
    exact ⟨st, .nil _, by simp⟩

/-! ## Declarations -/

namespace Sections

variable {mode mode' : Mode} {decl : Option ClassDecl}

/-- Sections that add to nothing begun before ask for nothing. -/
theorem plain (h : Sections mode decl) (ht : ∀ kind, mode' ≠ .table kind false)
    (hp : mode' ≠ .parameterText) : Sections mode' decl :=
  ⟨fun kind hk => absurd hk (ht kind), fun hk => absurd hk hp, h.defaults⟩

theorem parameter {d : ClassDecl} {p : Parameter} {goesOn : Bool} (h : Sections mode (some d))
    (hm : mode = .parameters) (hp : p.value.isHole || p.value.isWhole)
    (hs : goesOn → ∃ s, p.value = .str s) :
    Sections (if goesOn then .parameterText else mode)
      (some { d with parameters := d.parameters ++ [p] }) := by
  subst hm
  refine ⟨fun kind hk => ?_, fun hk => ?_, fun d' hd x hx => ?_⟩
  · split at hk <;> cases hk
  · split at hk
    · rename_i hg
      obtain ⟨s, hs⟩ := hs hg
      exact ⟨_, p, s, rfl, by simp, hs⟩
    · cases hk
  · obtain rfl := Option.some.inj hd
    rcases List.mem_append.mp hx with hx | hx
    · exact h.defaults d rfl x hx
    · obtain rfl := List.mem_singleton.mp hx
      exact hp

theorem isWhole_appendText (line : String) {p : Parameter} (h : p.value.isHole || p.value.isWhole) :
    (appendText line p).value.isHole || (appendText line p).value.isWhole := by
  unfold appendText
  split
  · rfl
  · exact h

theorem text_line (h : Sections .parameterText decl) (line : String)
    (hm : mode' = .parameters ∨ mode' = .parameterText) :
    Sections mode' (decl.map fun d =>
      { d with parameters := d.parameters.modify (d.parameters.length - 1) (appendText line) }) := by
  obtain ⟨d, p, s, rfl, hp, hs⟩ := h.text rfl
  refine ⟨fun kind hk => ?_, fun _ => ?_, fun d' hd x hx => ?_⟩
  · rcases hm with rfl | rfl <;> cases hk
  · refine ⟨_, appendText line p, s ++ "\n\t" ++ Text.unquoted line, rfl, ?_, ?_⟩
    · rw [List.getLast?_eq_getElem?] at hp ⊢
      simp [hp]
    · simp [appendText, hs]
  · obtain rfl := Option.some.inj hd
    rcases mem_modify hx with hx | ⟨y, hy, rfl⟩
    · exact h.defaults d rfl x hx
    · exact isWhole_appendText line (h.defaults d rfl y hy)

theorem table_row {kind : TableKind} (h : Sections (.table kind false) decl) (row : PropertyRow) :
    Sections (.table kind false) (decl.map (addTableRow row)) := by
  obtain ⟨d, p, rfl, hp, ht⟩ := h.table kind rfl
  refine ⟨fun kind' hk => ?_, fun hk => ?_, fun d' hd x hx => ?_⟩
  · obtain rfl : kind = kind' := by simpa using hk
    refine ⟨_, { p with rows := p.rows ++ [row] }, rfl, ?_, ht⟩
    rw [List.getLast?_eq_getElem?] at hp ⊢
    simp [addTableRow, hp]
  · cases hk
  · obtain rfl := Option.some.inj hd
    exact h.defaults d rfl x hx

theorem table_begin {d : ClassDecl} (h : Sections mode (some d)) (kind : TableKind) (name : String) :
    Sections (.table kind false)
      (some { d with properties := d.properties ++ [⟨kind.typeName, name, []⟩] }) := by
  refine ⟨fun kind' hk => ?_, fun hk => ?_, fun d' hd x hx => ?_⟩
  · obtain rfl : kind = kind' := by simpa using hk
    exact ⟨_, _, rfl, List.getLast?_concat, rfl⟩
  · cases hk
  · obtain rfl := Option.some.inj hd
    exact h.defaults d rfl x hx

end Sections

/-- Sections begin and end. -/
theorem Move.section {mode : Mode} (ht : ∀ kind, mode ≠ .table kind false)
    (hp : mode ≠ .parameterText) : Move st [] { st with mode } :=
  .aside rfl rfl rfl rfl rfl rfl fun h => h.plain ht hp

theorem moves_classBegin (hm : st.mode ≠ .parameterText) (h : classBegin c st = .ok st') :
    Moves st [.newClass] st' := by
  unfold classBegin at h
  dsimp only at h
  split at h
  · cases h
    exact .one (.newClass hm rfl)
  · split at h
    · split at h
      · simp [malformed] at h
      · cases h
        exact .one (.newClass hm rfl)
    · simp [malformed] at h

theorem moves_tableBegin {kind : TableKind} (h : tableBegin kind c st = .ok st') :
    Moves st [] st' := by
  unfold tableBegin at h
  split at h
  · simp [malformed] at h
  · rename_i d hd
    cases h
    exact .one (.aside rfl rfl rfl rfl rfl (by simp [hd]) fun h =>
      Sections.table_begin (hd ▸ h) kind _)

theorem moves_handlerBegin (h : handlerBegin sy c st = .ok st') : Moves st [.newHandler] st' := by
  unfold handlerBegin at h
  split at h
  · simp [malformed] at h
  · rename_i d hd
    split at h
    · simp [malformed] at h
    · split at h
      · simp [unresolved] at h
      · rename_i name _
        cases h
        exact (Moves.one (.newHandler name (by simp [hd]))).trans (.one (.noted rfl))

theorem moves_handlerEnd (h : handlerEnd st = .ok st') : Moves st [] st' := by
  unfold handlerEnd at h
  split at h
  · cases h
  · cases h
    exact .one .leaveHandler

theorem parameterDefault_ok {name raw : String} {value : Expr} {goesOn : Bool}
    (h : parameterDefault sy name raw = .ok (value, goesOn)) :
    value.isWhole ∧ (goesOn → ∃ s, value = .str s) := by
  unfold parameterDefault at h
  split at h
  · cases h
    exact ⟨rfl, fun _ => ⟨_, rfl⟩⟩
  · split at h
    · split at h
      · simp [malformed] at h
      · cases h
        exact ⟨rfl, by simp⟩
    · split at h
      · simp [malformed] at h
      · simp only [Except.ok.injEq, Prod.mk.injEq] at h
        obtain ⟨rfl, rfl⟩ := h
        exact ⟨isWhole_resolve sy _ _, by simp⟩

theorem moves_parameterRow (hm : st.mode = .parameters) (h : parameterRow sy c st = .ok st') :
    Moves st [] st' := by
  unfold parameterRow at h
  split at h
  · simp [malformed] at h
  · rename_i d hd
    have key : ∀ value : Expr, ∀ goesOn : Bool, value.isHole || value.isWhole →
        (goesOn → ∃ s, value = .str s) → ∀ type name types, Moves st [] { st with
          mode := if goesOn then .parameterText else st.mode
          decl := some { d with parameters := d.parameters ++ [⟨type, name, value⟩] }
          types } :=
      fun value goesOn hv hs type name types =>
        .one (.aside rfl rfl rfl rfl rfl (by simp [hd]) fun h =>
          Sections.parameter (hd ▸ h) hm hv hs)
    dsimp only at h
    split at h
    · obtain ⟨⟨value, goesOn⟩, hdefault, h⟩ := bind_ok h
      obtain ⟨hv, hs⟩ := parameterDefault_ok hdefault
      cases h
      exact key value goesOn (by simp [hv]) hs _ _ _
    · cases h
      exact key .hole false rfl (by simp) _ _ _

theorem moves_variableRow (h : variableRow sy c st = .ok st') : Moves st [] st' := by
  unfold variableRow at h
  split at h
  · simp [malformed] at h
  · dsimp only at h
    split at h
    · cases h
      exact .nil _
    · split at h
      · cases h
        exact .nil _
      · cases h
        refine .one (.aside rfl rfl rfl ?_ rfl rfl id)
        refine List.ext_getElem? fun i => ?_
        simp only [List.getElem?_map, List.getElem?_modify]
        cases st.handlers[i]? with
        | none => rfl
        | some x => by_cases hi : st.handlers.length - 1 = i <;> simp [hi]

theorem moves_declarationRow (h : declarationRow sy c st = .ok st') : Moves st [] st' := by
  unfold declarationRow at h
  split at h
  · rename_i hm
    exact moves_parameterRow hm h
  · rename_i kind replaced hm
    cases h
    unfold tableRow
    split
    · exact .nil _
    · rename_i hr
      obtain rfl : replaced = false := by simpa using hr
      refine .one (.aside rfl rfl rfl rfl rfl (by simp) fun h => ?_)
      rw [hm] at h
      simpa [hm] using h.table_row _
  · exact moves_variableRow h
  · cases h
    exact .nil _
  · cases h
    exact .nil _

/-! ## All rows -/

theorem moves_dispatch (hw : st.WellFormed) (hm : st.mode ≠ .parameterText)
    (h : dispatch sy opts c st = .ok st') : Moves st (rowEvents c st) st' := by
  unfold dispatch at h
  unfold rowEvents
  generalize c.row.opcode = op at h
  cases op with
  | blank | record => cases h; exact .nil _
  | classBegin => exact moves_classBegin hm h
  | parametersBegin | variablesBegin | parametersEnd | variablesEnd | buySellEnd | telPosEnd =>
    cases h
    exact .one (.section (by simp) (by simp))
  | buySellBegin | telPosBegin => exact moves_tableBegin h
  | handlerBegin => exact moves_handlerBegin h
  | handlerEnd => exact moves_handlerEnd h
  | branchFalse => exact moves_branch hw h
  | jump => exact moves_jump h
  | shift => exact moves_shift hw h
  | assign => exact moves_assign hw h
  | pushConst => exact moves_pushConst h
  | pushString => exact moves_pushString h
  | pushParameter => exact moves_pushParameter h
  | pushProperty => exact moves_pushProperty h
  | call => exact moves_call hw h
  | add | addString => exact moves_add hw h
  | fetch => exact moves_fetch hw h
  | callSuper | exitHandler => exact moves_leave rfl rfl h
  | equal =>
    dsimp only at h
    split at h
    · cases h
      exact .nil _
    · exact moves_binary hw h
  | complement | negate => exact moves_unary hw h
  | binary op => exact moves_binary hw h
  | label =>
    obtain ⟨st₁, hmoves, hend⟩ := moves_label c { st with seen := c.row.name :: st.seen }
    obtain rfl := hend st' h
    exact (Moves.one (.noted rfl)).trans hmoves
  | pushEvent | pushRegister | classEnd | declaration => exact moves_declarationRow h

theorem moves_parameterText (hm : st.mode = .parameterText) : Moves st [] (parameterText c st) := by
  refine .one (.aside rfl rfl rfl rfl rfl (by simp [parameterText]) fun h => ?_)
  rw [hm] at h
  refine h.text_line _ ?_
  unfold parameterText
  dsimp only
  split <;> simp

/-- **A row as moves**, which bring about the events of the row. -/
theorem moves_step (hw : st.WellFormed) (h : step sy opts c st = .ok st') :
    Moves st (events ⟨c, st⟩) st' := by
  by_cases hm : st.mode = .parameterText
  · simp only [step, hm, Except.ok.injEq] at h
    subst h
    simpa [events, hm] using moves_parameterText hm
  · rw [events_of_ne hm]
    rw [step_eq_dispatch hm] at h
    exact moves_dispatch hw hm h

/-! ## Runs -/

theorem wellFormed_step (c : Cursor) (st st' : State) (hw : st.WellFormed)
    (h : step sy opts c st = .ok st') : st'.WellFormed :=
  (moves_step hw h).wellFormed hw

/-- **The rows up to a moment, as moves.** -/
theorem moves_trace {before rows : List Row} {earlier later : List Moment} {m : Moment}
    (hw : st.WellFormed) (h : trace sy opts before rows st = earlier ++ m :: later) :
    Moves st (earlier.flatMap events) m.state := by
  induction rows generalizing before st earlier with
  | nil => simp [trace] at h
  | cons row after ih =>
    cases earlier with
    | nil =>
      rw [trace, List.nil_append, List.cons.injEq] at h
      rw [← h.1]
      exact .nil _
    | cons x earlier =>
      cases hstep : step sy opts ⟨before, row, after⟩ st with
      | error e => simp [trace_error hstep] at h
      | ok st₁ =>
        rw [trace_ok hstep, List.cons_append, List.cons.injEq] at h
        obtain ⟨rfl, h⟩ := h
        exact (moves_step hw hstep).trans (ih (wellFormed_step _ _ _ hw hstep) h)

/-- **All rows, as moves.** -/
theorem moves_run {before rows : List Row} (hw : st.WellFormed)
    (h : run sy opts before rows st = .ok st') :
    Moves st ((trace sy opts before rows st).flatMap events) st' := by
  induction rows generalizing before st with
  | nil =>
    obtain rfl : st = st' := by simpa [run] using h
    exact .nil _
  | cons row after ih =>
    cases hstep : step sy opts ⟨before, row, after⟩ st with
    | error e => simp [run_error hstep] at h
    | ok st₁ =>
      rw [trace_ok hstep, List.flatMap_cons]
      exact (moves_step hw hstep).trans (ih (wellFormed_step _ _ _ hw hstep) (run_ok hstep ▸ h))

end ScriptLift.Lift
