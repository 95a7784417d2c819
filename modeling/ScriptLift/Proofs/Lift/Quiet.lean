import ScriptLift.Proofs.Lift.Flow

/-!
# Rows that note nothing

Two things are noted while a handler is read: the labels met and the texts of its string records. All
rows but labels and the two ends of a handler leave them alone, and all rows but the end of a handler
give a state or a fault. Both are said at once of every part of a row.

* `State.notes`: what is noted; `FaultsOnly`: a computation that does not break down.
* `Quiet`: a computation that does not break down and notes nothing.
* `quiet_pop`, `quiet_branch`, `quiet_closeAll`, `quiet_declarationRow`: the parts of rows.
* **`quiet_dispatch`**: all rows but labels and the ends of handlers are quiet.
-/

namespace ScriptLift.Lift

variable {sy : Symbols} {opts : Options} {c : Cursor} {st : State}

/-- The labels met and the texts of the records. -/
def State.notes (st : State) : List String × Table String String := (st.seen, st.records)

@[simp] theorem State.notes_redirect (st : State) (a : Address) : (st.redirect a).notes = st.notes := by
  unfold State.redirect; split <;> rfl

/-- A computation that does not break down, though it may end with a fault. -/
def FaultsOnly {α : Type} (x : Except Halt α) : Prop := x ≠ .error .breakdown

section Quiet

variable {α β : Type} {get : α → State} {get' : β → State}

/-- A computation that does not break down and leads to what the state has noted. -/
structure Quiet (get : α → State) (st : State) (x : Except Halt α) : Prop where
  faultsOnly : FaultsOnly x
  notes : ∀ a, x = .ok a → (get a).notes = st.notes

namespace Quiet

theorem ok {a : α} (h : (get a).notes = st.notes) : Quiet get st (.ok a) where
  faultsOnly := nofun
  notes := by
    rintro _ ⟨⟩
    exact h

theorem fault (f : Fault) : Quiet get st (.error (.fault f)) := ⟨nofun, nofun⟩

theorem of_notes {st₀ : State} {x : Except Halt α} (hx : Quiet get st₀ x)
    (h : st₀.notes = st.notes) : Quiet get st x where
  faultsOnly := hx.faultsOnly
  notes := fun a ha => (hx.notes a ha).trans h

theorem bind {x : Except Halt α} {f : α → Except Halt β} (hx : Quiet get st x)
    (hf : ∀ a, x = .ok a → Quiet get' (get a) (f a)) : Quiet get' st (x >>= f) := by
  cases x with
  | error e =>
    refine ⟨?_, nofun⟩
    rintro ⟨⟩
    exact hx.faultsOnly rfl
  | ok a => exact (hf a rfl).of_notes (hx.notes a rfl)

theorem map {x : Except Halt α} (hx : Quiet get st x) {f : α → β}
    (hf : ∀ a, (get' (f a)).notes = (get a).notes) : Quiet get' st (x.map f) := by
  cases x with
  | error e =>
    refine ⟨?_, nofun⟩
    rintro ⟨⟩
    exact hx.faultsOnly rfl
  | ok a => exact .ok ((hf a).trans (hx.notes a rfl))

end Quiet

end Quiet

/-! ## Values -/

theorem quiet_pop (needed found : Nat) : Quiet Prod.snd st (st.pop needed found) := by
  unfold State.pop
  repeat' split
  all_goals first | exact .ok rfl | exact .fault _

theorem quiet_pop2 : Quiet (·.2.2) st st.pop2 :=
  (quiet_pop 2 0).bind fun _ _ => (quiet_pop 2 1).bind fun _ _ => .ok rfl

theorem quiet_addAt (s : Stmt) : Quiet Prod.fst st (st.addAt s) := by
  unfold State.addAt
  split
  · exact .fault _
  · exact .ok rfl

theorem quiet_addStmt (s : Stmt) : Quiet id st (st.add s) := (quiet_addAt s).map fun _ => rfl

theorem quiet_pushConst : Quiet id st (pushConst sy c st) := by
  unfold pushConst
  dsimp only
  repeat' split
  all_goals first | exact .ok rfl | exact .fault _

theorem quiet_pushString : Quiet id st (pushString c st) := by
  unfold pushString
  dsimp only
  split
  · exact .fault _
  · exact .ok rfl

theorem quiet_pushParameter : Quiet id st (pushParameter c st) := by
  unfold pushParameter
  dsimp only
  repeat' split
  all_goals first | exact .ok rfl | exact .fault _

theorem quiet_pushProperty : Quiet id st (pushProperty c st) := by
  unfold pushProperty
  dsimp only
  repeat' split
  all_goals first | exact .ok rfl | exact .fault _

theorem quiet_fetch : Quiet id st (fetch c st) := by
  unfold fetch
  repeat' split
  all_goals first | exact .ok rfl | exact .fault _

theorem quiet_binary (op : BinaryOp) : Quiet id st (binary sy op st) :=
  quiet_pop2.bind fun _ _ => .ok rfl

theorem quiet_unary (op : UnaryOp) : Quiet id st (unary op st) :=
  (quiet_pop 1 0).bind fun _ _ => .ok rfl

theorem quiet_add : Quiet id st (add sy c st) := by
  unfold add
  split
  · exact .ok rfl
  · refine quiet_pop2.bind fun x _ => ?_
    dsimp only
    repeat' split
    all_goals first | exact .ok rfl | exact .fault _

theorem quiet_call : Quiet id st (call sy c st) := by
  unfold call
  split
  · exact .fault _
  split
  · exact .fault _
  split
  · exact .fault _
  · rename_i args notes operands _
    have hpop : Quiet Prod.snd st (State.pop1 { st with operands }) := (quiet_pop 1 0).of_notes rfl
    exact hpop.bind fun _ _ => .ok rfl

theorem quiet_shift : Quiet id st (shift c st) := by
  unfold shift
  split
  · split
    · exact (quiet_addStmt _).of_notes rfl
    · exact .ok rfl
  · exact .ok rfl

theorem quiet_makeFor : Quiet id st (makeFor st) :=
  (quiet_pop 3 0).bind fun _ _ => (quiet_pop 3 1).bind fun _ _ => (quiet_pop 3 2).bind fun _ _ =>
    (quiet_addAt _).bind fun _ _ => .ok rfl

theorem quiet_assignTo (target value : Expr) : Quiet id st (assignTo sy target value st) := by
  unfold assignTo
  split
  · exact .ok rfl
  · exact .fault _

theorem quiet_assign (window : Nat) : Quiet id st (assign sy window c st) := by
  have hend : ∀ st₁ : State,
      Quiet id st₁ (if st₁.topIs Open.isPendingFor then makeFor st₁ else pure st₁) := by
    intro st₁
    split
    · exact quiet_makeFor
    · exact .ok rfl
  refine quiet_pop2.bind fun x _ => ?_
  dsimp only
  split
  · exact (hend _).of_notes rfl
  · exact (quiet_assignTo _ _).bind fun st₁ _ => hend st₁

/-! ## Branches -/

/-- A select is opened on the comparison that was looked at. -/
theorem pop1_of_peek? {e : Expr} (h : st.peek? = some e) : ∃ st', st.pop1 = .ok (e, st') := by
  unfold State.peek? State.block? at h
  unfold State.pop1 State.pop
  split at h
  · cases h
    simp
  · rename_i ho
    simp only [ho]
    cases hb : st.blocks with
    | nil => simp [hb] at h
    | cons a as =>
      simp only [hb, List.head?_cons, Option.map_some, Option.bind_some] at h
      obtain ⟨s, hs, he⟩ := Option.bind_eq_some_iff.mp h
      cases s <;> simp only [Stmt.expr?, reduceCtorEq, Option.some.injEq] at he
      subst he
      simp [hs]

section Branches

variable {target : String}

theorem quiet_openWhile : Quiet id st (openWhile target st) :=
  (quiet_pop 1 0).bind fun _ _ => (quiet_addAt _).bind fun _ _ => .ok rfl

theorem quiet_openIf : Quiet id st (openIf target st) :=
  (quiet_pop 1 0).bind fun _ _ => (quiet_addAt _).bind fun _ _ => .ok rfl

theorem quiet_openSelect (h : st.peek?.any Expr.isBinary) : Quiet id st (openSelect target st) := by
  obtain ⟨e, he, hbinary⟩ := (Option.any_eq_true ..).mp h
  obtain ⟨st₁, hpop⟩ := pop1_of_peek? he
  refine (quiet_pop 1 0).bind fun x hx => ?_
  obtain rfl : (e, st₁) = x := Except.ok.inj (hpop.symm.trans hx)
  cases e with
  | binary op scrutinee value => exact (quiet_addAt _).bind fun _ _ => .ok rfl
  | _ => simp [Expr.isBinary] at hbinary

theorem quiet_openCase : Quiet id st (openCase sy target st) := by
  have hpop : Quiet Prod.snd st (State.pop1 { st with statements := st.statements.tail }) :=
    (quiet_pop 1 0).of_notes rfl
  refine hpop.bind fun x _ => ?_
  dsimp only
  split
  · exact .ok (State.notes_redirect _ _)
  · exact .fault _

end Branches

theorem quiet_branch : Quiet id st (branch sy c st) := by
  unfold branch
  dsimp only
  split
  · exact .fault _
  split
  · exact quiet_openWhile
  split
  · exact quiet_openCase
  split
  · rename_i hselect
    unfold opensSelect at hselect
    split at hselect
    · rw [Bool.and_eq_true] at hselect
      exact quiet_openSelect hselect.2
    · cases hselect
  split
  · exact .ok rfl
  split
  · exact quiet_openIf
  · exact .ok rfl

theorem quiet_jump : Quiet id st (jump c st) := by
  unfold jump
  split
  · split
    · exact quiet_addStmt _
    · exact .ok rfl
  · exact .ok rfl

/-! ## Labels -/

theorem notes_closeArm (c : Cursor) (o : Open) (st : State) : (closeArm c o st).notes = st.notes := by
  unfold closeArm
  split <;> rfl

theorem quiet_closeOne : Quiet id st (closeOne c st) := by
  unfold closeOne
  dsimp only
  split
  · exact .fault _
  · rename_i s scrutinee arms rest _
    have hleft : Quiet id st (if endsInBreak c
        then State.add { st with targets := st.targets.tail, statements := rest } .brk
        else .ok { st with targets := st.targets.tail, statements := rest }) := by
      split
      · exact (quiet_addStmt _).of_notes rfl
      · exact .ok rfl
    exact hleft.map fun _ => notes_closeArm ..
  · repeat' split
    · exact .ok (State.notes_redirect _ _)
    · exact .ok rfl
    · exact .ok rfl
  · exact .ok rfl

theorem quiet_closeAll : Quiet id st (closeAll c st) := by
  induction st using closeAll.induct c with
  | case1 st ht st₁ hone _ ih =>
    rw [closeAll_step (by simpa using ht) hone]
    exact ih.of_notes (quiet_closeOne.notes st₁ hone)
  | case2 st ht e hone =>
    rw [closeAll_stuck (by simpa using ht) hone]
    refine ⟨?_, nofun⟩
    rintro ⟨⟩
    exact quiet_closeOne.faultsOnly hone
  | case3 st ht =>
    rw [closeAll_idle (by simpa using ht)]
    exact .ok rfl

/-! ## Declarations -/

theorem quiet_classBegin : Quiet id st (classBegin c st) := by
  unfold classBegin
  dsimp only
  repeat' split
  all_goals first | exact .ok rfl | exact .fault _

theorem quiet_tableBegin (kind : TableKind) : Quiet id st (tableBegin kind c st) := by
  unfold tableBegin
  split
  · exact .fault _
  · exact .ok rfl

theorem quiet_parameterDefault (name raw : String) :
    Quiet (fun _ => st) st (parameterDefault sy name raw) := by
  unfold parameterDefault
  repeat' split
  all_goals first | exact .ok rfl | exact .fault _

theorem quiet_parameterRow : Quiet id st (parameterRow sy c st) := by
  unfold parameterRow
  split
  · exact .fault _
  · dsimp only
    split
    · exact (quiet_parameterDefault _ _).bind fun _ _ => .ok rfl
    · exact .ok rfl

theorem quiet_variableRow : Quiet id st (variableRow sy c st) := by
  unfold variableRow
  dsimp only
  repeat' split
  all_goals first | exact .ok rfl | exact .fault _

theorem quiet_declarationRow : Quiet id st (declarationRow sy c st) := by
  unfold declarationRow
  split
  · exact quiet_parameterRow
  · refine .ok ?_
    unfold tableRow
    split <;> rfl
  · exact quiet_variableRow
  · exact .ok rfl
  · exact .ok rfl

/-! ## Rows -/

/-- **Rows that are no labels and do not begin or end a handler note nothing** and do not break
down. -/
theorem quiet_dispatch (hlabel : c.row.opcode ≠ .label) (hbegin : c.row.opcode ≠ .handlerBegin)
    (hend : c.row.opcode ≠ .handlerEnd) : Quiet id st (dispatch sy opts c st) := by
  unfold dispatch
  generalize c.row.opcode = op at hlabel hbegin hend
  cases op with
  | label => exact absurd rfl hlabel
  | handlerBegin => exact absurd rfl hbegin
  | handlerEnd => exact absurd rfl hend
  | classBegin => exact quiet_classBegin
  | buySellBegin | telPosBegin => exact quiet_tableBegin _
  | branchFalse => exact quiet_branch
  | jump => exact quiet_jump
  | shift => exact quiet_shift
  | assign => exact quiet_assign _
  | pushConst => exact quiet_pushConst
  | pushString => exact quiet_pushString
  | pushParameter => exact quiet_pushParameter
  | pushProperty => exact quiet_pushProperty
  | call => exact quiet_call
  | add | addString => exact quiet_add
  | fetch => exact quiet_fetch
  | callSuper | exitHandler => exact quiet_addStmt _
  | equal =>
    dsimp only
    split
    · exact .ok rfl
    · exact quiet_binary _
  | complement | negate => exact quiet_unary _
  | binary op => exact quiet_binary op
  | pushEvent | pushRegister | classEnd | declaration => exact quiet_declarationRow
  | _ => exact .ok rfl

end ScriptLift.Lift
