import ScriptLift.Lift.Operand

/-!
# Lifting of control flow

Conditional branches open statements, labels close them, jumps leave loops. The shape of a
statement shows in the rows around its branch and its label.

* `ahead?`: the label a branch goes to, when it lies ahead.
* `branch`: what a conditional branch opens.
* `closeLabel`: everything that ends at a label.
* `jump`: a jump out of a loop.
-/

namespace ScriptLift.Lift

variable (sy : Symbols)

/-- The row before and the row after the label that a row branches to, when that label lies ahead
and was not met in this handler. -/
def ahead? (st : State) (row : Row) (after : List Row) : Option (Row × Option Row) :=
  let target := row.operand 0
  if st.seen.contains target then none else lastLabel? target row after

/-- A branch over a jump back to a label already met. -/
def opensWhile (c : Cursor) (st : State) : Bool :=
  match ahead? st c.row c.after with
  | some (back, _) => back.opcode == .jump && st.seen.contains (back.operand 0)
  | none => false

/-- A branch over a jump, to where a select reads its value again, on a comparison. -/
def opensSelect (c : Cursor) (st : State) : Bool :=
  match ahead? st c.row c.after with
  | some (back, next) =>
    back.opcode == .jump && Row.does .pushRegister next && st.peek?.any Expr.isBinary
  | none => false

/-- Records the label at which the statement just opened ends. -/
def endsAt (target : String) (st : State) : State := { st with targets := target :: st.targets }

/-- Opens a while loop. -/
def openWhile (target : String) (st : State) : Except Halt State := do
  let (cond, st) ← st.pop1
  let (st, s) ← st.addAt (.whileLoop cond [])
  return endsAt target (st.enter (.whileLoop s) (s.body .loop))

/-- Opens the next arm of a select. -/
def openCase (target : String) (st : State) : Except Halt State := do
  let (value, st) ← State.pop1 { st with statements := st.statements.tail }
  match st.statements with
  | .select s scrutinee arms :: rest =>
    let value := resolveLiteral sy [scrutinee.type, "SKILL"] value
    let handlers := modifyBlock st.handlers s.block fun b =>
      b.modify s.index (Stmt.addCase (.mk value []))
    return endsAt target
      (State.redirect { st with handlers, statements := .select s scrutinee (arms + 1) :: rest }
        (s.body (.arm arms)))
  | _ => malformed .caseOutsideSelect

/-- Opens a select with the arm of its first comparison. -/
def openSelect (target : String) (st : State) : Except Halt State := do
  let (e, st) ← st.pop1
  match e with
  | .binary _ scrutinee value =>
    let (st, s) ← st.addAt (.select scrutinee [.mk value []])
    return endsAt target (st.enter (.select s scrutinee 1) (s.body (.arm 0)))
  | _ => .error .breakdown

/-- Opens a conditional. -/
def openIf (target : String) (st : State) : Except Halt State := do
  let (cond, st) ← st.pop1
  let (st, s) ← st.addAt (.ifElse cond [] [])
  return endsAt target (st.enter (.conditional s) (s.body .yes))

/-- Opens what a conditional branch opens: the first of these shapes that fits. A branch that fits
none is a link of a chain of conditions. -/
def branch (c : Cursor) (st : State) : Except Halt State :=
  let target := c.row.operand 0
  if target.isEmpty then malformed .branchWithoutTarget
  else if opensWhile c st then openWhile target st
  else if st.topIs Open.isPendingCase then openCase sy target st
  else if opensSelect c st then openSelect target st
  else if Row.does .jump c.next? then
    .ok (endsAt target { st with statements := .pendingFor :: st.statements })
  else if c.next?.any Row.isLabel || !c.prev?.any Row.isIntFetch then openIf target st
  else .ok st

/-! ## Labels -/

/-- Whether another arm follows a label, possibly behind one jump. -/
def selectGoesOn (st : State) : List Row → Bool
  | next :: after =>
    if next.opcode == .jump then
      match ahead? st next after with
      | some (_, next) => Row.does .pushRegister next
      | none => false
    else next.opcode == .pushRegister
  | [] => false

/-- Whether the arm before a label ends in a break. -/
def endsInBreak (c : Cursor) : Bool :=
  Row.does .jump c.prev? && (Row.does .jump c.back2? || c.next?.any Row.isLabel)

/-- The state after an arm of a select: the next comparison is awaited, or the select is left. -/
def closeArm (c : Cursor) (select : Open) (st : State) : State :=
  if selectGoesOn st c.after then { st with statements := .pendingCase :: select :: st.statements }
  else st.leaveBlock

/-- Closes the innermost open statement at a label. -/
def closeOne (c : Cursor) (st : State) : Except Halt State :=
  match st.statements with
  | [] => shortage (.closesNothing c.row.name)
  | .select s scrutinee arms :: rest =>
    let st := { st with targets := st.targets.tail, statements := rest }
    (if endsInBreak c then st.add .brk else .ok st).map (closeArm c (.select s scrutinee arms))
  | .conditional s :: rest =>
    let st := { st with targets := st.targets.tail, statements := rest }
    match c.prev? with
    | some prev =>
      if prev.opcode == .jump then
        .ok (State.redirect
          { st with
            targets := prev.operand 0 :: st.targets
            statements := .pendingElse s :: rest }
          (s.body .no))
      else .ok st.leaveBlock
    | none => .ok st.leaveBlock
  | _ :: rest => .ok (State.leaveBlock { st with targets := st.targets.tail, statements := rest })

/-- The number of labels awaited and of conditionals whose first branch is open. -/
def openWork (st : State) : Nat := st.targets.length + st.statements.countP Open.isConditional

theorem State.statements_add {st st' : State} {s : Stmt} (h : st.add s = .ok st') :
    st'.statements = st.statements ∧ st'.targets = st.targets := by
  unfold State.add State.addAt at h
  split at h
  · simp [Except.map] at h
  · simp only [Except.map, Except.ok.injEq] at h
    subst h
    exact ⟨rfl, rfl⟩

@[simp] theorem State.targets_redirect (st : State) (a : Address) :
    (st.redirect a).targets = st.targets := by
  unfold State.redirect; split <;> rfl

@[simp] theorem State.statements_redirect (st : State) (a : Address) :
    (st.redirect a).statements = st.statements := by
  unfold State.redirect; split <;> rfl

@[simp] theorem State.targets_leaveBlock (st : State) : st.leaveBlock.targets = st.targets := rfl

@[simp] theorem State.statements_leaveBlock (st : State) :
    st.leaveBlock.statements = st.statements := rfl

theorem openWork_closeArm (c : Cursor) (s : StmtAddress) (e : Expr) (n : Nat) (st : State) :
    openWork (closeArm c (.select s e n) st) = openWork st := by
  unfold closeArm
  split <;> simp [openWork, Open.isConditional]

/-- Closing a statement leaves less work open. -/
theorem openWork_closeOne {c : Cursor} {st st' : State} (ht : st.targets ≠ [])
    (h : closeOne c st = .ok st') : openWork st' < openWork st := by
  obtain ⟨t, ts, ht⟩ := List.exists_cons_of_ne_nil ht
  unfold closeOne at h
  split at h
  · simp [shortage] at h
  · rename_i s e n rest hs
    have key : ∀ st₁ : State, st₁.statements = rest → st₁.targets = ts →
        openWork (closeArm c (.select s e n) st₁) < openWork st := by
      intro st₁ h₁ h₂
      rw [openWork_closeArm]
      simp [openWork, hs, ht, h₁, h₂, Open.isConditional]
    dsimp only at h
    split at h
    · cases hb : State.add { st with targets := st.targets.tail, statements := rest } .brk with
      | error e => simp [hb, Except.map] at h
      | ok st₁ =>
        obtain ⟨h₁, h₂⟩ := State.statements_add hb
        rw [hb] at h
        cases h
        exact key st₁ h₁ (by simp [h₂, ht])
    · cases h
      exact key _ rfl (by simp [ht])
  · rename_i s rest hs
    have key : (rest.countP Open.isConditional) + 1 = st.statements.countP Open.isConditional := by
      simp [hs, Open.isConditional, List.countP_cons]
    dsimp only at h
    split at h
    · split at h <;> cases h
      · simp [openWork, ht, Open.isConditional]; omega
      · simp [openWork, ht]; omega
    · cases h
      simp [openWork, ht]; omega
  · rename_i o rest _ _ hs
    cases h
    have hle : rest.countP Open.isConditional ≤ st.statements.countP Open.isConditional := by
      rw [hs, List.countP_cons]; omega
    simp only [openWork, State.leaveBlock, ht, List.tail_cons, List.length_cons]
    omega

/-- Closes open statements as long as one of them ends at the label. -/
def closeAll (c : Cursor) (st : State) : Except Halt State :=
  if h : st.targets.contains c.row.name then
    match h' : closeOne c st with
    | .ok st' =>
      have : openWork st' < openWork st :=
        openWork_closeOne (by intro hn; simp [hn] at h) h'
      closeAll c st'
    | .error e => .error e
  else .ok st
termination_by openWork st

/-- Closes everything that ends at a label. -/
def closeLabel (c : Cursor) (st : State) : Except Halt State :=
  closeAll c { st with seen := c.row.name :: st.seen }

/-! ## Jumps -/

/-- The number of open statements above the innermost loop. -/
def loopDepth? (st : State) : Option Nat := st.statements.findIdx? Open.isLoop

/-- A break where a jump goes to the end of the innermost loop. -/
def jump (c : Cursor) (st : State) : Except Halt State :=
  match loopDepth? st with
  | some i => if st.targets[i]? == some (c.row.operand 0) then st.add .brk else .ok st
  | none => .ok st

end ScriptLift.Lift
