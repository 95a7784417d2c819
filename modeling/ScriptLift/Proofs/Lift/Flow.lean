import ScriptLift.Proofs.Lift.Address
import ScriptLift.Proofs.Lift.Layout

/-!
# What branches open and labels close

* `labelsOf`, `lastLabel?_append`: the label that a branch goes to, when no later one has its name.
* `branch_if`, `branch_while`, `branch_select`, `branch_for`: what a branch opens, by the rows around
  it and around its label.
* `State.marked`: a state with second branches left open, and **`closeAll_marked`**: a label below
  closes them all.
* `closeLabel_plain`, `closeLabel_yes`, `closeLabel_else`, `closeLabel_arm`: what a label closes.
* `jump_idle`, `jump_brk`: jumps that mean nothing, and breaks.
-/

namespace ScriptLift.Lift

/-! ## Rows by their opcodes -/

theorem ofName_spec (name : String) : (name, Opcode.ofName name) ∈ Opcode.named ∨
    Opcode.ofName name = if Row.isNumbered 'S' name.toList then .record
      else if Row.isNumbered 'L' name.toList then .label else .declaration := by
  unfold Opcode.ofName
  cases hlook : Opcode.named.lookup name with
  | none => exact .inr rfl
  | some op =>
    obtain ⟨l₁, l₂, hsplit, -⟩ := List.lookup_eq_some_iff.mp hlook
    exact .inl (by rw [hsplit]; simp)

theorem isNumbered_ne {a b : Char} (hab : a ≠ b) {cs : List Char} (h : Row.isNumbered a cs) :
    Row.isNumbered b cs = false := by
  unfold Row.isNumbered at h ⊢
  split
  · rename_i x y rest
    simp only [Bool.and_eq_true, beq_iff_eq] at h
    rw [h.1.1, beq_eq_false_iff_ne.mpr hab]
    rfl
  · rfl

theorem opcode_of_isLabel {r : Row} (h : r.isLabel) : r.opcode = .label := by
  rw [Row.isLabel] at h
  rcases ofName_spec r.name with hmem | heq
  · have hnot : ∀ p ∈ Opcode.named, Row.isNumbered 'L' p.1.toList = false := by decide
    rw [hnot _ hmem] at h
    simp at h
  · rw [Row.opcode, heq, isNumbered_ne (by decide) h, h]
    rfl

theorem isLabel_eq_false {r : Row} {op : Opcode} (h : r.opcode = op) (hne : op ≠ .label) :
    r.isLabel = false := by
  rw [Bool.eq_false_iff, ne_eq]
  intro hl
  exact hne (h ▸ opcode_of_isLabel hl)

theorem opcode_of_isFetch {r : Row} (h : r.isFetch) : r.opcode = .fetch ∨ r.opcode = .declaration := by
  rw [Row.isFetch] at h
  rcases ofName_spec r.name with hmem | heq
  · have hfetch : ∀ p ∈ Opcode.named, Text.startsWith "fetch_" p.1 → p.2 = .fetch := by decide
    exact .inl (hfetch _ hmem h)
  · have hfirst : ∀ a : Char, a ≠ 'f' → Row.isNumbered a r.name.toList = false := by
      intro a ha
      cases hcs : r.name.toList with
      | nil => rfl
      | cons c cs =>
        simp [Text.startsWith, hcs] at h
        cases cs with
        | nil => rfl
        | cons d cs =>
          simp [Row.isNumbered, ← h.1, ha.symm]
    rw [hfirst _ (by decide), hfirst _ (by decide)] at heq
    exact .inr heq

theorem isFetch_of_isIntFetch {r : Row} (h : r.isIntFetch) : r.isFetch := by
  rw [Row.isIntFetch, Text.startsWith, List.isPrefixOf_iff_prefix] at h
  rw [Row.isFetch, Text.startsWith, List.isPrefixOf_iff_prefix]
  exact List.IsPrefix.trans (by decide) h

/-- Rows that stand between statements and inside their headers. -/
def isSeam : Opcode → Bool
  | .label | .jump | .branchFalse | .shift | .exitHandler | .callSuper | .handlerBegin
  | .variablesEnd => true
  | _ => false

theorem isFetch_of_seam {r : Row} (h : isSeam r.opcode) : r.isFetch = false := by
  by_contra hf
  rcases opcode_of_isFetch (Bool.not_eq_false _ ▸ hf) with hop | hop <;> simp [hop, isSeam] at h

theorem boundary_of_seam {r : Row} (h : isSeam r.opcode) (before : List Row) :
    Boundary (r :: before) where
  event := by
    have hne : r.opcode ≠ .pushEvent := fun hop => by simp [hop, isSeam] at h
    exact does_eq_false hne
  fetch := by
    by_contra hf
    have hint : r.isIntFetch := by simpa using hf
    have hnot := isFetch_of_seam h
    rw [isFetch_of_isIntFetch hint] at hnot
    simp at hnot

theorem goesTo_spec {name : String} {r l : Row} (h : goesTo name r l) :
    r.opcode = Opcode.ofName name ∧ r.operand 0 = l.name ∧ l.isLabel := by
  rw [goesTo, Bool.and_eq_true, beq_iff_eq] at h
  exact ⟨Row.opcode_of_key h.1, Row.operand_of_key h.1, h.2⟩

theorem name_of_isLabel {l : Row} (h : l.isLabel) : l.name.isEmpty = false := by
  by_contra hne
  have hempty : l.name = "" := by simpa using hne
  rw [Row.isLabel, hempty] at h
  simp [Row.isNumbered] at h

/-! ## Labels ahead -/

/-- The names of the labels among rows. -/
def labelsOf (rows : List Row) : List String := (rows.filter Row.isLabel).map Row.name

@[simp] theorem labelsOf_append (rows rows' : List Row) :
    labelsOf (rows ++ rows') = labelsOf rows ++ labelsOf rows' := by
  simp [labelsOf]

theorem labelsOf_cons (r : Row) (rows : List Row) :
    labelsOf (r :: rows) = if r.isLabel then r.name :: labelsOf rows else labelsOf rows := by
  by_cases h : r.isLabel <;> simp [labelsOf, h]

@[simp] theorem mem_labelsOf_cons {x : String} {r : Row} {rows : List Row} :
    x ∈ labelsOf (r :: rows) ↔ r.isLabel ∧ x = r.name ∨ x ∈ labelsOf rows := by
  by_cases h : r.isLabel <;> simp [labelsOf_cons, h]

theorem mem_labelsOf {l : Row} (h : l.isLabel) (rows : List Row) :
    l.name ∈ labelsOf (l :: rows) := by
  rw [labelsOf_cons, if_pos h]
  exact List.mem_cons_self

theorem lastLabel?_eq_none {name : String} {rows : List Row} (h : name ∉ labelsOf rows) (r : Row) :
    lastLabel? name r rows = none := by
  induction rows generalizing r with
  | nil => rfl
  | cons x rows ih =>
    rw [labelsOf_cons] at h
    have htail : name ∉ labelsOf rows := by
      split_ifs at h
      · exact fun hm => h (List.mem_cons_of_mem _ hm)
      · exact h
    rw [lastLabel?, ih htail]
    have hnot : (x.isLabel && x.name == name) = false := by
      by_contra hx
      simp only [Bool.not_eq_false, Bool.and_eq_true, beq_iff_eq] at hx
      rw [if_pos hx.1, hx.2] at h
      exact h List.mem_cons_self
    simp [hnot]

/-- **The label that a branch goes to**, when no later one has its name. -/
theorem lastLabel?_append {l : Row} (hl : l.isLabel) (rows : List Row) {rest : List Row}
    (hrest : l.name ∉ labelsOf rest) (r : Row) :
    lastLabel? l.name r (rows ++ l :: rest) = some (rows.getLast?.getD r, rest.head?) := by
  induction rows generalizing r with
  | nil =>
    rw [List.nil_append, lastLabel?, lastLabel?_eq_none hrest]
    simp [hl]
  | cons x rows ih =>
    rw [List.cons_append, lastLabel?, ih x, List.getLast?_cons]
    rfl

theorem ahead?_eq {st : State} {r l : Row} (hgo : r.operand 0 = l.name) (hl : l.isLabel)
    (hseen : l.name ∉ st.seen) (rows : List Row) {rest : List Row} (hrest : l.name ∉ labelsOf rest) :
    ahead? st r (rows ++ l :: rest) = some (rows.getLast?.getD r, rest.head?) := by
  simp only [ahead?, hgo, List.contains_eq_mem, hseen, decide_false, Bool.false_eq_true, if_false]
  exact lastLabel?_append hl rows hrest r

/-! ## Branches -/

/-- A statement is opened: it is added to the block `a`, which has the statements `b`, and its body
is filled from now on, up to a label. -/
def State.opening (st : State) (a : Address) (b : List Stmt) (s : Stmt) (o : StmtAddress → Open)
    (slot : Slot) (target : String) : State :=
  { st with
    operands := st.operands.tail
    handlers := modifyBlock st.handlers a (· ++ [s])
    statements := o ⟨a, b.length⟩ :: st.statements
    blocks := StmtAddress.body ⟨a, b.length⟩ slot :: st.blocks
    targets := target :: st.targets }

/-- A for loop that ends at a label is awaited. -/
def State.await (st : State) (target : String) : State :=
  { st with statements := .pendingFor :: st.statements, targets := target :: st.targets }

/-- A label has been met. -/
def State.meet (st : State) (l : String) : State := { st with seen := l :: st.seen }

/-- The current block, with what it holds. -/
structure Current (st : State) (a : Address) (b : List Stmt) : Prop where
  block : st.blocks.head? = some a
  found : getBlock? st.handlers a = some b

variable {sy : Symbols} {opts : Options} {st : State} {a : Address} {b : List Stmt} {c : Cursor}

theorem Current.blocks (h : Current st a b) : st.blocks = a :: st.blocks.tail := by
  obtain ⟨rest, hrest⟩ := List.head?_eq_some_iff.mp h.block
  rw [hrest]
  rfl

theorem addAt_eq (h : Current st a b) (s : Stmt) : st.addAt s =
    .ok ({ st with handlers := modifyBlock st.handlers a (· ++ [s]) }, ⟨a, b.length⟩) := by
  unfold State.addAt
  rw [h.blocks]
  simp only [h.found, Option.getD_some]

theorem add_eq (h : Current st a b) (s : Stmt) :
    st.add s = .ok { st with handlers := modifyBlock st.handlers a (· ++ [s]) } := by
  rw [State.add, addAt_eq h]
  rfl

section Openings

variable {e : Expr} {ops : List Expr} (h : Current st a b) (ho : st.operands = e :: ops)
  (target : String)
include h ho

theorem openIf_eq : openIf target st =
    .ok (st.opening a b (.ifElse e [] []) .conditional .yes target) := by
  have hc : Current { st with operands := ops } a b := ⟨h.block, h.found⟩
  simp only [openIf, pop1_of_operands ho, addAt_eq hc, bind, Except.bind, State.opening, ho]
  rfl

theorem openWhile_eq : openWhile target st =
    .ok (st.opening a b (.whileLoop e []) .whileLoop .loop target) := by
  have hc : Current { st with operands := ops } a b := ⟨h.block, h.found⟩
  simp only [openWhile, pop1_of_operands ho, addAt_eq hc, bind, Except.bind, State.opening, ho]
  rfl

theorem openSelect_eq {op : BinaryOp} {x v : Expr} (he : e = .binary op x v) :
    openSelect target st =
      .ok (st.opening a b (.select x [.mk v []]) (.select · x 1) (.arm 0) target) := by
  have hc : Current { st with operands := ops } a b := ⟨h.block, h.found⟩
  simp only [openSelect, pop1_of_operands ho, he, addAt_eq hc, bind, Except.bind, State.opening, ho]
  rfl

end Openings

/-- The rows around a branch to a label ahead that no jump back comes before: the last row before
the label and the row after it. -/
structure Ahead (c : Cursor) (st : State) (back : Row) (next : Option Row) : Prop where
  target : (c.row.operand 0).isEmpty = false
  ahead : ahead? st c.row c.after = some (back, next)
  fresh : back.opcode = .jump → back.operand 0 ∉ st.seen

namespace Ahead

variable {back : Row} {next : Option Row}

theorem opensWhile_eq (h : Ahead c st back next) : opensWhile c st = false := by
  rw [opensWhile, h.ahead]
  by_cases hj : back.opcode = .jump
  · simp [h.fresh hj]
  · simp [hj]

theorem opensSelect_eq (h : Ahead c st back next) : opensSelect c st =
    (back.opcode == .jump && Row.does .pushRegister next && st.peek?.any Expr.isBinary) := by
  rw [opensSelect, h.ahead]

end Ahead

section Branches

variable {back : Row} {next : Option Row} {e : Expr} {ops : List Expr}

theorem branch_while {next : Option Row} (htarget : (c.row.operand 0).isEmpty = false)
    (hahead : ahead? st c.row c.after = some (back, next)) (hjump : back.opcode = .jump)
    (hseen : back.operand 0 ∈ st.seen) (h : Current st a b) (ho : st.operands = e :: ops) :
    branch sy c st =
      .ok (st.opening a b (.whileLoop e []) .whileLoop .loop (c.row.operand 0)) := by
  have hw : opensWhile c st := by
    rw [opensWhile, hahead]
    simp [hjump, hseen]
  simp only [branch, htarget, hw, Bool.false_eq_true, if_false, if_true]
  exact openWhile_eq h ho _

theorem branch_if (hah : Ahead c st back next) (hnext : Row.does .pushRegister next = false)
    (htop : st.topIs Open.isPendingCase = false) (hjump : Row.does .jump c.next? = false)
    (hopens : c.next?.any Row.isLabel || !c.prev?.any Row.isIntFetch) (h : Current st a b)
    (ho : st.operands = e :: ops) : branch sy c st =
      .ok (st.opening a b (.ifElse e [] []) .conditional .yes (c.row.operand 0)) := by
  have hs : opensSelect c st = false := by rw [hah.opensSelect_eq, hnext]; simp
  simp only [branch, hah.target, hah.opensWhile_eq, htop, hs, hjump, Bool.false_eq_true, if_false]
  rw [if_pos hopens]
  exact openIf_eq h ho _

theorem branch_for (hah : Ahead c st back next) (hnext : Row.does .pushRegister next = false)
    (htop : st.topIs Open.isPendingCase = false) (hjump : Row.does .jump c.next?) :
    branch sy c st = .ok (st.await (c.row.operand 0)) := by
  have hs : opensSelect c st = false := by rw [hah.opensSelect_eq, hnext]; simp
  simp only [branch, hah.target, hah.opensWhile_eq, htop, hs, hjump, Bool.false_eq_true, if_false,
    if_true]
  rfl

theorem branch_select (hah : Ahead c st back next) (hjump : back.opcode = .jump)
    (hnext : Row.does .pushRegister next) (htop : st.topIs Open.isPendingCase = false)
    (h : Current st a b) {op : BinaryOp} {x v : Expr} (ho : st.operands = .binary op x v :: ops) :
    branch sy c st =
      .ok (st.opening a b (.select x [.mk v []]) (.select · x 1) (.arm 0) (c.row.operand 0)) := by
  have hs : opensSelect c st := by
    rw [hah.opensSelect_eq, hnext, hjump, State.peek?, ho]
    rfl
  simp only [branch, hah.target, hah.opensWhile_eq, htop, hs, Bool.false_eq_true, if_false, if_true]
  exact openSelect_eq h ho _ rfl

/-- A comparison after the first one adds an arm to the select. -/
theorem branch_arm (hah : Ahead c st back next) {s : StmtAddress} {x : Expr} {n : Nat}
    {rest : List Open} (hst : st.statements = .pendingCase :: .select s x n :: rest)
    {B : List Address} (hb : st.blocks = a :: B) (ho : st.operands = e :: ops) :
    branch sy c st = .ok { st with
      operands := ops
      handlers := modifyBlock st.handlers s.block fun b => b.modify s.index
        (Stmt.addCase (.mk (resolveLiteral sy [x.type, "SKILL"] e) []))
      statements := .select s x (n + 1) :: rest
      blocks := s.body (.arm n) :: B
      targets := c.row.operand 0 :: st.targets } := by
  have htop : st.topIs Open.isPendingCase := by rw [State.topIs, hst]; rfl
  simp only [branch, hah.target, hah.opensWhile_eq, htop, Bool.false_eq_true, if_false, if_true]
  have hpop : State.pop1 { st with statements := st.statements.tail } =
      .ok (e, { st with statements := .select s x n :: rest, operands := ops }) := by
    rw [hst]
    exact pop1_of_operands ho
  unfold openCase
  rw [hpop]
  simp only [bind, Except.bind, State.redirect, hb]
  rfl

end Branches

/-! ## Labels -/

section Labels

variable {l : Row} {T : List String} {S : List Open}

theorem closeAll_idle (h : c.row.name ∉ st.targets) : closeAll c st = .ok st := by
  rw [closeAll, dif_neg (by simpa using h)]

theorem closeAll_step {st' : State} (h : c.row.name ∈ st.targets) (h' : closeOne c st = .ok st') :
    closeAll c st = closeAll c st' := by
  rw [closeAll, dif_pos (by simpa using h)]
  split
  · rename_i st₁ h₁
    rw [h'] at h₁
    rw [Except.ok.inj h₁]
  · rename_i e h₁
    rw [h'] at h₁
    simp at h₁

theorem closeAll_stuck {e : Halt} (h : c.row.name ∈ st.targets) (h' : closeOne c st = .error e) :
    closeAll c st = .error e := by
  rw [closeAll, dif_pos (by simpa using h)]
  split
  · rename_i h₁
    simp [h'] at h₁
  · rename_i e₁ h₁
    rw [← h', h₁]

/-- A state in which the second branches `marks` are open, each up to its label. -/
def State.marked (st : State) (marks : List (StmtAddress × String)) : State :=
  { st with
    statements := marks.map (fun m => .pendingElse m.1) ++ st.statements
    blocks := marks.map (fun m => m.1.body .no) ++ st.blocks
    targets := marks.map Prod.snd ++ st.targets }

/-- **A label below second branches closes them all.** -/
theorem closeAll_marked (h : c.row.name ∈ st.targets) (marks : List (StmtAddress × String)) :
    closeAll c (st.marked marks) = closeAll c st := by
  induction marks with
  | nil => rfl
  | cons m marks ih =>
    have hmem : c.row.name ∈ (st.marked (m :: marks)).targets := List.mem_append_right _ h
    have hone : closeOne c (st.marked (m :: marks)) = .ok (st.marked marks) := rfl
    rw [closeAll_step hmem hone, ih]

theorem closeLabel_idle (h : c.row.name ∉ st.targets) :
    closeLabel c st = .ok (st.meet c.row.name) :=
  closeAll_idle h

/-- Statements that are simply left at their label. -/
def Open.isPlain : Open → Bool
  | .whileLoop _ | .forLoop _ | .pendingElse _ => true
  | _ => false

/-- The state after the innermost statement has been left. -/
def State.left (st : State) (label : String) : State :=
  { st with
    statements := st.statements.tail
    blocks := st.blocks.tail
    targets := st.targets.tail
    seen := label :: st.seen }

variable {o : Open} {s : StmtAddress} (ht : st.targets = c.row.name :: T) (hT : c.row.name ∉ T)
  (marks : List (StmtAddress × String))
include ht

theorem closeLabel_marked : closeLabel c (st.marked marks) = closeLabel c st := by
  have hmem : c.row.name ∈ State.targets { st with seen := c.row.name :: st.seen } := by
    show c.row.name ∈ st.targets
    rw [ht]
    exact List.mem_cons_self
  exact closeAll_marked hmem marks

theorem closeLabel_step {st' : State}
    (h : closeOne c { st with seen := c.row.name :: st.seen } = .ok st')
    (h' : c.row.name ∉ st'.targets) : closeLabel c st = .ok st' := by
  have hmem : c.row.name ∈ State.targets { st with seen := c.row.name :: st.seen } := by
    show c.row.name ∈ st.targets
    rw [ht]
    exact List.mem_cons_self
  rw [closeLabel, closeAll_step hmem h, closeAll_idle h']

include hT

theorem closeLabel_plain (hst : st.statements = o :: S) (hplain : o.isPlain) :
    closeLabel c (st.marked marks) = .ok (st.left c.row.name) := by
  rw [closeLabel_marked ht]
  refine closeLabel_step ht ?_ (by simpa [State.left, ht] using hT)
  simp only [closeOne, hst, State.left]
  cases o with
  | whileLoop s => rfl
  | forLoop s => rfl
  | pendingElse s => rfl
  | _ => simp [Open.isPlain] at hplain

theorem closeLabel_yes (hst : st.statements = .conditional s :: S)
    (hprev : Row.does .jump c.prev? = false) :
    closeLabel c (st.marked marks) = .ok (st.left c.row.name) := by
  rw [closeLabel_marked ht]
  refine closeLabel_step ht ?_ (by simpa [State.left, ht] using hT)
  simp only [closeOne, hst, State.left]
  cases hp : c.prev? with
  | none => rfl
  | some r =>
    rw [hp] at hprev
    rw [Row.does] at hprev
    simp only [hprev]
    rfl

/-- A first branch that ends in a jump is followed by the second one. -/
theorem closeLabel_else (hst : st.statements = .conditional s :: S) {r : Row}
    (hprev : c.prev? = some r) (hjump : r.opcode = .jump) (hne : c.row.name ≠ r.operand 0)
    {a : Address} {b : List Stmt} (h : Current st a b) :
    closeLabel c (st.marked marks) =
      .ok ((st.left c.row.name).marked [(s, r.operand 0)]) := by
  rw [closeLabel_marked ht]
  refine closeLabel_step ht ?_ ?_
  · simp only [closeOne, hst, State.left, hprev, hjump, beq_self_eq_true, if_true, State.redirect]
    rw [h.blocks]
    rfl
  · simp only [State.marked, State.left, ht, List.map_cons, List.map_nil, List.tail_cons,
      List.mem_append, List.mem_singleton, not_or]
    exact ⟨hne, hT⟩

end Labels

theorem selectGoesOn_of_pushRegister {r : Row} (h : r.opcode = .pushRegister) (rest : List Row) :
    selectGoesOn st (r :: rest) := by
  simp [selectGoesOn, h]

theorem selectGoesOn_of_label {r : Row} (h : r.opcode = .label) (rest : List Row) :
    selectGoesOn st (r :: rest) = false := by
  simp [selectGoesOn, h]

section Arms

variable {s : StmtAddress} {x : Expr} {n : Nat} {T : List String} {S : List Open} {r : Row}
  {rest : List Row} (ht : st.targets = c.row.name :: T) (hT : c.row.name ∉ T)
  (hst : st.statements = .select s x n :: S) (h : Current st a b) (hafter : c.after = r :: rest)
  (marks : List (StmtAddress × String))
include ht hst h

/-- What closing an arm adds to it. -/
theorem closeOne_arm : closeOne c { st with seen := c.row.name :: st.seen } =
    .ok (closeArm c (.select s x n) { st with
      handlers := modifyBlock st.handlers a (· ++ if endsInBreak c then [.brk] else [])
      statements := S
      targets := T
      seen := c.row.name :: st.seen }) := by
  simp only [closeOne, hst, ht, List.tail_cons]
  split_ifs with hbrk
  · have hc : Current { st with targets := T, statements := S, seen := c.row.name :: st.seen } a b :=
      ⟨h.block, h.found⟩
    rw [add_eq hc]
    rfl
  · rw [modifyBlock_append_nil]
    rfl

include hT hafter

/-- An arm that another one follows. -/
theorem closeLabel_arm (hr : r.opcode = .pushRegister) : closeLabel c (st.marked marks) =
    .ok { st with
      handlers := modifyBlock st.handlers a (· ++ if endsInBreak c then [.brk] else [])
      statements := .pendingCase :: .select s x n :: S
      targets := T
      seen := c.row.name :: st.seen } := by
  rw [closeLabel_marked ht]
  refine closeLabel_step ht ?_ hT
  rw [closeOne_arm ht hst h, closeArm, hafter]
  rw [if_pos (selectGoesOn_of_pushRegister hr rest)]

/-- The last arm. -/
theorem closeLabel_lastArm (hr : r.opcode = .label) : closeLabel c (st.marked marks) =
    .ok { st with
      handlers := modifyBlock st.handlers a (· ++ if endsInBreak c then [.brk] else [])
      statements := S
      blocks := st.blocks.tail
      targets := T
      seen := c.row.name :: st.seen } := by
  rw [closeLabel_marked ht]
  refine closeLabel_step ht ?_ hT
  rw [closeOne_arm ht hst h, closeArm, hafter]
  rw [if_neg (by simp [selectGoesOn_of_label hr])]
  rfl

end Arms

/-! ## Jumps and other rows -/

theorem jump_idle (h : c.row.operand 0 ∉ st.targets) : jump c st = .ok st := by
  unfold jump
  split
  · rename_i i _
    rw [if_neg]
    intro heq
    exact h (List.mem_of_getElem? (beq_iff_eq.mp heq))
  · rfl

theorem jump_brk {i : Nat} (hi : loopDepth? st = some i)
    (ht : st.targets[i]? = some (c.row.operand 0)) : jump c st = st.add .brk := by
  simp [jump, hi, ht]

theorem loopDepth?_cons {o : Open} {S : List Open} (ho : o.isLoop = false)
    (hst : st.statements = o :: S) {st' : State} (hst' : st'.statements = S) {i : Nat}
    (hi : loopDepth? st' = some i) : loopDepth? st = some (i + 1) := by
  rw [loopDepth?, hst'] at hi
  rw [loopDepth?, hst, List.findIdx?_cons, ho, hi]
  rfl

theorem int_of_dropKey {r : Row} (h : r.key = dropKey 1) : r.int 0 = .ok (-1) := by
  obtain ⟨-, ho⟩ := Prod.mk.inj h
  exact int_zero ho (by cbv)

theorem opcode_of_dropKey {r : Row} {n : Nat} (h : r.key = dropKey n) : r.opcode = .shift := by
  rw [Row.opcode_of_key h]
  decide

/-- Dropping the value of an expression makes it a statement. -/
theorem shift_eval {e : Expr} {ops : List Expr} (hr : c.row.key = dropKey 1)
    (hcall : Row.does .call c.prev? → isBareCall e) (ho : st.operands = e :: ops) :
    shift c st = State.add { st with operands := ops } (.eval e) := by
  have hcond : (!Row.does .call c.prev? || isBareCall e) = true := by
    cases hd : Row.does .call c.prev? with
    | false => rfl
    | true => rw [hcall hd]; rfl
  simp only [shift, int_of_dropKey hr, ho, hcond]
  rfl

theorem shift_idle (ho : st.operands = []) : shift c st = .ok st := by
  unfold shift
  split
  · rename_i heq
    rw [ho] at heq
    simp at heq
  · rfl

/-- The for loop is made of the two values on the stack and the last statement of the block. -/
theorem makeFor_eq {hs : List Handler} {init cond update : Expr} (hb : getBlock? hs a = some b)
    (hhs : st.handlers = modifyBlock hs a (· ++ [.eval init])) (hblock : st.blocks.head? = some a)
    (ho : st.operands = [update, cond]) : makeFor st = .ok { st with
      operands := []
      handlers := modifyBlock hs a (· ++ [.forLoop init cond update []])
      statements := .forLoop ⟨a, b.length⟩ :: st.statements.tail
      blocks := StmtAddress.body ⟨a, b.length⟩ .loop :: st.blocks } := by
  have hfound : getBlock? st.handlers a = some (b ++ [.eval init]) := by
    rw [hhs, getBlock?_modifyBlock, hb]
    rfl
  have hdrop : modifyBlock st.handlers a List.dropLast = hs := by
    rw [hhs, modifyBlock_modifyBlock]
    refine (modifyBlock_congr hb ?_).trans (modifyBlock_id hs a)
    simp
  have hcur : Current { st with operands := [], handlers := hs } a b := ⟨hblock, hb⟩
  obtain ⟨rest, hrest⟩ := List.head?_eq_some_iff.mp hblock
  have hpop : State.pop { st with operands := [] } 3 2 =
      .ok (init, { st with operands := [], handlers := hs }) := by
    simp only [State.pop, hrest, hfound, Option.getD_some, List.getLast?_concat, hdrop]
  unfold makeFor
  simp only [State.pop, ho, bind, Except.bind] at hpop ⊢
  rw [hpop]
  simp only [addAt_eq hcur]
  rfl

end ScriptLift.Lift
