import ScriptLift.Proofs.Lift.Compound

/-!
# Selects in place

* `advances_firstComparison`, `advances_laterComparison`: what the comparisons of a select open.
* `State.inArm`, `State.between`: a select while an arm is filled, and between two arms.
* `ArmLifts`: what an arm is made of; `advances_arm`, `advances_lastArm`: from its body to its label.
* **`LiftsArms`**: rows that are lifted to arms; `liftsArms_last`, `liftsArms_cons`.
* `advances_selectEnd`: the rows after the last arm.
* **`liftsOne_select`**: a select of at least two arms.
-/

namespace ScriptLift.Lift

variable {sy : Symbols} {opts : Options} {ctx st st' st₁ : State} {a : Address} {b : List Stmt}
  {before after rows : List Row} {exit? : Option String} {met : List String}

/-! ## Comparisons -/

/-- The value of a constant row. -/
def literal (r : Row) : Except Halt Expr :=
  if Text.hasInfix "." (r.operand 0) then
    match Double.read (r.operand 0) with
    | .error e => malformed (.realConstant (r.operand 0) e)
    | .ok x => .ok (.real x)
  else
    match r.int 0 with
    | .error e => malformed (.intConstant (r.operand 0) e)
    | .ok v => .ok (.int v)

theorem step_literal {r : Row} (hop : r.opcode = .pushConst) (hm : st.mode ≠ .parameterText)
    (hev : Undisturbed before) :
    step sy opts ⟨before, r, after⟩ st = (literal r).map st.push := by
  rw [step_eq_dispatch hm]
  simp only [dispatch, hop, pushConst, Cursor.prev?]
  rw [if_neg (by rw [show Row.does .pushEvent before.head? = false from hev]; simp), literal]
  split_ifs
  · cases Double.read (r.operand 0) <;> rfl
  · cases r.int 0 <;> rfl

theorem literal_of_value? {r : Row} (hop : r.opcode = .pushConst) {v : Expr}
    (hv : value? sy opts ctx [r] = some v) : literal r = .ok v := by
  obtain ⟨s', hs', ho⟩ := exists_of_leaves? (leaves?_of_value? hv)
  obtain ⟨s₁, hs₁, hs'⟩ := advances_cons_inv hs'
  obtain rfl : s₁ = s' := Except.ok.inj hs'
  have hev : Undisturbed [] := rfl
  rw [step_literal hop (by simp [State.bare, State.initial]) hev] at hs₁
  cases hl : literal r with
  | error e => simp [hl, Except.map] at hs₁
  | ok w =>
    rw [hl] at hs₁
    obtain rfl := Except.ok.inj hs₁
    obtain ⟨rfl, -⟩ := List.cons.inj ho
    rfl

variable {h : ArmHeader} {close fin : Row} {v x : Expr}

namespace ArmHeader

theorem isSound_iff : h.isSound close ↔ h.reload.key = ("push_reg_sp", []) ∧
    h.fetch.key = ("fetch_i", []) ∧ h.value.opcode = .pushConst ∧ h.equal.key = ("equal", []) ∧
    goesTo "branch_false" h.branch close ∧ h.entry.all Row.isLabel := by
  simp only [isSound, Bool.and_eq_true, beq_iff_eq, and_assoc]

theorem opcode_reload (hs : h.isSound close) : h.reload.opcode = .pushRegister :=
  (Row.opcode_of_key (isSound_iff.mp hs).1).trans (by decide)

theorem isFetch_reload (hs : h.isSound close) : h.reload.isFetch = false := by
  rw [Row.isFetch, show h.reload.name = "push_reg_sp" from congrArg Prod.fst (isSound_iff.mp hs).1]
  decide

theorem opcode_equal (hs : h.isSound close) : h.equal.opcode = .equal :=
  (Row.opcode_of_key (isSound_iff.mp hs).2.2.2.1).trans (by decide)

theorem goesTo_close (hs : h.isSound close) : goesTo "branch_false" h.branch close :=
  (isSound_iff.mp hs).2.2.2.2.1

theorem isLabel_entry (hs : h.isSound close) {entry : Row} (hentry : h.entry = some entry) :
    entry.isLabel := by
  have hlabel := (isSound_iff.mp hs).2.2.2.2.2
  rwa [hentry] at hlabel

end ArmHeader

/-- The rows that read the value of a select again and push the constant to compare it with. -/
theorem advances_comparison (hs : h.isSound close) (hv : value? sy opts ctx [h.value] = some v)
    (hm : st.mode = .none) : Advances sy opts before [h.reload, h.fetch, h.value] after st (st.push v) := by
  obtain ⟨-, hfetch, hvalue, -⟩ := ArmHeader.isSound_iff.mp hs
  have hne : st.mode ≠ .parameterText := by simp [hm]
  have hop₁ : h.reload.opcode = .pushRegister := ArmHeader.opcode_reload hs
  have hop₂ : h.fetch.opcode = .fetch := (Row.opcode_of_key hfetch).trans (by decide)
  have h₁ : step sy opts ⟨before, h.reload, h.fetch :: h.value :: after⟩ st = .ok st := by
    rw [step_eq_dispatch hne]
    simp only [dispatch, hop₁, declarationRow, hm]
  have hnot : h.value.isFetch = false := by
    by_contra hf
    rcases opcode_of_isFetch (Bool.not_eq_false _ ▸ hf) with hop | hop <;> simp [hop] at hvalue
  have h₂ : step sy opts ⟨h.reload :: before, h.fetch, h.value :: after⟩ st = .ok st := by
    rw [step_eq_dispatch hne]
    simp only [dispatch, hop₂, fetch]
    rw [if_neg (by simp [Cursor.next?, hnot])]
  have h₃ : step sy opts ⟨h.fetch :: h.reload :: before, h.value, after⟩ st = .ok (st.push v) := by
    have hev : Undisturbed (h.fetch :: h.reload :: before) :=
      does_of_ne hop₂ (by simp)
    rw [step_literal hvalue hne hev, literal_of_value? hvalue hv]
    rfl
  exact .cons h₁ (.cons h₂ (.one h₃))

/-- The value of a select and its first comparison, which opens it. -/
theorem advances_firstComparison {code : List Row} {e : Expr} (hg : Ground ctx a b st)
    (hb : Boundary before) (hpost : isPostfix sy code) (hv : value? sy opts ctx code = some e)
    (hs : h.isSound close) (hv' : value? sy opts ctx [h.value] = some v) {op : BinaryOp} {l r : Expr}
    (hcombine : combine sy .eq e v = .binary op l r) {back : Row} {next : Option Row}
    (hah : ∀ before, Ahead ⟨before, h.branch, after⟩ st back next) (hjump : back.opcode = .jump)
    (hnext : Row.does .pushRegister next) :
    ∃ st₁, Advances sy opts before (code ++ [h.reload, h.fetch, h.value, h.equal, h.branch]) after st
        (st₁.opening a b (.select l [.mk r []]) (.select · l 1) (.arm 0) close.name) ∧
      Drift [] st st₁ ∧ st₁.operands.tail = [] := by
  obtain ⟨hop, harg, -⟩ := goesTo_spec (ArmHeader.goesTo_close hs)
  have hop : h.branch.opcode = .branchFalse := hop
  obtain ⟨st₁, h₁, hgrown⟩ : ∃ st₁, Advances sy opts before code
      (h.reload :: h.fetch :: h.value :: h.equal :: h.branch :: after) st st₁ ∧ Grown [e] st st₁ :=
    hg.advances_value hb hpost hv (ArmHeader.isFetch_reload hs)
  have ho₁ := hgrown.operands_eq hg.operands
  have hd := (Drift.of_grown hgrown).trans (.of_operands st₁ [.binary op l r])
  have h₂ : Advances sy opts (code.reverse ++ before) [h.reload, h.fetch, h.value]
      (h.equal :: h.branch :: after) st₁ (st₁.push v) :=
    advances_comparison hs hv' (by rw [hgrown.rest]; exact hg.mode)
  have htop : (st₁.push v).topIs Open.isPendingCase = false :=
    ((Drift.of_grown hgrown).topIs_eq _).trans hg.not_pendingCase
  have hm : (st₁.push v).mode ≠ .parameterText := by
    rw [State.push, hgrown.rest]
    exact hg.mode_ne
  have hpushed : (st₁.push v).operands = [v, e] := by rw [State.push, ho₁]
  have h₃ : ∀ before after, step sy opts ⟨before, h.equal, after⟩ (st₁.push v) =
      .ok { st₁ with operands := [.binary op l r] } := by
    intro before after
    rw [step_eq_dispatch hm]
    simp only [dispatch, ArmHeader.opcode_equal hs, htop, Bool.false_eq_true, if_false]
    rw [binary_of_operands hpushed, hcombine]
    rfl
  have h₄ : ∀ before, step sy opts ⟨before, h.branch, after⟩ { st₁ with operands := [.binary op l r] } =
      .ok (State.opening { st₁ with operands := [.binary op l r] } a b (.select l [.mk r []])
        (.select · l 1) (.arm 0) close.name) := by
    intro before
    have hm' : State.mode { st₁ with operands := [.binary op l r] } ≠ .parameterText := hm
    have hseen : st₁.seen = st.seen := by rw [hgrown.rest]
    have hah' : Ahead ⟨before, h.branch, after⟩ { st₁ with operands := [.binary op l r] } back next := by
      obtain ⟨ht, hahead, hfresh⟩ := hah before
      exact ⟨ht, by rw [← hahead, ahead?, ahead?, hseen], hseen ▸ hfresh⟩
    rw [step_branch hm' hop, ← harg]
    exact branch_select hah' hjump hnext htop (hd.current hg.current) rfl
  refine ⟨{ st₁ with operands := [.binary op l r] }, ?_, hd, rfl⟩
  have h₅ := h₂.append (.cons (h₃ ..) (.one (h₄ _)))
  exact h₁.append h₅

/-- A select with the arms `cs` between two arms: the next comparison is awaited. -/
def State.between (st : State) (a : Address) (b : List Stmt) (x : Expr) (cs : List Case) : State :=
  { st.grow a [.select x cs] with
    statements := .pendingCase :: .select ⟨a, b.length⟩ x cs.length :: st.statements
    blocks := StmtAddress.body ⟨a, b.length⟩ (.arm (cs.length - 1)) :: st.blocks }

/-- A new arm of a select with the arms `cs` before it is being filled. -/
def State.inArm (st : State) (a : Address) (b : List Stmt) (x : Expr) (cs : List Case) (v : Expr)
    (target : String) : State :=
  st.opening a b (.select x (cs ++ [.mk v []])) (.select · x (cs.length + 1)) (.arm cs.length) target

/-- A later comparison, which adds an arm. -/
theorem advances_laterComparison {cs : List Case} {back entry : Row} {next : Option Row}
    (hg : Ground ctx a b st) (hd : Drift met (st.between a b x cs) st') (ho : st'.operands = [])
    (hs : h.isSound close) (hv : value? sy opts ctx [h.value] = some v) (hentry : h.entry = some entry)
    (hah : ∀ before, Ahead ⟨before, h.branch, entry :: after⟩ st' back next)
    (hte : entry.name ∉ close.name :: st.targets) :
    ∃ st₁, Advances sy opts before h.rows after st'
        (st₁.inArm a b x cs (resolveLiteral sy [x.type, "SKILL"] v) close.name) ∧
      Drift (met ++ [entry.name]) st st₁ ∧ st₁.operands = [] := by
  obtain ⟨hop, harg, -⟩ := goesTo_spec (ArmHeader.goesTo_close hs)
  have hop : h.branch.opcode = .branchFalse := hop
  have hlabel : entry.isLabel := ArmHeader.isLabel_entry hs hentry
  have hm : st'.mode = .none := hd.mode_eq.trans hg.mode
  have hm' : (st'.push v).mode ≠ .parameterText := by simp [State.push, hm]
  have hst : (st'.push v).statements =
      .pendingCase :: .select ⟨a, b.length⟩ x cs.length :: st.statements := hd.statements_eq
  have h₁ : Advances sy opts before [h.reload, h.fetch, h.value]
      (h.equal :: h.branch :: entry :: after) st' (st'.push v) := advances_comparison hs hv hm
  have h₂ : ∀ before after, step sy opts ⟨before, h.equal, after⟩ (st'.push v) = .ok (st'.push v) := by
    intro before after
    have htop : (st'.push v).topIs Open.isPendingCase := by rw [State.topIs, hst]; rfl
    rw [step_eq_dispatch hm']
    simp only [dispatch, ArmHeader.opcode_equal hs, htop, if_true]
  have h₃ : ∀ before, step sy opts ⟨before, h.branch, entry :: after⟩ (st'.push v) =
      .ok (State.inArm { st with types := st'.types, seen := st'.seen } a b x cs
        (resolveLiteral sy [x.type, "SKILL"] v) close.name) := by
    intro before
    obtain ⟨ht, hahead, hfresh⟩ := hah before
    have hah' : Ahead ⟨before, h.branch, entry :: after⟩ (st'.push v) back next := ⟨ht, hahead, hfresh⟩
    have hpushed : (st'.push v).operands = v :: [] := by rw [State.push, ho]
    have hadd : modifyBlock (st'.push v).handlers (StmtAddress.block ⟨a, b.length⟩)
        (fun b' => b'.modify (StmtAddress.index ⟨a, b.length⟩)
          (Stmt.addCase (.mk (resolveLiteral sy [x.type, "SKILL"] v) []))) =
        modifyBlock st.handlers a
          (· ++ [.select x (cs ++ [.mk (resolveLiteral sy [x.type, "SKILL"] v) []])]) := by
      rw [State.push, hd.handlers_eq]
      exact modifyBlock_modify_last hg.current.found (.select x cs) _
    rw [step_branch hm' hop, branch_arm hah' hst hd.blocks_eq hpushed, hadd, harg, State.inArm,
      State.opening, hg.operands, State.push, hd.rest]
    rfl
  have hd₁ : Drift met st { st with types := st'.types, seen := st'.seen } := by
    refine ⟨rfl, Eq.trans ?_ hd.scope, hd.seen⟩
    rw [hd.rest]
    rfl
  have ho₁ : State.operands { st with types := st'.types, seen := st'.seen } = [] := hg.operands
  generalize { st with types := st'.types, seen := st'.seen } = st₁ at h₃ hd₁ ho₁
  have h₄ : ∀ before, step sy opts ⟨before, entry, after⟩
      (st₁.inArm a b x cs (resolveLiteral sy [x.type, "SKILL"] v) close.name) =
        .ok ((st₁.meet entry.name).inArm a b x cs (resolveLiteral sy [x.type, "SKILL"] v)
          close.name) := by
    intro before
    refine step_label_idle (by rw [State.inArm, State.opening, hd₁.mode_eq]; exact hg.mode_ne) hlabel ?_
    rw [State.inArm, State.opening, hd₁.targets_eq]
    exact hte
  refine ⟨st₁.meet entry.name, ?_, hd₁.trans (.of_label st₁ _), ho₁⟩
  have hrows : h.rows = [h.reload, h.fetch, h.value] ++ [h.equal, h.branch, entry] := by
    rw [ArmHeader.rows, hentry]
    rfl
  rw [hrows]
  refine h₁.append ?_
  exact .cons (h₂ ..) (.cons (h₃ _) (.one (h₄ _)))

/-! ## Ends of arms -/

/-- Jumps to labels at which nothing ends. -/
theorem advances_jumps (hm : st.mode ≠ .parameterText) {rows : List Row}
    (hrows : ∀ r ∈ rows, ∃ l, goesTo "jump" r l ∧ l.name ∉ st.targets) :
    Advances sy opts before rows after st st := by
  induction rows generalizing before with
  | nil => exact .nil
  | cons r rows ih =>
    obtain ⟨l, hgo, ht⟩ := hrows r List.mem_cons_self
    exact .cons (step_jump_idle hm hgo ht) (ih fun r hr => hrows r (List.mem_cons_of_mem _ hr))

section Ends

variable {body : List Row} {leave : Option Row} {r : Row}

/-- An arm that another one follows ends in a break just when it leaves the select. -/
theorem endsInBreak_of_next {next : Row} (hnext : next.opcode = .jump)
    (hleave : leave.all fun j => j.opcode == .jump) (hr : r.isLabel = false)
    (hbody : leave = none → Row.does .jump (body.reverse ++ before).head? = false) :
    endsInBreak ⟨(body ++ (leave.toList ++ [next])).reverse ++ before, close, r :: rows⟩ =
      leave.isSome := by
  have hback : Row.does .jump (leave.toList ++ (body.reverse ++ before)).head? = leave.isSome := by
    cases leave with
    | none => exact hbody rfl
    | some j => exact hleave
  have hprev : (body ++ (leave.toList ++ [next])).reverse ++ before =
      next :: (leave.toList ++ (body.reverse ++ before)) := by
    cases leave <;> simp
  rw [endsInBreak, Cursor.prev?, Cursor.back2?, Cursor.next?, hprev]
  simp only [List.head?_cons, List.getElem?_cons_succ, ← List.head?_eq_getElem?, hback]
  simp [Row.does, hnext, hr]

theorem endsInBreak_of_last (hleave : leave.all fun j => j.opcode == .jump) (hr : r.isLabel)
    (hbody : leave = none → Row.does .jump (body.reverse ++ before).head? = false) :
    endsInBreak ⟨(body ++ leave.toList).reverse ++ before, close, r :: rows⟩ = leave.isSome := by
  have hprev : Row.does .jump ((body ++ leave.toList).reverse ++ before).head? = leave.isSome := by
    cases leave with
    | none => simpa using hbody rfl
    | some j => simpa [Row.does] using hleave
  rw [endsInBreak, Cursor.prev?, Cursor.next?, hprev]
  simp [hr]

end Ends

/-! ## Arms -/

section Arms

variable {cs : List Case} {body pre : List Row} {ys zs : List Stmt} {leave next : Option Row}

/-- The body of an arm and the jumps after it. -/
theorem advances_armBody {post : List Row} (hbody : Lifts sy opts ctx exit? body ys)
    (hg : Ground ctx a b st) (hd : Drift met st st₁) (ho : st₁.operands.tail = [])
    (hf : Fresh st (pre ++ (body ++ (rows ++ post))) after) (hmet : met ⊆ labelsOf pre)
    (hclose : close.name ∈ labelsOf post) (hl : InLoop exit? after st) (hb : Boundary before)
    (hhead : Row.does .pushRegister (rows ++ post).head? = false) (hpost : post ≠ [])
    (hjumps : ∀ r ∈ rows, ∃ l, goesTo "jump" r l ∧ l.name ∉ close.name :: st.targets)
    (x : Expr) (cs : List Case) (v : Expr) :
    ∃ st₃ marks, Advances sy opts before (body ++ rows) (post ++ after) (st₁.inArm a b x cs v close.name)
        (st₃.marked marks) ∧
      Went (st₁.inArm a b x cs v close.name) (StmtAddress.body ⟨a, b.length⟩ (.arm cs.length)) ys
        (labelsOf body) st₃ ∧
      Ground ctx (StmtAddress.body ⟨a, b.length⟩ (.arm cs.length)) ys st₃ := by
  have hl₁ : InLoop exit? (rows ++ post ++ after) (st₁.inArm a b x cs v close.name) :=
    (hl.mono [] hd.statements_eq hd.targets_eq).inside (rows ++ post) rfl rfl rfl
  have hhead' : Row.does .pushRegister (rows ++ post ++ after).head? = false := by
    rw [List.head?_append_of_ne_nil _ (by simp [hpost])]
    exact hhead
  have hbody? : (Stmt.select x (cs ++ [.mk v []])).body? (.arm cs.length) = some [] := by
    simp [Stmt.body?, Case.body]
  obtain ⟨st₃, marks, h₁, hw, hg₃, hm⟩ := hbody.opened hg hd ho hbody? rfl hf hmet
    (by simp [hclose]) hl₁ hb hhead'
  have ht₃ : st₃.targets = close.name :: st.targets := hw.opened_targets hd
  have hmode : (st₃.marked marks).mode ≠ .parameterText := hg₃.mode_ne
  have h₂ : Advances sy opts (body.reverse ++ before) rows (post ++ after) (st₃.marked marks)
      (st₃.marked marks) := by
    refine advances_jumps hmode fun r hr => ?_
    obtain ⟨l, hgo, ht⟩ := hjumps r hr
    exact ⟨l, hgo, hl.not_mem_marked hm (by simp [ht₃]) (by rwa [ht₃])⟩
  exact ⟨st₃, marks, h₁.append_of_eq h₂ (by simp) rfl, hw, hg₃⟩

theorem modifyBody_arm (x : Expr) (cs : List Case) (v : Expr) (zs : List Stmt) :
    (Stmt.select x (cs ++ [.mk v []])).modifyBody (· ++ zs) (.arm cs.length) =
      .select x (cs ++ [.mk v zs]) := by
  rw [Stmt.modifyBody, modify_length_append]
  rfl

section Closing

variable {st₃ : State} {marks : List (StmtAddress × String)} {ms : List String} {r : Row}
  {brk : List Stmt} (hclose : close.isLabel) (hg : Ground ctx a b st) (hd : Drift met st st₁)
  (hw : Went (st₁.inArm a b x cs v close.name) (StmtAddress.body ⟨a, b.length⟩ (.arm cs.length)) ys ms st₃)
  (hg₃ : Ground ctx (StmtAddress.body ⟨a, b.length⟩ (.arm cs.length)) ys st₃)
  (ht : close.name ∉ st.targets)
include hw

/-- The arm with what closing it adds. -/
theorem Went.arm (brk : List Stmt) : Went (st₁.inArm a b x cs v close.name)
    (StmtAddress.body ⟨a, b.length⟩ (.arm cs.length)) (ys ++ brk) ms
    (st₃.grow (StmtAddress.body ⟨a, b.length⟩ (.arm cs.length)) brk) := by
  have hgrown : Went st₃ (StmtAddress.body ⟨a, b.length⟩ (.arm cs.length)) brk []
      (st₃.grow (StmtAddress.body ⟨a, b.length⟩ (.arm cs.length)) brk) := ⟨.refl _, hw.operands⟩
  exact (hw.append hgrown).mono (by simp)

include hg hd

theorem Went.arm_handlers : st₃.handlers = modifyBlock st.handlers a (· ++ [.select x (cs ++ [.mk v ys])]) := by
  rw [hw.drift.handlers_eq, ← modifyBody_arm, State.grow, State.inArm, State.opening, hd.handlers_eq]
  exact modifyBlock_body_last hg.current.found _ _ _

/-- Between two arms, after an arm was filled. -/
theorem Went.between : Drift (met ++ (ms ++ [close.name])) (st.between a b x (cs ++ [.mk v ys]))
    { st₃ with
      statements := .pendingCase :: .select ⟨a, b.length⟩ x (cs.length + 1) :: st.statements
      targets := st.targets
      seen := close.name :: st₃.seen } := by
  refine ⟨?_, hw.drift.scope.trans hd.scope, fun y hy => ?_⟩
  · simp only [State.between, State.grow, List.length_append, List.length_singleton,
      Nat.add_sub_cancel, ← hw.arm_handlers hg hd]
    rw [hw.drift.rest, hd.rest]
    rfl
  · simp only [List.mem_cons] at hy
    simp only [List.mem_append, List.mem_singleton]
    rcases hy with hy | hy
    · exact .inl (.inr (.inr hy))
    · rcases hw.drift.seen y hy with hy | hy
      · exact .inl (.inr (.inl hy))
      · exact (hd.seen y hy).imp_left .inl

include hclose hg₃ ht

variable (sy opts) in
/-- The label of an arm that another one follows. -/
theorem step_armLabel (hr : r.opcode = .pushRegister)
    (hbrk : (if endsInBreak ⟨before, close, r :: rows⟩ then [.brk] else []) = brk) :
    ∃ st₄, step sy opts ⟨before, close, r :: rows⟩ (st₃.marked marks) = .ok st₄ ∧
      Drift (met ++ (ms ++ [close.name])) (st.between a b x (cs ++ [.mk v (ys ++ brk)])) st₄ ∧
      st₄.operands = [] := by
  have hmode : (st₃.marked marks).mode ≠ .parameterText := hg₃.mode_ne
  have ht₃ : st₃.targets = close.name :: st.targets := hw.opened_targets hd
  have hst₃ : st₃.statements = .select ⟨a, b.length⟩ x (cs.length + 1) :: st.statements :=
    hw.opened_statements hd
  refine ⟨_, ?_, Went.between hg hd (Went.arm hw brk), hg₃.operands⟩
  rw [step_label hmode hclose, closeLabel_arm ht₃ ht hst₃ hg₃.current rfl marks hr, hbrk]
  rfl

variable (sy opts) in
/-- The label of the last arm. -/
theorem step_lastArmLabel (hr : r.opcode = .label)
    (hbrk : (if endsInBreak ⟨before, close, r :: rows⟩ then [.brk] else []) = brk) :
    ∃ st₄, step sy opts ⟨before, close, r :: rows⟩ (st₃.marked marks) = .ok st₄ ∧
      Went st a [.select x (cs ++ [.mk v (ys ++ brk)])] (met ++ (ms ++ [close.name])) st₄ := by
  have hmode : (st₃.marked marks).mode ≠ .parameterText := hg₃.mode_ne
  have ht₃ : st₃.targets = close.name :: st.targets := hw.opened_targets hd
  have hst₃ : st₃.statements = .select ⟨a, b.length⟩ x (cs.length + 1) :: st.statements :=
    hw.opened_statements hd
  have hbody := Went.body hg hd (Went.arm hw brk) close.name
  rw [modifyBody_arm] at hbody
  refine ⟨_, ?_, hbody⟩
  rw [step_label hmode hclose, closeLabel_lastArm ht₃ ht hst₃ hg₃.current rfl marks hr, hbrk]
  simp only [State.left, State.grow, ht₃, hst₃, List.tail_cons]

end Closing

/-- What one arm of a select that ends at `fin` is made of. -/
structure ArmLifts (sy : Symbols) (opts : Options) (ctx : State) (exit? : Option String) (fin : Row)
    (h : ArmHeader) (body : List Row) (leave : Option Row) (close : Row) (v : Expr) (ys : List Stmt) :
    Prop where
  header : h.isSound close
  value : value? sy opts ctx [h.value] = some v
  lifts : Lifts sy opts ctx exit? body ys
  leaves : ∀ j ∈ leave, goesTo "jump" j fin
  ends : leave = none → Row.does .jump body.getLast? = false

namespace ArmLifts

variable (hm : ArmLifts sy opts ctx exit? fin h body leave close v ys)
include hm

theorem isLabel : close.isLabel := (goesTo_spec (ArmHeader.goesTo_close hm.header)).2.2

theorem isLabel_entry {entry : Row} (hentry : h.entry = some entry) : entry.isLabel :=
  ArmHeader.isLabel_entry hm.header hentry

/-- The label of the body comes to the labels met before. -/
theorem met_header {entry : Row} (hentry : h.entry = some entry) (hmet : met ⊆ labelsOf pre) :
    met ++ [entry.name] ⊆ labelsOf (pre ++ h.rows) := by
  have hlabel := hm.isLabel_entry hentry
  intro y hy
  rcases List.mem_append.mp hy with hy | hy
  · simp [hmet hy]
  · simp [ArmHeader.rows, hentry, hlabel, List.mem_singleton.mp hy]

/-- No comparison starts between the body and the rows behind the jump out of the select. -/
theorem head_leave {post : List Row} (hpost : Row.does .pushRegister post.head? = false) :
    Row.does .pushRegister (leave.toList ++ post).head? = false := by
  cases hleave : leave with
  | none => exact hpost
  | some j =>
    have hj : j.opcode = .jump := (goesTo_spec (hm.leaves j hleave)).1
    exact does_of_ne hj (by simp)

theorem opcode_leave : leave.all fun j => j.opcode == .jump := by
  cases hleave : leave with
  | none => rfl
  | some j => exact beq_iff_eq.mpr (goesTo_spec (hm.leaves j hleave)).1

/-- The rows of the header as rows before the body. -/
theorem seam_entry {entry : Row} (hentry : h.entry = some entry) (before : List Row) :
    Boundary (h.rows.reverse ++ before) ∧ Row.does .jump (h.rows.reverse ++ before).head? = false := by
  have hop := opcode_of_isLabel (hm.isLabel_entry hentry)
  have hrows : h.rows.reverse ++ before =
      entry :: h.branch :: h.equal :: h.value :: h.fetch :: h.reload :: before := by
    simp [ArmHeader.rows, hentry]
  rw [hrows]
  exact ⟨boundary_of_seam (by rw [hop]; rfl) _, does_of_ne hop (by simp)⟩

theorem head_not_jump (hb : Row.does .jump before.head? = false) (hnone : leave = none) :
    Row.does .jump (body.reverse ++ before).head? = false := by
  have hends := hm.ends hnone
  rw [List.head?_append, List.head?_reverse]
  cases hlast : body.getLast? with
  | none => exact hb
  | some r =>
    rw [hlast] at hends
    exact hends

/-- No jump before the label of an arm goes back. -/
theorem back {seen : List String} (hnext : ∀ n ∈ next, n.operand 0 ∉ seen) (hfin : fin.name ∉ seen)
    (r : Row) (hr : (h.entry.toList ++ (body ++ (leave.toList ++ next.toList))).getLast? = some r)
    (hop : r.opcode = .jump) : r.operand 0 ∉ seen := by
  cases next with
  | some n =>
    obtain rfl : n = r := by simpa [List.getLast?_append] using hr
    exact hnext n rfl
  | none =>
    cases leave with
    | some j =>
      obtain rfl : j = r := by simpa [List.getLast?_append] using hr
      rw [(goesTo_spec (hm.leaves j rfl)).2.1]
      exact hfin
    | none =>
      -- Without jumps the last row is of the body, or the label before it.
      have hends := hm.ends rfl
      rw [Option.toList_none, List.append_nil, List.append_nil, List.getLast?_append] at hr
      cases hlast : body.getLast? with
      | some r' =>
        obtain rfl : r' = r := by simpa [hlast] using hr
        rw [hlast, Row.does, hop] at hends
        simp at hends
      | none =>
        rw [hlast, Option.none_or] at hr
        have hmem : h.entry = some r := by simpa using List.mem_of_getLast? hr
        rw [opcode_of_isLabel (hm.isLabel_entry hmem)] at hop
        simp at hop

end ArmLifts

section Filling

variable {r : Row} (hm : ArmLifts sy opts ctx exit? fin h body leave close v ys)
  (hg : Ground ctx a b st) (hd : Drift met st st₁) (ho : st₁.operands.tail = [])
  (hmet : met ⊆ labelsOf pre) (hl : InLoop exit? (r :: after) st) (hb : Boundary before)
  (hbefore : Row.does .jump before.head? = false) (htf : fin.name ∉ close.name :: st.targets)
include hm hg hd ho hmet hl hb hbefore htf

/-- **An arm that another one follows**, from its body to its label. -/
theorem advances_arm {n l : Row} (hn : goesTo "jump" n l) (htl : l.name ∉ close.name :: st.targets)
    (hr : r.opcode = .pushRegister) (hrl : r.isLabel = false)
    (hf : Fresh st (pre ++ (body ++ (leave.toList ++ [n, close]))) (r :: after))
    (x : Expr) (cs : List Case) (w : Expr) :
    ∃ st₄, Advances sy opts before (body ++ (leave.toList ++ [n, close])) (r :: after)
        (st₁.inArm a b x cs w close.name) st₄ ∧
      Drift (met ++ (labelsOf body ++ [close.name]))
        (st.between a b x (cs ++ [.mk w (ys ++ leave.toList.map fun _ => .brk)])) st₄ ∧
      st₄.operands = [] := by
  have hclose := hm.isLabel
  obtain ⟨hop, -, -⟩ := goesTo_spec hn
  have hop : n.opcode = .jump := hop
  have hfc : Fresh st (pre ++ body ++ leave.toList ++ [n] ++ close :: []) (r :: after) := by
    simpa using hf
  obtain ⟨-, htc, -, -⟩ := hfc.label hclose
  have hjumps : ∀ r ∈ leave.toList ++ [n], ∃ l, goesTo "jump" r l ∧ l.name ∉ close.name :: st.targets := by
    intro r hr
    rcases List.mem_append.mp hr with hr | hr
    · exact ⟨fin, hm.leaves r (by simpa using hr), htf⟩
    · obtain rfl := List.mem_singleton.mp hr
      exact ⟨l, hn, htl⟩
  have hhead : Row.does .pushRegister (leave.toList ++ [n] ++ [close]).head? = false := by
    rw [List.append_assoc]
    exact hm.head_leave (does_of_ne hop (by simp))
  have hf' : Fresh st (pre ++ (body ++ (leave.toList ++ [n] ++ [close]))) (r :: after) := by simpa using hf
  obtain ⟨st₃, marks, h₁, hw, hg₃⟩ := advances_armBody hm.lifts hg hd ho hf' hmet
    (mem_labelsOf hclose []) hl hb hhead (by simp) hjumps x cs w
  have hbrk : (if endsInBreak ⟨(body ++ (leave.toList ++ [n])).reverse ++ before, close, r :: after⟩
      then [Stmt.brk] else []) = leave.toList.map fun _ => .brk := by
    rw [endsInBreak_of_next hop hm.opcode_leave hrl (hm.head_not_jump hbefore)]
    cases leave <;> rfl
  obtain ⟨st₄, h₂, hbetween, ho₄⟩ := step_armLabel sy opts hclose hg hd hw hg₃ htc hr hbrk
  refine ⟨st₄, ?_, hbetween, ho₄⟩
  have h₃ := Advances.snoc h₁ h₂
  simpa using h₃

/-- **The last arm**, from its body to its label. -/
theorem advances_lastArm (hr : r.isLabel)
    (hf : Fresh st (pre ++ (body ++ (leave.toList ++ [close]))) (r :: after))
    (x : Expr) (cs : List Case) (w : Expr) :
    ∃ st₄, Advances sy opts before (body ++ (leave.toList ++ [close])) (r :: after)
        (st₁.inArm a b x cs w close.name) st₄ ∧
      Went st a [.select x (cs ++ [.mk w (ys ++ leave.toList.map fun _ => .brk)])]
        (met ++ (labelsOf body ++ [close.name])) st₄ := by
  have hclose := hm.isLabel
  have hfc : Fresh st (pre ++ body ++ leave.toList ++ close :: []) (r :: after) := by simpa using hf
  obtain ⟨-, htc, -, -⟩ := hfc.label hclose
  have hjumps : ∀ r ∈ leave.toList, ∃ l, goesTo "jump" r l ∧ l.name ∉ close.name :: st.targets :=
    fun r hr => ⟨fin, hm.leaves r (by simpa using hr), htf⟩
  have hhead : Row.does .pushRegister (leave.toList ++ [close]).head? = false :=
    hm.head_leave (does_of_ne (opcode_of_isLabel hclose) (by simp))
  obtain ⟨st₃, marks, h₁, hw, hg₃⟩ := advances_armBody hm.lifts hg hd ho hf hmet
    (mem_labelsOf hclose []) hl hb hhead (by simp) hjumps x cs w
  have hbrk : (if endsInBreak ⟨(body ++ leave.toList).reverse ++ before, close, r :: after⟩
      then [Stmt.brk] else []) = leave.toList.map fun _ => .brk := by
    rw [endsInBreak_of_last hm.opcode_leave hr (hm.head_not_jump hbefore)]
    cases leave <;> rfl
  obtain ⟨st₄, h₂, hwent⟩ :=
    step_lastArmLabel sy opts hclose hg hd hw hg₃ htc (opcode_of_isLabel hr) hbrk
  refine ⟨st₄, ?_, hwent⟩
  have h₃ := Advances.snoc h₁ h₂
  simpa using h₃

end Filling

/-- The comparison of a later arm, with the label that its body starts at. -/
theorem advances_header {entry : Row} {tail : List Row}
    (hm : ArmLifts sy opts ctx exit? fin h body leave close v ys) (hentry : h.entry = some entry)
    (hg : Ground ctx a b st) (hd : Drift met (st.between a b x cs) st') (ho : st'.operands = [])
    (hmet : met ⊆ labelsOf pre) (hfin : fin.name ∈ labelsOf tail)
    (hnext : ∀ n ∈ next, n.operand 0 ∈ labelsOf tail)
    (hf : Fresh st (pre ++ (h.rows ++ (body ++ (leave.toList ++ (next.toList ++ close :: tail))))) after)
    (before : List Row) : ∃ st₁, Advances sy opts before h.rows
        (body ++ (leave.toList ++ (next.toList ++ close :: (tail ++ after)))) st'
        (st₁.inArm a b x cs (resolveLiteral sy [x.type, "SKILL"] v) close.name) ∧
      Drift (met ++ [entry.name]) st st₁ ∧ st₁.operands = [] := by
  have hclose := hm.isLabel
  have hentryLabel := hm.isLabel_entry hentry
  have hrows : h.rows = [h.reload, h.fetch, h.value, h.equal, h.branch] ++ [entry] := by
    rw [ArmHeader.rows, hentry]
    rfl
  have hfe : Fresh st (pre ++ [h.reload, h.fetch, h.value, h.equal, h.branch] ++ entry ::
      (body ++ (leave.toList ++ (next.toList ++ close :: tail)))) after := by
    simpa [hrows] using hf
  have hfc : Fresh st (pre ++ h.rows ++ body ++ leave.toList ++ next.toList ++ close :: tail) after := by
    simpa using hf
  obtain ⟨-, hte, -, hne⟩ := hfe.label hentryLabel
  obtain ⟨hsc, -, hpc, hnc⟩ := hfc.label hclose
  have hseen : ∀ y ∈ st'.seen, y ∈ labelsOf pre ∨ y ∈ st.seen :=
    fun y hy => (hd.seen y hy).imp_left (hmet ·)
  have hah : ∀ before, Ahead ⟨before, h.branch, entry ::
      (body ++ (leave.toList ++ (next.toList ++ close :: (tail ++ after))))⟩ st'
      ((h.entry.toList ++ (body ++ (leave.toList ++ next.toList))).getLast?.getD h.branch)
      (tail ++ after).head? := by
    intro before
    have hahead : Ahead ⟨before, h.branch, h.entry.toList ++ (body ++ (leave.toList ++ next.toList)) ++
        close :: (tail ++ after)⟩ st'
        ((h.entry.toList ++ (body ++ (leave.toList ++ next.toList))).getLast?.getD h.branch)
        (tail ++ after).head? :=
      ahead_of (ArmHeader.goesTo_close hm.header) (hf.later hseen (by simp [hclose])) hnc
        (hm.back (fun n hn => hf.later hseen (by simp [hnext n hn])) (hf.later hseen (by simp [hfin])))
    simpa [hentry] using hahead
  have hclose' : entry.name ≠ close.name := fun heq => hne (by simp [heq, hclose])
  exact advances_laterComparison hg hd ho hm.header hm.value hentry hah (by simp [hclose', hte])

end Arms

/-- **Rows that are lifted to the arms `cases`** of a select that ends at `fin`, after other arms of
it. -/
def LiftsArms (sy : Symbols) (opts : Options) (ctx : State) (exit? : Option String) (fin : Row)
    (rows : List Row) (cases : List Case) : Prop :=
  ∀ {before after pre : List Row} {a : Address} {b : List Stmt} {st st' : State} {met : List String}
    {x : Expr} {cs : List Case}, Ground ctx a b st → Drift met (st.between a b x cs) st' →
    st'.operands = [] → met ⊆ labelsOf pre → Fresh st (pre ++ (rows ++ [fin])) after →
    InLoop exit? after st → ∃ st'', Advances sy opts before rows (fin :: after) st' st'' ∧
      Went st a [.select x (cs ++ cases.map (armOf sy x))] (labelsOf (pre ++ rows)) st''

section List

variable {body rest : List Row} {ys : List Stmt} {leave : Option Row} {entry n l r : Row}
  {cases : List Case}

theorem liftsArms_last (hm : ArmLifts sy opts ctx exit? fin h body leave close v ys)
    (hentry : h.entry = some entry) (hfin : fin.isLabel) :
    LiftsArms sy opts ctx exit? fin (h.rows ++ (body ++ (leave.toList ++ [close])))
      [.mk v (ys ++ leave.toList.map fun _ => .brk)] := by
  intro before after pre a b st st' met x cs hg hd ho hmet hf hl
  have hclose := hm.isLabel
  have hlabel := hm.isLabel_entry hentry
  have hff : Fresh st (pre ++ (h.rows ++ (body ++ (leave.toList ++ [close]))) ++ fin :: []) after := by
    simpa using hf
  obtain ⟨-, htf, hpf, -⟩ := hff.label hfin
  have hfc : fin.name ≠ close.name := fun heq => hpf (by simp [heq, hclose])
  have hf₁ : Fresh st (pre ++ (h.rows ++ (body ++ (leave.toList ++
      ((none : Option Row).toList ++ close :: [fin]))))) after := by simpa using hf
  obtain ⟨st₁, h₁, hd₁, ho₁⟩ :=
    advances_header hm hentry hg hd ho hmet (mem_labelsOf hfin []) (by simp) hf₁ before
  have hmet₁ : met ++ [entry.name] ⊆ labelsOf (pre ++ h.rows) := hm.met_header hentry hmet
  have hf₂ : Fresh st (pre ++ h.rows ++ (body ++ (leave.toList ++ [close]))) ([fin] ++ after) := by
    rw [List.append_assoc]
    exact hff.front
  obtain ⟨hb, hnot⟩ := hm.seam_entry hentry before
  obtain ⟨st₄, h₂, hw⟩ := advances_lastArm hm hg hd₁ (by rw [ho₁]; rfl) hmet₁ (hl.mono [fin] rfl rfl)
    hb hnot (by simp [hfc, htf]) hfin hf₂ x cs (resolveLiteral sy [x.type, "SKILL"] v)
  refine ⟨st₄, h₁.append_of_eq h₂ (by simp) rfl, hw.mono fun y hy => ?_⟩
  simp only [List.mem_append, List.mem_singleton] at hy
  rcases hy with (hy | hy) | hy | hy
  · simp [hmet hy]
  · simp [ArmHeader.rows, hentry, hlabel, hy]
  · simp [hy]
  · simp [hclose, hy]

/-- An arm before others. -/
theorem liftsArms_cons (hm : ArmLifts sy opts ctx exit? fin h body leave close v ys)
    (hentry : h.entry = some entry) (hfin : fin.isLabel) (hn : goesTo "jump" n l)
    (hl : l.name ∈ labelsOf (r :: rest)) (hr : r.opcode = .pushRegister)
    (hrest : LiftsArms sy opts ctx exit? fin (r :: rest) cases) :
    LiftsArms sy opts ctx exit? fin (h.rows ++ (body ++ (leave.toList ++ [n, close])) ++ r :: rest)
      (.mk v (ys ++ leave.toList.map fun _ => .brk) :: cases) := by
  intro before after pre a b st st' met x cs hg hd ho hmet hf hloop
  have hclose := hm.isLabel
  have hlabel := hm.isLabel_entry hentry
  have hrl : r.isLabel = false := isLabel_eq_false hr (by simp)
  obtain ⟨-, harg, -⟩ := goesTo_spec hn
  have hff : Fresh st (pre ++ (h.rows ++ (body ++ (leave.toList ++ [n, close])) ++ r :: rest) ++
      fin :: []) after := by simpa using hf
  have hfc : Fresh st (pre ++ (h.rows ++ (body ++ (leave.toList ++ [n]))) ++ close ::
      (r :: rest ++ [fin])) after := by simpa using hf
  obtain ⟨-, htf, hpf, -⟩ := hff.label hfin
  obtain ⟨-, -, -, hnc⟩ := hfc.label hclose
  have hfinc : fin.name ≠ close.name := fun heq => hpf (by simp [heq, hclose])
  have hlc : l.name ≠ close.name := fun heq =>
    hnc (by rw [← heq, labelsOf_append, labelsOf_append]; simp only [List.mem_append, hl, true_or])
  have htl : l.name ∉ st.targets := hf.untargeted _ (by
    simp only [labelsOf_append, List.mem_append, hl, true_or, or_true])
  have hf₁ : Fresh st (pre ++ (h.rows ++ (body ++ (leave.toList ++
      ((some n).toList ++ close :: (r :: rest ++ [fin])))))) after := by simpa using hf
  obtain ⟨st₁, h₁, hd₁, ho₁⟩ := advances_header hm hentry hg hd ho hmet (by simp [hfin])
    (fun n' hn' => by
      obtain rfl : n = n' := by simpa using hn'
      rw [harg, labelsOf_append, List.mem_append]
      exact .inl hl) hf₁ before
  have hmet₁ : met ++ [entry.name] ⊆ labelsOf (pre ++ h.rows) := hm.met_header hentry hmet
  have hf₂ : Fresh st (pre ++ h.rows ++ (body ++ (leave.toList ++ [n, close])))
      (r :: rest ++ [fin] ++ after) :=
    Fresh.front (by simpa using hf)
  obtain ⟨hb, hnot⟩ := hm.seam_entry hentry before
  obtain ⟨st₄, h₂, hd₄, ho₄⟩ := advances_arm hm hg hd₁ (by rw [ho₁]; rfl) hmet₁
    (hloop.mono (r :: rest ++ [fin]) rfl rfl) hb hnot (by simp [hfinc, htf]) hn (by simp [hlc, htl])
    hr hrl hf₂ x cs (resolveLiteral sy [x.type, "SKILL"] v)
  have hmet₄ : met ++ [entry.name] ++ (labelsOf body ++ [close.name]) ⊆
      labelsOf (pre ++ (h.rows ++ (body ++ (leave.toList ++ [n, close])))) := by
    intro y hy
    simp only [List.mem_append, List.mem_singleton] at hy
    rcases hy with (hy | hy) | hy | hy
    · simp [hmet hy]
    · simp [ArmHeader.rows, hentry, hlabel, hy]
    · simp [hy]
    · simp [hclose, hy]
  obtain ⟨st₅, h₃, hw⟩ := hrest hg hd₄ ho₄ hmet₄ (by simpa using hf) hloop
  refine ⟨st₅, ?_, ?_⟩
  · have h₄ := h₁.append_of_eq h₂ (by simp) rfl
    exact h₄.append_of_eq h₃ (by simp) rfl
  · simpa [armOf, Case.value, Case.body] using hw

/-- The end of a select, and the value that is dropped. -/
theorem advances_selectEnd {drop : Row} {zs : List Stmt} {ns : List String} (hg : Ground ctx a b st)
    (hw : Went st a zs ns st') (hfin : fin.isLabel) (ht : fin.name ∉ st.targets)
    (hdrop : drop.key = dropKey 1) :
    Advances sy opts before [fin, drop] after st' (st'.meet fin.name) ∧
      Went st a zs (ns ++ [fin.name]) (st'.meet fin.name) := by
  have hm : st'.mode ≠ .parameterText := by
    rw [hw.drift.mode_eq]
    exact hg.mode_ne
  have hm' : (st'.meet fin.name).mode ≠ .parameterText := hm
  have h₁ : step sy opts ⟨before, fin, [drop] ++ after⟩ st' = .ok (st'.meet fin.name) := by
    refine step_label_idle hm hfin ?_
    rw [hw.drift.targets_eq]
    exact ht
  have h₂ : step sy opts ⟨fin :: before, drop, after⟩ (st'.meet fin.name) = .ok (st'.meet fin.name) := by
    rw [step_shift hm' (opcode_of_dropKey hdrop)]
    exact shift_idle hw.operands
  exact ⟨.cons h₁ (.one h₂), hw.drift.trans (.of_label st' fin.name), hw.operands⟩

theorem liftsOne_select {code : List Row} {drop : Row} {e : Expr} (hpost : isPostfix sy code)
    (hv : value? sy opts ctx code = some e)
    (hm : ArmLifts sy opts ctx exit? fin h body leave close v ys) (hentry : h.entry = none)
    (hn : goesTo "jump" n l) (hl : l.name ∈ labelsOf (r :: rest)) (hr : r.opcode = .pushRegister)
    (hrest : LiftsArms sy opts ctx exit? fin (r :: rest) cases) (hfin : fin.isLabel)
    (hdrop : drop.key = dropKey 1) :
    LiftsOne sy opts ctx exit? false
      (code ++ (h.rows ++ (body ++ (leave.toList ++ [n, close])) ++ (r :: rest ++ [fin, drop])))
      (selectOf sy e v (ys ++ leave.toList.map fun _ => .brk) cases) := by
  intro before after a b st hb _ hg hf hloop
  have hclose := hm.isLabel
  obtain ⟨hop, -, -⟩ := goesTo_spec (ArmHeader.goesTo_close hm.header)
  have hop : h.branch.opcode = .branchFalse := hop
  obtain ⟨hjump, harg, -⟩ := goesTo_spec hn
  have hjump : n.opcode = .jump := hjump
  have hrl : r.isLabel = false := isLabel_eq_false hr (by simp)
  have hrows : h.rows = [h.reload, h.fetch, h.value, h.equal, h.branch] := by
    rw [ArmHeader.rows, hentry]
    rfl
  have hff : Fresh st (code ++ (h.rows ++ (body ++ (leave.toList ++ [n, close])) ++ r :: rest) ++
      fin :: [drop]) after := by simpa using hf
  have hfc : Fresh st (code ++ (h.rows ++ (body ++ (leave.toList ++ [n]))) ++ close ::
      (r :: rest ++ [fin, drop])) after := by simpa using hf
  obtain ⟨-, htf, hpf, -⟩ := hff.label hfin
  obtain ⟨hsc, -, -, hnc⟩ := hfc.label hclose
  have hfinc : fin.name ≠ close.name := fun heq => hpf (by simp [heq, hclose])
  have hlc : l.name ≠ close.name := fun heq =>
    hnc (by rw [← heq, labelsOf_append, labelsOf_append]; simp only [List.mem_append, hl, true_or])
  have hlr : l.name ∈ labelsOf (code ++ (h.rows ++ (body ++ (leave.toList ++ [n, close])) ++
      (r :: rest ++ [fin, drop]))) := by
    simp only [labelsOf_append, List.mem_append, hl, true_or, or_true]
  have htl : l.name ∉ st.targets := hf.untargeted _ hlr
  have hsl : l.name ∉ st.seen := hf.unseen _ (by rw [labelsOf_append]; exact List.mem_append_left _ hlr)
  -- The value, with its first comparison.
  have hah : ∀ before, Ahead ⟨before, h.branch, body ++ (leave.toList ++ [n, close]) ++
      (r :: rest ++ [fin, drop] ++ after)⟩ st n (some r) := by
    intro before
    have hahead := ahead_of_jump (ArmHeader.goesTo_close hm.header) hsc hnc (harg ▸ hsl) before
      (body ++ leave.toList)
    simpa using hahead
  obtain ⟨st₁, h₁, hd₁, ho₁⟩ := advances_firstComparison hg hb hpost hv hm.header hm.value rfl hah hjump
    (by rw [Row.does, hr]; rfl)
  -- The first arm.
  have hbefore : (code ++ [h.reload, h.fetch, h.value, h.equal, h.branch]).reverse ++ before =
      h.branch :: h.equal :: h.value :: h.fetch :: h.reload :: (code.reverse ++ before) := by simp
  have hf₂ : Fresh st (code ++ h.rows ++ (body ++ (leave.toList ++ [n, close])))
      (r :: rest ++ [fin, drop] ++ after) :=
    Fresh.front (by simpa using hf)
  obtain ⟨st₄, h₂, hd₄, ho₄⟩ := advances_arm hm hg hd₁ ho₁ (by simp)
    (hloop.mono (r :: rest ++ [fin, drop]) rfl rfl)
    (hbefore ▸ boundary_of_seam (by rw [hop]; rfl) _)
    (by rw [hbefore]; exact does_of_ne hop (by simp))
    (by simp [hfinc, htf]) hn (by simp [hlc, htl]) hr hrl hf₂
    (resolveLiteral sy [(resolveLiteral sy [e.type, "SKILL"] v).type, "SKILL"] e) []
    (resolveLiteral sy [e.type, "SKILL"] v)
  -- The other arms.
  have hmet₄ : [] ++ (labelsOf body ++ [close.name]) ⊆
      labelsOf (code ++ (h.rows ++ (body ++ (leave.toList ++ [n, close])))) := by
    intro y hy
    rw [List.nil_append, List.mem_append, List.mem_singleton] at hy
    rcases hy with hy | hy <;> simp [hclose, hy]
  have hf₃ : Fresh st (code ++ (h.rows ++ (body ++ (leave.toList ++ [n, close]))) ++ (r :: rest ++ [fin]))
      ([drop] ++ after) :=
    Fresh.front (by simpa using hf)
  obtain ⟨st₅, h₃, hw⟩ := hrest hg hd₄ ho₄ hmet₄ hf₃ (hloop.mono [drop] rfl rfl)
  obtain ⟨h₄, hwent⟩ := advances_selectEnd hg hw hfin htf hdrop
  have htotal : code ++ (h.rows ++ (body ++ (leave.toList ++ [n, close])) ++ (r :: rest ++ [fin, drop])) =
      code ++ (h.rows ++ (body ++ (leave.toList ++ [n, close]))) ++ r :: rest ++ [fin, drop] := by simp
  rw [htotal]
  refine ⟨st₅.meet fin.name, [], ?_, hwent.mono fun y hy => ?_, fun _ => rfl, by simp⟩
  · have h₆ := (h₁.append_of_eq h₂ (by simp) rfl).append_of_eq h₃ (by simp) rfl
    have h₇ := h₆.append_of_eq h₄ rfl rfl
    have hsame : code ++ (h.rows ++ (body ++ (leave.toList ++ [n, close]))) ++ r :: rest ++ [fin, drop] =
        code ++ [h.reload, h.fetch, h.value, h.equal, h.branch] ++
          (body ++ (leave.toList ++ [n, close])) ++ r :: rest ++ [fin, drop] := by simp [hrows]
    rw [hsame]
    exact h₇
  · rw [List.mem_append, List.mem_singleton] at hy
    rw [labelsOf_append, List.mem_append]
    rcases hy with hy | hy
    · exact .inl hy
    · exact .inr (by simp [hfin, hy])

end List

end ScriptLift.Lift
