import ScriptLift.Proofs.Lift.Site

/-!
# Statements, conditionals and loops in place

* `liftsOne_eval`, `liftsOne_ret`, `liftsOne_super`, `liftsOne_brk`: statements without bodies.
* `Lifts.opened`: the body of a statement just opened.
* **`liftsOne_ifThen`**, **`liftsOne_ifElse`**: conditionals; a first branch that ends in a break
  leaves the second branch open.
* **`liftsOne_while`**, **`liftsOne_for`**: loops, both by `advances_loop`.
-/

namespace ScriptLift.Lift

variable {sy : Symbols} {opts : Options} {ctx st st' : State} {a : Address} {b : List Stmt}
  {before after rows : List Row} {exit? : Option String} {c : Cursor}

/-! ## Single rows -/

section Steps

variable {r : Row} (hm : st.mode ≠ .parameterText)
include hm

theorem step_label (hl : r.isLabel) :
    step sy opts ⟨before, r, after⟩ st = closeLabel ⟨before, r, after⟩ st := by
  rw [step_eq_dispatch hm]
  simp only [dispatch, opcode_of_isLabel hl]

theorem step_jump (hop : r.opcode = .jump) :
    step sy opts ⟨before, r, after⟩ st = jump ⟨before, r, after⟩ st := by
  rw [step_eq_dispatch hm]
  simp only [dispatch, hop]

theorem step_branch (hop : r.opcode = .branchFalse) :
    step sy opts ⟨before, r, after⟩ st = branch sy ⟨before, r, after⟩ st := by
  rw [step_eq_dispatch hm]
  simp only [dispatch, hop]

theorem step_shift (hop : r.opcode = .shift) :
    step sy opts ⟨before, r, after⟩ st = shift ⟨before, r, after⟩ st := by
  rw [step_eq_dispatch hm]
  simp only [dispatch, hop]

end Steps

/-- A jump to a label at which nothing ends. -/
theorem step_jump_idle (hm : st.mode ≠ .parameterText) {r l : Row} (hgo : goesTo "jump" r l)
    (ht : l.name ∉ st.targets) : step sy opts ⟨before, r, after⟩ st = .ok st := by
  obtain ⟨hop, harg, -⟩ := goesTo_spec hgo
  have hop : r.opcode = .jump := hop
  rw [step_jump hm hop]
  exact jump_idle (by rwa [harg])

/-- A label at which nothing ends. -/
theorem step_label_idle (hm : st.mode ≠ .parameterText) {l : Row} (hl : l.isLabel)
    (ht : l.name ∉ st.targets) :
    step sy opts ⟨before, l, after⟩ st = .ok (st.meet l.name) := by
  rw [step_label hm hl]
  exact closeLabel_idle ht

theorem Advances.append_of_eq {rows rows' before' after' : List Row}
    {st₁ st₂ : State} (h : Advances sy opts before rows after st st₁)
    (h' : Advances sy opts before' rows' after' st₁ st₂) (ha : after = rows' ++ after')
    (hb : before' = rows.reverse ++ before) : Advances sy opts before (rows ++ rows') after' st st₂ := by
  subst ha hb
  exact h.append h'

/-- Code where a statement may begin leaves its value. -/
theorem Ground.advances_value (hg : Ground ctx a b st) (hb : Boundary before) {code : List Row}
    (hpost : isPostfix sy code) {e : Expr} (hv : value? sy opts ctx code = some e)
    (ha : after.head?.any Row.isFetch = false) :
    ∃ st', Advances sy opts before code after st st' ∧ Grown [e] st st' := by
  have hp : Placed before after st := ⟨hb, ha, hg.mode, hg.not_pendingCase⟩
  exact advances_postfix hp hpost (.inl hg.not_pendingFor) hg.scope hv

theorem Grown.operands_eq {e : Expr} (h : Grown [e] st st') (ho : st.operands = []) :
    st'.operands = [e] := by
  rw [h.rest, ho]
  rfl

theorem value?_ne_nil {code : List Row} {e : Expr} (hv : value? sy opts ctx code = some e) :
    code ≠ [] := by
  rintro rfl
  simp [value?, leaves?, advance, Except.toOption, State.bare, State.initial] at hv

theorem head?_reverse_append {code : List Row} (h : code ≠ []) (before : List Row) :
    (code.reverse ++ before).head? = code.getLast? := by
  rw [List.head?_append_of_ne_nil _ (by simpa using h), List.head?_reverse]

/-! ## Statements without bodies -/

theorem Ground.advances_eval (hg : Ground ctx a b st) (hb : Boundary before) {code : List Row}
    {drop : Row} {e : Expr} (hpost : isPostfix sy code) (hv : value? sy opts ctx code = some e)
    (hdrop : drop.key = dropKey 1) : ∃ st', Advances sy opts before (code ++ [drop]) after st st' ∧
      Went st a [.eval e] [] st' := by
  have hop := opcode_of_dropKey hdrop
  have hfetch : drop.isFetch = false := isFetch_of_seam (by rw [hop]; rfl)
  obtain ⟨st₁, h₁, hgrown⟩ : ∃ st₁, Advances sy opts before code (drop :: after) st st₁ ∧
      Grown [e] st st₁ := hg.advances_value hb hpost hv hfetch
  have hd := (Drift.of_grown hgrown).trans (.of_operands st₁ [])
  have hcall : Row.does .call (Cursor.prev? ⟨code.reverse ++ before, drop, after⟩) → isBareCall e := by
    rw [Cursor.prev?, head?_reverse_append (value?_ne_nil hv)]
    exact isBareCall_of_value? hpost hv
  have hstep : step sy opts ⟨code.reverse ++ before, drop, after⟩ st₁ =
      .ok (State.grow { st₁ with operands := [] } a [.eval e]) := by
    rw [step_shift (by rw [hd.mode_eq, hg.mode]; simp) hop]
    rw [shift_eval hdrop hcall (hgrown.operands_eq hg.operands), add_eq (hd.current hg.current)]
    rfl
  exact ⟨_, .snoc h₁ hstep, hd.grow a [.eval e], rfl⟩

theorem liftsOne_eval {code : List Row} {drop : Row} {e : Expr} (hpost : isPostfix sy code)
    (hv : value? sy opts ctx code = some e) (hdrop : drop.key = dropKey 1) :
    LiftsOne sy opts ctx exit? false (code ++ [drop]) (.eval e) := by
  intro before after a b st hb _ hg _ _
  obtain ⟨st', h, hw⟩ := hg.advances_eval hb hpost hv hdrop
  exact ⟨st', [], h, hw.mono (by simp), fun _ => rfl, by simp⟩

/-- A row that adds a statement. -/
theorem liftsOne_row {row : Row} {s : Stmt} (hstep : ∀ {before after a b st}, Ground ctx a b st →
      InLoop exit? after st → step sy opts ⟨before, row, after⟩ st = st.add s) :
    LiftsOne sy opts ctx exit? false [row] s := by
  intro before after a b st _ _ hg _ hl
  refine ⟨st.grow a [s], [], .one ?_, ⟨(Drift.refl _).mono (by simp), hg.operands⟩,
    fun _ => rfl, by simp⟩
  rw [hstep hg hl, add_eq hg.current]
  rfl

theorem liftsOne_ret {row : Row} (hop : row.opcode = .exitHandler) :
    LiftsOne sy opts ctx exit? false [row] .ret :=
  liftsOne_row fun hg _ => by
    rw [step_eq_dispatch hg.mode_ne]
    simp only [dispatch, hop]

theorem liftsOne_super {row : Row} (hop : row.opcode = .callSuper) :
    LiftsOne sy opts ctx exit? false [row] (.super (handlerName? ctx)) :=
  liftsOne_row fun hg _ => by
    rw [step_eq_dispatch hg.mode_ne, ← hg.name]
    simp only [dispatch, hop]

theorem liftsOne_brk {row : Row} (hop : row.opcode = .jump) (hexit : exit? = some (row.operand 0)) :
    LiftsOne sy opts ctx exit? false [row] .brk :=
  liftsOne_row fun hg hl => by
    obtain ⟨-, i, hi, ht⟩ := hl _ hexit
    rw [step_jump hg.mode_ne hop, jump_brk hi ht]

/-! ## Bodies -/

/-- How rows end: in a jump only as a break, which goes to the end of the innermost loop. -/
structure Ends (exit? : Option String) (brk : Bool) (rows : List Row) : Prop where
  seam : ∀ r, rows.getLast? = some r → isSeam r.opcode
  jump : ∀ r, rows.getLast? = some r → r.opcode = .jump → brk
  brk : brk → ∃ r, rows.getLast? = some r ∧ r.opcode = .jump ∧ exit? = some (r.operand 0)

/-- Second branches left open end where the innermost loop ends. -/
theorem InLoop.not_mem_marked {st₀ : State} (hl : InLoop exit? after st₀)
    {marks : List (StmtAddress × String)} (hm : ∀ m ∈ marks, exit? = some m.2)
    (hsub : st₀.targets ⊆ st.targets) {x : String} (hx : x ∉ st.targets) :
    x ∉ (st.marked marks).targets := by
  intro hmem
  rcases List.mem_append.mp hmem with hmem | hmem
  · obtain ⟨m, hmark, rfl⟩ := List.mem_map.mp hmem
    obtain ⟨-, i, -, hi⟩ := hl _ (hm m hmark)
    exact hx (hsub (List.mem_of_getElem? hi))
  · exact hx hmem

section Opened

variable {st₁ st₃ : State} {s : Stmt} {o : StmtAddress → Open} {slot : Slot} {target : String}
  {met : List String} {ys b' : List Stmt}

/-- **The body of a statement just opened is filled**, up to the label at which it ends. -/
theorem Lifts.opened {pre body post : List Row} {exit₁ : Option String}
    (hbody : Lifts sy opts ctx exit₁ body ys) (hg : Ground ctx a b st) (hd : Drift met st st₁)
    (ho : st₁.operands.tail = []) (hs : s.body? slot = some b')
    (hopen : (o ⟨a, b.length⟩).isPending = false) (hf : Fresh st (pre ++ (body ++ post)) after)
    (hmet : met ⊆ labelsOf pre) (htarget : target ∈ labelsOf (post ++ after))
    (hl : InLoop exit₁ (post ++ after) (st₁.opening a b s o slot target)) (hb : Boundary before)
    (ha : Row.does .pushRegister (post ++ after).head? = false) :
    ∃ st₃ marks, Advances sy opts before body (post ++ after) (st₁.opening a b s o slot target)
        (st₃.marked marks) ∧
      Went (st₁.opening a b s o slot target) (StmtAddress.body ⟨a, b.length⟩ slot) ys
        (labelsOf body) st₃ ∧
      Ground ctx (StmtAddress.body ⟨a, b.length⟩ slot) (b' ++ ys) st₃ ∧
      ∀ m ∈ marks, exit₁ = some m.2 := by
  have hg₁ := hg.opening hd ho hs hopen target
  have hf₁ : Fresh (st₁.opening a b s o slot target) body (post ++ after) := by
    refine hf.middle (fun x hx => (hd.seen x hx).imp_left (hmet ·)) fun x hx => ?_
    rcases List.mem_cons.mp hx with rfl | hx
    · exact .inl htarget
    · exact .inr (hd.targets_eq ▸ hx)
  obtain ⟨st₃, marks, h, hw, hm⟩ := hbody hb ha hg₁ hf₁ hl
  exact ⟨st₃, marks, h, hw, hg₁.went hw, hm⟩

theorem Went.opened_statements (hd : Drift met st st₁) {ms : List String}
    (hw : Went (st₁.opening a b s o slot target) (StmtAddress.body ⟨a, b.length⟩ slot) ys ms st₃) :
    st₃.statements = o ⟨a, b.length⟩ :: st.statements := by
  rw [hw.drift.statements_eq, ← hd.statements_eq]
  rfl

theorem Went.opened_targets (hd : Drift met st st₁) {ms : List String}
    (hw : Went (st₁.opening a b s o slot target) (StmtAddress.body ⟨a, b.length⟩ slot) ys ms st₃) :
    st₃.targets = target :: st.targets := by
  rw [hw.drift.targets_eq, ← hd.targets_eq]
  rfl

end Opened

/-- The labels ahead of a branch whose label comes after `rows`. -/
theorem ahead_of {branch label : Row} (hgo : goesTo "branch_false" branch label)
    (hseen : label.name ∉ st.seen) (hafter : label.name ∉ labelsOf after)
    (hback : ∀ r, rows.getLast? = some r → r.opcode = .jump → r.operand 0 ∉ st.seen) :
    Ahead ⟨before, branch, rows ++ label :: after⟩ st (rows.getLast?.getD branch) after.head? := by
  obtain ⟨hop, harg, hl⟩ := goesTo_spec hgo
  refine ⟨by rw [harg]; exact name_of_isLabel hl, ahead?_eq harg hl hseen rows hafter, fun hj => ?_⟩
  cases hlast : rows.getLast? with
  | none =>
    rw [hlast, Option.getD_none, hop] at hj
    exact absurd hj (by decide)
  | some r =>
    rw [hlast] at hj
    exact hback r hlast hj

theorem ahead_of_jump {branch label back : Row} (hgo : goesTo "branch_false" branch label)
    (hseen : label.name ∉ st.seen) (hafter : label.name ∉ labelsOf after)
    (hback : back.operand 0 ∉ st.seen) (before rows : List Row) :
    Ahead ⟨before, branch, rows ++ [back] ++ label :: after⟩ st back after.head? := by
  have hlast : (rows ++ [back]).getLast? = some back := List.getLast?_concat
  have hahead : Ahead ⟨before, branch, rows ++ [back] ++ label :: after⟩ st
      ((rows ++ [back]).getLast?.getD branch) after.head? :=
    ahead_of hgo hseen hafter fun r hr _ => by
      obtain rfl : back = r := by simpa using hr
      exact hback
  rwa [hlast] at hahead

theorem opensIf_congr {cond rest rest' : List Row} (h : rest.head? = rest'.head?) :
    opensIf cond rest = opensIf cond rest' := by
  rw [opensIf, h, opensIf]

section Conditionals

variable {cond inner yes no : List Row} {branch skip label other close : Row} {e : Expr}
  {ys ns : List Stmt}

/-- The branch of a conditional, after its condition. -/
theorem advances_if (hpost : isPostfix sy cond) (hv : value? sy opts ctx cond = some e)
    (hgo : goesTo "branch_false" branch label) (hopens : opensIf cond (inner ++ label :: after))
    (hb : Boundary before) (hg : Ground ctx a b st) (hseen : label.name ∉ st.seen)
    (hlabel : label.name ∉ labelsOf after) (hafter : Row.does .pushRegister after.head? = false)
    (hback : ∀ r, inner.getLast? = some r → r.opcode = .jump → r.operand 0 ∉ st.seen) :
    ∃ st₁, Grown [e] st st₁ ∧ Advances sy opts before (cond ++ [branch]) (inner ++ label :: after) st
      (st₁.opening a b (.ifElse e [] []) .conditional .yes label.name) := by
  obtain ⟨hop, harg, hl⟩ := goesTo_spec hgo
  have hop : branch.opcode = .branchFalse := hop
  have hfetch : branch.isFetch = false := isFetch_of_seam (by rw [hop]; rfl)
  obtain ⟨st₁, h₁, hgrown⟩ : ∃ st₁,
      Advances sy opts before cond (branch :: (inner ++ label :: after)) st st₁ ∧ Grown [e] st st₁ :=
    hg.advances_value hb hpost hv hfetch
  have hd := Drift.of_grown hgrown
  have hseen₁ : st₁.seen = st.seen := by rw [hgrown.rest]
  refine ⟨st₁, hgrown, .snoc h₁ ?_⟩
  have hah : Ahead ⟨cond.reverse ++ before, branch, inner ++ label :: after⟩ st₁
      (inner.getLast?.getD branch) after.head? :=
    ahead_of hgo (hseen₁ ▸ hseen) hlabel (hseen₁ ▸ hback)
  have hprev : Cursor.prev? ⟨cond.reverse ++ before, branch, inner ++ label :: after⟩ =
      cond.getLast? := head?_reverse_append (value?_ne_nil hv) before
  rw [opensIf, Bool.and_eq_true, Bool.not_eq_true'] at hopens
  rw [step_branch (by rw [hd.mode_eq, hg.mode]; simp) hop]
  rw [branch_if hah hafter ((hd.topIs_eq _).trans hg.not_pendingCase) hopens.1
    (hprev ▸ hopens.2) (hd.current hg.current) (hgrown.operands_eq hg.operands)]
  rw [← harg]

/-- The first branch of a conditional, up to the rows `tail` before the label. -/
theorem advances_yes {tail rest : List Row} (hpost : isPostfix sy cond)
    (hv : value? sy opts ctx cond = some e) (hgo : goesTo "branch_false" branch label)
    (hopens : opensIf cond (yes ++ (tail ++ [label]))) (hyes : Lifts sy opts ctx exit? yes ys)
    (hb : Boundary before) (hg : Ground ctx a b st)
    (hf : Fresh st (cond ++ [branch] ++ (yes ++ (tail ++ label :: rest))) after)
    (hl : InLoop exit? after st) (htail : Row.does .pushRegister (tail ++ [label]).head? = false)
    (hrest : Row.does .pushRegister (rest ++ after).head? = false)
    (hback : ∀ r, (yes ++ tail).getLast? = some r → r.opcode = .jump → r.operand 0 ∉ st.seen) :
    ∃ st₁ st₃ marks, Drift [] st st₁ ∧
      Advances sy opts before (cond ++ [branch] ++ yes) (tail ++ label :: rest ++ after) st
        (st₃.marked marks) ∧
      Went (st₁.opening a b (.ifElse e [] []) .conditional .yes label.name)
        (StmtAddress.body ⟨a, b.length⟩ .yes) ys (labelsOf yes) st₃ ∧
      Ground ctx (StmtAddress.body ⟨a, b.length⟩ .yes) ys st₃ ∧ ∀ m ∈ marks, exit? = some m.2 := by
  obtain ⟨hop, -, hlabel⟩ := goesTo_spec hgo
  have hop : branch.opcode = .branchFalse := hop
  have hf' : Fresh st (cond ++ [branch] ++ yes ++ tail ++ label :: rest) after := by simpa using hf
  obtain ⟨hseen, -, -, hnew⟩ := hf'.label hlabel
  have hopens' : opensIf cond (yes ++ tail ++ label :: (rest ++ after)) := by
    rw [← hopens]
    exact opensIf_congr (by cases yes <;> cases tail <;> rfl)
  obtain ⟨st₁, hgrown, h₁⟩ := advances_if hpost hv hgo hopens' hb hg hseen hnew hrest hback
  have hd := Drift.of_grown hgrown
  have hl₁ : InLoop exit? (tail ++ label :: rest ++ after)
      (st₁.opening a b (.ifElse e [] []) .conditional .yes label.name) :=
    (hl.mono [] hd.statements_eq hd.targets_eq).inside (tail ++ label :: rest) rfl rfl rfl
  have hhead : Row.does .pushRegister (tail ++ label :: rest ++ after).head? = false := by
    rw [← htail]
    cases tail <;> rfl
  obtain ⟨st₃, marks, h₂, hw, hg₃, hm⟩ := hyes.opened hg hd
    (by rw [hgrown.operands_eq hg.operands]; rfl) rfl rfl hf (by simp) (by simp [hlabel]) hl₁
    (boundary_of_seam (by rw [hop]; rfl) (cond.reverse ++ before)) hhead
  exact ⟨st₁, st₃, marks, hd, h₁.append_of_eq h₂ (by simp) (by simp), hw, hg₃, hm⟩

theorem liftsOne_ifThen {brk : Bool} (hpost : isPostfix sy cond)
    (hv : value? sy opts ctx cond = some e) (hgo : goesTo "branch_false" branch close)
    (hopens : opensIf cond (yes ++ [close])) (hyes : Lifts sy opts ctx exit? yes ys)
    (hends : Ends exit? brk yes) :
    LiftsOne sy opts ctx exit? brk (cond ++ branch :: (yes ++ [close])) (.ifElse e ys []) := by
  intro before after a b st hb ha hg hf hl
  obtain ⟨hop, -, hclose⟩ := goesTo_spec hgo
  have hop : branch.opcode = .branchFalse := hop
  have hrows : cond ++ branch :: (yes ++ [close]) = cond ++ [branch] ++ yes ++ [close] := by simp
  rw [hrows] at hf ⊢
  obtain ⟨-, htargets, -, hnew⟩ := hf.label hclose
  have hback : ∀ r, (yes ++ []).getLast? = some r → r.opcode = .jump → r.operand 0 ∉ st.seen := by
    intro r hr hjump
    rw [List.append_nil] at hr
    obtain ⟨r', hr', -, hexit⟩ := hends.brk (hends.jump r hr hjump)
    obtain rfl : r = r' := by simpa [hr] using hr'
    exact hf.unseen _ (by simp [(hl _ hexit).1])
  have hclosed : Row.does .pushRegister ([] ++ [close]).head? = false :=
    does_of_ne (opcode_of_isLabel hclose) (by simp)
  have hf' : Fresh st (cond ++ [branch] ++ (yes ++ ([] ++ close :: []))) after := by simpa using hf
  obtain ⟨st₁, st₃, marks, hd, h₂, hw, hg₃, -⟩ :=
    advances_yes hpost hv hgo hopens hyes hb hg hf' hl hclosed ha hback
  have hst₃ := hw.opened_statements hd
  have ht₃ := hw.opened_targets hd
  have hwent : Went st a [.ifElse e ys []] (labelsOf (cond ++ [branch] ++ yes ++ [close]))
      (st₃.left close.name) := by
    refine (Went.body hg hd hw close.name).mono fun x hx => ?_
    simp only [List.nil_append, List.mem_append, List.mem_singleton] at hx
    rcases hx with hx | hx <;> simp [hx, hclose]
  have hprev : Cursor.prev? ⟨(cond ++ [branch] ++ yes).reverse ++ before, close, after⟩ =
      some (yes.getLast?.getD branch) := by
    rw [Cursor.prev?, List.head?_append, List.head?_reverse, List.getLast?_append]
    cases yes.getLast? <;> simp
  have hstep : ∀ st', closeLabel ⟨(cond ++ [branch] ++ yes).reverse ++ before, close, after⟩
      (st₃.marked marks) = .ok st' →
        Advances sy opts before (cond ++ [branch] ++ yes ++ [close]) after st st' := by
    intro st' hst'
    have hmode : (st₃.marked marks).mode ≠ .parameterText := hg₃.mode_ne
    rw [← step_label hmode hclose] at hst'
    exact .snoc h₂ hst'
  cases brk with
  | false =>
    refine ⟨st₃.left close.name, [], hstep _ (closeLabel_yes ht₃ htargets marks hst₃ ?_), hwent,
      fun _ => rfl, by simp⟩
    rw [hprev]
    cases hlast : yes.getLast? with
    | none => exact does_of_ne hop (by simp)
    | some r => exact does_eq_false fun hjump => by simpa using hends.jump r hlast hjump
  | true =>
    obtain ⟨r, hr, hjump, hexit⟩ := hends.brk rfl
    rw [hr] at hprev
    refine ⟨st₃.left close.name, [(⟨a, b.length⟩, r.operand 0)], hstep _ (closeLabel_else ht₃ htargets
      marks hst₃ hprev hjump ?_ hg₃.current), hwent, by simp, fun _ => ⟨rfl, _, hexit, rfl⟩⟩
    -- The loop ends behind the label, so that the two have different names.
    intro heq
    exact hnew (heq ▸ (hl _ hexit).1)

theorem liftsOne_ifElse (hpost : isPostfix sy cond) (hv : value? sy opts ctx cond = some e)
    (hgo : goesTo "branch_false" branch other) (hskip : goesTo "jump" skip close)
    (hopens : opensIf cond (yes ++ [skip])) (hyes : Lifts sy opts ctx exit? yes ys)
    (hno : Lifts sy opts ctx exit? no ns) (hhead : Row.does .pushRegister (no ++ [close]).head? = false) :
    LiftsOne sy opts ctx exit? false
      (cond ++ branch :: (yes ++ skip :: other :: (no ++ [close]))) (.ifElse e ys ns) := by
  intro before after a b st hb ha hg hf hl
  obtain ⟨-, -, hother⟩ := goesTo_spec hgo
  obtain ⟨hjump, harg, hclose⟩ := goesTo_spec hskip
  have hjump : skip.opcode = .jump := hjump
  have hrows : cond ++ branch :: (yes ++ skip :: other :: (no ++ [close])) =
      cond ++ [branch] ++ (yes ++ ([skip] ++ other :: (no ++ [close]))) := by simp
  rw [hrows] at hf ⊢
  have hfo : Fresh st (cond ++ [branch] ++ yes ++ [skip] ++ other :: (no ++ [close])) after := by
    simpa using hf
  have hfc : Fresh st (cond ++ [branch] ++ yes ++ [skip] ++ other :: no ++ close :: []) after := by
    simpa using hf
  obtain ⟨-, hto, -, hno'⟩ := hfo.label hother
  obtain ⟨hseen, htc, hpre, hnew⟩ := hfc.label hclose
  have hne : other.name ≠ close.name := fun heq => hno' (by simp [heq, hclose])
  have hback : ∀ r, (yes ++ [skip]).getLast? = some r → r.opcode = .jump → r.operand 0 ∉ st.seen := by
    intro r hr _
    obtain rfl : skip = r := by simpa using hr
    rwa [harg]
  have hopens' : opensIf cond (yes ++ ([skip] ++ [other])) := by
    rw [← hopens]
    exact opensIf_congr (by cases yes <;> rfl)
  have hhead' : Row.does .pushRegister (no ++ [close] ++ after).head? = false := by
    rw [← hhead]
    cases no <;> rfl
  obtain ⟨st₁, st₃, marks, hd, h₁, hw, hg₃, hm⟩ := advances_yes hpost hv hgo hopens' hyes hb hg hf hl
    (does_of_ne hjump (by simp)) hhead' hback
  have ht₃ := hw.opened_targets hd
  have hmode : (st₃.marked marks).mode ≠ .parameterText := hg₃.mode_ne
  -- The jump over the second branch means nothing by itself.
  have h₂ : step sy opts ⟨(cond ++ [branch] ++ yes).reverse ++ before, skip,
      other :: (no ++ [close] ++ after)⟩ (st₃.marked marks) = .ok (st₃.marked marks) := by
    refine step_jump_idle hmode hskip (hl.not_mem_marked hm (by simp [ht₃]) ?_)
    rw [ht₃, List.mem_cons, not_or]
    exact ⟨hne.symm, htc⟩
  have h₃ : step sy opts ⟨skip :: ((cond ++ [branch] ++ yes).reverse ++ before), other,
      no ++ [close] ++ after⟩ (st₃.marked marks) =
        .ok ((st₃.left other.name).marked [(⟨a, b.length⟩, close.name)]) := by
    rw [step_label hmode hother, ← harg]
    exact closeLabel_else ht₃ hto marks (hw.opened_statements hd) rfl hjump (harg ▸ hne) hg₃.current
  have hwent : Went st a [.ifElse e ys []] (labelsOf yes ++ [other.name]) (st₃.left other.name) :=
    Went.body hg hd hw other.name
  obtain ⟨st₄, heq, hd₄, ho₄⟩ := hwent.marked_eq b close.name
  rw [heq] at h₃
  have hl₄ : InLoop exit? ([close] ++ after)
      (st₄.opening a b (.ifElse e ys []) .pendingElse .no close.name) :=
    (hl.mono [] hd₄.statements_eq hd₄.targets_eq).inside [close] rfl rfl rfl
  have hf₄ : Fresh st (cond ++ [branch] ++ yes ++ [skip, other] ++ (no ++ [close])) after := by
    simpa using hf
  have hmet : labelsOf yes ++ [other.name] ⊆ labelsOf (cond ++ [branch] ++ yes ++ [skip, other]) := by
    intro x hx
    rw [List.mem_append, List.mem_singleton] at hx
    rcases hx with hx | hx <;> simp [hx, hother]
  obtain ⟨st₅, marks', h₄, hw₅, hg₅, -⟩ := hno.opened hg hd₄ (by rw [ho₄]; rfl) rfl rfl hf₄ hmet
    (by simp [hclose]) hl₄
    (boundary_of_seam (by rw [opcode_of_isLabel hother]; rfl)
      (skip :: ((cond ++ [branch] ++ yes).reverse ++ before)))
    (does_of_ne (opcode_of_isLabel hclose) (by simp))
  have h₅ : step sy opts ⟨no.reverse ++ other :: skip :: ((cond ++ [branch] ++ yes).reverse ++ before),
      close, after⟩ (st₅.marked marks') = .ok (st₅.left close.name) := by
    have hmode₅ : (st₅.marked marks').mode ≠ .parameterText := hg₅.mode_ne
    rw [step_label hmode₅ hclose]
    exact closeLabel_plain (hw₅.opened_targets hd₄) htc marks' (hw₅.opened_statements hd₄) rfl
  refine ⟨st₅.left close.name, [], ?_, ?_, fun _ => rfl, by simp⟩
  · have h₆ := Advances.snoc h₄ h₅
    have h₇ : Advances sy opts ((cond ++ [branch] ++ yes).reverse ++ before)
        (skip :: other :: (no ++ [close])) after (st₃.marked marks) (st₅.left close.name) :=
      .cons h₂ (.cons h₃ h₆)
    rw [← List.append_assoc]
    exact h₁.append_of_eq h₇ (by simp) rfl
  · refine (Went.body hg hd₄ hw₅ close.name).mono fun x hx => ?_
    simp only [List.mem_append, List.mem_singleton] at hx
    rcases hx with (hx | hx) | hx | hx <;> simp [hx, hother, hclose]

end Conditionals

/-! ## Loops -/

section Loops

variable {cond pre body : List Row} {head branch back exit label : Row} {e : Expr} {ys : List Stmt}

theorem isPlain_of_isLoop {o : Open} (h : o.isLoop) : o.isPlain ∧ o.isPending = false := by
  cases o <;> simp_all [Open.isLoop, Open.isPlain, Open.isPending, Open.isPendingCase,
    Open.isPendingFor]

/-- **The body of a loop just opened**, the jump back and the end. -/
theorem advances_loop (hbody : Lifts sy opts ctx (some exit.name) body ys) (hg : Ground ctx a b st)
    {st₁ : State} {met : List String} (hd : Drift met st st₁) (ho : st₁.operands.tail = [])
    (s : Stmt) (hs : s.body? .loop = some []) (o : StmtAddress → Open)
    (hloop : (o ⟨a, b.length⟩).isLoop) (hf : Fresh st (pre ++ (body ++ [back, exit])) after)
    (hmet : met ⊆ labelsOf pre) (hexit : exit.isLabel) (hback : goesTo "jump" back label)
    (hlabel : label.name ∈ labelsOf pre) (hb : Boundary before) :
    ∃ st', Advances sy opts before (body ++ [back, exit]) after
        (st₁.opening a b s o .loop exit.name) st' ∧
      Went st a [s.modifyBody (· ++ ys) .loop] (labelsOf (pre ++ (body ++ [back, exit]))) st' := by
  obtain ⟨hplain, hpending⟩ := isPlain_of_isLoop hloop
  obtain ⟨hop, -, -⟩ := goesTo_spec hback
  have hop : back.opcode = .jump := hop
  have hfe : Fresh st (pre ++ body ++ [back] ++ exit :: []) after := by simpa using hf
  obtain ⟨-, hte, hpre, -⟩ := hfe.label hexit
  have hne : label.name ≠ exit.name := fun heq => hpre (by simp [← heq, hlabel])
  have htl : label.name ∉ st.targets := hf.untargeted _ (by simp [hlabel])
  have hl : InLoop (some exit.name) ([back, exit] ++ after) (st₁.opening a b s o .loop exit.name) :=
    .loop hloop rfl rfl (by simp [hexit])
  obtain ⟨st₃, marks, h₁, hw, hg₃, hm⟩ := hbody.opened hg hd ho hs hpending hf hmet
    (by simp [hexit]) hl hb (does_of_ne hop (by simp))
  have hmode : (st₃.marked marks).mode ≠ .parameterText := hg₃.mode_ne
  have ht₃ := hw.opened_targets hd
  have h₂ : step sy opts ⟨body.reverse ++ before, back, exit :: after⟩ (st₃.marked marks) =
      .ok (st₃.marked marks) := by
    refine step_jump_idle hmode hback (hl.not_mem_marked hm (by rw [hw.drift.targets_eq]; simp [State.grow]) ?_)
    rw [ht₃, List.mem_cons, not_or]
    exact ⟨hne, htl⟩
  have h₃ : step sy opts ⟨back :: (body.reverse ++ before), exit, after⟩ (st₃.marked marks) =
      .ok (st₃.left exit.name) := by
    rw [step_label hmode hexit]
    exact closeLabel_plain ht₃ hte marks (hw.opened_statements hd) hplain
  refine ⟨st₃.left exit.name, h₁.append (.cons h₂ (.one h₃)), ?_⟩
  refine (Went.body hg hd hw exit.name).mono fun x hx => ?_
  simp only [List.mem_append, List.mem_singleton] at hx
  simp only [labelsOf_append, List.mem_append, mem_labelsOf_cons]
  rcases hx with hx | hx | hx
  · exact .inl (hmet hx)
  · exact .inr (.inl hx)
  · exact .inr (.inr (.inr (.inl ⟨hexit, hx⟩)))

theorem liftsOne_while (hhead : head.isLabel) (hpost : isPostfix sy cond)
    (hv : value? sy opts ctx cond = some e) (hgo : goesTo "branch_false" branch exit)
    (hback : goesTo "jump" back head) (hbody : Lifts sy opts ctx (some exit.name) body ys) :
    LiftsOne sy opts ctx exit? false (head :: (cond ++ branch :: (body ++ [back, exit])))
      (.whileLoop e ys) := by
  intro before after a b st hb _ hg hf _
  obtain ⟨hop, harg, hexit⟩ := goesTo_spec hgo
  have hop : branch.opcode = .branchFalse := hop
  obtain ⟨hjump, hjarg, -⟩ := goesTo_spec hback
  have hjump : back.opcode = .jump := hjump
  have hrows : head :: (cond ++ branch :: (body ++ [back, exit])) =
      head :: (cond ++ [branch]) ++ (body ++ [back, exit]) := by simp
  rw [hrows] at hf ⊢
  have hfh : Fresh st ([] ++ head :: (cond ++ [branch] ++ (body ++ [back, exit]))) after := hf
  have hfe : Fresh st (head :: (cond ++ [branch] ++ (body ++ [back])) ++ exit :: []) after := by
    simpa using hf
  obtain ⟨-, hth, -, -⟩ := hfh.label hhead
  obtain ⟨hse, -, hpre, hnew⟩ := hfe.label hexit
  have hnew : exit.name ∉ labelsOf after := hnew
  have h₁ : step sy opts ⟨before, head, cond ++ [branch] ++ (body ++ [back, exit]) ++ after⟩ st =
      .ok (st.meet head.name) := step_label_idle hg.mode_ne hhead hth
  have hd₀ := Drift.of_label st head.name
  have hg₀ := hg.drift hd₀ hg.operands
  have hfetch : branch.isFetch = false := isFetch_of_seam (by rw [hop]; rfl)
  obtain ⟨st₁, h₂, hgrown⟩ : ∃ st₁, Advances sy opts (head :: before) cond
      (branch :: (body ++ [back, exit] ++ after)) (st.meet head.name) st₁ ∧
        Grown [e] (st.meet head.name) st₁ :=
    hg₀.advances_value (boundary_of_seam (by rw [opcode_of_isLabel hhead]; rfl) _) hpost hv hfetch
  have hd := hd₀.trans (.of_grown hgrown)
  have hseen : st₁.seen = head.name :: st.seen := by
    rw [hgrown.rest]
    rfl
  have hne : exit.name ≠ head.name := fun heq => hpre (by simp [heq, hhead])
  have hahead : ahead? st₁ branch (body ++ [back, exit] ++ after) = some (back, after.head?) := by
    have hsplit : body ++ [back, exit] ++ after = body ++ [back] ++ exit :: after := by simp
    rw [hsplit, ahead?_eq harg hexit (by rw [hseen]; simp [hne, hse]) _ hnew]
    simp
  have h₃ : step sy opts ⟨cond.reverse ++ head :: before, branch, body ++ [back, exit] ++ after⟩ st₁ =
      .ok (st₁.opening a b (.whileLoop e []) .whileLoop .loop exit.name) := by
    rw [step_branch (by rw [hd.mode_eq]; exact hg.mode_ne) hop, ← harg]
    refine branch_while ?_ hahead hjump ?_ (hd.current hg.current) (hgrown.operands_eq hg.operands)
    · rw [harg]
      exact name_of_isLabel hexit
    · rw [hjarg, hseen]
      exact List.mem_cons_self
  obtain ⟨st', h₄, hw⟩ := advances_loop hbody hg hd (by rw [hgrown.operands_eq hg.operands]; rfl)
    (.whileLoop e []) rfl .whileLoop rfl hf (by simp [hhead]) hexit hback (by simp [hhead])
    (boundary_of_seam (by rw [hop]; rfl) (cond.reverse ++ head :: before))
  refine ⟨st', [], ?_, hw, fun _ => rfl, by simp⟩
  have h₅ := Advances.snoc h₂ h₃
  exact .cons (by simpa using h₁) (h₅.append_of_eq h₄ rfl (by simp))

/-- The state of a for loop before its update: its start is the last statement of the block. -/
def State.forming (st : State) (a : Address) (init : Expr) (exit : String) : State :=
  (st.grow a [.eval init]).await exit

variable {h : ForHeader} {init test update : Expr}

/-- The start and the condition of a for loop; the start is added as a statement. -/
theorem advances_forTest (hinit : isPostfix sy h.init) (hv : value? sy opts ctx h.init = some init)
    (hdrop : h.drop.key = dropKey 1) (hhead : h.head.isLabel) (hth : h.head.name ∉ st.targets)
    (hcond : isPostfix sy h.cond) (hv' : value? sy opts ctx h.cond = some test)
    (hop : h.branch.opcode = .branchFalse) (hb : Boundary before) (hg : Ground ctx a b st) :
    ∃ st', Advances sy opts before (h.init ++ [h.drop] ++ h.head :: h.cond) (h.branch :: after) st st' ∧
      Drift [h.head.name] (st.grow a [.eval init]) st' ∧ st'.operands = [test] := by
  obtain ⟨st₁, h₁, hw⟩ : ∃ st₁, Advances sy opts before (h.init ++ [h.drop])
      (h.head :: (h.cond ++ h.branch :: after)) st st₁ ∧ Went st a [.eval init] [] st₁ :=
    hg.advances_eval hb hinit hv hdrop
  have hg₁ := hg.went hw
  have ht₁ : st₁.targets = st.targets := hw.drift.targets_eq
  have h₂ : step sy opts ⟨(h.init ++ [h.drop]).reverse ++ before, h.head,
      h.cond ++ h.branch :: after⟩ st₁ = .ok (st₁.meet h.head.name) :=
    step_label_idle hg₁.mode_ne hhead (by rwa [ht₁])
  have hd₂ := hw.drift.trans (.of_label st₁ h.head.name)
  have hg₂ := hg₁.drift (.of_label st₁ h.head.name) hg₁.operands
  have hfetch : h.branch.isFetch = false := isFetch_of_seam (by rw [hop]; rfl)
  obtain ⟨st₃, h₃, hgrown⟩ : ∃ st₃, Advances sy opts
      (h.head :: ((h.init ++ [h.drop]).reverse ++ before)) h.cond (h.branch :: after)
      (st₁.meet h.head.name) st₃ ∧ Grown [test] (st₁.meet h.head.name) st₃ :=
    hg₂.advances_value (boundary_of_seam (by rw [opcode_of_isLabel hhead]; rfl) _) hcond hv' hfetch
  exact ⟨st₃, h₁.append (.cons h₂ h₃), hd₂.trans (.of_grown hgrown), hgrown.operands_eq hg₁.operands⟩

/-- The branch of a for loop, which opens nothing yet. -/
theorem advances_forBranch (hgo : goesTo "branch_false" h.branch exit)
    (hskip : goesTo "jump" h.skip h.start) (hstep : h.step.isLabel)
    (hback : goesTo "jump" back h.step) (hafter : Row.does .pushRegister after.head? = false)
    (hm : st.mode ≠ .parameterText) (htop : st.topIs Open.isPendingCase = false)
    (hse : exit.name ∉ st.seen) (hss : h.step.name ∉ st.seen) (hne : exit.name ∉ labelsOf after)
    (hts : h.step.name ∉ exit.name :: st.targets) (htst : h.start.name ∉ exit.name :: st.targets) :
    Advances sy opts before [h.branch, h.skip, h.step] (rows ++ [back, exit] ++ after) st
      ((st.await exit.name).meet h.step.name) := by
  obtain ⟨hop, harg, hexit⟩ := goesTo_spec hgo
  have hop : h.branch.opcode = .branchFalse := hop
  obtain ⟨hjump, -, -⟩ := goesTo_spec hskip
  have hjump : h.skip.opcode = .jump := hjump
  obtain ⟨-, harg', -⟩ := goesTo_spec hback
  have hah : Ahead ⟨before, h.branch, h.skip :: h.step :: rows ++ [back] ++ exit :: after⟩ st back
      after.head? := ahead_of_jump hgo hse hne (harg' ▸ hss) _ _
  have h₁ : step sy opts ⟨before, h.branch, h.skip :: h.step :: (rows ++ [back, exit] ++ after)⟩ st =
      .ok (st.await exit.name) := by
    rw [step_branch hm hop, ← harg]
    refine branch_for (by simpa using hah) hafter htop ?_
    simp [Cursor.next?, Row.does, hjump]
  have hm' : (st.await exit.name).mode ≠ .parameterText := hm
  exact .cons h₁ (.cons (step_jump_idle hm' hskip htst) (.one (step_label_idle hm' hstep hts)))

/-- The update of a for loop, which makes the loop of the three values. -/
theorem advances_forUpdate {met : List String} (hupdate : isPostfix sy h.update)
    (hnone : h.update.all (·.opcode != .assign)) (hassign : h.assign.opcode = .assign)
    (hv : value? sy opts ctx (h.update ++ [h.assign]) = some update)
    (hcommit : h.commit.key = dropKey 1) (hagain : goesTo "jump" h.again h.head)
    (hstart : h.start.isLabel) (hb : Boundary before) (hg : Ground ctx a b st)
    (hd : Drift met (st.forming a init exit.name) st') (ho : st'.operands = [test])
    (hth : h.head.name ∉ exit.name :: st.targets) (htst : h.start.name ∉ exit.name :: st.targets) :
    ∃ st₁, Advances sy opts before (h.update ++ [h.assign, h.commit, h.again, h.start]) after st'
        (st₁.opening a b (.forLoop init test update []) .forLoop .loop exit.name) ∧
      Drift (met ++ [h.start.name]) st st₁ ∧ st₁.operands = [] := by
  have hshift := opcode_of_dropKey hcommit
  have hfetch : h.commit.isFetch = false := isFetch_of_seam (by rw [hshift]; rfl)
  have hp : Placed before (h.commit :: h.again :: h.start :: after) st' :=
    ⟨hb, hfetch, hd.mode_eq.trans hg.mode, hd.topIs_eq _⟩
  obtain ⟨st₁, st₂, h₁, hgrown, h₂⟩ := advances_update hp hupdate hnone hassign (hd.topIs_eq _)
    (hd.scope.trans hg.scope) hv
  have hd₂ : Drift met (st.forming a init exit.name) st₂ :=
    (hd.trans (.of_grown hgrown)).mono (by simp)
  have ho₂ : st₂.operands = [update, test] := by
    rw [hgrown.rest, ho]
    rfl
  have hblock : st₂.blocks.head? = some a := by
    rw [hd₂.blocks_eq]
    exact hg.current.block
  have h₃ : makeFor st₂ = .ok (State.opening { st with types := st₂.types, seen := st₂.seen } a b
      (.forLoop init test update []) .forLoop .loop exit.name) := by
    rw [makeFor_eq hg.current.found hd₂.handlers_eq hblock ho₂, State.opening, hg.operands]
    congr 1
    rw [hd₂.rest]
    rfl
  have hd₃ : Drift met st { st with types := st₂.types, seen := st₂.seen } := by
    refine ⟨rfl, Eq.trans ?_ hd₂.scope, hd₂.seen⟩
    rw [hd₂.rest]
    rfl
  have ho₃ : State.operands { st with types := st₂.types, seen := st₂.seen } = [] := hg.operands
  generalize { st with types := st₂.types, seen := st₂.seen } = st₃ at h₃ hd₃ ho₃
  have hm₃ : (st₃.opening a b (.forLoop init test update []) .forLoop .loop exit.name).mode ≠
      .parameterText := by
    rw [State.opening, hd₃.mode_eq]
    exact hg.mode_ne
  have ht₃ : st₃.targets = st.targets := hd₃.targets_eq
  have h₄ : ∀ before after, step sy opts ⟨before, h.commit, after⟩
      (st₃.opening a b (.forLoop init test update []) .forLoop .loop exit.name) =
        .ok (st₃.opening a b (.forLoop init test update []) .forLoop .loop exit.name) := by
    intro before after
    rw [step_shift hm₃ hshift, shift_idle]
    rw [State.opening, ho₃]
    rfl
  have h₅ : ∀ before after, step sy opts ⟨before, h.again, after⟩
      (st₃.opening a b (.forLoop init test update []) .forLoop .loop exit.name) =
        .ok (st₃.opening a b (.forLoop init test update []) .forLoop .loop exit.name) :=
    fun before after => step_jump_idle hm₃ hagain (by rw [State.opening, ht₃]; exact hth)
  have h₆ : ∀ before, step sy opts ⟨before, h.start, after⟩
      (st₃.opening a b (.forLoop init test update []) .forLoop .loop exit.name) =
        .ok ((st₃.meet h.start.name).opening a b (.forLoop init test update []) .forLoop .loop
          exit.name) :=
    fun before => step_label_idle hm₃ hstart (by rw [State.opening, ht₃]; exact htst)
  refine ⟨st₃.meet h.start.name, ?_, hd₃.trans (.of_label st₃ _), ho₃⟩
  exact h₁.append (.cons (h₂.trans h₃) (.cons (h₄ ..) (.cons (h₅ ..) (.one (h₆ _)))))

theorem liftsOne_for (hs : h.isSound sy exit) (hback : goesTo "jump" back h.step)
    (hinit : value? sy opts ctx h.init = some init) (hcond : value? sy opts ctx h.cond = some test)
    (hupdate : value? sy opts ctx (h.update ++ [h.assign]) = some update)
    (hbody : Lifts sy opts ctx (some exit.name) body ys) :
    LiftsOne sy opts ctx exit? false (h.rows ++ (body ++ [back, exit]))
      (.forLoop init test update ys) := by
  intro before after a b st hb ha hg hf _
  simp only [ForHeader.isSound, Bool.and_eq_true, beq_iff_eq, and_assoc] at hs
  obtain ⟨hpost, hdrop, hhead, hpost', hbranch, hskip, hstep, hpost'', hnone, hassign, hcommit,
    hagain⟩ := hs
  obtain ⟨hop, -, hexit⟩ := goesTo_spec hbranch
  have hop : h.branch.opcode = .branchFalse := hop
  obtain ⟨-, -, hstart⟩ := goesTo_spec hskip
  -- The labels in the order of the rows.
  have hfh : Fresh st (h.init ++ [h.drop] ++ h.head :: (h.cond ++ h.branch :: h.skip :: h.step ::
      (h.update ++ [h.assign, h.commit, h.again, h.start] ++ (body ++ [back, exit])))) after := by
    simpa [ForHeader.rows] using hf
  have hfs : Fresh st (h.init ++ [h.drop] ++ h.head :: (h.cond ++ [h.branch, h.skip]) ++ h.step ::
      (h.update ++ [h.assign, h.commit, h.again, h.start] ++ (body ++ [back, exit]))) after := by
    simpa [ForHeader.rows] using hf
  have hfe : Fresh st (h.rows ++ (body ++ [back]) ++ exit :: []) after := by simpa using hf
  obtain ⟨-, hth, -, -⟩ := hfh.label hhead
  obtain ⟨hss, hts, hps, -⟩ := hfs.label hstep
  obtain ⟨hse, -, hpe, hne⟩ := hfe.label hexit
  have htst : h.start.name ∉ st.targets := hf.untargeted _ (by simp [ForHeader.rows, hstart])
  have hsh : h.step.name ≠ h.head.name := fun heq => hps (by simp [heq, hhead])
  have heh : h.head.name ≠ exit.name := fun heq => hpe (by simp [ForHeader.rows, ← heq, hhead])
  have hes : h.step.name ≠ exit.name := fun heq => hpe (by simp [ForHeader.rows, ← heq, hstep])
  have hest : h.start.name ≠ exit.name := fun heq => hpe (by simp [ForHeader.rows, ← heq, hstart])
  obtain ⟨st₁, h₁, hd₁, ho₁⟩ : ∃ st₁, Advances sy opts before
      (h.init ++ [h.drop] ++ h.head :: h.cond) (h.branch :: h.skip :: h.step :: (h.update ++
        [h.assign, h.commit, h.again, h.start] ++ (body ++ [back, exit]) ++ after)) st st₁ ∧
      Drift [h.head.name] (st.grow a [.eval init]) st₁ ∧ st₁.operands = [test] :=
    advances_forTest hpost hinit hdrop hhead hth hpost' hcond hop hb hg
  have hseen : ∀ x, x ≠ h.head.name → x ∉ st.seen → x ∉ st₁.seen := by
    intro x hx hx' hmem
    rcases hd₁.seen x hmem with hmem | hmem
    · exact hx (List.mem_singleton.mp hmem)
    · exact hx' hmem
  have ht₁ : st₁.targets = st.targets := hd₁.targets_eq
  have h₂ : Advances sy opts ((h.init ++ [h.drop] ++ h.head :: h.cond).reverse ++ before)
      [h.branch, h.skip, h.step]
      (h.update ++ [h.assign, h.commit, h.again, h.start] ++ body ++ [back, exit] ++ after) st₁
      ((st₁.await exit.name).meet h.step.name) := by
    refine advances_forBranch hbranch hskip hstep hback ha (by rw [hd₁.mode_eq]; exact hg.mode_ne)
      ((hd₁.topIs_eq _).trans hg.not_pendingCase) (hseen _ heh.symm hse) (hseen _ hsh hss) hne ?_ ?_
    · simp [ht₁, hes, hts]
    · simp [ht₁, hest, htst]
  have hd₂ : Drift [h.head.name, h.step.name] (st.forming a init exit.name)
      ((st₁.await exit.name).meet h.step.name) := by
    have hawait : Drift [h.head.name] (st.forming a init exit.name) (st₁.await exit.name) :=
      ⟨by rw [hd₁.rest]; rfl, hd₁.scope, hd₁.seen⟩
    exact hawait.trans (.of_label _ _)
  obtain ⟨st₃, h₃, hd₃, ho₃⟩ : ∃ st₃, Advances sy opts
      (h.step :: h.skip :: h.branch :: ((h.init ++ [h.drop] ++ h.head :: h.cond).reverse ++ before))
      (h.update ++ [h.assign, h.commit, h.again, h.start]) (body ++ [back, exit] ++ after)
      ((st₁.await exit.name).meet h.step.name)
      (st₃.opening a b (.forLoop init test update []) .forLoop .loop exit.name) ∧
        Drift ([h.head.name, h.step.name] ++ [h.start.name]) st st₃ ∧ st₃.operands = [] :=
    advances_forUpdate hpost'' hnone hassign hupdate hcommit hagain hstart
      (boundary_of_seam (by rw [opcode_of_isLabel hstep]; rfl) _) hg hd₂ ho₁
      (by simp [heh, hth]) (by simp [hest, htst])
  obtain ⟨st', h₄, hw⟩ : ∃ st', Advances sy opts (h.rows.reverse ++ before) (body ++ [back, exit]) after
      (st₃.opening a b (.forLoop init test update []) .forLoop .loop exit.name) st' ∧
        Went st a [.forLoop init test update ys] (labelsOf (h.rows ++ (body ++ [back, exit]))) st' :=
    advances_loop hbody hg hd₃ (by rw [ho₃]; rfl) (.forLoop init test update []) rfl .forLoop rfl hf
      (by simp [ForHeader.rows, hhead, hstep, hstart]) hexit hback (by simp [ForHeader.rows, hstep])
      (by simpa [ForHeader.rows] using boundary_of_seam (by rw [opcode_of_isLabel hstart]; rfl) _)
  refine ⟨st', [], ?_, hw, fun _ => rfl, by simp⟩
  have hrows : h.rows = h.init ++ [h.drop] ++ h.head :: h.cond ++ [h.branch, h.skip, h.step] ++
      (h.update ++ [h.assign, h.commit, h.again, h.start]) := by simp [ForHeader.rows]
  have h₅ := (h₁.append_of_eq h₂ (by simp) rfl).append_of_eq h₃ (by simp) (by simp)
  rw [← hrows] at h₅
  exact h₅.append_of_eq h₄ rfl rfl

end Loops

end ScriptLift.Lift
