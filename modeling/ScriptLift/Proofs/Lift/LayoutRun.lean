import ScriptLift.Proofs.Lift.Select

/-!
# Layouts are lifted to their statements

* `lifts_cons`: a statement and the statements after it; a conditional may take them as its second
  branch.
* `Form.ends_allRows`, `Form.head_allRows`: how the rows of statements end and begin.
* **`Form.lifts_all`**: sound forms are lifted to the statements they stand for, wherever they stand.
-/

namespace ScriptLift.Lift

variable {sy : Symbols} {opts : Options} {ctx : State} {exit? : Option String} {rows rows' : List Row}

/-! ## Lists -/

theorem lifts_nil : Lifts sy opts ctx exit? [] [] := by
  intro before after a b st _ _ hg _ _
  refine ⟨st, [], .nil, ⟨?_, hg.operands⟩, by simp⟩
  rw [State.grow, modifyBlock_append_nil]
  exact .refl st

/-- **A statement and the statements after it.** -/
theorem lifts_cons {absorbs : Bool} {s : Stmt} {ss : List Stmt}
    (hone : LiftsOne sy opts ctx exit? absorbs rows s) (hrest : Lifts sy opts ctx exit? rows' ss)
    (hseam : ∀ before, Boundary (rows.reverse ++ before))
    (hhead : ∀ after : List Row, Row.does .pushRegister after.head? = false →
      Row.does .pushRegister (rows' ++ after).head? = false) :
    Lifts sy opts ctx exit? (rows ++ rows')
      (if absorbs then [s.modifyBody (· ++ ss) .no] else s :: ss) := by
  intro before after a b st hb ha hg hf hl
  obtain ⟨st₁, marks, h₁, hw, hno, hyes⟩ :=
    hone hb (hhead after ha) hg hf.front (hl.mono rows' rfl rfl)
  have hf' : Fresh st (rows ++ (rows' ++ [])) after := by simpa using hf
  have hseen : ∀ x ∈ st₁.seen, x ∈ labelsOf rows ∨ x ∈ st.seen := hw.drift.seen
  have ht : st₁.targets = st.targets := hw.drift.targets_eq
  have hst : st₁.statements = st.statements := hw.drift.statements_eq
  cases absorbs with
  | false =>
    obtain rfl := hno rfl
    have hf₁ : Fresh st₁ rows' ([] ++ after) := hf'.middle hseen fun x hx => .inr (ht ▸ hx)
    obtain ⟨st₂, marks₂, h₂, hw₂, hm₂⟩ :=
      hrest (hseam before) ha (hg.went hw) hf₁ (hl.mono [] hst ht)
    refine ⟨st₂, marks₂, h₁.append h₂, ?_, hm₂⟩
    rw [labelsOf_append]
    exact hw.append hw₂
  | true =>
    -- What follows goes into the second branch, which stays open up to the end of the loop.
    obtain ⟨hs, x, hx, rfl⟩ := hyes rfl
    obtain ⟨hmem, -⟩ := hl x hx
    have hf₁ : Fresh (st₁.marked [(⟨a, b.length⟩, x)]) rows' ([] ++ after) := by
      refine hf'.middle hseen fun y hy => ?_
      rcases List.mem_cons.mp hy with rfl | hy
      · exact .inl hmem
      · exact .inr (ht ▸ hy)
    have hl₁ : InLoop exit? ([] ++ after) (st₁.marked [(⟨a, b.length⟩, x)]) :=
      (hl.mono [] hst ht).inside [] rfl rfl rfl
    obtain ⟨st₂, marks₂, h₂, hw₂, hm₂⟩ := hrest (hseam before) ha (hg.marked hw hs x) hf₁ hl₁
    obtain ⟨st₃, rfl, hw₃⟩ := hw.marked hg hw₂
    rw [State.marked_marked] at h₂
    refine ⟨st₃, marks₂ ++ [(⟨a, b.length⟩, x)], h₁.append h₂, ?_, fun m hm => ?_⟩
    · rw [labelsOf_append]
      exact hw₃
    · rcases List.mem_append.mp hm with hm | hm
      · exact hm₂ m hm
      · rw [List.mem_singleton.mp hm]
        exact hx

/-! ## First and last rows -/

/-- The last row of a statement: only a break ends in a jump. -/
theorem Form.last_rows {f : Form} (h : f.isSound sy exit?) :
    ∃ rows r, f.rows = rows ++ [r] ∧ isSeam r.opcode ∧ (r.opcode = .jump → Form.endInBrk [f]) ∧
      (Form.endInBrk [f] → r.opcode = .jump ∧ exit? = some (r.operand 0)) := by
  cases f with
  | eval code drop =>
    simp only [Form.isSound, Bool.and_eq_true, beq_iff_eq] at h
    have hop := opcode_of_dropKey h.2
    exact ⟨code, drop, rfl, by simp [hop, isSeam], by simp [hop], by simp [endInBrk]⟩
  | ret row =>
    have hop : row.opcode = .exitHandler := beq_iff_eq.mp h
    exact ⟨[], row, rfl, by simp [hop, isSeam], by simp [hop], by simp [endInBrk]⟩
  | super row =>
    have hop : row.opcode = .callSuper := beq_iff_eq.mp h
    exact ⟨[], row, rfl, by simp [hop, isSeam], by simp [hop], by simp [endInBrk]⟩
  | brk row =>
    simp only [Form.isSound, Bool.and_eq_true, beq_iff_eq] at h
    exact ⟨[], row, rfl, by simp [h.1, isSeam], fun _ => rfl, fun _ => h⟩
  | ifThen cond branch yes close =>
    simp only [Form.isSound, Bool.and_eq_true, and_assoc] at h
    have hop := opcode_of_isLabel (goesTo_spec h.2.1).2.2
    exact ⟨cond ++ branch :: Form.allRows yes, close, by simp [Form.rows], by simp [hop, isSeam],
      by simp [hop], by simp [endInBrk]⟩
  | ifElse cond branch yes skip other no close =>
    simp only [Form.isSound, Bool.and_eq_true, and_assoc] at h
    have hop := opcode_of_isLabel (goesTo_spec h.2.2.1).2.2
    exact ⟨cond ++ branch :: (Form.allRows yes ++ skip :: other :: Form.allRows no), close,
      by simp [Form.rows], by simp [hop, isSeam], by simp [hop], by simp [endInBrk]⟩
  | whileLoop head cond branch body back exit =>
    simp only [Form.isSound, Bool.and_eq_true, and_assoc] at h
    have hop := opcode_of_isLabel (goesTo_spec h.2.2.1).2.2
    exact ⟨head :: (cond ++ branch :: (Form.allRows body ++ [back])), exit, by simp [Form.rows],
      by simp [hop, isSeam], by simp [hop], by simp [endInBrk]⟩
  | forLoop header body back exit =>
    simp only [Form.isSound, ForHeader.isSound, Bool.and_eq_true, and_assoc] at h
    have hop := opcode_of_isLabel (goesTo_spec h.2.2.2.2.1).2.2
    exact ⟨header.rows ++ (Form.allRows body ++ [back]), exit, by simp [Form.rows],
      by simp [hop, isSeam], by simp [hop], by simp [endInBrk]⟩
  | select scrutinee first arms fin drop =>
    simp only [Form.isSound, Bool.and_eq_true, beq_iff_eq] at h
    have hop := opcode_of_dropKey h.2
    exact ⟨scrutinee ++ (first.rows ++ (Arm.allRows arms ++ [fin])), drop, by simp [Form.rows],
      by simp [hop, isSeam], by simp [hop], by simp [endInBrk]⟩

theorem Form.rows_ne_nil {f : Form} (h : f.isSound sy exit?) : f.rows ≠ [] := by
  obtain ⟨rows, r, hrows, -⟩ := Form.last_rows h
  simp [hrows]

theorem Form.boundary {f : Form} (h : f.isSound sy exit?) (before : List Row) :
    Boundary (f.rows.reverse ++ before) := by
  obtain ⟨rows, r, hrows, hseam, -⟩ := Form.last_rows h
  rw [hrows, List.reverse_append, List.append_assoc]
  exact boundary_of_seam hseam _

/-- **The rows of statements end in a jump only as a break.** -/
theorem Form.ends_allRows : ∀ {fs : List Form}, Form.allSound sy exit? fs →
    Ends exit? (Form.endInBrk fs) (Form.allRows fs)
  | [], _ => ⟨by simp [Form.allRows], by simp [Form.allRows], by simp [Form.endInBrk]⟩
  | [f], h => by
    simp only [Form.allSound, Bool.and_eq_true] at h
    obtain ⟨rows, r, hrows, hseam, hjump, hbrk⟩ := Form.last_rows h.1
    have hlast : (Form.allRows [f]).getLast? = some r := by simp [Form.allRows, hrows]
    refine ⟨fun r' hr => ?_, fun r' hr => ?_, fun hb => ⟨r, hlast, hbrk hb⟩⟩ <;>
      obtain rfl : r = r' := by simpa [hlast] using hr
    · exact hseam
    · exact hjump
  | f :: g :: fs, h => by
    simp only [Form.allSound, Bool.and_eq_true] at h
    have hlast : (Form.allRows (f :: g :: fs)).getLast? = (Form.allRows (g :: fs)).getLast? := by
      rw [Form.allRows]
      exact List.getLast?_append_of_ne_nil _ (by simp [Form.allRows, Form.rows_ne_nil h.2.1])
    have hends : Ends exit? (Form.endInBrk (g :: fs)) (Form.allRows (g :: fs)) :=
      Form.ends_allRows (by simp [Form.allSound, h.2])
    have hbrk : Form.endInBrk (f :: g :: fs) = Form.endInBrk (g :: fs) := by
      rw [Form.endInBrk, List.getLast?_cons_cons, Form.endInBrk]
    rw [hbrk]
    exact ⟨hlast ▸ hends.seam, hlast ▸ hends.jump, hlast ▸ hends.brk⟩

theorem isPostfix_head {code : List Row} (h : isPostfix sy code) :
    Row.does .pushRegister code.head? = false := by
  cases code with
  | nil => rfl
  | cons r rest =>
    refine does_eq_false fun hop => ?_
    have hop : r.opcode = .pushRegister := hop
    cases rest <;> simp [isPostfix, hop, isValueOp] at h

theorem head_append {code rest : List Row} (h : Row.does .pushRegister code.head? = false)
    (h' : Row.does .pushRegister rest.head? = false) :
    Row.does .pushRegister (code ++ rest).head? = false := by
  cases code with
  | nil => exact h'
  | cons r code => exact h

/-- A statement starts no comparison. -/
theorem Form.head_rows {f : Form} (h : f.isSound sy exit?) {s : Stmt}
    (hs : f.stmt? sy opts ctx = some s) : Row.does .pushRegister f.rows.head? = false := by
  cases f with
  | eval code drop =>
    simp only [Form.isSound, Bool.and_eq_true, beq_iff_eq] at h
    have hop := opcode_of_dropKey h.2
    exact head_append (isPostfix_head h.1) (does_of_ne hop (by simp))
  | ret row =>
    have hop : row.opcode = .exitHandler := beq_iff_eq.mp h
    exact does_of_ne hop (by simp)
  | super row =>
    have hop : row.opcode = .callSuper := beq_iff_eq.mp h
    exact does_of_ne hop (by simp)
  | brk row =>
    simp only [Form.isSound, Bool.and_eq_true, beq_iff_eq] at h
    exact does_of_ne h.1 (by simp)
  | ifThen cond branch yes close =>
    simp only [Form.isSound, Bool.and_eq_true, and_assoc] at h
    have hop : branch.opcode = .branchFalse := (goesTo_spec h.2.1).1
    exact head_append (isPostfix_head h.1) (does_of_ne hop (by simp))
  | ifElse cond branch yes skip other no close =>
    simp only [Form.isSound, Bool.and_eq_true, and_assoc] at h
    have hop : branch.opcode = .branchFalse := (goesTo_spec h.2.1).1
    exact head_append (isPostfix_head h.1) (does_of_ne hop (by simp))
  | whileLoop head cond branch body back exit =>
    simp only [Form.isSound, Bool.and_eq_true, and_assoc] at h
    exact does_of_ne (opcode_of_isLabel h.1) (by simp)
  | forLoop header body back exit =>
    simp only [Form.isSound, ForHeader.isSound, Bool.and_eq_true, beq_iff_eq, and_assoc] at h
    have hop := opcode_of_dropKey h.2.1
    rw [Form.rows, ForHeader.rows, List.append_assoc]
    exact head_append (isPostfix_head h.1) (does_of_ne hop (by simp))
  | select scrutinee first arms fin drop =>
    simp only [Form.isSound, Bool.and_eq_true, and_assoc] at h
    simp only [Form.stmt?, Option.bind_eq_bind, Option.bind_eq_some_iff] at hs
    obtain ⟨e, he, -⟩ := hs
    rw [Form.rows, List.head?_append_of_ne_nil _ (value?_ne_nil he)]
    exact isPostfix_head h.1

theorem Form.head_allRows {fs : List Form} (h : Form.allSound sy exit? fs) {ss : List Stmt}
    (hs : Form.stmts? sy opts ctx fs = some ss) {after : List Row}
    (ha : Row.does .pushRegister after.head? = false) :
    Row.does .pushRegister (Form.allRows fs ++ after).head? = false := by
  cases fs with
  | nil => exact ha
  | cons f fs =>
    simp only [Form.allSound, Bool.and_eq_true] at h
    simp only [Form.stmts?, Option.bind_eq_bind, Option.bind_eq_some_iff] at hs
    obtain ⟨s, hf, -⟩ := hs
    rw [Form.allRows, List.append_assoc, List.head?_append_of_ne_nil _ (Form.rows_ne_nil h.1)]
    exact Form.head_rows h.1 hf

/-! ## Arms -/

section Arms

variable {h : ArmHeader} {body : List Form} {leave next : Option Row} {close fin : Row} {arms : List Arm}

theorem Arm.armLifts (hs : (Arm.mk h body leave next close).isSound sy exit? fin arms) {v : Expr}
    (hv : value? sy opts ctx [h.value] = some v) {ys : List Stmt}
    (hbody : Lifts sy opts ctx exit? (Form.allRows body) ys) :
    ArmLifts sy opts ctx exit? fin h (Form.allRows body) leave close v ys := by
  simp only [Arm.isSound, Bool.and_eq_true, and_assoc] at hs
  obtain ⟨hheader, hsound, hleave, hends, -⟩ := hs
  refine ⟨hheader, hv, hbody, fun j hj => ?_, fun hnone => ?_⟩
  · rw [Option.mem_def.mp hj] at hleave
    exact hleave
  · rw [hnone] at hends
    have hbrk : Form.endInBrk body = false := by simpa using hends
    have hrows := Form.ends_allRows hsound
    cases hlast : (Form.allRows body).getLast? with
    | none => rfl
    | some r => exact does_eq_false fun hop => by simpa [hbrk] using hrows.jump r hlast hop

/-- An arm before others goes on in the next one. -/
theorem Arm.goesOn_cons {m : Arm} {ms : List Arm}
    (hs : (Arm.mk h body leave next close).isSound sy exit? fin (m :: ms))
    (hms : Arm.allSound sy exit? fin (m :: ms)) :
    ∃ n l r rest, next = some n ∧ goesTo "jump" n l ∧ Arm.allRows (m :: ms) = r :: rest ∧
      l.name ∈ labelsOf (r :: rest) ∧ r.opcode = .pushRegister := by
  simp only [Arm.isSound, Bool.and_eq_true] at hs
  obtain ⟨-, hgo⟩ := hs
  obtain ⟨h', body', leave', next', close'⟩ := m
  simp only [Arm.allSound, Arm.isSound, Bool.and_eq_true, and_assoc] at hms
  cases next with
  | none => simp [goesOn] at hgo
  | some n =>
    cases hentry : h'.entry with
    | none => simp [goesOn, Arm.entry?, hentry] at hgo
    | some l =>
      have hjump : goesTo "jump" n l := by simpa [goesOn, Arm.entry?, hentry] using hgo
      obtain ⟨-, -, hlabel⟩ := goesTo_spec hjump
      have hreload : h'.reload.opcode = .pushRegister := ArmHeader.opcode_reload hms.2.1
      refine ⟨n, l, h'.reload, _, rfl, hjump, by rw [Arm.allRows, Arm.rows, ArmHeader.rows]; rfl, ?_,
        hreload⟩
      simp [hentry, hlabel]

end Arms

/-! ## Statements in place -/

mutual

/-- **A sound form is lifted to the statement it stands for.** -/
theorem Form.lifts {exit? : Option String} : ∀ {f : Form} {s : Stmt}, f.isSound sy exit? →
    f.stmt? sy opts ctx = some s → LiftsOne sy opts ctx exit? f.absorbs f.rows s
  | .eval code drop, s, h, hs => by
    simp only [Form.isSound, Bool.and_eq_true, beq_iff_eq] at h
    simp only [Form.stmt?, Option.map_eq_some_iff] at hs
    obtain ⟨e, he, rfl⟩ := hs
    exact liftsOne_eval h.1 he h.2
  | .ret row, s, h, hs => by
    obtain rfl : Stmt.ret = s := by simpa [Form.stmt?] using hs
    exact liftsOne_ret (beq_iff_eq.mp h)
  | .super row, s, h, hs => by
    obtain rfl : Stmt.super (handlerName? ctx) = s := by simpa [Form.stmt?] using hs
    exact liftsOne_super (beq_iff_eq.mp h)
  | .brk row, s, h, hs => by
    simp only [Form.isSound, Bool.and_eq_true, beq_iff_eq] at h
    obtain rfl : Stmt.brk = s := by simpa [Form.stmt?] using hs
    exact liftsOne_brk h.1 h.2
  | .ifThen cond branch yes close, s, h, hs => by
    simp only [Form.isSound, Bool.and_eq_true, and_assoc] at h
    obtain ⟨hpost, hgo, hopens, hyes⟩ := h
    simp only [Form.stmt?, Option.bind_eq_bind, Option.bind_eq_some_iff, Option.pure_def,
      Option.some.injEq] at hs
    obtain ⟨e, he, ys, hys, rfl⟩ := hs
    exact liftsOne_ifThen hpost he hgo hopens (Form.lifts_all hyes hys) (Form.ends_allRows hyes)
  | .ifElse cond branch yes skip other no close, s, h, hs => by
    simp only [Form.isSound, Bool.and_eq_true, and_assoc] at h
    obtain ⟨hpost, hgo, hskip, hopens, hyes, hno⟩ := h
    simp only [Form.stmt?, Option.bind_eq_bind, Option.bind_eq_some_iff, Option.pure_def,
      Option.some.injEq] at hs
    obtain ⟨e, he, ys, hys, ns, hns, rfl⟩ := hs
    have hclose : close.opcode = .label := opcode_of_isLabel (goesTo_spec hskip).2.2
    have hhead : Row.does .pushRegister (Form.allRows no ++ [close]).head? = false :=
      Form.head_allRows hno hns (does_of_ne hclose (by simp))
    exact liftsOne_ifElse hpost he hgo hskip hopens (Form.lifts_all hyes hys)
      (Form.lifts_all hno hns) hhead
  | .whileLoop head cond branch body back exit, s, h, hs => by
    simp only [Form.isSound, Bool.and_eq_true, and_assoc] at h
    obtain ⟨hhead, hpost, hgo, hback, hbody⟩ := h
    simp only [Form.stmt?, Option.bind_eq_bind, Option.bind_eq_some_iff, Option.pure_def,
      Option.some.injEq] at hs
    obtain ⟨e, he, ys, hys, rfl⟩ := hs
    exact liftsOne_while hhead hpost he hgo hback (Form.lifts_all hbody hys)
  | .forLoop header body back exit, s, h, hs => by
    simp only [Form.isSound, Bool.and_eq_true, and_assoc] at h
    obtain ⟨hheader, hback, hbody⟩ := h
    simp only [Form.stmt?, Option.bind_eq_bind, Option.bind_eq_some_iff, Option.pure_def,
      Option.some.injEq] at hs
    obtain ⟨init, hinit, test, htest, update, hupdate, ys, hys, rfl⟩ := hs
    exact liftsOne_for hheader hback hinit htest hupdate (Form.lifts_all hbody hys)
  | .select scrutinee (.mk header body leave next close) [] fin drop, s, h, hs => by
    simp [Form.isSound] at h
  | .select scrutinee (.mk header body leave next close) (m :: ms) fin drop, s, h, hs => by
    simp only [Form.isSound, Bool.and_eq_true, beq_iff_eq, and_assoc] at h
    obtain ⟨hpost, hentry, -, hfirst, hms, hfin, hdrop⟩ := h
    simp only [Form.stmt?, Arm.case?, Option.bind_eq_bind, Option.bind_eq_some_iff, Option.pure_def,
      Option.some.injEq] at hs
    obtain ⟨e, he, arm, ⟨v, hv, ys, hys, rfl⟩, cs, hcs, rfl⟩ := hs
    obtain ⟨n, l, r, rest, rfl, hn, hrows, hl, hr⟩ := Arm.goesOn_cons hfirst hms
    have hbody : Form.allSound sy exit? body := by
      simp only [Arm.isSound, Bool.and_eq_true] at hfirst
      exact hfirst.1.1.1.2
    have harm := Arm.armLifts hfirst hv (Form.lifts_all hbody hys)
    have hrest : LiftsArms sy opts ctx exit? fin (Arm.allRows (m :: ms)) cs :=
      Arm.lifts_all (by simp) hms hfin hcs
    have hsplit : (Form.select scrutinee (.mk header body leave (some n) close) (m :: ms) fin drop).rows =
        scrutinee ++ (header.rows ++ (Form.allRows body ++ (leave.toList ++ [n, close])) ++
          (r :: rest ++ [fin, drop])) := by
      rw [Form.rows, Arm.rows, hrows]
      simp
    rw [hsplit]
    rw [hrows] at hrest
    exact liftsOne_select hpost he harm (Option.isNone_iff_eq_none.mp hentry) hn hl hr hrest hfin hdrop

/-- **Sound forms are lifted to the statements they stand for**, wherever they stand. -/
theorem Form.lifts_all {exit? : Option String} : ∀ {fs : List Form} {ss : List Stmt},
    Form.allSound sy exit? fs → Form.stmts? sy opts ctx fs = some ss →
      Lifts sy opts ctx exit? (Form.allRows fs) ss
  | [], ss, _, hs => by
    obtain rfl : [] = ss := by simpa [Form.stmts?] using hs
    exact lifts_nil
  | f :: fs, ss, h, hs => by
    simp only [Form.allSound, Bool.and_eq_true] at h
    simp only [Form.stmts?, Option.bind_eq_bind, Option.bind_eq_some_iff, Option.pure_def,
      Option.some.injEq] at hs
    obtain ⟨s, hf, rest, hfs, rfl⟩ := hs
    exact lifts_cons (Form.lifts h.1 hf) (Form.lifts_all h.2 hfs) (Form.boundary h.1)
      fun _ => Form.head_allRows h.2 hfs

/-- Sound arms are lifted to the arms they stand for, after other arms of their select. -/
theorem Arm.lifts_all {exit? : Option String} {fin : Row} : ∀ {ms : List Arm} {cs : List Case},
    ms ≠ [] → Arm.allSound sy exit? fin ms → fin.isLabel → Arm.cases? sy opts ctx ms = some cs →
      LiftsArms sy opts ctx exit? fin (Arm.allRows ms) cs
  | [], _, hne, _, _, _ => absurd rfl hne
  | .mk header body leave next close :: ms, cs, _, h, hfin, hcs => by
    simp only [Arm.allSound, Bool.and_eq_true] at h
    obtain ⟨⟨hentry, hm⟩, hms⟩ := h
    obtain ⟨entry, hentry⟩ := Option.isSome_iff_exists.mp hentry
    simp only [Arm.cases?, Arm.case?, Option.bind_eq_bind, Option.bind_eq_some_iff, Option.pure_def,
      Option.some.injEq] at hcs
    obtain ⟨c, ⟨v, hv, ys, hys, rfl⟩, cs, hcs, rfl⟩ := hcs
    have hbody : Form.allSound sy exit? body := by
      simp only [Arm.isSound, Bool.and_eq_true] at hm
      exact hm.1.1.1.2
    have harm := Arm.armLifts hm hv (Form.lifts_all hbody hys)
    by_cases hnil : ms = []
    · subst hnil
      obtain rfl : [] = cs := by simpa [Arm.cases?] using hcs
      obtain rfl : next = none := by
        simp only [Arm.isSound, Bool.and_eq_true] at hm
        cases next with
        | none => rfl
        | some n => simp [goesOn] at hm
      have hsplit : Arm.allRows [.mk header body leave none close] =
          header.rows ++ (Form.allRows body ++ (leave.toList ++ [close])) := by
        simp [Arm.allRows, Arm.rows]
      rw [hsplit]
      exact liftsArms_last harm hentry hfin
    · have hrest : LiftsArms sy opts ctx exit? fin (Arm.allRows ms) cs :=
        Arm.lifts_all hnil hms hfin hcs
      obtain ⟨m, ms, rfl⟩ := List.exists_cons_of_ne_nil hnil
      obtain ⟨n, l, r, rest, rfl, hn, hrows, hl, hr⟩ := Arm.goesOn_cons hm hms
      have hsplit : Arm.allRows (.mk header body leave (some n) close :: m :: ms) =
          header.rows ++ (Form.allRows body ++ (leave.toList ++ [n, close])) ++ r :: rest := by
        rw [Arm.allRows, Arm.rows, hrows]
        simp
      rw [hsplit]
      rw [hrows] at hrest
      exact liftsArms_cons harm hentry hfin hn hl hr hrest

end

end ScriptLift.Lift
