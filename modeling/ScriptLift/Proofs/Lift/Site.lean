import ScriptLift.Proofs.Lift.Flow

/-!
# Where statements are lifted

* `Drift`: states that differ in operands, known types and labels met only.
* `Ground`: a state that is ready for the next statement of its current block.
* `Fresh`, `InLoop`: the labels of the rows to come are new, and the innermost loop ends ahead.
* **`Lifts`**: rows that are lifted to given statements wherever they stand.
* `Went.body`: what filling the body of an opened statement comes to.
-/

namespace ScriptLift.Lift

variable {sy : Symbols} {opts : Options} {ctx st st' st'' : State} {a : Address} {b : List Stmt}
  {met met' : List String} {before after rows : List Row} {exit? : Option String}

/-! ## Drift -/

/-- States that differ in operands, known types and labels met only; ids stand for the same. -/
structure Drift (met : List String) (st st' : State) : Prop where
  rest : st' = { st with operands := st'.operands, types := st'.types, seen := st'.seen }
  scope : st'.scope = st.scope
  seen : ∀ x ∈ st'.seen, x ∈ met ∨ x ∈ st.seen

namespace Drift

theorem refl (st : State) : Drift [] st st := ⟨rfl, rfl, fun _ hx => .inr hx⟩

theorem trans (h : Drift met st st') (h' : Drift met' st' st'') : Drift (met ++ met') st st'' where
  rest := by rw [h'.rest, h.rest]
  scope := h'.scope.trans h.scope
  seen x hx := by
    rw [List.mem_append]
    rcases h'.seen x hx with hx | hx
    · exact .inl (.inr hx)
    · exact (h.seen x hx).imp_left .inl

theorem mono (h : Drift met st st') (hm : met ⊆ met') : Drift met' st st' :=
  ⟨h.rest, h.scope, fun x hx => (h.seen x hx).imp_left (hm ·)⟩

theorem of_grown {es : List Expr} (h : Grown es st st') : Drift [] st st' where
  rest := by rw [h.rest]
  scope := h.scope
  seen x hx := by
    rw [h.rest] at hx
    exact .inr hx

theorem of_label (st : State) (l : String) : Drift [l] st (st.meet l) where
  rest := rfl
  scope := rfl
  seen x hx := by simpa [State.meet] using hx

theorem of_operands (st : State) (es : List Expr) : Drift [] st { st with operands := es } :=
  ⟨rfl, rfl, fun _ hx => .inr hx⟩

theorem mode_eq (h : Drift met st st') : st'.mode = st.mode := by rw [h.rest]

theorem statements_eq (h : Drift met st st') : st'.statements = st.statements := by rw [h.rest]

theorem blocks_eq (h : Drift met st st') : st'.blocks = st.blocks := by rw [h.rest]

theorem targets_eq (h : Drift met st st') : st'.targets = st.targets := by rw [h.rest]

theorem handlers_eq (h : Drift met st st') : st'.handlers = st.handlers := by rw [h.rest]

theorem current (h : Drift met st st') (hc : Current st a b) : Current st' a b where
  block := by rw [h.blocks_eq]; exact hc.block
  found := by rw [h.handlers_eq]; exact hc.found

theorem topIs_eq (h : Drift met st st') (p : Open → Bool) : st'.topIs p = st.topIs p := by
  rw [State.topIs, h.statements_eq, State.topIs]

end Drift

/-! ## Ground -/

/-- Statements that wait for more rows before they are there. -/
def Open.isPending (o : Open) : Bool := o.isPendingCase || o.isPendingFor

/-- A state that is ready for the next statement of the block `a`, which holds `b`. -/
structure Ground (ctx : State) (a : Address) (b : List Stmt) (st : State) : Prop where
  mode : st.mode = .none
  scope : st.scope = ctx.scope
  name : handlerName? st = handlerName? ctx
  operands : st.operands = []
  current : Current st a b
  top : st.topIs Open.isPending = false

theorem handlerName?_modifyBlock (hs : List Handler) (a : Address) (f : List Stmt → List Stmt) :
    (modifyBlock hs a f).getLast?.map Handler.name = hs.getLast?.map Handler.name := by
  rw [← List.getLast?_map, ← List.getLast?_map, modifyBlock]
  refine congrArg List.getLast? (map_modify (fun h => ?_) hs a.handler)
  rfl

namespace Ground

theorem not_pendingCase (h : Ground ctx a b st) : st.topIs Open.isPendingCase = false := by
  have htop := h.top
  unfold State.topIs at htop ⊢
  cases hs : st.statements.head? with
  | none => rfl
  | some o =>
    rw [hs] at htop
    exact (Bool.or_eq_false_iff.mp htop).1

theorem not_pendingFor (h : Ground ctx a b st) : st.topIs Open.isPendingFor = false := by
  have htop := h.top
  unfold State.topIs at htop ⊢
  cases hs : st.statements.head? with
  | none => rfl
  | some o =>
    rw [hs] at htop
    exact (Bool.or_eq_false_iff.mp htop).2

theorem drift (h : Ground ctx a b st) (hd : Drift met st st') (ho : st'.operands = []) :
    Ground ctx a b st' where
  mode := hd.mode_eq.trans h.mode
  scope := hd.scope.trans h.scope
  name := by rw [handlerName?, hd.handlers_eq]; exact h.name
  operands := ho
  current := hd.current h.current
  top := (hd.topIs_eq _).trans h.top

theorem mode_ne (h : Ground ctx a b st) : st.mode ≠ .parameterText := by
  rw [h.mode]
  simp

end Ground

/-- A state with more statements in a block. -/
def State.grow (st : State) (a : Address) (new : List Stmt) : State :=
  { st with handlers := modifyBlock st.handlers a (· ++ new) }

theorem Ground.grow (h : Ground ctx a b st) (new : List Stmt) :
    Ground ctx a (b ++ new) (st.grow a new) where
  mode := h.mode
  scope := h.scope
  name := (handlerName?_modifyBlock ..).trans h.name
  operands := h.operands
  current := ⟨h.current.block, by rw [State.grow, getBlock?_modifyBlock, h.current.found]; rfl⟩
  top := h.top

/-- A statement that has just been opened in `st` is ready to be filled. -/
theorem Ground.opening (h : Ground ctx a b st) (hd : Drift met st st') (ho : st'.operands.tail = [])
    {s : Stmt} {o : StmtAddress → Open} {slot : Slot} {b' : List Stmt} (hbody : s.body? slot = some b')
    (hopen : (o ⟨a, b.length⟩).isPending = false) (target : String) :
    Ground ctx (StmtAddress.body ⟨a, b.length⟩ slot) b' (st'.opening a b s o slot target) where
  mode := hd.mode_eq.trans h.mode
  scope := hd.scope.trans h.scope
  name := (handlerName?_modifyBlock ..).trans (by rw [hd.handlers_eq]; exact h.name)
  operands := ho
  current := by
    refine ⟨rfl, ?_⟩
    rw [State.opening, hd.handlers_eq, getBlock?_body_last h.current.found, hbody]
  top := hopen

/-! ## Labels -/

/-- The labels of rows and of the rows after them are new, and none of the rows' own is awaited. -/
structure Fresh (st : State) (rows after : List Row) : Prop where
  nodup : (labelsOf (rows ++ after)).Nodup
  unseen : ∀ x ∈ labelsOf (rows ++ after), x ∉ st.seen
  untargeted : ∀ x ∈ labelsOf rows, x ∉ st.targets

namespace Fresh

variable {pre body post : List Row}

/-- A label among the rows. -/
theorem label {l : Row} (h : Fresh st (pre ++ l :: post) after) (hl : l.isLabel) :
    l.name ∉ st.seen ∧ l.name ∉ st.targets ∧ l.name ∉ labelsOf pre ∧
      l.name ∉ labelsOf (post ++ after) := by
  have hmem : l.name ∈ labelsOf (pre ++ l :: post) := by
    rw [labelsOf_append]
    exact List.mem_append_right _ (mem_labelsOf hl post)
  refine ⟨h.unseen _ ?_, h.untargeted _ hmem, ?_, ?_⟩
  · rw [labelsOf_append]
    exact List.mem_append_left _ hmem
  all_goals
    have hnodup := h.nodup
    rw [List.append_assoc, List.cons_append, labelsOf_append, labelsOf_cons, if_pos hl] at hnodup
    obtain ⟨-, hrest, hdisj⟩ := List.nodup_append'.mp hnodup
  · exact fun hpre => hdisj hpre List.mem_cons_self
  · exact (List.nodup_cons.mp hrest).1

theorem front {rows' : List Row} (h : Fresh st (rows ++ rows') after) :
    Fresh st rows (rows' ++ after) := by
  obtain ⟨hnodup, hunseen, huntargeted⟩ := h
  rw [List.append_assoc] at hnodup hunseen
  exact ⟨hnodup, hunseen, fun x hx => huntargeted x (by simp [hx])⟩

/-- Labels to come have not been met after the rows before them. -/
theorem later (h : Fresh st (pre ++ rows) after)
    (hseen : ∀ x ∈ st'.seen, x ∈ labelsOf pre ∨ x ∈ st.seen) {x : String} (hx : x ∈ labelsOf rows) :
    x ∉ st'.seen := by
  intro hmem
  rcases hseen x hmem with hpre | hst
  · have hnodup := h.nodup
    rw [labelsOf_append, labelsOf_append] at hnodup
    exact (List.nodup_append'.mp (List.nodup_append'.mp hnodup).1).2.2 hpre hx
  · exact h.unseen x (by simp [hx]) hst

/-- The labels of rows in the middle, after the rows before them have been taken and a statement has
been opened that ends behind them. -/
theorem middle (h : Fresh st (pre ++ (body ++ post)) after)
    (hseen : ∀ x ∈ st'.seen, x ∈ labelsOf pre ∨ x ∈ st.seen)
    (htargets : ∀ x ∈ st'.targets, x ∈ labelsOf (post ++ after) ∨ x ∈ st.targets) :
    Fresh st' body (post ++ after) := by
  obtain ⟨hnodup, hunseen, huntargeted⟩ := h
  simp only [labelsOf_append, List.append_assoc] at hnodup hunseen huntargeted
  obtain ⟨-, hrest, hdisj⟩ := List.nodup_append'.mp hnodup
  refine ⟨by simpa using hrest, fun x hx hs => ?_, fun x hx ht => ?_⟩
  · simp only [labelsOf_append] at hx
    rcases hseen x hs with hs | hs
    · exact hdisj hs hx
    · exact hunseen x (List.mem_append_right _ hx) hs
  · rcases htargets x ht with ht | ht
    · obtain ⟨-, -, hdisj'⟩ := List.nodup_append'.mp hrest
      exact hdisj' hx (by simpa using ht)
    · exact huntargeted x (List.mem_append_right _ (List.mem_append_left _ hx)) ht

end Fresh

/-- A loop that ends at `exit?` is the innermost one, and ends ahead. -/
def InLoop (exit? : Option String) (after : List Row) (st : State) : Prop :=
  ∀ x, exit? = some x → x ∈ labelsOf after ∧ ∃ i, loopDepth? st = some i ∧ st.targets[i]? = some x

namespace InLoop

theorem mono (h : InLoop exit? after st) (post : List Row) (hs : st'.statements = st.statements)
    (ht : st'.targets = st.targets) : InLoop exit? (post ++ after) st' := by
  intro x hx
  obtain ⟨hmem, i, hi, hti⟩ := h x hx
  refine ⟨by simp [hmem], i, ?_, ht ▸ hti⟩
  rw [loopDepth?, hs]
  exact hi

/-- Inside a statement that is no loop. -/
theorem inside (h : InLoop exit? after st) (post : List Row) {o : Open} (ho : o.isLoop = false)
    {target : String} (hs : st'.statements = o :: st.statements)
    (ht : st'.targets = target :: st.targets) : InLoop exit? (post ++ after) st' := by
  intro x hx
  obtain ⟨hmem, i, hi, hti⟩ := h x hx
  refine ⟨by simp [hmem], i + 1, loopDepth?_cons ho hs rfl hi, ?_⟩
  rw [ht]
  exact hti

/-- Inside a loop. -/
theorem loop {o : Open} (ho : o.isLoop) {S : List Open} {T : List String} {target : String}
    (hs : st.statements = o :: S) (ht : st.targets = target :: T) (hmem : target ∈ labelsOf after) :
    InLoop (some target) after st := by
  intro x hx
  obtain rfl := Option.some.inj hx
  refine ⟨hmem, 0, ?_, by rw [ht]; rfl⟩
  rw [loopDepth?, hs, List.findIdx?_cons, ho]
  rfl

end InLoop

/-! ## Statements added -/

/-- The state `st` with the statements `new` added to the block `a`, and nothing on the stack. -/
structure Went (st : State) (a : Address) (new : List Stmt) (met : List String) (st' : State) :
    Prop where
  drift : Drift met (st.grow a new) st'
  operands : st'.operands = []

theorem Ground.went (h : Ground ctx a b st) {new : List Stmt} (hw : Went st a new met st') :
    Ground ctx a (b ++ new) st' :=
  (h.grow new).drift hw.drift hw.operands

theorem Went.mono {new : List Stmt} (h : Went st a new met st') (hm : met ⊆ met') :
    Went st a new met' st' :=
  ⟨h.drift.mono hm, h.operands⟩

theorem State.grow_grow (st : State) (a : Address) (new new' : List Stmt) :
    (st.grow a new).grow a new' = st.grow a (new ++ new') := by
  simp only [State.grow, modifyBlock_modifyBlock]
  congr 2
  funext b
  exact List.append_assoc b new new'

theorem Drift.grow (h : Drift met st st') (a : Address) (new : List Stmt) :
    Drift met (st.grow a new) (st'.grow a new) where
  rest := by
    rw [h.rest]
    rfl
  scope := h.scope
  seen := h.seen

theorem Went.append {new new' : List Stmt} (h : Went st a new met st')
    (h' : Went st' a new' met' st'') : Went st a (new ++ new') (met ++ met') st'' := by
  refine ⟨?_, h'.operands⟩
  rw [← State.grow_grow]
  exact (h.drift.grow a new').trans h'.drift

/-- **Filling the body of an opened statement** and leaving it adds the filled statement. -/
theorem Went.body (hg : Ground ctx a b st) {st₁ : State} (hd : Drift met st st₁) {s : Stmt}
    {o : StmtAddress → Open} {slot : Slot} {target : String} {ys : List Stmt}
    (hw : Went (st₁.opening a b s o slot target) (StmtAddress.body ⟨a, b.length⟩ slot) ys met' st')
    (l : String) : Went st a [s.modifyBody (· ++ ys) slot] (met ++ (met' ++ [l])) (st'.left l) where
  drift := by
    have hhandlers : st'.handlers = modifyBlock st.handlers a (· ++ [s.modifyBody (· ++ ys) slot]) := by
      rw [hw.drift.handlers_eq, State.grow, State.opening, hd.handlers_eq]
      exact modifyBlock_body_last hg.current.found s slot _
    have hst' := hw.drift.rest
    refine ⟨?_, (hw.drift.scope.trans hd.scope :), fun x hx => ?_⟩
    · rw [State.grow, ← hhandlers, State.left, hst', hd.rest]
      rfl
    · simp only [State.left, List.mem_cons] at hx
      simp only [List.mem_append, List.mem_singleton]
      rcases hx with hx | hx
      · exact .inl (.inr (.inr hx))
      · rcases hw.drift.seen x hx with hx | hx
        · exact .inl (.inr (.inl hx))
        · exact (hd.seen x hx).imp_left .inl
  operands := hw.operands

/-! ## Second branches left open -/

theorem State.marked_marked (st : State) (marks marks' : List (StmtAddress × String)) :
    (st.marked marks).marked marks' = st.marked (marks' ++ marks) := by
  simp [State.marked]

/-- Leaving the second branch of the statement just added open is opening it. -/
theorem Went.marked_eq {s : Stmt} (hw : Went st a [s] met st') (b : List Stmt) (x : String) :
    ∃ st₁, st'.marked [(⟨a, b.length⟩, x)] = st₁.opening a b s .pendingElse .no x ∧
      Drift met st st₁ ∧ st₁.operands = [] := by
  refine ⟨{ st with operands := [], types := st'.types, seen := st'.seen }, ?_, ⟨rfl, ?_, ?_⟩, rfl⟩
  · rw [hw.drift.rest, hw.operands]
    rfl
  · refine Eq.trans ?_ hw.drift.scope
    rw [hw.drift.rest]
    rfl
  · exact hw.drift.seen

theorem Ground.marked (hg : Ground ctx a b st) {s : Stmt} (hw : Went st a [s] met st')
    (hs : s.body? .no = some []) (x : String) :
    Ground ctx (StmtAddress.body ⟨a, b.length⟩ .no) [] (st'.marked [(⟨a, b.length⟩, x)]) := by
  obtain ⟨st₁, heq, hd, ho⟩ := hw.marked_eq b x
  rw [heq]
  exact hg.opening hd (by rw [ho]; rfl) hs rfl x

/-- Filling the second branch of the conditional just added. -/
theorem Went.marked (hg : Ground ctx a b st) {s : Stmt} (hw : Went st a [s] met st')
    {x : String} {r : List Stmt}
    (hw' : Went (st'.marked [(⟨a, b.length⟩, x)]) (StmtAddress.body ⟨a, b.length⟩ .no) r met' st'') :
    ∃ st₃, st'' = st₃.marked [(⟨a, b.length⟩, x)] ∧
      Went st a [s.modifyBody (· ++ r) .no] (met ++ met') st₃ := by
  refine ⟨{ st' with
    operands := st''.operands
    types := st''.types
    seen := st''.seen
    handlers := st''.handlers }, ?_, ⟨?_, hw'.operands⟩⟩
  · rw [hw'.drift.rest]
    rfl
  · have hhandlers : st''.handlers = modifyBlock st.handlers a (· ++ [s.modifyBody (· ++ r) .no]) := by
      rw [hw'.drift.handlers_eq, State.grow, State.marked, hw.drift.handlers_eq]
      exact modifyBlock_body_last hg.current.found s .no _
    refine ⟨?_, ?_, fun y hy => ?_⟩
    · rw [State.grow, ← hhandlers, hw.drift.rest]
      rfl
    · refine Eq.trans ?_ (hw'.drift.scope.trans hw.drift.scope)
      rw [hw'.drift.rest]
      rfl
    · rw [List.mem_append]
      rcases hw'.drift.seen y hy with hy | hy
      · exact .inl (.inr hy)
      · exact (hw.drift.seen y hy).imp_left .inl

/-! ## Rows lifted in place -/

/-- **Rows that are lifted to the statements `new`** wherever they stand; second branches may be
left open, up to the end of the innermost loop. -/
def Lifts (sy : Symbols) (opts : Options) (ctx : State) (exit? : Option String) (rows : List Row)
    (new : List Stmt) : Prop :=
  ∀ {before after : List Row} {a : Address} {b : List Stmt} {st : State}, Boundary before →
    Row.does .pushRegister after.head? = false → Ground ctx a b st → Fresh st rows after →
    InLoop exit? after st → ∃ st' marks, Advances sy opts before rows after st (st'.marked marks) ∧
      Went st a new (labelsOf rows) st' ∧ ∀ m ∈ marks, exit? = some m.2

/-- The rows of one statement are lifted to `s`; its second branch is left open just when it takes
what follows. -/
def LiftsOne (sy : Symbols) (opts : Options) (ctx : State) (exit? : Option String) (absorbs : Bool)
    (rows : List Row) (s : Stmt) : Prop :=
  ∀ {before after : List Row} {a : Address} {b : List Stmt} {st : State}, Boundary before →
    Row.does .pushRegister after.head? = false → Ground ctx a b st → Fresh st rows after →
    InLoop exit? after st → ∃ st' marks, Advances sy opts before rows after st (st'.marked marks) ∧
      Went st a [s] (labelsOf rows) st' ∧ (absorbs = false → marks = []) ∧
      (absorbs → s.body? .no = some [] ∧ ∃ x, exit? = some x ∧ marks = [(⟨a, b.length⟩, x)])

end ScriptLift.Lift
