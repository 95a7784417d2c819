import ScriptLift.Proofs.Lift.Handlers

/-!
# A handler among others and alone

A handler is lifted twice: after other handlers, and as the only one of its class. The two states
differ in the numbers of handlers and in the types noted for parameters that were not declared.

* `isInner`, `modeAfter`: the rows of a handler.
* `Cursor.Sees`: what a row sees of the rows around it is the same at both places.
* `Agree`: two computations that both succeed, with related results, or both fail.
* `Twin`: the two states. One lemma for each thing that a row may do keeps them together.
* **`Twin.step`**: rows of a handler keep the states together.
-/

namespace ScriptLift

/-! ## Addresses among more handlers -/

/-- The block in the handler `n` places later. -/
def Address.later (n : Nat) (a : Address) : Address := ⟨n + a.handler, a.path⟩

/-- The statement in the handler `n` places later. -/
def StmtAddress.later (n : Nat) (s : StmtAddress) : StmtAddress := ⟨s.block.later n, s.index⟩

theorem getBlock?_later (hs hs' : List Handler) (a : Address) :
    getBlock? (hs ++ hs') (a.later hs.length) = getBlock? hs' a := by
  rw [getBlock?, getBlock?, Address.later, List.getElem?_append_right (Nat.le_add_right _ _),
    Nat.add_sub_cancel_left]

theorem modify_length_add {α : Type} (xs ys : List α) (k : Nat) (f : α → α) :
    (xs ++ ys).modify (xs.length + k) f = xs ++ ys.modify k f := by
  induction xs with
  | nil => simp
  | cons x xs ih =>
    rw [List.cons_append, List.length_cons, Nat.succ_add, List.modify_succ_cons, ih, List.cons_append]

theorem modifyBlock_later (hs hs' : List Handler) (a : Address) (f : List Stmt → List Stmt) :
    modifyBlock (hs ++ hs') (a.later hs.length) f = hs ++ modifyBlock hs' a f :=
  modify_length_add hs hs' a.handler _

namespace Lift

/-- The open statement in the handler `n` places later. -/
def Open.later (n : Nat) : Open → Open
  | handler k => handler (n + k)
  | conditional s => conditional (s.later n)
  | whileLoop s => whileLoop (s.later n)
  | forLoop s => forLoop (s.later n)
  | select s scrutinee arms => select (s.later n) scrutinee arms
  | pendingFor => pendingFor
  | pendingCase => pendingCase
  | pendingElse s => pendingElse (s.later n)

section Open

variable (n : Nat) (o : Open)

theorem Open.isPendingCase_later : (o.later n).isPendingCase = o.isPendingCase := by cases o <;> rfl

theorem Open.isPendingFor_later : (o.later n).isPendingFor = o.isPendingFor := by cases o <;> rfl

theorem Open.isLoop_later : (o.later n).isLoop = o.isLoop := by cases o <;> rfl

end Open

/-! ## Rows of a handler -/

/-- The section after a row of a handler. -/
def modeAfter (m : Mode) (r : Row) : Mode :=
  match r.opcode with
  | .variablesBegin => .locals
  | .variablesEnd => .none
  | _ => m

/-- A row that may stand in a handler: it begins or ends no class, handler, parameters or table. -/
def isInner (r : Row) : Bool :=
  match r.opcode with
  | .classBegin | .classEnd | .handlerBegin | .handlerEnd | .parametersBegin | .parametersEnd
  | .buySellBegin | .buySellEnd | .telPosBegin | .telPosEnd => false
  | _ => true

/-- What a row of a handler sees of the rows around it is the same at both places. -/
structure Cursor.Sees (c c₀ : Cursor) : Prop where
  row : c.row = c₀.row
  prev : c.prev? = c₀.prev?
  next : c.next? = c₀.next?
  back : Row.does .pushEvent c.back2? = Row.does .pushEvent c₀.back2?
  breaks : endsInBreak c = endsInBreak c₀
  mark : ∀ window, stepMark? window c.before = stepMark? window c₀.before
  ahead : c₀.row.opcode = .branchFalse → lastLabel? (c₀.row.operand 0) c₀.row c.after =
    lastLabel? (c₀.row.operand 0) c₀.row c₀.after
  goesOn : ∀ st, selectGoesOn st c.after = selectGoesOn st c₀.after

/-! ## Computations that agree -/

/-- Two computations that both succeed, with related results, or both fail. -/
inductive Agree {ε α β : Type} (R : α → β → Prop) : Except ε α → Except ε β → Prop
  | ok {a : α} {b : β} (h : R a b) : Agree R (.ok a) (.ok b)
  | error (e e' : ε) : Agree R (.error e) (.error e')

section Agree

variable {ε α β γ δ : Type} {R : α → β → Prop} {S : γ → δ → Prop} {x : Except ε α} {y : Except ε β}

theorem Agree.bind {f : α → Except ε γ} {g : β → Except ε δ} (h : Agree R x y)
    (hf : ∀ a b, R a b → Agree S (f a) (g b)) : Agree S (x >>= f) (y >>= g) := by
  cases h with
  | ok hab => exact hf _ _ hab
  | error e e' => exact .error e e'

theorem Agree.map {f : α → γ} {g : β → δ} (h : Agree R x y) (hf : ∀ a b, R a b → S (f a) (g b)) :
    Agree S (x.map f) (y.map g) := by
  cases h with
  | ok hab => exact .ok (hf _ _ hab)
  | error e e' => exact .error e e'

theorem Agree.of_ok {b : β} (h : Agree R x (.ok b)) : ∃ a, x = .ok a ∧ R a b := by
  cases h with
  | ok hab => exact ⟨_, rfl, hab⟩

theorem Agree.of_error {e : ε} (h : Agree R x (.error e)) : ∃ e', x = .error e' := by
  cases h with
  | error e' => exact ⟨e', rfl⟩

end Agree

/-! ## Twin states -/

/-- The type of a parameter; one that was not declared is an integer. -/
def parameterType (types : Table String String) (name : String) : String :=
  (types.get? name).getD "int"

/-- The states of a handler after the handlers `hs` and of the same handler alone, in the section
`m` of the class `d`, whose parameters have the types `τ`. -/
structure Twin (m : Mode) (d : ClassDecl) (τ : String → String) (hs : List Handler)
    (st st₀ : State) : Prop where
  mode : st.mode = m
  mode₀ : st₀.mode = m
  decl : st.decl = some d
  decl₀ : st₀.decl = some d
  first : st.first = 0
  first₀ : st₀.first = 0
  types : parameterType st.types = τ
  types₀ : parameterType st₀.types = τ
  operands : st.operands = st₀.operands
  statements : st.statements = st₀.statements.map (Open.later hs.length)
  blocks : st.blocks = st₀.blocks.map (Address.later hs.length)
  targets : st.targets = st₀.targets
  seen : st.seen = st₀.seen
  records : st.records = st₀.records
  handlers : st.handlers = hs ++ st₀.handlers
  one : st₀.handlers.length = 1

namespace Twin

variable {sy : Symbols} {m : Mode} {d : ClassDecl} {τ : String → String} {hs : List Handler}
  {st st₀ : State}

theorem kind (h : Twin m d τ hs st st₀) : st.kind = st₀.kind := by
  rw [State.kind, State.kind, h.decl, h.decl₀]

theorem push (h : Twin m d τ hs st st₀) (e : Expr) : Twin m d τ hs (st.push e) (st₀.push e) :=
  { h with operands := congrArg (e :: ·) h.operands }

theorem with_operands (h : Twin m d τ hs st st₀) (es : List Expr) :
    Twin m d τ hs { st with operands := es } { st₀ with operands := es } :=
  { h with operands := rfl }

/-- Changing a block of the handler. -/
theorem with_block (h : Twin m d τ hs st st₀) (a : Address) (f : List Stmt → List Stmt) :
    Twin m d τ hs { st with handlers := modifyBlock st.handlers (a.later hs.length) f }
      { st₀ with handlers := modifyBlock st₀.handlers a f } :=
  { h with
    handlers := by rw [h.handlers, modifyBlock_later]
    one := by rw [← h.one, modifyBlock, List.length_modify] }

theorem getBlock? (h : Twin m d τ hs st st₀) (a : Address) :
    getBlock? st.handlers (a.later hs.length) = ScriptLift.getBlock? st₀.handlers a := by
  rw [h.handlers, getBlock?_later]

theorem block? (h : Twin m d τ hs st st₀) : st.block? = st₀.block? := by
  rw [State.block?, State.block?, h.blocks]
  cases st₀.blocks with
  | nil => rfl
  | cons a rest =>
    show some ((ScriptLift.getBlock? st.handlers (a.later hs.length)).getD []) = _
    rw [h.getBlock?]
    rfl

theorem peek? (h : Twin m d τ hs st st₀) : st.peek? = st₀.peek? := by
  rw [State.peek?, State.peek?, h.operands, h.block?]

theorem topIs (h : Twin m d τ hs st st₀) {p : Open → Bool}
    (hp : ∀ o : Open, p (o.later hs.length) = p o) : st.topIs p = st₀.topIs p := by
  rw [State.topIs, State.topIs, h.statements]
  cases st₀.statements with
  | nil => rfl
  | cons o rest => exact hp o

/-! ### Taking values and adding statements -/

theorem pop (h : Twin m d τ hs st st₀) (needed found : Nat) :
    Agree (fun x x₀ => x.1 = x₀.1 ∧ Twin m d τ hs x.2 x₀.2) (st.pop needed found)
      (st₀.pop needed found) := by
  rw [State.pop, State.pop, h.operands, h.blocks]
  cases st₀.operands with
  | cons e rest => exact .ok ⟨rfl, { h with operands := rfl, blocks := rfl }⟩
  | nil =>
    cases st₀.blocks with
    | nil => exact .error _ _
    | cons a rest =>
      simp only [List.map_cons, h.getBlock?]
      cases ((ScriptLift.getBlock? st₀.handlers a).getD []).getLast? with
      | none => exact .error _ _
      | some s =>
        cases s with
        | eval e => exact .ok ⟨rfl, { h.with_block a _ with operands := rfl, blocks := rfl }⟩
        | _ => exact .error _ _

theorem pop1 (h : Twin m d τ hs st st₀) :
    Agree (fun x x₀ => x.1 = x₀.1 ∧ Twin m d τ hs x.2 x₀.2) st.pop1 st₀.pop1 := h.pop 1 0

theorem pop2 (h : Twin m d τ hs st st₀) :
    Agree (fun x x₀ => x.1 = x₀.1 ∧ x.2.1 = x₀.2.1 ∧ Twin m d τ hs x.2.2 x₀.2.2) st.pop2
      st₀.pop2 := by
  refine (h.pop 2 0).bind ?_
  rintro ⟨right, s⟩ ⟨_, s₀⟩ ⟨rfl, h⟩
  refine (h.pop 2 1).bind ?_
  rintro ⟨left, s⟩ ⟨_, s₀⟩ ⟨rfl, h⟩
  exact .ok ⟨rfl, rfl, h⟩

theorem addAt (h : Twin m d τ hs st st₀) (s : Stmt) :
    Agree (fun x x₀ => Twin m d τ hs x.1 x₀.1 ∧ x.2 = x₀.2.later hs.length) (st.addAt s)
      (st₀.addAt s) := by
  rw [State.addAt, State.addAt, h.blocks]
  cases st₀.blocks with
  | nil => exact .error _ _
  | cons a rest =>
    refine .ok ⟨{ h.with_block a _ with blocks := rfl }, ?_⟩
    simp only [h.getBlock?]
    rfl

theorem add (h : Twin m d τ hs st st₀) (s : Stmt) :
    Agree (Twin m d τ hs) (st.add s) (st₀.add s) :=
  (h.addAt s).map fun _ _ hx => hx.1

/-! ### Values -/

variable {c c₀ : Cursor}

theorem pushConst (h : Twin m d τ hs st st₀) (hc : c.Sees c₀) :
    Agree (Twin m d τ hs) (pushConst sy c st) (Lift.pushConst sy c₀ st₀) := by
  rw [Lift.pushConst, Lift.pushConst, hc.row, hc.prev, h.kind]
  by_cases hevent : Row.does .pushEvent c₀.prev?
  · rw [if_pos hevent, if_pos hevent]
    cases c₀.row.int 0 with
    | error e => exact .error _ _
    | ok address =>
      dsimp only
      cases sy.slot? st₀.kind "" address with
      | none => exact .error _ _
      | some v => exact .ok (h.push _)
  · rw [if_neg hevent, if_neg hevent]
    by_cases hdot : Text.hasInfix "." (c₀.row.operand 0)
    · rw [if_pos hdot, if_pos hdot]
      cases Double.read (c₀.row.operand 0) with
      | error e => exact .error _ _
      | ok x => exact .ok (h.push _)
    · rw [if_neg hdot, if_neg hdot]
      cases c₀.row.int 0 with
      | error e => exact .error _ _
      | ok v => exact .ok (h.push _)

theorem pushString (h : Twin m d τ hs st st₀) (hc : c.Sees c₀) :
    Agree (Twin m d τ hs) (pushString c st) (Lift.pushString c₀ st₀) := by
  rw [Lift.pushString, Lift.pushString, hc.row, h.records]
  cases st₀.records.get? (c₀.row.operand 0) with
  | none => exact .error _ _
  | some s => exact .ok (h.push _)

/-- Noting a parameter that was not declared changes no type. -/
theorem parameterType_put {types : Table String String} {name : String}
    (hget : types.get? name = none) :
    parameterType (types.put name "int") = parameterType types := by
  funext key
  rw [parameterType, parameterType, Table.get?, Table.put, List.lookup_cons]
  cases hkey : key == name with
  | true =>
    rw [beq_iff_eq.mp hkey, hget]
    rfl
  | false => rfl

theorem pushParameter_eq (st : State) (hname : (c.row.operand 0).isEmpty = false) :
    ∃ types, parameterType types = parameterType st.types ∧
      Lift.pushParameter c st = .ok { st.push
        (.param (c.row.operand 0) (parameterType st.types (c.row.operand 0))) with types } := by
  simp only [Lift.pushParameter, hname, Bool.false_eq_true, if_false, parameterType]
  cases hget : st.types.get? (c.row.operand 0) with
  | some type => exact ⟨st.types, rfl, rfl⟩
  | none => exact ⟨_, parameterType_put hget, rfl⟩

theorem pushParameter (h : Twin m d τ hs st st₀) (hc : c.Sees c₀) :
    Agree (Twin m d τ hs) (pushParameter c st) (Lift.pushParameter c₀ st₀) := by
  cases hname : (c₀.row.operand 0).isEmpty with
  | true =>
    rw [Lift.pushParameter, Lift.pushParameter, hc.row]
    simp only [hname, if_true]
    exact .error _ _
  | false =>
    obtain ⟨types, htypes, heq⟩ := pushParameter_eq st (by rw [hc.row, hname])
    obtain ⟨types₀, htypes₀, heq₀⟩ := pushParameter_eq st₀ hname
    rw [heq, heq₀, hc.row, h.types, h.types₀]
    exact .ok { h.push _ with types := htypes.trans h.types, types₀ := htypes₀.trans h.types₀ }

theorem pushProperty (h : Twin m d τ hs st st₀) (hc : c.Sees c₀) :
    Agree (Twin m d τ hs) (pushProperty c st) (Lift.pushProperty c₀ st₀) := by
  rw [Lift.pushProperty, Lift.pushProperty, hc.row, h.decl, h.decl₀]
  dsimp only
  split
  · exact .error _ _
  · exact .ok (h.push _)

theorem fetch (h : Twin m d τ hs st st₀) (hc : c.Sees c₀) :
    Agree (Twin m d τ hs) (fetch c st) (Lift.fetch c₀ st₀) := by
  rw [Lift.fetch, Lift.fetch, hc.next]
  split
  · have hops := h.operands
    rw [hops]
    cases hops₀ : st₀.operands with
    | nil => exact .error _ _
    | cons e rest => exact .ok (h.push e)
  · exact .ok h

theorem binary (h : Twin m d τ hs st st₀) (op : BinaryOp) :
    Agree (Twin m d τ hs) (binary sy op st) (Lift.binary sy op st₀) := by
  refine h.pop2.bind ?_
  rintro ⟨left, right, s⟩ ⟨_, _, s₀⟩ ⟨rfl, rfl, h⟩
  exact .ok (h.push _)

theorem unary (h : Twin m d τ hs st st₀) (op : UnaryOp) :
    Agree (Twin m d τ hs) (unary op st) (Lift.unary op st₀) := by
  refine h.pop1.bind ?_
  rintro ⟨e, s⟩ ⟨_, s₀⟩ ⟨rfl, h⟩
  exact .ok (h.push _)

theorem addRow (h : Twin m d τ hs st st₀) (hc : c.Sees c₀) :
    Agree (Twin m d τ hs) (Lift.add sy c st) (Lift.add sy c₀ st₀) := by
  rw [Lift.add, Lift.add, hc.back]
  split
  · exact .ok h
  · refine h.pop2.bind ?_
    rintro ⟨left, right, s⟩ ⟨_, _, s₀⟩ ⟨rfl, rfl, h⟩
    dsimp only
    cases right with
    | int offset =>
      dsimp only
      rw [h.kind]
      split
      · exact .ok (h.push _)
      · cases sy.slot? s₀.kind left.type offset with
        | none => exact .error _ _
        | some v => exact .ok (h.push _)
    | _ => exact .ok (h.push _)

theorem call (h : Twin m d τ hs st st₀) (hc : c.Sees c₀) :
    Agree (Twin m d τ hs) (call sy c st) (Lift.call sy c₀ st₀) := by
  rw [Lift.call, Lift.call, hc.row]
  cases c₀.row.int 0 with
  | error e => exact .error _ _
  | ok address =>
    dsimp only
    cases sy.function? address with
    | none => exact .error _ _
    | some f =>
      dsimp only
      rw [h.operands]
      cases takeArguments sy f.arguments.reverse st₀.operands [] [] with
      | none => exact .error _ _
      | some taken =>
        obtain ⟨args, notes, operands⟩ := taken
        refine (h.with_operands operands).pop1.bind ?_
        rintro ⟨owner, s⟩ ⟨_, s₀⟩ ⟨rfl, h⟩
        exact .ok (h.push _)

theorem shift (h : Twin m d τ hs st st₀) (hc : c.Sees c₀) :
    Agree (Twin m d τ hs) (shift c st) (Lift.shift c₀ st₀) := by
  rw [Lift.shift, Lift.shift, hc.row, hc.prev, h.operands]
  cases c₀.row.int 0 with
  | error e => exact .ok h
  | ok n =>
    cases hops : st₀.operands with
    | nil => exact .ok h
    | cons e rest =>
      dsimp only
      split
      · exact (h.with_operands rest).add _
      · exact .ok h

theorem assignTo (h : Twin m d τ hs st st₀) (target value : Expr) :
    Agree (Twin m d τ hs) (assignTo sy target value st) (Lift.assignTo sy target value st₀) := by
  cases target with
  | var name type owner => exact .ok (h.push _)
  | _ => exact .error _ _

theorem makeFor (h : Twin m d τ hs st st₀) :
    Agree (Twin m d τ hs) (makeFor st) (Lift.makeFor st₀) := by
  refine (h.pop 3 0).bind ?_
  rintro ⟨update, s⟩ ⟨_, s₀⟩ ⟨rfl, h⟩
  refine (h.pop 3 1).bind ?_
  rintro ⟨cond, s⟩ ⟨_, s₀⟩ ⟨rfl, h⟩
  refine (h.pop 3 2).bind ?_
  rintro ⟨init, s⟩ ⟨_, s₀⟩ ⟨rfl, h⟩
  refine (h.addAt _).bind ?_
  rintro ⟨s, a⟩ ⟨s₀, a₀⟩ ⟨h, rfl⟩
  refine .ok { h with statements := ?_, blocks := ?_ }
  · show Open.forLoop _ :: s.statements.tail = _
    rw [h.statements]
    simp [Open.later]
  · show (a₀.body .loop).later hs.length :: s.blocks = _
    rw [h.blocks]
    rfl

theorem assign (h : Twin m d τ hs st st₀) (hc : c.Sees c₀) (window : Nat) :
    Agree (Twin m d τ hs) (assign sy window c st) (Lift.assign sy window c₀ st₀) := by
  have hdone : ∀ s s₀ : State, Twin m d τ hs s s₀ → Agree (Twin m d τ hs)
      (if s.topIs Open.isPendingFor then Lift.makeFor s else pure s)
      (if s₀.topIs Open.isPendingFor then Lift.makeFor s₀ else pure s₀) := by
    intro s s₀ h
    rw [h.topIs (Open.isPendingFor_later _)]
    split
    · exact h.makeFor
    · exact .ok h
  refine h.pop2.bind ?_
  rintro ⟨target, value, s⟩ ⟨_, _, s₀⟩ ⟨rfl, rfl, h⟩
  dsimp only
  rw [hc.mark]
  cases stepMark? window c₀.before with
  | some op => exact hdone _ _ (h.push _)
  | none => exact (h.assignTo target value).bind hdone

/-! ### Branches and jumps -/

theorem enter (h : Twin m d τ hs st st₀) (o : Open) (a : Address) :
    Twin m d τ hs (st.enter (o.later hs.length) (a.later hs.length)) (st₀.enter o a) :=
  { h with
    statements := congrArg (o.later hs.length :: ·) h.statements
    blocks := congrArg (a.later hs.length :: ·) h.blocks }

theorem endsAt (h : Twin m d τ hs st st₀) (target : String) :
    Twin m d τ hs (endsAt target st) (Lift.endsAt target st₀) :=
  { h with targets := congrArg (target :: ·) h.targets }

theorem redirect (h : Twin m d τ hs st st₀) (a : Address) :
    Twin m d τ hs (st.redirect (a.later hs.length)) (st₀.redirect a) := by
  have hblocks := h.blocks
  rw [State.redirect, State.redirect]
  cases hb : st₀.blocks with
  | nil =>
    rw [hb] at hblocks
    rw [hblocks]
    exact h
  | cons b rest =>
    rw [hb] at hblocks
    rw [hblocks]
    exact { h with blocks := rfl }

theorem leaveBlock (h : Twin m d τ hs st st₀) : Twin m d τ hs st.leaveBlock st₀.leaveBlock :=
  { h with blocks := (congrArg List.tail h.blocks).trans List.map_tail.symm }

theorem opens (h : Twin m d τ hs st st₀) (o : Open) :
    Twin m d τ hs { st with statements := o.later hs.length :: st.statements }
      { st₀ with statements := o :: st₀.statements } :=
  { h with statements := congrArg (o.later hs.length :: ·) h.statements }

theorem with_statements (h : Twin m d τ hs st st₀) (os : List Open) :
    Twin m d τ hs { st with statements := os.map (Open.later hs.length) }
      { st₀ with statements := os } := { h with statements := rfl }

theorem ahead? (h : Twin m d τ hs st st₀) (row : Row) (after : List Row) :
    ahead? st row after = Lift.ahead? st₀ row after := by
  rw [Lift.ahead?, Lift.ahead?, h.seen]

theorem opensWhile (h : Twin m d τ hs st st₀) (hc : c.Sees c₀) (hop : c₀.row.opcode = .branchFalse) :
    opensWhile c st = Lift.opensWhile c₀ st₀ := by
  rw [Lift.opensWhile, Lift.opensWhile, h.ahead?, hc.row, h.seen, Lift.ahead?, Lift.ahead?,
    hc.ahead hop]

theorem opensSelect (h : Twin m d τ hs st st₀) (hc : c.Sees c₀)
    (hop : c₀.row.opcode = .branchFalse) : opensSelect c st = Lift.opensSelect c₀ st₀ := by
  rw [Lift.opensSelect, Lift.opensSelect, h.ahead?, hc.row, h.peek?, Lift.ahead?, Lift.ahead?,
    hc.ahead hop]

theorem openWhile (h : Twin m d τ hs st st₀) (target : String) :
    Agree (Twin m d τ hs) (openWhile target st) (Lift.openWhile target st₀) := by
  refine h.pop1.bind ?_
  rintro ⟨cond, s⟩ ⟨_, s₀⟩ ⟨rfl, h⟩
  refine (h.addAt _).bind ?_
  rintro ⟨s, a⟩ ⟨s₀, a₀⟩ ⟨h, rfl⟩
  exact .ok ((h.enter (.whileLoop a₀) (a₀.body .loop)).endsAt target)

theorem openIf (h : Twin m d τ hs st st₀) (target : String) :
    Agree (Twin m d τ hs) (openIf target st) (Lift.openIf target st₀) := by
  refine h.pop1.bind ?_
  rintro ⟨cond, s⟩ ⟨_, s₀⟩ ⟨rfl, h⟩
  refine (h.addAt _).bind ?_
  rintro ⟨s, a⟩ ⟨s₀, a₀⟩ ⟨h, rfl⟩
  exact .ok ((h.enter (.conditional a₀) (a₀.body .yes)).endsAt target)

theorem openSelect (h : Twin m d τ hs st st₀) (target : String) :
    Agree (Twin m d τ hs) (openSelect target st) (Lift.openSelect target st₀) := by
  refine h.pop1.bind ?_
  rintro ⟨e, s⟩ ⟨_, s₀⟩ ⟨rfl, h⟩
  cases e with
  | binary op scrutinee value =>
    refine (h.addAt _).bind ?_
    rintro ⟨s, a⟩ ⟨s₀, a₀⟩ ⟨h, rfl⟩
    exact .ok ((h.enter (.select a₀ scrutinee 1) (a₀.body (.arm 0))).endsAt target)
  | _ => exact .error _ _

theorem openCase (h : Twin m d τ hs st st₀) (target : String) :
    Agree (Twin m d τ hs) (openCase sy target st) (Lift.openCase sy target st₀) := by
  have htail : Twin m d τ hs { st with statements := st.statements.tail }
      { st₀ with statements := st₀.statements.tail } :=
    { h with statements := by rw [h.statements, List.map_tail] }
  refine htail.pop1.bind ?_
  rintro ⟨value, s⟩ ⟨_, s₀⟩ ⟨rfl, h⟩
  have hstatements := h.statements
  dsimp only at hstatements ⊢
  rw [hstatements]
  rcases hs₀ : s₀.statements with _ | ⟨o, rest⟩
  · exact .error _ _
  · cases o with
    | select a scrutinee arms =>
      exact .ok ((((h.with_block a.block _).with_statements
        (.select a scrutinee (arms + 1) :: rest)).redirect (a.body (.arm arms))).endsAt target)
    | _ => exact .error _ _

theorem branch (h : Twin m d τ hs st st₀) (hc : c.Sees c₀) (hop : c₀.row.opcode = .branchFalse) :
    Agree (Twin m d τ hs) (branch sy c st) (Lift.branch sy c₀ st₀) := by
  rw [Lift.branch, Lift.branch, h.opensWhile hc hop, h.opensSelect hc hop, hc.row, hc.next, hc.prev,
    h.topIs (Open.isPendingCase_later _)]
  split_ifs
  · exact .error _ _
  · exact h.openWhile _
  · exact h.openCase _
  · exact h.openSelect _
  · exact .ok ((h.opens .pendingFor).endsAt _)
  · exact h.openIf _
  · exact .ok h

theorem jump (h : Twin m d τ hs st st₀) (hc : c.Sees c₀) :
    Agree (Twin m d τ hs) (jump c st) (Lift.jump c₀ st₀) := by
  have hdepth : loopDepth? st = loopDepth? st₀ := by
    rw [loopDepth?, loopDepth?, h.statements, List.findIdx?_map]
    exact congrArg (List.findIdx? · _) (funext (Open.isLoop_later _))
  rw [Lift.jump, Lift.jump, hdepth, hc.row, h.targets]
  cases loopDepth? st₀ with
  | none => exact .ok h
  | some i =>
    dsimp only
    split
    · exact h.add _
    · exact .ok h

/-! ### Labels -/

theorem selectGoesOn (h : Twin m d τ hs st st₀) (after : List Row) :
    selectGoesOn st after = Lift.selectGoesOn st₀ after := by
  cases after with
  | nil => rfl
  | cons next after => rw [Lift.selectGoesOn, Lift.selectGoesOn, h.ahead?]

theorem closeArm (h : Twin m d τ hs st st₀) (hc : c.Sees c₀) (o : Open) :
    Twin m d τ hs (closeArm c (o.later hs.length) st) (Lift.closeArm c₀ o st₀) := by
  rw [Lift.closeArm, Lift.closeArm, h.selectGoesOn, hc.goesOn]
  split
  · exact (h.opens o).opens .pendingCase
  · exact h.leaveBlock

theorem closeOne (h : Twin m d τ hs st st₀) (hc : c.Sees c₀) :
    Agree (Twin m d τ hs) (closeOne c st) (Lift.closeOne c₀ st₀) := by
  have hrest : ∀ rest : List Open, Twin m d τ hs
      { st with targets := st.targets.tail, statements := rest.map (Open.later hs.length) }
      { st₀ with targets := st₀.targets.tail, statements := rest } := fun rest =>
    { h with targets := by rw [h.targets], statements := rfl }
  rw [Lift.closeOne, Lift.closeOne, h.statements]
  rcases st₀.statements with _ | ⟨o, rest⟩
  · exact .error _ _
  · cases o with
    | select a scrutinee arms =>
      refine Agree.map (R := Twin m d τ hs) ?_ fun s s₀ h => h.closeArm hc (.select a scrutinee arms)
      rw [hc.breaks]
      split
      · exact (hrest rest).add _
      · exact .ok (hrest rest)
    | conditional a =>
      simp only [List.map_cons, Open.later, hc.prev]
      cases c₀.prev? with
      | none => exact .ok (hrest rest).leaveBlock
      | some prev =>
        dsimp only
        split
        · exact .ok ((((hrest rest).endsAt (prev.operand 0)).opens (.pendingElse a)).redirect
            (a.body .no))
        · exact .ok (hrest rest).leaveBlock
    | _ => exact .ok (hrest rest).leaveBlock

theorem mem_targets (h : Twin m d τ hs st st₀) (hc : c.Sees c₀) :
    c.row.name ∈ st.targets ↔ c₀.row.name ∈ st₀.targets := by
  rw [hc.row, h.targets]

theorem closeAll (h : Twin m d τ hs st st₀) (hc : c.Sees c₀) :
    Agree (Twin m d τ hs) (closeAll c st) (Lift.closeAll c₀ st₀) := by
  induction st₀ using closeAll.induct c₀ generalizing st with
  | case1 st₀ hmem st₀' hone _ ih =>
    have hmem₀ : c₀.row.name ∈ st₀.targets := by simpa using hmem
    obtain ⟨st', hone', h'⟩ := Agree.of_ok (hone ▸ h.closeOne hc)
    rw [closeAll_step hmem₀ hone, closeAll_step ((h.mem_targets hc).mpr hmem₀) hone']
    exact ih h'
  | case2 st₀ hmem e hone =>
    have hmem₀ : c₀.row.name ∈ st₀.targets := by simpa using hmem
    obtain ⟨e', hone'⟩ := Agree.of_error (hone ▸ h.closeOne hc)
    rw [closeAll_stuck hmem₀ hone, closeAll_stuck ((h.mem_targets hc).mpr hmem₀) hone']
    exact .error _ _
  | case3 st₀ hmem =>
    have hmem₀ : c₀.row.name ∉ st₀.targets := by simpa using hmem
    rw [closeAll_idle hmem₀, closeAll_idle (fun hm => hmem₀ ((h.mem_targets hc).mp hm))]
    exact .ok h

theorem closeLabel (h : Twin m d τ hs st st₀) (hc : c.Sees c₀) :
    Agree (Twin m d τ hs) (closeLabel c st) (Lift.closeLabel c₀ st₀) := by
  have hmet : Twin m d τ hs { st with seen := c.row.name :: st.seen }
      { st₀ with seen := c₀.row.name :: st₀.seen } :=
    { h with seen := by rw [hc.row, h.seen] }
  exact hmet.closeAll hc

/-! ### Rows -/

theorem handlerName? (h : Twin m d τ hs st st₀) : handlerName? st = Lift.handlerName? st₀ := by
  obtain ⟨x, hx⟩ := List.length_eq_one_iff.mp h.one
  rw [Lift.handlerName?, Lift.handlerName?, h.handlers, hx, List.getLast?_concat]
  rfl

theorem variableRow (h : Twin m d τ hs st st₀) (hc : c.Sees c₀) :
    Agree (Twin m d τ hs) (variableRow sy c st) (Lift.variableRow sy c₀ st₀) := by
  obtain ⟨x, hx⟩ := List.length_eq_one_iff.mp h.one
  have hsome : st.handlers.isEmpty = false := by simp [h.handlers, hx]
  have hsome₀ : st₀.handlers.isEmpty = false := by simp [hx]
  simp only [Lift.variableRow, hc.row, h.kind, hsome, hsome₀, Bool.false_eq_true, if_false]
  split
  · exact .ok h
  · cases sy.variableType? st₀.kind (variableName (Text.unquoted c₀.row.name)) with
    | none => exact .ok h
    | some type =>
      refine .ok { h with handlers := ?_, one := by rw [List.length_modify, h.one] }
      have hlen : st.handlers.length - 1 = hs.length + (st₀.handlers.length - 1) := by
        rw [h.handlers, List.length_append, h.one]
        omega
      dsimp only
      rw [hlen, h.handlers, modify_length_add]

theorem declarationRow (h : Twin m d τ hs st st₀) (hc : c.Sees c₀) (hm : m = .none ∨ m = .locals) :
    Agree (Twin m d τ hs) (declarationRow sy c st) (Lift.declarationRow sy c₀ st₀) := by
  rw [Lift.declarationRow, Lift.declarationRow, h.mode, h.mode₀]
  rcases hm with rfl | rfl
  · exact .ok h
  · exact h.variableRow hc

theorem with_mode (h : Twin m d τ hs st st₀) (m' : Mode) :
    Twin m' d τ hs { st with mode := m' } { st₀ with mode := m' } :=
  { h with mode := rfl, mode₀ := rfl }

/-- **Rows of a handler keep its states together.** -/
theorem step {opts : Options} (h : Twin m d τ hs st st₀) (hc : c.Sees c₀)
    (hm : m = .none ∨ m = .locals) (hinner : isInner c₀.row) :
    Agree (Twin (modeAfter m c₀.row) d τ hs) (step sy opts c st) (Lift.step sy opts c₀ st₀) := by
  have hne : m ≠ .parameterText := by
    rcases hm with rfl | rfl <;> simp
  rw [step_eq_dispatch (h.mode ▸ hne), step_eq_dispatch (h.mode₀ ▸ hne), dispatch, dispatch, hc.row]
  rw [isInner] at hinner
  rw [modeAfter]
  cases hop : c₀.row.opcode with
  | classBegin | classEnd | handlerBegin | handlerEnd | parametersBegin | parametersEnd
  | buySellBegin | buySellEnd | telPosBegin | telPosEnd => simp [hop] at hinner
  | variablesBegin => exact .ok (h.with_mode _)
  | variablesEnd => exact .ok (h.with_mode _)
  | blank | record => exact .ok h
  | branchFalse => exact h.branch hc hop
  | jump => exact h.jump hc
  | shift => exact h.shift hc
  | assign => exact h.assign hc _
  | pushConst => exact h.pushConst hc
  | pushString => exact h.pushString hc
  | pushParameter => exact h.pushParameter hc
  | pushProperty => exact h.pushProperty hc
  | call => exact h.call hc
  | add | addString => exact h.addRow hc
  | fetch => exact h.fetch hc
  | callSuper =>
    dsimp only
    rw [h.handlerName?]
    exact h.add _
  | exitHandler => exact h.add _
  | equal =>
    dsimp only
    rw [h.topIs (Open.isPendingCase_later _)]
    split
    · exact .ok h
    · exact h.binary _
  | complement | negate => exact h.unary _
  | binary op => exact h.binary op
  | label => exact h.closeLabel hc
  | pushEvent | pushRegister | declaration => exact h.declarationRow hc hm

end Twin

end Lift

end ScriptLift
