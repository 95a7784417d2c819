import ScriptLift.Proofs.Lift.TermRun

/-!
# Postfix code in place

Postfix code is made of rows that push, combine and assign values. What it leaves on an empty stack
it leaves on top of any stack, and nothing else changes.

* `isPostfix`: code of push, fetch, operator, call and assign rows; a call drops its arguments.
* `leaves?`, `value?`: what code leaves when it runs on its own.
* `Frames`: a run in place beside the run on its own.
* **`advances_postfix`**: what code leaves, in place.
-/

namespace ScriptLift.Lift

/-- A row that pushes a value or combines values. -/
def isValueOp : Opcode → Bool
  | .pushEvent | .pushConst | .pushString | .pushParameter | .pushProperty | .fetch | .add
  | .addString | .equal | .binary _ | .complement | .negate => true
  | _ => false

/-- The number of arguments of the function that a row calls. -/
def arity? (sy : Symbols) (r : Row) : Option Nat :=
  (r.int 0).toOption.bind fun v => (sy.function? v).map (·.arguments.length)

/-- The row that drops a number of values. -/
def dropKey (n : Nat) : String × List String := ("shift_sp", [Numeral.decimal (-(n : Int))])

/-- **Postfix code**: rows that push, combine and assign values, and calls; a call with arguments is
followed by the row that drops them. -/
def isPostfix (sy : Symbols) : List Row → Bool
  | [] => true
  | [r] => isValueOp r.opcode || r.opcode == .assign || r.opcode == .call && arity? sy r == some 0
  | r :: s :: rest =>
    if r.opcode == .call then
      match arity? sy r with
      | some 0 => isPostfix sy (s :: rest)
      | some (n + 1) => s.key == dropKey (n + 1) && isPostfix sy rest
      | none => false
    else (isValueOp r.opcode || r.opcode == .assign) && isPostfix sy (s :: rest)

/-- A state with nothing on its stacks, where ids stand for the same. -/
def State.bare (st : State) : State :=
  { State.initial with decl := st.decl, records := st.records, types := st.types }

/-- The values that code leaves on an empty stack, the top one first. -/
def leaves? (sy : Symbols) (opts : Options) (st : State) (code : List Row) : Option (List Expr) :=
  ((advance sy opts [] code [] st.bare).toOption).map State.operands

/-- The value that code leaves on an empty stack, if it is one. -/
def value? (sy : Symbols) (opts : Options) (st : State) (code : List Row) : Option Expr :=
  match leaves? sy opts st code with
  | some [e] => some e
  | _ => none

/-! ## Runs beside each other -/

/-- A state `r` in place beside a state `s` on its own: on top of what `st` has stand the operands
of `s`, and ids stand for the same. -/
structure Frames (st s r : State) : Prop where
  rest : r = { st with operands := s.operands ++ st.operands, types := r.types }
  scope : r.scope = s.scope
  same : r.scope = st.scope
  mode : s.mode = .none
  statements : s.statements = []
  blocks : s.blocks = []

variable {sy : Symbols} {opts : Options} {st s s' r : State}

namespace Frames

theorem operands (h : Frames st s r) : r.operands = s.operands ++ st.operands := by
  rw [h.rest]

theorem with_operands (h : Frames st s r) (xs : List Expr) :
    Frames st { s with operands := xs } { r with operands := xs ++ st.operands } := by
  obtain ⟨hrest, hscope, hsame, hm, hs, hb⟩ := h
  refine ⟨?_, hscope, hsame, hm, hs, hb⟩
  rw [hrest]

theorem statements_eq (h : Frames st s r) : r.statements = st.statements := by
  rw [h.rest]

theorem mode_eq (h : Frames st s r) : r.mode = st.mode := by
  rw [h.rest]

theorem kind_eq (h : Frames st s r) : r.kind = s.kind := congrArg Scope.kind h.scope

end Frames

/-! ## Values on an empty stack -/

theorem pop_bare (hb : s.blocks = []) {n k : Nat} {e : Expr} (h : s.pop n k = .ok (e, s')) :
    ∃ rest, s.operands = e :: rest ∧ s' = { s with operands := rest } := by
  unfold State.pop at h
  split at h
  · rename_i e' rest heq
    obtain ⟨rfl, rfl⟩ := Prod.mk.inj (Except.ok.inj h)
    exact ⟨rest, heq, rfl⟩
  · rw [hb] at h
    simp at h

theorem pop2_bare (hb : s.blocks = []) {x y : Expr} (h : s.pop2 = .ok (x, y, s')) :
    ∃ rest, s.operands = y :: x :: rest ∧ s' = { s with operands := rest } := by
  unfold State.pop2 at h
  cases h₁ : s.pop 2 0 with
  | error e => simp [h₁, bind, Except.bind] at h
  | ok v₁ =>
    obtain ⟨y', s₁⟩ := v₁
    obtain ⟨rest₁, ho₁, rfl⟩ := pop_bare hb h₁
    simp only [h₁, bind, Except.bind] at h
    cases h₂ : State.pop { s with operands := rest₁ } 2 1 with
    | error e => simp [h₂] at h
    | ok v₂ =>
      obtain ⟨x', s₂⟩ := v₂
      obtain ⟨rest₂, ho₂, rfl⟩ := pop_bare (s := { s with operands := rest₁ }) hb h₂
      simp only [h₂, pure, Except.pure, Except.ok.injEq, Prod.mk.injEq] at h
      obtain ⟨rfl, rfl, rfl⟩ := h
      have ho₂ : rest₁ = x' :: rest₂ := ho₂
      exact ⟨rest₂, by rw [ho₁, ho₂], rfl⟩

theorem binary_bare (hb : s.blocks = []) {op : BinaryOp} (h : binary sy op s = .ok s') :
    ∃ x y rest, s.operands = y :: x :: rest ∧
      s' = { s with operands := combine sy op x y :: rest } := by
  unfold binary at h
  cases h₁ : s.pop2 with
  | error e => simp [h₁, bind, Except.bind] at h
  | ok v =>
    obtain ⟨x, y, s₁⟩ := v
    obtain ⟨rest, ho, rfl⟩ := pop2_bare hb h₁
    simp only [h₁, bind, Except.bind, pure, Except.pure, Except.ok.injEq] at h
    exact ⟨x, y, rest, ho, h.symm⟩

theorem unary_bare (hb : s.blocks = []) {op : UnaryOp} (h : unary op s = .ok s') :
    ∃ x rest, s.operands = x :: rest ∧ s' = { s with operands := .ofUnary op x :: rest } := by
  unfold unary at h
  cases h₁ : s.pop1 with
  | error e => simp [h₁, bind, Except.bind] at h
  | ok v =>
    obtain ⟨x, s₁⟩ := v
    obtain ⟨rest, ho, rfl⟩ := pop_bare hb h₁
    simp only [h₁, bind, Except.bind, pure, Except.pure, Except.ok.injEq] at h
    exact ⟨x, rest, ho, h.symm⟩

theorem binary_of_operands {op : BinaryOp} {x y : Expr} {rest : List Expr}
    (ho : s.operands = y :: x :: rest) :
    binary sy op s = .ok { s with operands := combine sy op x y :: rest } := by
  simp only [binary, pop2_of_operands ho, bind, Except.bind]
  rfl

theorem unary_of_operands {op : UnaryOp} {x : Expr} {rest : List Expr} (ho : s.operands = x :: rest) :
    unary op s = .ok { s with operands := .ofUnary op x :: rest } := by
  simp only [unary, pop1_of_operands ho, bind, Except.bind]
  rfl

/-- More operands below the arguments stay. -/
theorem takeArguments_frame (types : List String) (operands ops args : List Expr)
    (notes : List String) {args' : List Expr} {notes' : List String} {left : List Expr}
    (h : takeArguments sy types operands args notes = some (args', notes', left)) :
    takeArguments sy types (operands ++ ops) args notes = some (args', notes', left ++ ops) := by
  induction types generalizing operands args notes with
  | nil =>
    rw [takeArguments] at h ⊢
    obtain ⟨rfl, rfl, rfl⟩ : args = args' ∧ notes = notes' ∧ operands = left := by simpa using h
    rfl
  | cons type types ih =>
    cases operands with
    | nil => simp [takeArguments] at h
    | cons e operands =>
      rw [takeArguments_cons] at h
      rw [List.cons_append, takeArguments_cons]
      exact ih operands _ _ h

theorem length_takeArguments (types : List String) (operands args : List Expr)
    (notes : List String) {args' : List Expr} {notes' : List String} {left : List Expr}
    (h : takeArguments sy types operands args notes = some (args', notes', left)) :
    args'.length = args.length + types.length ∧ operands.length = types.length + left.length := by
  induction types generalizing operands args notes with
  | nil =>
    rw [takeArguments] at h
    obtain ⟨rfl, rfl, rfl⟩ : args = args' ∧ notes = notes' ∧ operands = left := by simpa using h
    simp
  | cons type types ih =>
    cases operands with
    | nil => simp [takeArguments] at h
    | cons e operands =>
      rw [takeArguments_cons] at h
      obtain ⟨h₁, h₂⟩ := ih operands _ _ h
      simp only [List.length_cons] at h₁ ⊢
      omega

/-! ## Rows beside each other -/

/-- The row before is neither an event row nor an integer fetch. -/
structure Boundary (before : List Row) : Prop where
  event : Undisturbed before
  fetch : before.head?.any Row.isIntFetch = false

/-- One row in place reaches a state beside `s'`; no row pushes more than one operand. -/
def Follows (sy : Symbols) (opts : Options) (before after p q : List Row) (row : Row)
    (st s' r : State) : Prop :=
  ∃ r', step sy opts ⟨p ++ before, row, q ++ after⟩ r = .ok r' ∧ Frames st s' r' ∧
    s'.operands.length ≤ p.length + 1

variable {before after p q : List Row} {row : Row}

/-- Where code can stand: outside sections and not where a comparison of a select is expected. -/
structure Placed (before after : List Row) (st : State) : Prop where
  before : Boundary before
  after : after.head?.any Row.isFetch = false
  mode : st.mode = .none
  top : st.topIs Open.isPendingCase = false

theorem Frames.mode_ne (h : Frames st s r) (hp : Placed before after st) : r.mode ≠ .parameterText := by
  rw [h.mode_eq, hp.mode]
  simp

theorem Frames.self_mode_ne (h : Frames st s r) : s.mode ≠ .parameterText := by
  rw [h.mode]
  simp

/-- A row whose effect on the operands alone is the same in place. -/
theorem Follows.of_operands (h : Frames st s r) {xs : List Expr} (hs' : s' = { s with operands := xs })
    (hr : step sy opts ⟨p ++ before, row, q ++ after⟩ r =
      .ok { r with operands := xs ++ st.operands }) (hlen : xs.length ≤ p.length + 1) :
    Follows sy opts before after p q row st s' r := by
  subst hs'
  exact ⟨_, hr, h.with_operands xs, hlen⟩

theorem Follows.push (h : Frames st s r) (hlen : s.operands.length ≤ p.length) {e : Expr}
    (hs' : s' = s.push e)
    (hr : step sy opts ⟨p ++ before, row, q ++ after⟩ r = .ok (r.push e)) :
    Follows sy opts before after p q row st s' r := by
  refine .of_operands h hs' ?_ (by simpa using hlen)
  rw [hr, State.push, h.operands]
  rfl

theorem Follows.idle (h : Frames st s r) (hlen : s.operands.length ≤ p.length)
    (hr : step sy opts ⟨p ++ before, row, q ++ after⟩ r = .ok r) :
    Follows sy opts before after p q row st s r :=
  ⟨r, hr, h, hlen.trans (Nat.le_succ _)⟩

theorem does_head?_append (hp : Placed before after st) (p : List Row) :
    Row.does .pushEvent (p ++ before).head? = Row.does .pushEvent p.head? := by
  cases p with
  | nil => exact hp.before.event
  | cons r p => rfl

theorem follows_pushConst (h : Frames st s r) (hp : Placed before after st)
    (hlen : s.operands.length ≤ p.length) (hop : row.opcode = .pushConst)
    (hs' : step sy opts ⟨p, row, q⟩ s = .ok s') : Follows sy opts before after p q row st s' r := by
  rw [step_eq_dispatch h.self_mode_ne] at hs'
  simp only [dispatch, hop, pushConst, Cursor.prev?] at hs'
  have hr : step sy opts ⟨p ++ before, row, q ++ after⟩ r =
      pushConst sy ⟨p ++ before, row, q ++ after⟩ r := by
    rw [step_eq_dispatch (h.mode_ne hp)]
    simp only [dispatch, hop]
  simp only [pushConst, Cursor.prev?, does_head?_append hp, h.kind_eq] at hr
  split_ifs at hs' hr
  · cases hi : row.int 0 with
    | error e => simp [hi, malformed] at hs'
    | ok v =>
      simp only [hi] at hs' hr
      cases hv : sy.slot? s.kind "" v with
      | none => simp [hv, unresolved] at hs'
      | some w =>
        simp only [hv, Except.ok.injEq] at hs' hr
        exact .push h hlen hs'.symm hr
  · cases hi : Double.read (row.operand 0) with
    | error e => simp [hi, malformed] at hs'
    | ok v =>
      simp only [hi, Except.ok.injEq] at hs' hr
      exact .push h hlen hs'.symm hr
  · cases hi : row.int 0 with
    | error e => simp [hi, malformed] at hs'
    | ok v =>
      simp only [hi, Except.ok.injEq] at hs' hr
      exact .push h hlen hs'.symm hr

theorem follows_pushString (h : Frames st s r) (hp : Placed before after st)
    (hlen : s.operands.length ≤ p.length) (hop : row.opcode = .pushString)
    (hs' : step sy opts ⟨p, row, q⟩ s = .ok s') : Follows sy opts before after p q row st s' r := by
  cases ht : s.scope.record? (row.operand 0) with
  | none =>
    have hget : s.records.get? (row.operand 0) = none := ht
    rw [step_eq_dispatch h.self_mode_ne] at hs'
    simp [dispatch, hop, pushString, hget, malformed] at hs'
  | some t =>
    have hr : r.scope.record? (row.operand 0) = some t := by rw [h.scope, ht]
    rw [step_pushString h.self_mode_ne hop ht] at hs'
    exact .push h hlen (Except.ok.inj hs').symm (step_pushString (h.mode_ne hp) hop hr)

theorem follows_pushProperty (h : Frames st s r) (hp : Placed before after st)
    (hlen : s.operands.length ≤ p.length) (hop : row.opcode = .pushProperty)
    (hs' : step sy opts ⟨p, row, q⟩ s = .ok s') : Follows sy opts before after p q row st s' r := by
  cases ht : s.scope.prop? (row.operand 0) with
  | none =>
    rw [step_eq_dispatch h.self_mode_ne] at hs'
    simp only [dispatch, hop, pushProperty] at hs'
    simp only [State.scope] at ht
    split_ifs at hs' ht
    · simp [malformed] at hs'
    · rw [Option.map_eq_none_iff.mp ht] at hs'
      simp [malformed] at hs'
  | some t =>
    have hr : r.scope.prop? (row.operand 0) = some t := by rw [h.scope, ht]
    rw [step_pushProperty h.self_mode_ne hop ht] at hs'
    exact .push h hlen (Except.ok.inj hs').symm (step_pushProperty (h.mode_ne hp) hop hr)

theorem follows_pushParameter (h : Frames st s r) (hp : Placed before after st)
    (hlen : s.operands.length ≤ p.length) (hop : row.opcode = .pushParameter)
    (hs' : step sy opts ⟨p, row, q⟩ s = .ok s') : Follows sy opts before after p q row st s' r := by
  cases ht : s.scope.param? (row.operand 0) with
  | none =>
    rw [step_eq_dispatch h.self_mode_ne] at hs'
    simp only [dispatch, hop, pushParameter] at hs'
    simp only [State.scope] at ht
    split_ifs at hs' ht
    simp [malformed] at hs'
  | some t =>
    have hr : r.scope.param? (row.operand 0) = some t := by rw [h.scope, ht]
    obtain ⟨s₁, hs₁, hos, hks⟩ : ∃ s₁, step sy opts ⟨p, row, q⟩ s = .ok s₁ ∧
        s₁.operands = .param (row.operand 0) t :: s.operands ∧ Kept false s s₁ :=
      step_pushParameter h.self_mode_ne hop ht
    obtain ⟨r₁, hr₁, hor, hkr⟩ : ∃ r₁, step sy opts ⟨p ++ before, row, q ++ after⟩ r = .ok r₁ ∧
        r₁.operands = .param (row.operand 0) t :: r.operands ∧ Kept false r r₁ :=
      step_pushParameter (h.mode_ne hp) hop hr
    rw [hs₁] at hs'
    obtain rfl := Except.ok.inj hs'
    refine ⟨r₁, hr₁, ⟨?_, ?_, hkr.scope.trans h.same, hks.mode.trans h.mode,
      hks.statements.trans h.statements, hks.blocks.trans h.blocks⟩, ?_⟩
    · rw [hkr.eq_of_unnoted, hos, hor, h.operands, h.rest]
      rfl
    · rw [hkr.scope, hks.scope, h.scope]
    · rw [hos]
      simpa using hlen

theorem follows_fetch (h : Frames st s r) (hp : Placed before after st)
    (hlen : s.operands.length ≤ p.length) (hop : row.opcode = .fetch)
    (hs' : step sy opts ⟨p, row, q⟩ s = .ok s') : Follows sy opts before after p q row st s' r := by
  have hnext : (q ++ after).head?.any Row.isFetch = q.head?.any Row.isFetch := by
    cases q with
    | nil => exact hp.after
    | cons x q => rfl
  have hr : step sy opts ⟨p ++ before, row, q ++ after⟩ r =
      fetch ⟨p ++ before, row, q ++ after⟩ r := by
    rw [step_eq_dispatch (h.mode_ne hp)]
    simp only [dispatch, hop]
  rw [step_eq_dispatch h.self_mode_ne] at hs'
  simp only [dispatch, hop] at hs'
  unfold fetch at hs' hr
  by_cases hf : q.head?.any Row.isFetch
  · rw [if_pos (show (Cursor.next? ⟨p, row, q⟩).any Row.isFetch from hf)] at hs'
    rw [if_pos (show (Cursor.next? ⟨p ++ before, row, q ++ after⟩).any Row.isFetch from
      hnext.trans hf)] at hr
    cases ho : s.operands with
    | nil => simp [ho, shortage] at hs'
    | cons e rest =>
      have hor : r.operands = e :: (rest ++ st.operands) := by rw [h.operands, ho]; rfl
      simp only [ho, Except.ok.injEq] at hs'
      simp only [hor] at hr
      exact .push h hlen hs'.symm hr
  · rw [if_neg (show ¬ (Cursor.next? ⟨p, row, q⟩).any Row.isFetch from hf)] at hs'
    rw [if_neg (show ¬ (Cursor.next? ⟨p ++ before, row, q ++ after⟩).any Row.isFetch from
      fun h => hf (hnext.symm.trans h))] at hr
    obtain rfl := Except.ok.inj hs'
    exact .idle h hlen hr

theorem Follows.binary (h : Frames st s r) (hlen : s.operands.length ≤ p.length) {op : BinaryOp}
    (hs' : Lift.binary sy op s = .ok s')
    (hr : step sy opts ⟨p ++ before, row, q ++ after⟩ r = Lift.binary sy op r) :
    Follows sy opts before after p q row st s' r := by
  obtain ⟨x, y, rest, ho, hs'⟩ := binary_bare h.blocks hs'
  have hor : r.operands = y :: x :: (rest ++ st.operands) := by rw [h.operands, ho]; rfl
  refine .of_operands h hs' ?_ ?_
  · rw [hr, binary_of_operands hor]
    rfl
  · rw [ho] at hlen
    simp only [List.length_cons] at hlen ⊢
    omega

theorem Follows.unary (h : Frames st s r) (hlen : s.operands.length ≤ p.length) {op : UnaryOp}
    (hs' : Lift.unary op s = .ok s')
    (hr : step sy opts ⟨p ++ before, row, q ++ after⟩ r = Lift.unary op r) :
    Follows sy opts before after p q row st s' r := by
  obtain ⟨x, rest, ho, hs'⟩ := unary_bare h.blocks hs'
  have hor : r.operands = x :: (rest ++ st.operands) := by rw [h.operands, ho]; rfl
  refine .of_operands h hs' ?_ ?_
  · rw [hr, unary_of_operands hor]
    rfl
  · rw [ho] at hlen
    simp only [List.length_cons] at hlen ⊢
    omega

theorem add_bare (hb : s.blocks = []) {c : Cursor} (hev : Row.does .pushEvent c.back2? = false)
    (h : add sy c s = .ok s') : ∃ x y e rest, s.operands = y :: x :: rest ∧
      s' = { s with operands := e :: rest } ∧
      ∀ (c' : Cursor) (r : State) (ops : List Expr), Row.does .pushEvent c'.back2? = false →
        r.kind = s.kind → r.operands = y :: x :: (rest ++ ops) →
        add sy c' r = .ok { r with operands := e :: (rest ++ ops) } := by
  simp only [add, hev, Bool.false_eq_true, if_false] at h
  cases h₁ : s.pop2 with
  | error e => simp [h₁, bind, Except.bind] at h
  | ok v =>
    obtain ⟨x, y, s₁⟩ := v
    obtain ⟨rest, ho, rfl⟩ := pop2_bare hb h₁
    have hkind : State.kind { s with operands := rest } = s.kind := rfl
    simp only [h₁, bind, Except.bind, pure, Except.pure, hkind] at h
    cases y with
    | int offset =>
      simp only at h
      split_ifs at h with hprim
      · refine ⟨x, _, _, rest, ho, (Except.ok.inj h).symm, fun c' r ops hev' _ hor => ?_⟩
        simp only [add, hev', Bool.false_eq_true, if_false, pop2_of_operands hor, bind, Except.bind,
          hprim, if_true]
        rfl
      · cases hv : sy.slot? s.kind x.type offset with
        | none => simp [hv, unresolved] at h
        | some v =>
          simp only [hv] at h
          refine ⟨x, _, _, rest, ho, (Except.ok.inj h).symm, fun c' r ops hev' hk hor => ?_⟩
          have hkind' : State.kind { r with operands := rest ++ ops } = s.kind := hk
          simp only [add, hev', Bool.false_eq_true, if_false, pop2_of_operands hor, bind, Except.bind,
            hprim, hkind', hv]
          rfl
    | _ =>
      refine ⟨x, _, _, rest, ho, (Except.ok.inj h).symm, fun c' r ops hev' _ hor => ?_⟩
      simp only [add, hev', Bool.false_eq_true, if_false, pop2_of_operands hor, bind, Except.bind]
      rfl

theorem follows_add (h : Frames st s r) (hp : Placed before after st)
    (hlen : s.operands.length ≤ p.length) (hop : row.opcode = .add ∨ row.opcode = .addString)
    (hs' : step sy opts ⟨p, row, q⟩ s = .ok s') : Follows sy opts before after p q row st s' r := by
  have hstep : ∀ (c : Cursor) (x : State), c.row = row → x.mode ≠ .parameterText →
      step sy opts c x = add sy c x := by
    intro c x hc hm
    rw [step_eq_dispatch hm]
    rcases hop with hop | hop <;> simp only [dispatch, hc, hop]
  rw [hstep _ _ rfl h.self_mode_ne] at hs'
  have hr := hstep ⟨p ++ before, row, q ++ after⟩ r rfl (h.mode_ne hp)
  by_cases hev : Row.does .pushEvent p[1]?
  · have h₁ : 1 < p.length := by
      by_contra hnot
      rw [List.getElem?_eq_none (by omega)] at hev
      simp [Row.does] at hev
    have hev' : Row.does .pushEvent (p ++ before)[1]? := by
      rwa [List.getElem?_append_left h₁]
    unfold add at hs' hr
    rw [if_pos (show Row.does .pushEvent (Cursor.back2? ⟨p, row, q⟩) from hev)] at hs'
    rw [if_pos (show Row.does .pushEvent (Cursor.back2? ⟨p ++ before, row, q ++ after⟩) from hev')] at hr
    obtain rfl := Except.ok.inj hs'
    exact .idle h hlen hr
  · obtain ⟨x, y, e, rest, ho, hs', hreal⟩ :=
      add_bare h.blocks (c := ⟨p, row, q⟩) (Bool.eq_false_iff.mpr hev) hs'
    have hor : r.operands = y :: x :: (rest ++ st.operands) := by rw [h.operands, ho]; rfl
    have hlen' : rest.length + 2 ≤ p.length := by rw [ho] at hlen; exact hlen
    have hev' : Row.does .pushEvent (p ++ before)[1]? = false := by
      rw [List.getElem?_append_left (by omega)]
      exact Bool.eq_false_iff.mpr hev
    refine .of_operands h hs' ?_ (by simp only [List.length_cons]; omega)
    rw [hr, hreal ⟨p ++ before, row, q ++ after⟩ r st.operands hev' h.kind_eq hor]
    rfl

/-- A call leaves its function applied to as many arguments as the function has. -/
theorem call_arity {c : Cursor} (h : call sy c s = .ok s') {n : Nat} (hn : arity? sy c.row = some n) :
    ∃ f type owner args note rest, s'.operands = .call f type owner args note :: rest ∧
      args.length = n := by
  unfold call at h
  cases hi : c.row.int 0 with
  | error e => simp [hi, malformed] at h
  | ok v =>
    simp only [hi] at h
    cases hf : sy.function? v with
    | none => simp [hf, unresolved] at h
    | some f =>
      simp only [hf] at h
      obtain rfl : f.arguments.length = n := by simpa [arity?, hi, hf, Except.toOption] using hn
      cases ht : takeArguments sy f.arguments.reverse s.operands [] [] with
      | none => simp [ht, shortage] at h
      | some v₁ =>
        obtain ⟨args, notes, left⟩ := v₁
        obtain ⟨hargs, -⟩ := length_takeArguments _ _ _ _ ht
        simp only [ht] at h
        cases hpop : State.pop1 { s with operands := left } with
        | error e => simp [hpop, bind, Except.bind] at h
        | ok v₂ =>
          simp only [hpop, bind, Except.bind, pure, Except.pure, Except.ok.injEq] at h
          exact ⟨_, _, _, _, _, _, by rw [← h]; rfl, by simpa using hargs⟩

theorem step_call_eq {c : Cursor} (hm : s.mode ≠ .parameterText) (hop : c.row.opcode = .call) :
    step sy opts c s = call sy c s := by
  rw [step_eq_dispatch hm]
  simp only [dispatch, hop]

theorem follows_call (h : Frames st s r) (hp : Placed before after st)
    (hlen : s.operands.length ≤ p.length) (hop : row.opcode = .call)
    (hs' : step sy opts ⟨p, row, q⟩ s = .ok s') : Follows sy opts before after p q row st s' r := by
  rw [step_call_eq h.self_mode_ne hop] at hs'
  have hr : step sy opts ⟨p ++ before, row, q ++ after⟩ r =
      call sy ⟨p ++ before, row, q ++ after⟩ r := step_call_eq (h.mode_ne hp) hop
  simp only [call] at hs'
  simp only [call, h.operands] at hr
  cases hi : row.int 0 with
  | error e => simp [hi, malformed] at hs'
  | ok v =>
    simp only [hi] at hs' hr
    cases hf : sy.function? v with
    | none => simp [hf, unresolved] at hs'
    | some f =>
      simp only [hf] at hs' hr
      cases ht : takeArguments sy f.arguments.reverse s.operands [] [] with
      | none => simp [ht, shortage] at hs'
      | some v₁ =>
        obtain ⟨args, notes, left⟩ := v₁
        rw [takeArguments_frame _ _ _ _ _ ht] at hr
        simp only [ht] at hs'
        obtain ⟨-, hops⟩ := length_takeArguments _ _ _ _ ht
        cases hpop : State.pop1 { s with operands := left } with
        | error e => simp [hpop, bind, Except.bind] at hs'
        | ok v₂ =>
          obtain ⟨owner, s₂⟩ := v₂
          obtain ⟨rest, ho, rfl⟩ := pop_bare (s := { s with operands := left }) h.blocks hpop
          have ho : left = owner :: rest := ho
          subst ho
          simp only [hpop, bind, Except.bind, pure, Except.pure, Except.ok.injEq] at hs'
          refine .of_operands h hs'.symm ?_ ?_
          · rw [hr]
            rfl
          · simp only [List.length_cons] at hops ⊢
            omega

/-- The mark of a step looks no further back than the code. -/
theorem stepMark?_append {before : List Row} (hb : before.head?.any Row.isIntFetch = false)
    (w : Nat) {p : List Row} (hp : 2 ≤ p.length) : stepMark? w (p ++ before) = stepMark? w p := by
  obtain ⟨op, one, rest, rfl⟩ : ∃ op one rest, p = op :: one :: rest := by
    match p, hp with
    | op :: one :: rest, _ => exact ⟨op, one, rest, rfl⟩
  have hfetched : (decide (((rest ++ before).take w).length = w) &&
      ((rest ++ before).take w).all Row.isIntFetch) =
      (decide ((rest.take w).length = w) && (rest.take w).all Row.isIntFetch) := by
    by_cases hw : w ≤ rest.length
    · rw [List.take_append_of_le_length hw]
    · have hshort : (rest.take w).length ≠ w := by rw [List.length_take]; omega
      rw [decide_eq_false hshort, Bool.false_and]
      cases before with
      | nil => rw [List.append_nil, decide_eq_false hshort, Bool.false_and]
      | cons b bs =>
        have hmem : b ∈ (rest ++ b :: bs).take w := by
          rw [List.take_append, List.mem_append]
          right
          obtain ⟨k, hk⟩ : ∃ k, w - rest.length = k + 1 := ⟨w - rest.length - 1, by omega⟩
          rw [hk, List.take_succ_cons]
          exact List.mem_cons_self
        have hall : ((rest ++ b :: bs).take w).all Row.isIntFetch = false := by
          rw [List.all_eq_false]
          exact ⟨b, hmem, by simpa using hb⟩
        rw [hall, Bool.and_false]
  simp only [List.cons_append, stepMark?, Bool.and_assoc, hfetched]

theorem assign_bare (hb : s.blocks = []) (hst : s.statements = []) {w : Nat} {c : Cursor}
    (h : assign sy w c s = .ok s') : ∃ x y u rest, s.operands = y :: x :: rest ∧
      s' = { s with operands := u :: rest } ∧
      ∀ (c' : Cursor) (r : State) (ops : List Expr), stepMark? w c'.before = stepMark? w c.before →
        r.operands = y :: x :: (rest ++ ops) →
        assign sy w c' r = if r.topIs Open.isPendingFor then
            makeFor { r with operands := u :: (rest ++ ops) }
          else .ok { r with operands := u :: (rest ++ ops) } := by
  unfold assign at h
  cases h₁ : s.pop2 with
  | error e => simp [h₁, bind, Except.bind] at h
  | ok v =>
    obtain ⟨x, y, s₁⟩ := v
    obtain ⟨rest, ho, rfl⟩ := pop2_bare hb h₁
    simp only [h₁, bind, Except.bind] at h
    cases hmark : stepMark? w c.before with
    | some op =>
      simp only [hmark] at h
      rw [if_neg (by simp [State.topIs, State.push, hst])] at h
      refine ⟨x, y, _, rest, ho, (Except.ok.inj h).symm, fun c' r ops hc' hor => ?_⟩
      simp only [assign, pop2_of_operands hor, bind, Except.bind, hc']
      rfl
    | none =>
      simp only [hmark] at h
      cases x with
      | var name type owner =>
        simp only [assignTo] at h
        rw [if_neg (by simp [State.topIs, State.push, hst])] at h
        refine ⟨_, y, _, rest, ho, (Except.ok.inj h).symm, fun c' r ops hc' hor => ?_⟩
        simp only [assign, pop2_of_operands hor, bind, Except.bind, hc', assignTo]
        rfl
      | _ => simp [assignTo, malformed] at h

/-- An assignment in place, up to the for loop that it may complete. -/
theorem follows_assign (h : Frames st s r) (hp : Placed before after st)
    (hlen : s.operands.length ≤ p.length) (hop : row.opcode = .assign)
    (hs' : step sy opts ⟨p, row, q⟩ s = .ok s') :
    ∃ r', Frames st s' r' ∧ s'.operands.length ≤ p.length + 1 ∧
      step sy opts ⟨p ++ before, row, q ++ after⟩ r =
        if st.topIs Open.isPendingFor then makeFor r' else .ok r' := by
  rw [step_eq_dispatch h.self_mode_ne] at hs'
  simp only [dispatch, hop] at hs'
  obtain ⟨x, y, u, rest, ho, rfl, hreal⟩ := assign_bare h.blocks h.statements hs'
  have hor : r.operands = y :: x :: (rest ++ st.operands) := by rw [h.operands, ho]; rfl
  have hlen' : rest.length + 2 ≤ p.length := by rw [ho] at hlen; exact hlen
  refine ⟨_, h.with_operands (u :: rest), ?_, ?_⟩
  · simp only [List.length_cons]
    omega
  · have htop : r.topIs Open.isPendingFor = st.topIs Open.isPendingFor := by
      rw [State.topIs, h.statements_eq, State.topIs]
    rw [step_eq_dispatch (h.mode_ne hp)]
    simp only [dispatch, hop]
    rw [hreal ⟨p ++ before, row, q ++ after⟩ r st.operands
      (stepMark?_append hp.before.fetch opts.window (by omega)) hor, htop]
    rfl

theorem follows_value (h : Frames st s r) (hp : Placed before after st)
    (hlen : s.operands.length ≤ p.length) (hop : isValueOp row.opcode)
    (hs' : step sy opts ⟨p, row, q⟩ s = .ok s') : Follows sy opts before after p q row st s' r := by
  have hdispatch := hs'
  rw [step_eq_dispatch h.self_mode_ne] at hdispatch
  have hr : step sy opts ⟨p ++ before, row, q ++ after⟩ r =
      dispatch sy opts ⟨p ++ before, row, q ++ after⟩ r := step_eq_dispatch (h.mode_ne hp)
  cases hcode : row.opcode with
  | pushConst => exact follows_pushConst h hp hlen hcode hs'
  | pushString => exact follows_pushString h hp hlen hcode hs'
  | pushParameter => exact follows_pushParameter h hp hlen hcode hs'
  | pushProperty => exact follows_pushProperty h hp hlen hcode hs'
  | fetch => exact follows_fetch h hp hlen hcode hs'
  | add => exact follows_add h hp hlen (.inl hcode) hs'
  | addString => exact follows_add h hp hlen (.inr hcode) hs'
  | pushEvent =>
    simp only [dispatch, hcode, declarationRow, h.mode] at hdispatch
    simp only [dispatch, hcode, declarationRow, h.mode_eq, hp.mode] at hr
    obtain rfl := Except.ok.inj hdispatch
    exact .idle h hlen hr
  | equal =>
    have htop : r.topIs Open.isPendingCase = false := by
      rw [State.topIs, h.statements_eq]
      exact hp.top
    simp only [dispatch, hcode, State.topIs, h.statements] at hdispatch
    simp only [dispatch, hcode, htop] at hr
    exact .binary h hlen hdispatch hr
  | binary op =>
    simp only [dispatch, hcode] at hdispatch hr
    exact .binary h hlen hdispatch hr
  | complement =>
    simp only [dispatch, hcode] at hdispatch hr
    exact .unary h hlen hdispatch hr
  | negate =>
    simp only [dispatch, hcode] at hdispatch hr
    exact .unary h hlen hdispatch hr
  | _ => simp [hcode, isValueOp] at hop

/-! ## Code in place -/

/-- Code that is taken as on its own: none of its rows completes a for loop. -/
def Free (st : State) (rows : List Row) : Prop :=
  st.topIs Open.isPendingFor = false ∨ rows.all (·.opcode != .assign)

theorem Free.tail {row : Row} {rows : List Row} (h : Free st (row :: rows)) : Free st rows := by
  rcases h with h | h
  · exact .inl h
  · rw [List.all_cons, Bool.and_eq_true] at h
    exact .inr h.2

theorem follows_row (h : Frames st s r) (hp : Placed before after st)
    (hlen : s.operands.length ≤ p.length) {rows : List Row} (hfree : Free st (row :: rows))
    (hop : isValueOp row.opcode || row.opcode == .assign) (hs' : step sy opts ⟨p, row, q⟩ s = .ok s') :
    Follows sy opts before after p q row st s' r := by
  rw [Bool.or_eq_true, beq_iff_eq] at hop
  rcases hop with hop | hop
  · exact follows_value h hp hlen hop hs'
  · have htop : st.topIs Open.isPendingFor = false := by
      rcases hfree with hfree | hfree
      · exact hfree
      · simp [hop] at hfree
    obtain ⟨r', hf, hl, hr⟩ := follows_assign h hp hlen hop hs'
    rw [htop] at hr
    exact ⟨r', hr, hf, hl⟩

theorem advances_cons_inv {before rows after : List Row} {row : Row}
    (h : Advances sy opts before (row :: rows) after s s') : ∃ s₁,
      step sy opts ⟨before, row, rows ++ after⟩ s = .ok s₁ ∧
        Advances sy opts (row :: before) rows after s₁ s' := by
  rw [Advances, advance] at h
  cases hs : step sy opts ⟨before, row, rows ++ after⟩ s with
  | error e => simp [hs] at h
  | ok s₁ => exact ⟨s₁, rfl, by rw [hs] at h; exact h⟩

theorem advances_snoc_inv {before rows after : List Row} {row : Row}
    (h : Advances sy opts before (rows ++ [row]) after s s') : ∃ s₁,
      Advances sy opts before rows (row :: after) s s₁ ∧
        step sy opts ⟨rows.reverse ++ before, row, after⟩ s₁ = .ok s' := by
  rw [Advances, advance_append] at h
  cases hs : advance sy opts before rows ([row] ++ after) s with
  | error e =>
    rw [hs] at h
    simp [Except.bind] at h
  | ok s₁ =>
    rw [hs] at h
    have h : Advances sy opts (rows.reverse ++ before) [row] after s₁ s' := h
    obtain ⟨s₂, hs₂, h⟩ := advances_cons_inv h
    obtain rfl : s₂ = s' := Except.ok.inj h
    exact ⟨s₁, hs, hs₂⟩

/-- Code in place reaches a state beside `s'`. -/
def Reaches (sy : Symbols) (opts : Options) (before after p rows q : List Row) (st s' r : State) :
    Prop :=
  ∃ r', Advances sy opts (p ++ before) rows (q ++ after) r r' ∧ Frames st s' r' ∧
    s'.operands.length ≤ (rows.reverse ++ p).length

theorem Follows.cons {rows : List Row} {s₁ : State}
    (h : Follows sy opts before after p (rows ++ q) row st s₁ r)
    (h' : ∀ r₁, Frames st s₁ r₁ → s₁.operands.length ≤ (row :: p).length →
      Reaches sy opts before after (row :: p) rows q st s' r₁) :
    Reaches sy opts before after p (row :: rows) q st s' r := by
  obtain ⟨r₁, hr₁, hf, hl⟩ := h
  obtain ⟨r', hr', hf', hl'⟩ := h' r₁ hf hl
  rw [List.append_assoc] at hr₁
  exact ⟨r', .cons hr₁ hr', hf', by simpa using hl'⟩

/-- **Code in place runs beside the code on its own.** -/
theorem advances_frames (hp : Placed before after st) {rows : List Row} (hpost : isPostfix sy rows)
    {p : List Row} {s r : State} (h : Frames st s r) (hlen : s.operands.length ≤ p.length)
    (hfree : Free st rows) (hs : Advances sy opts p rows q s s') :
    Reaches sy opts before after p rows q st s' r := by
  fun_induction isPostfix sy rows generalizing p s r with
  | case1 =>
    obtain rfl : s = s' := Except.ok.inj hs
    exact ⟨r, .nil, h, hlen⟩
  | case2 row =>
    obtain ⟨s₁, hs₁, hs⟩ := advances_cons_inv hs
    obtain rfl : s₁ = s' := Except.ok.inj hs
    have hf : Follows sy opts before after p ([] ++ q) row st s₁ r := by
      rw [Bool.or_eq_true] at hpost
      rcases hpost with hpost | hpost
      · exact follows_row h hp hlen hfree hpost hs₁
      · rw [Bool.and_eq_true, beq_iff_eq] at hpost
        exact follows_call h hp hlen hpost.1 hs₁
    exact hf.cons fun r₁ hr₁ hl₁ => ⟨r₁, .nil, hr₁, hl₁⟩
  | case3 row row' rest hcall hnone ih =>
    obtain ⟨s₁, hs₁, hs⟩ := advances_cons_inv hs
    refine (follows_call h hp hlen (beq_iff_eq.mp hcall) hs₁).cons fun r₁ hr₁ hl₁ => ?_
    exact ih hpost hr₁ hl₁ hfree.tail hs
  | case4 row row' rest hcall n harity ih =>
    rw [Bool.and_eq_true, beq_iff_eq] at hpost
    obtain ⟨s₁, hs₁, hs⟩ := advances_cons_inv hs
    obtain ⟨s₂, hs₂, hs⟩ := advances_cons_inv hs
    have hf₁ := follows_call h hp hlen (beq_iff_eq.mp hcall) hs₁
    obtain ⟨f, type, owner, args, note, left, ho, hlenargs⟩ :=
      call_arity ((step_call_eq h.self_mode_ne (beq_iff_eq.mp hcall)).symm.trans hs₁) harity
    have hshift : row'.opcode = .shift := by
      rw [Row.opcode_of_key hpost.1]
      decide
    have hbare : isBareCall (.call f type owner args note) = false := by
      simp only [isBareCall, List.isEmpty_eq_false_iff, ← List.length_pos_iff]
      omega
    have hdoes : Row.does .call (some row) := by
      rw [Row.does]
      exact hcall
    refine hf₁.cons fun r₁ hr₁ hl₁ => ?_
    have hself : step sy opts ⟨row :: p, row', rest ++ q⟩ s₁ = .ok s₁ :=
      step_shift_of_call hr₁.self_mode_ne hshift hdoes ho hbare
    rw [hself] at hs₂
    obtain rfl := Except.ok.inj hs₂
    have hor : r₁.operands = .call f type owner args note :: (left ++ st.operands) := by
      rw [hr₁.operands, ho]
      rfl
    have hidle : Follows sy opts before after (row :: p) (rest ++ q) row' st s₁ r₁ :=
      .idle hr₁ hl₁ (step_shift_of_call (hr₁.mode_ne hp) hshift hdoes hor hbare)
    exact hidle.cons fun r₂ hr₂ hl₂ => ih hpost.2 hr₂ hl₂ hfree.tail.tail hs
  | case5 => simp at hpost
  | case6 row row' rest hcall ih =>
    rw [Bool.and_eq_true] at hpost
    obtain ⟨s₁, hs₁, hs⟩ := advances_cons_inv hs
    refine (follows_row h hp hlen hfree hpost.1 hs₁).cons fun r₁ hr₁ hl₁ => ?_
    exact ih hpost.2 hr₁ hl₁ hfree.tail hs

/-- A state with more operands, and otherwise as before; ids stand for the same. -/
structure Grown (es : List Expr) (st st' : State) : Prop where
  rest : st' = { st with operands := es ++ st.operands, types := st'.types }
  scope : st'.scope = st.scope

theorem Frames.grown (h : Frames st s r) : Grown s.operands st r := ⟨h.rest, h.same⟩

theorem frames_bare {ctx : State} (hscope : st.scope = ctx.scope) : Frames st ctx.bare st :=
  ⟨rfl, hscope, rfl, rfl, rfl, rfl⟩

theorem exists_of_leaves? {ctx : State} {rows : List Row} {es : List Expr}
    (hv : leaves? sy opts ctx rows = some es) :
    ∃ s', Advances sy opts [] rows [] ctx.bare s' ∧ s'.operands = es := by
  unfold leaves? at hv
  obtain ⟨s', hs', rfl⟩ := Option.map_eq_some_iff.mp hv
  refine ⟨s', ?_, rfl⟩
  cases h : advance sy opts [] rows [] ctx.bare with
  | error e => simp [h, Except.toOption] at hs'
  | ok s₁ =>
    obtain rfl : s₁ = s' := by simpa [h, Except.toOption] using hs'
    exact h

theorem leaves?_of_value? {ctx : State} {rows : List Row} {e : Expr}
    (hv : value? sy opts ctx rows = some e) : leaves? sy opts ctx rows = some [e] := by
  unfold value? at hv
  split at hv
  · rename_i e' heq
    obtain rfl := Option.some.inj hv
    exact heq
  · simp at hv

/-- **What code leaves, in place**: the value it leaves on an empty stack, and nothing else changes. -/
theorem advances_postfix {ctx : State} {rows : List Row} {e : Expr} (hp : Placed before after st)
    (hpost : isPostfix sy rows) (hfree : Free st rows) (hscope : st.scope = ctx.scope)
    (hv : value? sy opts ctx rows = some e) :
    ∃ st', Advances sy opts before rows after st st' ∧ Grown [e] st st' := by
  obtain ⟨s', hs', ho⟩ := exists_of_leaves? (leaves?_of_value? hv)
  obtain ⟨st', hst', hf, -⟩ : Reaches sy opts before after [] rows [] st s' st :=
    advances_frames hp hpost (frames_bare hscope) (Nat.le_refl 0) hfree hs'
  exact ⟨st', hst', ho ▸ hf.grown⟩

/-- Code that ends in a call is code before it, and the function called has no arguments. -/
theorem isPostfix_concat_call {r : Row} (hop : r.opcode = .call) : ∀ {rows : List Row},
    isPostfix sy (rows ++ [r]) → isPostfix sy rows ∧ arity? sy r = some 0
  | [], h => ⟨rfl, by simpa [isPostfix, hop, isValueOp] using h⟩
  | [x], h => by
    have hr : isPostfix sy [r] → arity? sy r = some 0 := fun h => by
      simpa [isPostfix, hop, isValueOp] using h
    rw [List.singleton_append, isPostfix] at h
    split_ifs at h with hx
    · split at h
      · rename_i harity
        exact ⟨by simp [isPostfix, hx, harity], hr h⟩
      · rw [Bool.and_eq_true, beq_iff_eq] at h
        have hshift : r.opcode = .shift := by
          rw [Row.opcode_of_key h.1]
          decide
        simp [hop] at hshift
      · simp at h
    · rw [Bool.and_eq_true] at h
      exact ⟨by simpa [isPostfix, hx] using h.1, hr h.2⟩
  | x :: y :: rest, h => by
    rw [List.cons_append, List.cons_append, isPostfix] at h
    rw [isPostfix]
    split_ifs at h ⊢ with hx
    · split at h
      · have h : isPostfix sy ((y :: rest) ++ [r]) := h
        exact isPostfix_concat_call hop h
      · rw [Bool.and_eq_true] at h ⊢
        obtain ⟨hrest, harity⟩ := isPostfix_concat_call hop h.2
        exact ⟨⟨h.1, hrest⟩, harity⟩
      · simp at h
    · rw [Bool.and_eq_true] at h ⊢
      have htail : isPostfix sy ((y :: rest) ++ [r]) := h.2
      obtain ⟨hrest, harity⟩ := isPostfix_concat_call hop htail
      exact ⟨⟨h.1, hrest⟩, harity⟩

/-- The value of code that ends in a call is a call without arguments. -/
theorem isBareCall_of_value? {ctx : State} {rows : List Row} {e : Expr} (hpost : isPostfix sy rows)
    (hv : value? sy opts ctx rows = some e) (hlast : Row.does .call rows.getLast?) : isBareCall e := by
  rcases List.eq_nil_or_concat rows with rfl | ⟨init, r, rfl⟩
  · simp [Row.does] at hlast
  · rw [List.concat_eq_append] at hpost hv hlast
    have hop : r.opcode = .call := by simpa [Row.does] using hlast
    obtain ⟨hinit, harity⟩ := isPostfix_concat_call hop hpost
    obtain ⟨s', hs', ho⟩ := exists_of_leaves? (leaves?_of_value? hv)
    obtain ⟨s₁, hs₁, hstep⟩ := advances_snoc_inv hs'
    have hp : Placed [] [] ctx.bare := ⟨⟨rfl, rfl⟩, rfl, rfl, rfl⟩
    obtain ⟨_, -, hf, -⟩ : Reaches sy opts [] [] [] init [r] ctx.bare s₁ ctx.bare :=
      advances_frames hp hinit (frames_bare rfl) (Nat.le_refl 0) (.inl rfl) hs₁
    rw [step_call_eq hf.self_mode_ne hop] at hstep
    obtain ⟨f, type, owner, args, note, rest, ho', hargs⟩ := call_arity hstep harity
    rw [ho] at ho'
    obtain ⟨rfl, -⟩ := List.cons.inj ho'
    simpa [isBareCall] using hargs

/-- The code of an update, whose last row completes the for loop. -/
theorem advances_update {ctx : State} {rows : List Row} {e : Expr} {a : Row}
    (hp : Placed before after st) (hpost : isPostfix sy rows)
    (hnone : rows.all (·.opcode != .assign)) (ha : a.opcode = .assign)
    (hfor : st.topIs Open.isPendingFor) (hscope : st.scope = ctx.scope)
    (hv : value? sy opts ctx (rows ++ [a]) = some e) :
    ∃ st₁ st', Advances sy opts before rows (a :: after) st st₁ ∧ Grown [e] st st' ∧
      step sy opts ⟨rows.reverse ++ before, a, after⟩ st₁ = makeFor st' := by
  obtain ⟨s', hs', ho⟩ := exists_of_leaves? (leaves?_of_value? hv)
  obtain ⟨s₁, hs₁, hs₂⟩ := advances_snoc_inv hs'
  obtain ⟨st₁, hst₁, hf₁, hl₁⟩ : Reaches sy opts before after [] rows [a] st s₁ st :=
    advances_frames hp hpost (frames_bare hscope) (Nat.le_refl 0) (.inr hnone) hs₁
  rw [List.append_nil] at hl₁ hs₂
  obtain ⟨st', hf', -, hstep⟩ := follows_assign (q := []) hf₁ hp hl₁ ha hs₂
  rw [hfor] at hstep
  exact ⟨st₁, st', hst₁, ho ▸ hf'.grown, hstep⟩

end ScriptLift.Lift
