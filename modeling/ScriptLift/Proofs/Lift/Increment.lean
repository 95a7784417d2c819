import ScriptLift.Dialect.Expr
import ScriptLift.Proofs.Lift.Flow
import ScriptLift.Proofs.Lift.TermRun

/-!
# Variables stepped by one

Rows that fetch a variable twice, add 1 to it or subtract 1, and assign it make one expression of
the variable. Which one is read off the rows before the assignment, not off the values it takes;
those are the variable and the variable one further in any case.

* `Stride`: the two ways to step.
* `StrideRows`: the rows that step the variable on top.
* `advances_stepped`: the values that the assignment takes.
* `stepMark?_stride`: when the rows before the assignment read as a step.
* `expr_stride`: both expressions have one text.
* **`advances_stride`**: the expression that replaces the variable.
-/

namespace ScriptLift.Lift

/-! ## Strides -/

/-- A way to step a variable by one. -/
inductive Stride where
  | up
  | down
  deriving DecidableEq

namespace Stride

/-- The operation between the variable and 1. -/
def op : Stride → BinaryOp
  | up => .add
  | down => .sub

/-- The operator before the variable. -/
def mark : Stride → UnaryOp
  | up => .increment
  | down => .decrement

/-- What the row of the operation does. -/
def opcode : Stride → Opcode
  | up => .add
  | down => .binary .sub

end Stride

/-- Whether a row fetches an integer. -/
def FetchesInt (r : Row) : Prop := r.name = "fetch_i" ∨ r.name = "fetch_i4"

/-- Rows that step the variable on top: two fetches, the literal 1, the operation and the
assignment. -/
structure StrideRows (s : Stride) (r₁ r₂ one sum store : Row) : Prop where
  first : FetchesInt r₁
  second : FetchesInt r₂
  pushes : one.opcode = .pushConst
  literal : one.int 0 = .ok 1
  combines : sum.opcode = s.opcode
  assigns : store.opcode = .assign

/-- Whether each of the `window` nearest rows fetches an integer. -/
def FetchedThroughout (window : Nat) (before : List Row) : Prop :=
  window ≤ before.length ∧ ∀ r ∈ before.take window, r.isIntFetch

instance (window : Nat) (before : List Row) : Decidable (FetchedThroughout window before) :=
  inferInstanceAs (Decidable (_ ∧ _))

theorem FetchesInt.opcode {r : Row} (h : FetchesInt r) : r.opcode = .fetch := by
  unfold Row.opcode
  rcases h with h | h <;> rw [h] <;> decide

theorem FetchesInt.isFetch {r : Row} (h : FetchesInt r) : r.isFetch := by
  unfold Row.isFetch
  rcases h with h | h <;> rw [h] <;> decide

theorem isFetch_of_pushConst {r : Row} (h : r.opcode = .pushConst) : r.isFetch = false := by
  refine Bool.eq_false_iff.mpr fun hf => ?_
  rcases opcode_of_isFetch hf with hr | hr <;> rw [h] at hr <;> cases hr

/-! ## The rows of a stride -/

section

variable {sy : Symbols} {opts : Options} {s : Stride} {r₁ r₂ one sum store : Row}
  {before after : List Row} {st : State} {rest : List Expr} {x : Expr}

/-- A fetch before another one doubles the value on top. -/
theorem step_fetch_fetch (hm : st.mode ≠ .parameterText) (h₁ : FetchesInt r₁) (h₂ : FetchesInt r₂)
    (ho : st.operands = x :: rest) :
    step sy opts ⟨before, r₁, r₂ :: after⟩ st = .ok { st with operands := x :: x :: rest } := by
  rw [step_eq_dispatch hm]
  simp only [dispatch, h₁.opcode, fetch, Cursor.next?, List.head?_cons, Option.any_some, h₂.isFetch,
    if_true, ho, State.push]

theorem step_fetch_last (hm : st.mode ≠ .parameterText) (h₁ : FetchesInt r₁)
    (hone : one.opcode = .pushConst) : step sy opts ⟨before, r₁, one :: after⟩ st = .ok st := by
  rw [step_eq_dispatch hm]
  simp only [dispatch, h₁.opcode, fetch, Cursor.next?, List.head?_cons, Option.any_some,
    isFetch_of_pushConst hone, Bool.false_eq_true, if_false]

theorem readInt_of_int {r : Row} {v : Int64} (h : r.int 0 = .ok v) :
    Numeral.readInt (r.operand 0) = .ok v := by
  unfold Row.int at h
  split at h
  · cases h
  · rename_i a ha
    have ha : r.operand 0 = a := by
      have : r.operands[0]? = some a := by simpa [Row.operand?] using ha
      rw [Row.operand, this]
      rfl
    rw [ha]
    split at h
    · rename_i w hw
      rw [hw]
      exact congrArg _ (Except.ok.inj h)
    · cases h

/-- The literal 1 behind a fetch is no address of an event variable. -/
theorem step_one (hm : st.mode ≠ .parameterText) (h₂ : FetchesInt r₂) (hone : one.opcode = .pushConst)
    (h : one.int 0 = .ok 1) :
    step sy opts ⟨r₂ :: before, one, after⟩ st = .ok (st.push (.int 1)) := by
  have hprev : Row.does .pushEvent (some r₂) = false := by simp [Row.does, h₂.opcode]
  have hdot : Text.hasInfix "." (one.operand 0) = false :=
    Numeral.hasInfix_dot_of_readInt (readInt_of_int h)
  rw [step_eq_dispatch hm]
  simp only [dispatch, hone, pushConst, Cursor.prev?, List.head?_cons, hprev, hdot, h,
    Bool.false_eq_true, if_false]

/-- An operation between a value of a primitive type and the literal 1. -/
theorem step_sum (hm : st.mode ≠ .parameterText) (h₂ : FetchesInt r₂) (hsum : sum.opcode = s.opcode)
    (ho : st.operands = .int 1 :: x :: rest) (hp : sy.isPrimitive x.type) :
    step sy opts ⟨one :: r₂ :: before, sum, after⟩ st =
      .ok { st with operands := combine sy s.op x (.int 1) :: rest } := by
  have hback : Row.does .pushEvent (some r₂) = false := by simp [Row.does, h₂.opcode]
  rw [step_eq_dispatch hm]
  cases s with
  | up =>
    simp only [dispatch, hsum, Stride.opcode, add, Cursor.back2?, List.getElem?_cons_succ,
      List.getElem?_cons_zero, hback, Bool.false_eq_true, if_false, pop2_of_operands ho, bind,
      Except.bind, hp, if_true]
    rfl
  | down =>
    simp only [dispatch, hsum, Stride.opcode, binary, pop2_of_operands ho, bind, Except.bind]
    rfl

variable {n type : String} {owner : Expr}

/-- The value assigned is the variable one further, whatever rows stand before. -/
theorem advances_stepped (hm : st.mode ≠ .parameterText) (h : StrideRows s r₁ r₂ one sum store)
    (ho : st.operands = .var n type owner :: rest) (hp : sy.isPrimitive type) :
    Advances sy opts before [r₁, r₂, one, sum] after st
      { st with
        operands := .binary s.op (.var n type owner) (resolve sy 1 [type, "SKILL"]) ::
          .var n type owner :: rest } := by
  refine .cons (step_fetch_fetch hm h.first h.second ho) (.cons (step_fetch_last ?_ h.second h.pushes)
    (.cons (step_one ?_ h.second h.pushes h.literal) (.one ?_)))
  · exact hm
  · exact hm
  · exact step_sum (x := .var n type owner) hm h.second h.combines rfl hp

theorem stepMark?_stride (h : StrideRows s r₁ r₂ one sum store) (window : Nat) (before : List Row) :
    stepMark? window (sum :: one :: before) =
      if FetchedThroughout window before then some s.mark else none := by
  have hone : (one.opcode == .pushConst && (one.int 0).toOption == some 1) = true := by
    simp [h.pushes, h.literal, Except.toOption]
  have hfetched : ((before.take window).length = window ∧ (before.take window).all Row.isIntFetch) ↔
      FetchedThroughout window before := by
    rw [FetchedThroughout, List.length_take, List.all_eq_true, min_eq_left_iff]
  simp only [stepMark?, hone, Bool.true_and, Bool.and_eq_true, decide_eq_true_eq, hfetched]
  cases s <;> simp only [h.combines, Stride.opcode] <;> rfl

theorem step_store (hm : st.mode ≠ .parameterText) (h : StrideRows s r₁ r₂ one sum store)
    (hf : st.topIs Open.isPendingFor = false) {op : BinaryOp} {v : Expr}
    (ho : st.operands = .binary op x v :: .var n type owner :: rest) :
    step sy opts ⟨sum :: one :: before, store, after⟩ st =
      .ok { st with operands :=
        (if FetchedThroughout opts.window before then .unary s.mark (.var n type owner)
          else .assign n type owner (.binary op x v)) :: rest } := by
  have htop (es : List Expr) : State.topIs { st with operands := es } Open.isPendingFor = false := hf
  rw [step_eq_dispatch hm]
  simp only [dispatch, h.assigns, assign, pop2_of_operands ho, bind, Except.bind, stepMark?_stride h]
  by_cases hw : FetchedThroughout opts.window before
  · simp only [hw, if_true, State.push, htop, Bool.false_eq_true, if_false, pure, Except.pure]
  · simp only [hw, if_false, assignTo, resolveLiteral, State.push, htop, Bool.false_eq_true, pure,
      Except.pure]

end

/-! ## Texts -/

/-- Both expressions have one text. -/
theorem expr_stride (d : Dialect) (s : Stride) (place : Place) (n type : String) (owner : Expr) :
    d.expr place (.unary s.mark (.var n type owner)) =
      d.expr place (.assign n type owner (.binary s.op (.var n type owner) (.int 1))) := by
  cases s <;> simp [Dialect.expr, Dialect.stepMark?, Stride.mark, Stride.op, UnaryOp.symbol,
    wrapsOperand, parenthesized, Expr.isOne]

/-! ## Main theorem -/

/-- **Rows that step a variable replace it by one expression**: the variable behind the operator if
all rows that the window asks for fetch an integer, else the assignment of the value taken. That
value is the variable one further, and where 1 stands for no constant both have the same text. -/
theorem advances_stride (sy : Symbols) (opts : Options) (s : Stride) {r₁ r₂ one sum store : Row}
    (h : StrideRows s r₁ r₂ one sum store) (before after : List Row) {st : State} {n type : String}
    {owner : Expr} {rest : List Expr} (hm : st.mode ≠ .parameterText)
    (hf : st.topIs Open.isPendingFor = false) (ho : st.operands = .var n type owner :: rest)
    (hp : sy.isPrimitive type) :
    Advances sy opts before [r₁, r₂, one, sum] (store :: after) st
      { st with
        operands := .binary s.op (.var n type owner) (resolve sy 1 [type, "SKILL"]) ::
          .var n type owner :: rest } ∧
    Advances sy opts before [r₁, r₂, one, sum, store] after st
      { st with
        operands := (if FetchedThroughout opts.window (r₂ :: r₁ :: before) then
            .unary s.mark (.var n type owner)
          else .assign n type owner
            (.binary s.op (.var n type owner) (resolve sy 1 [type, "SKILL"]))) :: rest } ∧
    (resolve sy 1 [type, "SKILL"] = .int 1 → ∀ d place,
      Dialect.expr d place (.unary s.mark (.var n type owner)) =
        d.expr place (.assign n type owner
          (.binary s.op (.var n type owner) (resolve sy 1 [type, "SKILL"])))) := by
  have hvalue : Advances sy opts before [r₁, r₂, one, sum] (store :: after) st _ :=
    advances_stepped hm h ho hp
  refine ⟨hvalue, hvalue.snoc ?_, fun hr d place => ?_⟩
  · refine step_store ?_ h ?_ rfl
    · exact hm
    · exact hf
  · rw [hr]
    exact expr_stride d s place n type owner

/-- The level of the talker on the stack, in a class with a handler. -/
def levelState : State :=
  { State.initial with
    decl := some (newClass 1 "c" "")
    handlers := [⟨"TALKED", [], []⟩]
    statements := [.handler 0]
    blocks := [⟨0, []⟩]
    operands := [.var "level" "int" (.var "talker" "creature" .hole), .str "hi"] }

/-- Two fetches fill a window of two and not one of three. -/
theorem advances_stride_level :
    StrideRows .down ⟨"fetch_i", [], "", "", 1⟩ ⟨"fetch_i4", [], "", "", 2⟩
      ⟨"push_const", ["0x1"], "", "", 3⟩ ⟨"sub", [], "", "", 4⟩ ⟨"assign", [], "", "", 5⟩ ∧
    resolve talkerSymbols 1 ["int", "SKILL"] = .int 1 ∧
    ∀ window ∈ [2, 3], Advances talkerSymbols ⟨window, none⟩ [⟨"add", [], "", "", 0⟩]
      [⟨"fetch_i", [], "", "", 1⟩, ⟨"fetch_i4", [], "", "", 2⟩, ⟨"push_const", ["0x1"], "", "", 3⟩,
        ⟨"sub", [], "", "", 4⟩, ⟨"assign", [], "", "", 5⟩] [] levelState
      { levelState with
        operands := [if window = 2 then
            .unary .decrement (.var "level" "int" (.var "talker" "creature" .hole))
          else .assign "level" "int" (.var "talker" "creature" .hole)
            (.binary .sub (.var "level" "int" (.var "talker" "creature" .hole)) (.int 1)), .str "hi"] } := by
  have h : StrideRows .down ⟨"fetch_i", [], "", "", 1⟩ ⟨"fetch_i4", [], "", "", 2⟩
      ⟨"push_const", ["0x1"], "", "", 3⟩ ⟨"sub", [], "", "", 4⟩ ⟨"assign", [], "", "", 5⟩ :=
    ⟨.inl rfl, .inr rfl, by decide, by cbv, by decide, by decide⟩
  refine ⟨h, rfl, fun window hw => ?_⟩
  have hmode : levelState.mode ≠ .parameterText := by simp [levelState, State.initial]
  have hrun := (advances_stride talkerSymbols ⟨window, none⟩ .down h [⟨"add", [], "", "", 0⟩] []
    hmode rfl rfl rfl).2.1
  rcases List.mem_pair.mp hw with rfl | rfl
  · exact hrun
  · exact hrun

end ScriptLift.Lift
