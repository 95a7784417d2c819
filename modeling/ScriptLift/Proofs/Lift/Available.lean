import Mathlib.Data.List.DropRight
import ScriptLift.Proofs.Lift.Address
import ScriptLift.Lift.Operand

/-!
# Values at hand

Values are taken from the operands and, once these are used up, from the statements at the end of
the current block, as long as they are expressions.

* `trailing`, `State.available`: the values at hand, in the order in which they are taken.
* `State.drop`: a state without its first values, and `State.lack`: what is missing where there are
  too few.
* `pop_eq`: taking one value. `available_drop_one`, `lack_drop_one`: what it leaves.
* **`pops_available`**: taking any number of values, and looking at the first.
-/

namespace ScriptLift.Lift

/-! ## Expressions at the end of a block -/

/-- The expressions of the longest run of expression statements at the end of a block, last first. -/
def trailing (b : List Stmt) : List Expr :=
  (b.reverse.takeWhile (·.expr?.isSome)).filterMap Stmt.expr?

/-- The last statement of a block that is no expression. -/
def lastOther? (b : List Stmt) : Option Stmt := b.reverse.find? (·.expr?.isNone)

theorem trailing_nil : trailing [] = [] := rfl

theorem trailing_concat_eval (b : List Stmt) (e : Expr) :
    trailing (b ++ [.eval e]) = e :: trailing b := by
  simp [trailing, Stmt.expr?]

theorem lastOther?_concat_eval (b : List Stmt) (e : Expr) :
    lastOther? (b ++ [.eval e]) = lastOther? b := by
  simp [lastOther?, Stmt.expr?]

theorem trailing_concat_of_none {s : Stmt} (h : s.expr? = none) (b : List Stmt) :
    trailing (b ++ [s]) = [] := by
  simp [trailing, h]

theorem lastOther?_concat_of_none {s : Stmt} (h : s.expr? = none) (b : List Stmt) :
    lastOther? (b ++ [s]) = some s := by
  simp [lastOther?, h]

theorem eq_eval_of_expr? {s : Stmt} {e : Expr} (h : s.expr? = some e) : s = .eval e := by
  cases s <;> first | cases h; rfl | cases h

/-! ## Values at hand -/

namespace State

/-- The values at hand, in the order in which they are taken: the operands from the top down, then
the expressions at the end of the current block. -/
def available (st : State) : List Expr := st.operands ++ trailing (st.block?.getD [])

/-- A state without its first `n` values. -/
def drop (st : State) (n : Nat) : State :=
  { st with
    operands := st.operands.drop n
    handlers := st.blocks.head?.elim st.handlers fun a =>
      modifyBlock st.handlers a (·.rdrop (n - st.operands.length)) }

/-- What is missing where more values are needed than there are, `found` of `needed` having been
taken before: the block has nothing more, or ends with another statement. -/
def lack (st : State) (needed found : Nat) : Shortage :=
  match lastOther? (st.block?.getD []) with
  | none => .operands needed (found + st.available.length)
  | some s => .blockEnds needed s

end State

variable (st : State)

theorem modifyBlock_rdrop_zero (hs : List Handler) (a : Address) :
    modifyBlock hs a (·.rdrop 0) = hs := by
  simp only [List.rdrop_zero]
  exact modifyBlock_id hs a

theorem drop_zero : st.drop 0 = st := by
  unfold State.drop
  cases st.blocks.head? with
  | none => rfl
  | some a => simp only [Option.elim, Nat.zero_sub, List.drop_zero, modifyBlock_rdrop_zero]

theorem drop_drop (m n : Nat) : (st.drop m).drop n = st.drop (m + n) := by
  have hcount : m - st.operands.length + (n - (st.operands.length - m)) =
      m + n - st.operands.length := by omega
  unfold State.drop
  cases st.blocks.head? with
  | none => simp [List.drop_drop]
  | some a =>
    simp only [Option.elim, List.drop_drop, List.length_drop, modifyBlock_modifyBlock,
      Function.comp_def, List.rdrop_add, hcount]

/-- What dropping values leaves of the current block. -/
theorem block?_drop (n : Nat) :
    (st.drop n).block?.getD [] = (st.block?.getD []).rdrop (n - st.operands.length) := by
  unfold State.block? State.drop
  cases st.blocks.head? with
  | none => simp
  | some a =>
    simp only [Option.elim, Option.map_some, Option.getD_some, getBlock?_modifyBlock]
    cases getBlock? st.handlers a <;> simp

/-! ## Taking values -/

/-- Where a value is at hand, it is an operand or ends the current block. -/
theorem available_eq_cons {e : Expr} {rest : List Expr} (h : st.available = e :: rest) :
    (∃ ops, st.operands = e :: ops) ∨
      st.operands = [] ∧ ∃ b, st.block?.getD [] = b ++ [.eval e] := by
  unfold State.available at h
  cases ho : st.operands with
  | cons x ops =>
    rw [ho, List.cons_append, List.cons.injEq] at h
    exact .inl ⟨ops, by rw [h.1]⟩
  | nil =>
    rw [ho, List.nil_append] at h
    refine .inr ⟨rfl, ?_⟩
    rcases List.eq_nil_or_concat (st.block?.getD []) with hb | ⟨b, s, hb⟩
    · rw [hb] at h
      cases h
    · rw [hb, List.concat_eq_append] at h ⊢
      cases hs : s.expr? with
      | none =>
        rw [trailing_concat_of_none hs] at h
        cases h
      | some x =>
        obtain rfl := eq_eval_of_expr? hs
        rw [trailing_concat_eval, List.cons.injEq] at h
        exact ⟨b, by rw [h.1]⟩

/-- Taking a value leaves the others at hand. -/
theorem available_drop_one {e : Expr} {rest : List Expr} (h : st.available = e :: rest) :
    (st.drop 1).available = rest := by
  have hops : (st.drop 1).operands = st.operands.drop 1 := rfl
  unfold State.available at h ⊢
  rw [block?_drop, hops]
  rcases available_eq_cons st h with ⟨ops, ho⟩ | ⟨ho, b, hb⟩
  · rw [ho, List.cons_append, List.cons.injEq] at h
    simp [ho, ← h.2]
  · rw [hb, ho, List.nil_append, trailing_concat_eval, List.cons.injEq] at h
    simp [ho, hb, List.rdrop_concat_succ, h.2]

/-- Taking a value changes nothing about what is missing in the end. -/
theorem lack_drop_one {e : Expr} {rest : List Expr} (h : st.available = e :: rest)
    (needed found : Nat) : (st.drop 1).lack needed (found + 1) = st.lack needed found := by
  have hother : lastOther? ((st.drop 1).block?.getD []) = lastOther? (st.block?.getD []) := by
    rw [block?_drop]
    rcases available_eq_cons st h with ⟨ops, ho⟩ | ⟨ho, b, hb⟩
    · simp [ho]
    · simp [ho, hb, List.rdrop_concat_succ, lastOther?_concat_eval]
  unfold State.lack
  rw [hother, available_drop_one st h, h, List.length_cons, Nat.add_assoc, Nat.add_comm 1]

/-- **Taking one value** gives the first one at hand, and fails when there is none. -/
theorem pop_eq (needed found : Nat) : st.pop needed found =
    match st.available with
    | [] => .error (.fault (.shortage (st.lack needed found)))
    | e :: _ => .ok (e, st.drop 1) := by
  unfold State.pop State.lack State.available State.drop State.block?
  cases ho : st.operands with
  | cons e ops =>
    cases st.blocks.head? with
    | none => rfl
    | some a =>
      simp only [List.cons_append, List.drop_succ_cons, List.drop_zero, Option.elim,
        List.length_cons, show 1 - (ops.length + 1) = 0 by omega, modifyBlock_rdrop_zero]
  | nil =>
    cases hb : st.blocks with
    | nil => simp [lastOther?, trailing_nil]
    | cons a as =>
      have hlast : (fun b : List Stmt => b.rdrop 1) = List.dropLast :=
        funext fun b => by rw [List.rdrop, List.dropLast_eq_take]
      simp only [List.head?_cons, Option.map_some, Option.getD_some, Option.elim, List.nil_append]
      rcases List.eq_nil_or_concat ((getBlock? st.handlers a).getD []) with hnil | ⟨b, s, hs⟩
      · simp [hnil, lastOther?, trailing_nil]
      · rw [hs, List.concat_eq_append, List.getLast?_concat]
        cases he : s.expr? with
        | some e =>
          obtain rfl := eq_eval_of_expr? he
          simp [hlast, trailing_concat_eval]
        | none =>
          rw [trailing_concat_of_none he, lastOther?_concat_of_none he]
          cases s <;> first | rfl | cases he

theorem popMore_eq (needed found n : Nat) : State.popMore needed found n st =
    if n ≤ st.available.length then .ok (st.available.take n, st.drop n)
    else .error (.fault (.shortage (st.lack needed found))) := by
  induction n generalizing st found with
  | zero => simp [State.popMore, drop_zero]
  | succ n ih =>
    rw [State.popMore, pop_eq]
    cases h : st.available with
    | nil => simp [bind, Except.bind]
    | cons e rest =>
      simp only [bind, Except.bind, ih, available_drop_one st h, lack_drop_one st h, drop_drop,
        List.length_cons, Nat.add_le_add_iff_right, List.take_succ_cons, Nat.add_comm 1 n]
      split_ifs <;> rfl

/-- Looking at the first value at hand. -/
theorem peek?_eq : st.peek? = st.available.head? := by
  unfold State.peek? State.available
  cases st.operands with
  | cons e ops => rfl
  | nil =>
    rw [List.nil_append]
    cases st.block? with
    | none => rfl
    | some b =>
      rcases List.eq_nil_or_concat b with rfl | ⟨b, s, rfl⟩
      · rfl
      · simp only [List.concat_eq_append, Option.bind_some, List.getLast?_concat, Option.getD_some]
        cases hs : s.expr? with
        | none => rw [trailing_concat_of_none hs, List.head?_nil]
        | some e =>
          obtain rfl := eq_eval_of_expr? hs
          rw [trailing_concat_eval, List.head?_cons]

theorem pops_one : st.pops 1 = st.pop1.map fun (e, st) => ([e], st) := by
  simp only [State.pops, State.popMore, State.pop1]
  cases st.pop 1 0 <;> rfl

theorem pops_two : st.pops 2 = st.pop2.map fun (left, right, st) => ([right, left], st) := by
  simp only [State.pops, State.popMore, State.pop2, bind, Except.bind]
  cases st.pop 2 0 with
  | error e => rfl
  | ok x =>
    dsimp only
    cases x.2.pop 2 1 <;> rfl

/-- **Taking values** succeeds exactly if there are enough at hand; then it gives the first ones in
order and drops just these. Looking gives the first one. Rows take one or two values in this way,
and a for loop its three. -/
theorem pops_available (n : Nat) :
    st.pops n =
        (if n ≤ st.available.length then .ok (st.available.take n, st.drop n)
        else .error (.fault (.shortage (st.lack n 0)))) ∧
      st.peek? = st.available.head? ∧
      st.pops 1 = (st.pop1.map fun (e, st) => ([e], st)) ∧
      st.pops 2 = (st.pop2.map fun (left, right, st) => ([right, left], st)) ∧
      makeFor st = (do
        let (values, st) ← st.pops 3
        let [update, cond, init] := values | return st
        let (st, s) ← st.addAt (.forLoop init cond update [])
        return { st with
          statements := .forLoop s :: st.statements.tail
          blocks := s.body .loop :: st.blocks }) := by
  refine ⟨popMore_eq st n 0 n, peek?_eq st, pops_one st, pops_two st, ?_⟩
  simp only [makeFor, State.pops, State.popMore, bind, Except.bind]
  cases st.pop 3 0 with
  | error e => rfl
  | ok x =>
    dsimp only
    cases x.2.pop 3 1 with
    | error e => rfl
    | ok y =>
      dsimp only
      cases y.2.pop 3 2 <;> rfl

end ScriptLift.Lift
