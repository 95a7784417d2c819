import ScriptLift.Proofs.Dialect.ReadBack

/-!
# Values of emitted expressions

Integer expressions are evaluated as they are read. Leaving parentheses out keeps the value of an
expression as long as the operators that change their operands are those that regroup; a product
takes a quotient or a remainder on the left edge of its right operand along, and its value changes.

* `Reading.eval`: the value of an expression, if it divides by no zero.
* `Expr.leftOps`: the operators of a level on the left edge of an expression.
* `Expr.keepsValue`: every operator that merges with its right operand regroups with its whole left
  edge.
* `Expr.eval_regrouped`: then the regrouped expression has the same value.
* `not_kept_of_not_regroups`: over different names nothing less will do.
* **`read_expr_value_iff`**: when the text of an expression reads as its value.
-/

namespace ScriptLift

/-! ## Evaluation -/

/-- A truth value as an integer. -/
def truth (b : Bool) : Int64 := if b then 1 else 0

/-- The value of an operation: sums and products wrap, quotients are cut towards zero. -/
def BinaryOp.apply : BinaryOp → Int64 → Int64 → Option Int64
  | or, x, y => some (truth (x != 0 || y != 0))
  | and, x, y => some (truth (x != 0 && y != 0))
  | bitOr, x, y => some (x ||| y)
  | bitXor, x, y => some (x ^^^ y)
  | bitAnd, x, y => some (x &&& y)
  | eq, x, y => some (truth (x == y))
  | ne, x, y => some (truth (x != y))
  | lt, x, y => some (truth (x < y))
  | le, x, y => some (truth (x ≤ y))
  | gt, x, y => some (truth (y < x))
  | ge, x, y => some (truth (y ≤ x))
  | add, x, y => some (x + y)
  | sub, x, y => some (x - y)
  | mul, x, y => some (x * y)
  | div, x, y => if y = 0 then none else some (x / y)
  | mod, x, y => if y = 0 then none else some (x % y)
  | other _, _, _ => none

/-- The value of an operation with one operand. -/
def UnaryOp.apply : UnaryOp → Int64 → Option Int64
  | negate, x => some (-x)
  | complement, x => some (~~~x)
  | _, _ => none

/-- **The value of an expression** under a valuation of its names; calls have none. -/
def Reading.eval (ρ : String → Int64) : Reading → Option Int64
  | .name n => some (ρ n)
  | .int v => some v
  | .unary op e => (e.eval ρ).bind op.apply
  | .binary op l r => (l.eval ρ).bind fun x => (r.eval ρ).bind (op.apply x)
  | .call .. => none

/-- The value of operators and operands after a left operand. -/
def chain (v : Int64) (ys : List (BinaryOp × Int64)) : Option Int64 :=
  ys.foldlM (fun v y => y.1.apply v y.2) v

namespace BinaryOp

theorem regroups_trans {p q r : BinaryOp} (hpq : p.regroups q) (hqr : q.regroups r) :
    p.regroups r := by
  cases p <;> simp_all [regroups]
  rcases hpq with rfl | rfl <;> simp_all

/-- **Operators that regroup are associative.** -/
theorem apply_assoc {p q : BinaryOp} (h : p.regroups q) (x y z : Int64) :
    ((p.apply x y).bind fun w => q.apply w z) = (q.apply y z).bind (p.apply x) := by
  have htruth : ∀ b, (truth b != 0) = b := by decide
  cases p <;> simp only [regroups, Bool.false_eq_true, Bool.or_eq_true, beq_iff_eq] at h
  case or => subst h; simp [apply, htruth, Bool.or_assoc]
  case and => subst h; simp [apply, htruth, Bool.and_assoc]
  case bitOr => subst h; simp [apply, Int64.or_assoc]
  case bitXor => subst h; simp [apply, Int64.xor_assoc]
  case bitAnd => subst h; simp [apply, Int64.and_assoc]
  case add =>
    rcases h with rfl | rfl
    · simp [apply, Int64.add_assoc]
    · simp [apply, Int64.sub_eq_add_neg, Int64.add_assoc]
  case mul => subst h; simp [apply, Int64.mul_assoc]

end BinaryOp

/-! ## Expressions that keep their value -/

namespace Expr

/-- The operators of a level on the left edge of an expression, outermost first. -/
def leftOps (k : Nat) : Expr → List BinaryOp
  | .binary q b _ => if q.level = k then q :: leftOps k b else []
  | _ => []

/-- Whether every operator that merges with its right operand regroups with the operators of its
level on the left edge of that operand. -/
def keepsValue : Expr → Bool
  | .unary _ e => e.keepsValue
  | .binary p l r =>
    (!mergesInto p r || (leftOps p.level r).all (p.regroups ·)) && l.keepsValue && r.keepsValue
  | _ => true

theorem leftOps_of_level_ne {q : BinaryOp} {k : Nat} (h : q.level ≠ k) (b c : Expr) :
    leftOps k (.binary q b c) = [] := by
  rw [leftOps, if_neg h]

theorem mem_leftOps_graft {q p : BinaryOp} {a : Expr} :
    ∀ {t : Expr}, q ∈ leftOps p.level (graft p a t) →
      q = p ∨ q ∈ leftOps p.level a ∨ q ∈ leftOps p.level t
  | .binary r b c, h => by
    rw [graft] at h
    split_ifs at h with hr
    · rw [leftOps, if_pos hr, List.mem_cons] at h
      rw [leftOps, if_pos hr, List.mem_cons]
      rcases h with h | h
      · exact .inr (.inr (.inl h))
      · rcases mem_leftOps_graft h with h | h | h
        · exact .inl h
        · exact .inr (.inl h)
        · exact .inr (.inr (.inr h))
    · rw [leftOps, if_pos rfl, List.mem_cons] at h
      rcases h with h | h
      · exact .inl h
      · exact .inr (.inl h)
  | .hole, h | .int _, h | .real _, h | .str _, h | .const .., h | .param .., h | .prop .., h
  | .var .., h | .unary .., h | .assign .., h | .call .., h => by
    rw [graft, leftOps, if_pos rfl, List.mem_cons] at h
    · rcases h with h | h
      · exact .inl h
      · exact .inr (.inl h)
    · simp

/-- Regrouping an expression that keeps its value brings nothing new to its left edge. -/
theorem regroups_leftOps_regrouped {p : BinaryOp} : ∀ {e : Expr}, e.keepsValue →
    (∀ q ∈ leftOps p.level e, p.regroups q) → ∀ q ∈ leftOps p.level e.regrouped, p.regroups q
  | .binary r b c, hk, h => by
    simp only [keepsValue, Bool.and_eq_true, Bool.or_eq_true, Bool.not_eq_true',
      List.all_eq_true] at hk
    obtain ⟨⟨hm, hb⟩, hc⟩ := hk
    by_cases hr : r.level = p.level
    · rw [leftOps, if_pos hr] at h
      have hpr := h r List.mem_cons_self
      have hbp := regroups_leftOps_regrouped hb fun q hq => h q (List.mem_cons_of_mem _ hq)
      intro q hq
      rw [regrouped] at hq
      split_ifs at hq with hmerge
      · rcases hm with hm | hm
        · rw [hm] at hmerge
          exact absurd hmerge Bool.false_ne_true
        have hcr := regroups_leftOps_regrouped hc hm
        rw [← hr] at hq hbp
        rcases mem_leftOps_graft hq with rfl | hq | hq
        · exact hpr
        · exact hbp q hq
        · exact BinaryOp.regroups_trans hpr (hcr q hq)
      · rw [leftOps, if_pos hr, List.mem_cons] at hq
        rcases hq with rfl | hq
        · exact hpr
        · exact hbp q hq
    · obtain ⟨top, b', c', he, ht⟩ := regrouped_top r b c
      rw [he, leftOps_of_level_ne (ht.level ▸ hr)]
      simp
  | .hole, _, _ | .int _, _, _ | .real _, _, _ | .str _, _, _ | .const .., _, _ | .param .., _, _
  | .prop .., _, _ | .var .., _, _ | .unary .., _, _ | .assign .., _, _ | .call .., _, _ => by
    simp [regrouped, leftOps]

variable (d : Dialect) (ρ : String → Int64)

/-- **An operator that regroups with a left edge may be read before it.** -/
theorem eval_graft {p : BinaryOp} (a : Expr) :
    ∀ {t : Expr}, (∀ q ∈ leftOps p.level t, p.regroups q) →
      ((graft p a t).reading d).eval ρ = ((Expr.binary p a t).reading d).eval ρ
  | .binary q b c, h => by
    rw [graft]
    split_ifs with hq
    · rw [leftOps, if_pos hq] at h
      have hpq := h q List.mem_cons_self
      have ih := eval_graft a (t := b) fun r hr => h r (List.mem_cons_of_mem _ hr)
      simp only [reading, Reading.eval] at ih ⊢
      rw [ih]
      cases (a.reading d).eval ρ with
      | none => rfl
      | some x =>
        cases (b.reading d).eval ρ with
        | none => rfl
        | some y =>
          cases (c.reading d).eval ρ with
          | none => simp
          | some z => exact BinaryOp.apply_assoc hpq x y z
    · rfl
  | .hole, _ | .int _, _ | .real _, _ | .str _, _ | .const .., _ | .param .., _ | .prop .., _
  | .var .., _ | .unary .., _ | .assign .., _ | .call .., _ => rfl

/-- **Regrouping keeps the value.** -/
theorem eval_regrouped : ∀ {e : Expr}, e.keepsValue →
    (e.regrouped.reading d).eval ρ = (e.reading d).eval ρ
  | .binary p l r, h => by
    have hk := h
    simp only [keepsValue, Bool.and_eq_true, Bool.or_eq_true, Bool.not_eq_true',
      List.all_eq_true] at hk
    obtain ⟨⟨hm, hl⟩, hr⟩ := hk
    have hplain : ((Expr.binary p l.regrouped r.regrouped).reading d).eval ρ =
        ((Expr.binary p l r).reading d).eval ρ := by
      simp only [reading, Reading.eval, eval_regrouped hl, eval_regrouped hr]
    rw [regrouped]
    split_ifs with hmerge
    · rcases hm with hm | hm
      · rw [hm] at hmerge
        exact absurd hmerge Bool.false_ne_true
      rw [eval_graft d ρ _ (regroups_leftOps_regrouped hr hm), hplain]
    · exact hplain
  | .unary op e, h => by
    have he : e.keepsValue := h
    simp only [regrouped, reading, Reading.eval, eval_regrouped he]
  | .call .., _ => rfl
  | .hole, _ | .int _, _ | .real _, _ | .str _, _ | .const .., _ | .param .., _
  | .prop .., _ | .var .., _ | .assign .., _ => rfl

/-! ## Sequences of names -/

theorem eval_param (n t : String) : ((Expr.param n t).reading d).eval ρ = some (ρ n) := by
  simp [reading, Dialect.expr, Reading.eval]

/-- Operators and names after a left operand, read from the left. -/
def sequence (e : Expr) (ys : List (BinaryOp × String)) : Expr :=
  ys.foldl (fun e y => .binary y.1 e (.param y.2 "int")) e

theorem sequence_concat (e : Expr) (ys : List (BinaryOp × String)) (y : BinaryOp × String) :
    sequence e (ys ++ [y]) = .binary y.1 (sequence e ys) (.param y.2 "int") := by
  simp [sequence]

theorem regrouped_sequence {e : Expr} (he : e.regrouped = e) (ys : List (BinaryOp × String)) :
    (sequence e ys).regrouped = sequence e ys := by
  induction ys using List.reverseRecOn with
  | nil => exact he
  | append_singleton ys y ih =>
    rw [sequence_concat, regrouped, ih]
    rfl

theorem leftOps_sequence (k : Nat) (x : String) {ys : List (BinaryOp × String)}
    (h : ∀ y ∈ ys, y.1.level = k) :
    leftOps k (sequence (.param x "int") ys) = (ys.map Prod.fst).reverse := by
  induction ys using List.reverseRecOn with
  | nil => rfl
  | append_singleton ys y ih =>
    rw [sequence_concat, leftOps, if_pos (h y (by simp)),
      ih fun z hz => h z (List.mem_append_left _ hz)]
    simp

theorem keepsValue_sequence (x : String) (ys : List (BinaryOp × String)) :
    (sequence (.param x "int") ys).keepsValue := by
  induction ys using List.reverseRecOn with
  | nil => rfl
  | append_singleton ys y ih =>
    rw [sequence_concat]
    simp [keepsValue, mergesInto, ih]

/-- An operator before a sequence of its level comes first. -/
theorem graft_sequence (p : BinaryOp) (a : Expr) (x : String) {ys : List (BinaryOp × String)}
    (h : ∀ y ∈ ys, y.1.level = p.level) :
    graft p a (sequence (.param x "int") ys) = sequence (.binary p a (.param x "int")) ys := by
  induction ys using List.reverseRecOn with
  | nil => rfl
  | append_singleton ys y ih =>
    rw [sequence_concat, sequence_concat, graft, if_pos (h y (by simp)),
      ih fun z hz => h z (List.mem_append_left _ hz)]

theorem isPlain_sequence {e : Expr} (he : e.isPlain) (hf : ∀ b, e.fits b)
    {ys : List (BinaryOp × String)} (h : ∀ y ∈ ys, y.1 ∈ BinaryOp.all ∧ isIdentifier y.2) :
    (sequence e ys).isPlain ∧ ∀ b, (sequence e ys).fits b := by
  induction ys using List.reverseRecOn with
  | nil => exact ⟨he, hf⟩
  | append_singleton ys y ih =>
    obtain ⟨hp, hfit⟩ := ih fun z hz => h z (List.mem_append_left _ hz)
    obtain ⟨hop, hname⟩ := h y (by simp)
    rw [sequence_concat]
    exact ⟨isPlain_binary (List.contains_iff_mem.mpr hop) (hfit _) rfl hp hname, fun _ => rfl⟩

/-- The value of a sequence, operand by operand. -/
theorem eval_sequence (e : Expr) (ys : List (BinaryOp × String)) :
    ((sequence e ys).reading d).eval ρ =
      ((e.reading d).eval ρ).bind fun v => chain v (ys.map fun y => (y.1, ρ y.2)) := by
  induction ys generalizing e with
  | nil =>
    show (e.reading d).eval ρ = _
    cases (e.reading d).eval ρ <;> rfl
  | cons y ys ih =>
    have hcons : sequence e (y :: ys) = sequence (.binary y.1 e (.param y.2 "int")) ys := rfl
    rw [hcons, ih, reading, Reading.eval, eval_param]
    cases (e.reading d).eval ρ <;> rfl

end Expr

/-! ## Values that tell quotients from products -/

/-- An operand that leaves 0 and 1 as they are. -/
def calm : BinaryOp → Int64
  | .mod => 7
  | _ => 1

/-- Operands for the operators of a product: the first quotient or remainder is by 2. -/
def probe : List BinaryOp → List Int64
  | [] => []
  | .mul :: qs => 1 :: probe qs
  | _ :: qs => 2 :: qs.map calm

theorem apply_calm {q : BinaryOp} (hq : q.level = 9) {v : Int64} (hv : v = 0 ∨ v = 1) :
    q.apply v (calm q) = some v := by
  cases q <;> simp only [BinaryOp.level, reduceCtorEq] at hq
  all_goals try omega
  all_goals rcases hv with rfl | rfl <;> rfl

theorem chain_calm {qs : List BinaryOp} (h : ∀ q ∈ qs, q.level = 9) {v : Int64}
    (hv : v = 0 ∨ v = 1) : chain v (qs.zip (qs.map calm)) = some v := by
  induction qs with
  | nil => rfl
  | cons q qs ih =>
    rw [List.map_cons, List.zip_cons_cons, chain, List.foldlM_cons, apply_calm (h q List.mem_cons_self) hv]
    exact ih fun r hr => h r (List.mem_cons_of_mem _ hr)

/-- **Twice the value after 1 is not the value after 2**, where a quotient or a remainder comes. -/
theorem chain_probe {qs : List BinaryOp} (h : ∀ q ∈ qs, q.level = 9)
    (hq : ∃ q ∈ qs, q ≠ .mul) : ∃ v w, chain 1 (qs.zip (probe qs)) = some v ∧
      chain 2 (qs.zip (probe qs)) = some w ∧ 2 * v ≠ w := by
  induction qs with
  | nil => simp at hq
  | cons q qs ih =>
    have hqs : ∀ r ∈ qs, r.level = 9 := fun r hr => h r (List.mem_cons_of_mem _ hr)
    have hlevel := h q List.mem_cons_self
    cases q with
    | mul =>
      obtain ⟨r, hr, hne⟩ := hq
      rcases List.mem_cons.mp hr with rfl | hr
      · exact absurd rfl hne
      exact ih hqs ⟨r, hr, hne⟩
    | div => exact ⟨0, 1, chain_calm hqs (.inl rfl), chain_calm hqs (.inr rfl), by decide⟩
    | mod => exact ⟨1, 0, chain_calm hqs (.inr rfl), chain_calm hqs (.inl rfl), by decide⟩
    | _ => simp [BinaryOp.level] at hlevel

/-- Only a product meets an operator of its level that it does not regroup with. -/
theorem eq_mul_of_regroups {p q r : BinaryOp} (hq : p.regroups q) (hr : r.level = p.level)
    (hpr : ¬ p.regroups r) : p = .mul := by
  cases p <;> simp only [BinaryOp.regroups, Bool.false_eq_true] at hq
  case mul => rfl
  all_goals cases r <;> simp_all [BinaryOp.level, BinaryOp.regroups]

theorem exists_valuation {ns : List String} (hn : ns.Nodup) (vs : List Int64)
    (h : vs.length = ns.length) : ∃ ρ : String → Int64, ns.map ρ = vs := by
  refine ⟨fun n => vs.getD (ns.idxOf n) 0, List.ext_getElem (by simp [h]) fun i h₁ h₂ => ?_⟩
  rw [List.getElem_map, hn.idxOf_getElem]
  simp [List.getD, h₂]

theorem length_probe (qs : List BinaryOp) : (probe qs).length = qs.length := by
  fun_induction probe qs with
  | case1 => rfl
  | case2 qs ih => simp [ih]
  | case3 => simp

/-- **The text of an expression has its value**, under every valuation that gives it one. -/
def Dialect.KeepsValue (d : Dialect) (e : Expr) : Prop :=
  ∀ ρ v, (e.reading d).eval ρ = some v → ∃ t, read (d.expr .free e) = some t ∧ t.eval ρ = some v

theorem Dialect.KeepsValue.of_keepsValue {d : Dialect} (hd : isMark d.constantMark) {e : Expr}
    (he : e.isPlain) (h : e.keepsValue) : d.KeepsValue e := by
  intro ρ v hv
  refine ⟨_, (reads_regrouped hd he).read, ?_⟩
  rw [Expr.eval_regrouped d ρ h, hv]

/-- A product whose right operand starts with a quotient or a remainder of other names. -/
theorem not_kept_of_not_regroups {d : Dialect} (hd : isMark d.constantMark) {a x : String}
    {ys : List (BinaryOp × String)} (hn : (a :: x :: ys.map Prod.snd).Nodup)
    (hplain : (Expr.binary .mul (.param a "int") (.sequence (.param x "int") ys)).isPlain)
    (hmerge : Expr.mergesInto .mul (.sequence (.param x "int") ys))
    (hlevel : ∀ y ∈ ys, y.1.level = 9) (hq : ∃ q ∈ ys.map Prod.fst, q ≠ .mul) :
    ¬ d.KeepsValue (.binary .mul (.param a "int") (.sequence (.param x "int") ys)) := by
  intro hkept
  obtain ⟨v, w, hv, hw, hne⟩ := chain_probe (by simpa using hlevel) hq
  obtain ⟨ρ, hρ⟩ := exists_valuation hn (2 :: 1 :: probe (ys.map Prod.fst))
    (by simp [length_probe])
  simp only [List.map_cons, List.map_map, List.cons.injEq] at hρ
  obtain ⟨ha, hx, hys⟩ := hρ
  have hzip : (ys.map fun y => (y.1, ρ y.2)) = (ys.map Prod.fst).zip (probe (ys.map Prod.fst)) := by
    rw [← hys, List.zip_map']
    rfl
  have hregrouped : (Expr.binary .mul (.param a "int") (.sequence (.param x "int") ys)).regrouped =
      .sequence (.binary .mul (.param a "int") (.param x "int")) ys := by
    rw [Expr.regrouped, if_pos hmerge, Expr.regrouped_sequence rfl,
      Expr.graft_sequence .mul _ x hlevel]
    rfl
  have hleft : ((Expr.binary .mul (.param a "int") (.sequence (.param x "int") ys)).reading d).eval ρ =
      some (2 * v) := by
    rw [Expr.reading, Reading.eval, Expr.eval_param, Expr.eval_sequence, Expr.eval_param, hzip, ha, hx]
    simp only [Option.bind_some, hv]
    rfl
  obtain ⟨t, ht, htv⟩ := hkept ρ (2 * v) hleft
  rw [(Dialect.reads_regrouped hd hplain).read, hregrouped, Option.some_inj] at ht
  rw [← ht, Expr.eval_sequence, Expr.reading, Reading.eval, Expr.eval_param, Expr.eval_param, hzip,
    ha, hx] at htv
  have hw' : some w = some (2 * v) := hw.symm.trans htv
  exact hne (Option.some.inj hw').symm

theorem mem_all_of_level_eq {p q : BinaryOp} (hp : p ∈ BinaryOp.all) (h : q.level = p.level) :
    q ∈ BinaryOp.all := by
  cases q with
  | other =>
    have : ∀ p ∈ BinaryOp.all, 0 ≠ p.level := by decide
    exact absurd h (this p hp)
  | _ => decide

/-- **When the text of an expression has its value.** It has if every operator that merges with its
right operand regroups with the operators of its level on the left edge of that operand; and of an
operator before a sequence of operators of its level, all over different names, it has only then. -/
theorem read_expr_value_iff (d : Dialect) (hd : isMark d.constantMark) :
    (∀ e : Expr, e.isPlain → e.keepsValue → d.KeepsValue e) ∧
    ∀ (p : BinaryOp) (a x : String) (ys : List (BinaryOp × String)), p ∈ BinaryOp.all →
      (∀ y ∈ ys, y.1.level = p.level) → (∀ n ∈ a :: x :: ys.map Prod.snd, isIdentifier n) →
      (a :: x :: ys.map Prod.snd).Nodup →
      (d.KeepsValue (.binary p (.param a "int") (.sequence (.param x "int") ys)) ↔
        (Expr.binary p (.param a "int") (.sequence (.param x "int") ys)).keepsValue) := by
  refine ⟨fun e he h => .of_keepsValue hd he h, fun p a x ys hp hlevel hid hn => ?_⟩
  have hys : ∀ y ∈ ys, y.1 ∈ BinaryOp.all ∧ isIdentifier y.2 := fun y hy =>
    ⟨mem_all_of_level_eq hp (hlevel y hy), hid y.2 (by simp; exact .inr (.inr ⟨y.1, hy⟩))⟩
  obtain ⟨hseq, hfits⟩ := Expr.isPlain_sequence (e := .param x "int") (hid x (by simp))
    (fun _ => rfl) hys
  have hplain : (Expr.binary p (.param a "int") (.sequence (.param x "int") ys)).isPlain :=
    Expr.isPlain_binary (List.contains_iff_mem.mpr hp) rfl (hfits _) (hid a (by simp)) hseq
  refine ⟨fun hkept => ?_, fun h => .of_keepsValue hd hplain h⟩
  by_contra hnot
  simp only [Expr.keepsValue, Expr.keepsValue_sequence, Expr.leftOps_sequence p.level x hlevel,
    Bool.and_true, Bool.or_eq_true, Bool.not_eq_true', List.all_reverse, List.all_eq_true, not_or,
    not_forall, Bool.not_eq_false] at hnot
  obtain ⟨hmerge, q, hq, hpq⟩ := hnot
  have hqlevel : q.level = p.level := by
    obtain ⟨y, hy, rfl⟩ := List.mem_map.mp hq
    exact hlevel y hy
  obtain ⟨r, hr⟩ : ∃ r, p.regroups r := by
    unfold Expr.mergesInto at hmerge
    split at hmerge
    · exact ⟨_, hmerge⟩
    · simp at hmerge
  obtain rfl := eq_mul_of_regroups hr hqlevel hpq
  refine not_kept_of_not_regroups hd hn hplain hmerge hlevel ⟨q, hq, ?_⟩ hkept
  rintro rfl
  simp [BinaryOp.regroups] at hpq

/-- A sum takes a difference along and keeps its value; a product takes a quotient along and does
not. -/
theorem read_expr_value_mixed :
    Dialect.default.KeepsValue
      (.binary .add (.param "a" "int")
        (.binary .sub (.binary .add (.int 5) (.param "b" "int")) (.param "c" "int"))) ∧
    ¬ Dialect.default.KeepsValue
      (.binary .mul (.param "a" "int")
        (.sequence (.param "b" "int") [(.div, "c"), (.mul, "d")])) := by
  refine ⟨(read_expr_value_iff Dialect.default (by decide)).1 _ (by decide) (by decide), fun h => ?_⟩
  have hiff := (read_expr_value_iff Dialect.default (by decide)).2 .mul "a" "b"
    [(.div, "c"), (.mul, "d")] (by decide) (by decide) (by decide) (by decide)
  exact absurd (hiff.mp h) (by decide)

end ScriptLift
