import ScriptLift.Proofs.Numeral

/-!
# Regrouped expressions

A right operand that stands without its parentheses is read as a continuation of the left one. The
tree that comes out is the regrouped one.

* `Expr.graft`: an operator put before the left edge of its right operand.
* `Expr.regrouped`: every right operand without parentheses grafted.
* **`Dialect.expr_regrouped`**: an expression and the regrouped one have the same text.
* **`Expr.isSettled_regrouped`**: in the regrouped one every right operand of its operator's level
  stands in parentheses.
-/

namespace ScriptLift

/-! ## Operators of one level -/

namespace BinaryOp

theorem level_eq_of_regroups {p q : BinaryOp} (h : p.regroups q) : q.level = p.level := by
  cases p <;> simp_all [regroups, level]
  rcases h with rfl | rfl <;> rfl

theorem isBitwise_eq_of_level_eq {p q : BinaryOp} (h : p.level = q.level) :
    p.isBitwise = q.isBitwise := by
  cases p <;> cases q <;> simp_all [level, isBitwise]

end BinaryOp

namespace Expr

/-- Whether an operator takes a right operand over without its parentheses. -/
def mergesInto (p : BinaryOp) : Expr → Bool
  | .binary q _ _ => p.regroups q
  | _ => false

/-- `a p t`, read from the left: the operators of the level of `p` on the left edge of `t` come
after `p`. -/
def graft (p : BinaryOp) (a : Expr) : Expr → Expr
  | .binary q b c =>
    if q.level = p.level then .binary q (graft p a b) c else .binary p a (.binary q b c)
  | t => .binary p a t

mutual

/-- An expression as it reads without the parentheses that its text leaves out. -/
def regrouped : Expr → Expr
  | .unary op e => .unary op e.regrouped
  | .binary p l r =>
    if mergesInto p r then graft p l.regrouped r.regrouped else .binary p l.regrouped r.regrouped
  | .call f type owner args note => .call f type owner (regroupedAll args) note
  | e => e

/-- Arguments as they read. -/
def regroupedAll : List Expr → List Expr
  | [] => []
  | e :: r => e.regrouped :: regroupedAll r

end

theorem graft_binary (p q : BinaryOp) (a b c : Expr) : graft p a (.binary q b c) =
    if q.level = p.level then .binary q (graft p a b) c else .binary p a (.binary q b c) := rfl

theorem regrouped_binary (p : BinaryOp) (l r : Expr) : (Expr.binary p l r).regrouped =
    if mergesInto p r then graft p l.regrouped r.regrouped
    else .binary p l.regrouped r.regrouped := rfl

theorem graft_of_level_ne {p : BinaryOp} {t : Expr}
    (h : ∀ q b c, t = .binary q b c → q.level ≠ p.level) (a : Expr) : graft p a t = .binary p a t := by
  cases t with
  | binary q b c => rw [graft_binary, if_neg (h q b c rfl)]
  | _ => rfl

/-! ## The operator on top -/

/-- The operators that may stand on top of a regrouped `op`. -/
def TopOf (op top : BinaryOp) : Prop := top = op ∨ op = .add ∧ top = .sub

theorem TopOf.level {op top : BinaryOp} (h : TopOf op top) : top.level = op.level := by
  rcases h with rfl | ⟨rfl, rfl⟩ <;> rfl

theorem TopOf.needsParens {op top : BinaryOp} (h : TopOf op top) (place : Place) :
    place.needsParens top = place.needsParens op := by
  rcases h with rfl | ⟨rfl, rfl⟩
  · rfl
  · cases place with
    | beside p right => cases p <;> cases right <;> rfl
    | _ => rfl

theorem TopOf.of_regroups {p q top : BinaryOp} (hpq : p.regroups q) (h : TopOf q top) :
    TopOf p top := by
  cases p <;> simp_all [BinaryOp.regroups, TopOf]
  rcases hpq with rfl | rfl <;> simp_all

theorem graft_top (p : BinaryOp) (a t : Expr) :
    ∃ op l r, graft p a t = .binary op l r ∧ op.level = p.level := by
  cases t with
  | binary q b c =>
    rw [graft_binary]
    split_ifs with h
    · exact ⟨_, _, _, rfl, h⟩
    · exact ⟨_, _, _, rfl, rfl⟩
  | _ => exact ⟨_, _, _, rfl, rfl⟩

theorem regrouped_top : ∀ (p : BinaryOp) (l r : Expr),
    ∃ op l' r', (Expr.binary p l r).regrouped = .binary op l' r' ∧ TopOf p op
  | p, l, .binary q b c => by
    rw [regrouped_binary]
    split_ifs with h
    · have hq : p.regroups q := h
      obtain ⟨op, l', r', he, ht⟩ := regrouped_top q b c
      have hl : op.level = p.level := ht.level.trans (BinaryOp.level_eq_of_regroups hq)
      rw [he, graft_binary, if_pos hl]
      exact ⟨_, _, _, rfl, ht.of_regroups hq⟩
    · exact ⟨_, _, _, rfl, .inl rfl⟩
  | _, _, .hole | _, _, .int _ | _, _, .real _ | _, _, .str _ | _, _, .const .. | _, _, .param ..
  | _, _, .prop .. | _, _, .var .. | _, _, .unary .. | _, _, .assign .. | _, _, .call .. =>
    ⟨_, _, _, rfl, .inl rfl⟩

end Expr

/-! ## Texts -/

namespace Dialect

variable (d : Dialect)

theorem expr_free_binary (op : BinaryOp) (l r : Expr) : d.expr .free (.binary op l r) =
    d.expr (.beside op false) l ++ " " ++ op.symbol ++ " " ++ d.expr (.beside op true) r := rfl

theorem expr_binary_eq (place : Place) (op : BinaryOp) (l r : Expr) :
    d.expr place (.binary op l r) =
      parenthesized (place.needsParens op) (d.expr .free (.binary op l r)) := rfl

theorem expr_int (place : Place) (v : Int64) : d.expr place (.int v) =
    if place.isBitwise then hexLiteral v else Numeral.decimal v.toInt := rfl

theorem expr_int_congr {place place' : Place} (h : place.isBitwise = place'.isBitwise) (v : Int64) :
    d.expr place (.int v) = d.expr place' (.int v) := by
  rw [expr_int, expr_int, h]

/-- A left operand shows the level of its operator only. -/
theorem expr_left_congr {p q : BinaryOp} (h : p.level = q.level) (e : Expr) :
    d.expr (.beside p false) e = d.expr (.beside q false) e := by
  cases e with
  | int v =>
    have hb : (Place.beside p false).isBitwise = (Place.beside q false).isBitwise :=
      BinaryOp.isBitwise_eq_of_level_eq h
    exact expr_int_congr d hb v
  | binary op l r =>
    rw [expr_binary_eq, expr_binary_eq d (.beside q false)]
    simp [Place.needsParens, h]
  | _ => rfl

theorem expr_left_of_level_eq {p q : BinaryOp} (h : q.level = p.level) (b c : Expr) :
    d.expr (.beside p false) (.binary q b c) = d.expr .free (.binary q b c) := by
  rw [expr_binary_eq]
  simp [Place.needsParens, h, parenthesized]

theorem expr_right_of_level_ne {p : BinaryOp} {t : Expr}
    (h : ∀ q b c, t = .binary q b c → q.level ≠ p.level) :
    d.expr (.beside p true) t = d.expr (.beside p false) t := by
  cases t with
  | binary q b c =>
    rw [expr_binary_eq, expr_binary_eq d (.beside p false)]
    simp [Place.needsParens, h q b c rfl]
  | int v => exact expr_int_congr d rfl v
  | _ => rfl

/-- **A grafted operand continues the left one.** -/
theorem expr_graft (p : BinaryOp) (a : Expr) : ∀ t : Expr, d.expr .free (.graft p a t) =
    d.expr (.beside p false) a ++ " " ++ p.symbol ++ " " ++ d.expr (.beside p false) t
  | .binary q b c => by
    by_cases hq : q.level = p.level
    · obtain ⟨op, l, r, hg, hop⟩ := Expr.graft_top p a b
      have hleft : d.expr (.beside q false) (.graft p a b) = d.expr .free (.graft p a b) := by
        rw [hg]; exact expr_left_of_level_eq d (hop.trans hq.symm) l r
      rw [Expr.graft_binary, if_pos hq, expr_left_of_level_eq d hq, expr_free_binary, expr_free_binary,
        hleft, expr_graft p a b, expr_left_congr d hq b]
      simp only [String.append_assoc]
    · have h : ∀ q' b' c', Expr.binary q b c = .binary q' b' c' → q'.level ≠ p.level := by
        rintro _ _ _ ⟨⟩; exact hq
      rw [Expr.graft_of_level_ne h, expr_free_binary, expr_right_of_level_ne d h]
  | .hole | .int _ | .real _ | .str _ | .const .. | .param .. | .prop .. | .var .. | .unary ..
  | .assign .. | .call .. => by
    rw [Expr.graft_of_level_ne (by simp), expr_free_binary, expr_right_of_level_ne d (by simp)]

mutual

/-- **An expression and the regrouped one have the same text.** -/
theorem expr_regrouped (place : Place) : ∀ e : Expr, d.expr place e.regrouped = d.expr place e
  | .binary p l r => by
    obtain ⟨top, l', r', he, ht⟩ := Expr.regrouped_top p l r
    rw [he, expr_binary_eq, expr_binary_eq d place p, ht.needsParens, ← he, Expr.regrouped_binary]
    congr 1
    split_ifs with h
    · cases r with
      | binary q b c =>
        have hq := BinaryOp.level_eq_of_regroups (p := p) (q := q) h
        have hr : d.expr (.beside p true) (.binary q b c) = d.expr (.beside p false) (.binary q b c) := by
          rw [expr_binary_eq, expr_left_of_level_eq d hq]
          simp [Place.needsParens, hq, show p.regroups q = true from h, parenthesized]
        rw [expr_graft, expr_regrouped _ l, expr_regrouped _ (.binary q b c), expr_free_binary, hr]
      | _ => simp [Expr.mergesInto] at h
    · rw [expr_free_binary, expr_free_binary, expr_regrouped _ l, expr_regrouped _ r]
  | .unary op e => by
    have hw : wrapsOperand op e.regrouped = wrapsOperand op e := by
      cases e with
      | binary p l r => obtain ⟨_, _, _, he, _⟩ := Expr.regrouped_top p l r; rw [he]; rfl
      | _ => rfl
    rw [Expr.regrouped, expr, expr, hw, expr_regrouped _ e]
  | .call f type owner args note => by
    rw [Expr.regrouped, expr, expr, exprs_regroupedAll args]
  | .hole | .int _ | .real _ | .str _ | .const .. | .param .. | .prop .. | .var .. | .assign .. => rfl

theorem exprs_regroupedAll : ∀ es : List Expr, d.exprs (Expr.regroupedAll es) = d.exprs es
  | [] => rfl
  | e :: es => by
    rw [Expr.regroupedAll, exprs, exprs, expr_regrouped .free e, exprs_regroupedAll es]

end

end Dialect

/-! ## Settled expressions -/

namespace Expr

mutual

/-- Whether no right operand merges into its operator. -/
def isSettled : Expr → Bool
  | .unary _ e => e.isSettled
  | .binary p l r => !mergesInto p r && l.isSettled && r.isSettled
  | .call _ _ _ args _ => allSettled args
  | _ => true

/-- Whether all arguments are settled. -/
def allSettled : List Expr → Bool
  | [] => true
  | e :: r => e.isSettled && allSettled r

end

theorem isSettled_graft {p : BinaryOp} {a : Expr} (ha : a.isSettled) :
    ∀ {t : Expr}, t.isSettled → (graft p a t).isSettled
  | .binary q b c, ht => by
    simp only [isSettled, Bool.and_eq_true, Bool.not_eq_true'] at ht
    obtain ⟨⟨hm, hb⟩, hc⟩ := ht
    rw [graft_binary]
    split_ifs with h
    · simp [isSettled, hm, isSettled_graft ha hb, hc]
    · have hp : mergesInto p (.binary q b c) = false :=
        Bool.eq_false_iff.mpr fun hr => h (BinaryOp.level_eq_of_regroups hr)
      simp [isSettled, ha, hp, hm, hb, hc]
  | .hole, _ | .int _, _ | .real _, _ | .str _, _ | .const .., _ | .param .., _ | .prop .., _
  | .var .., _ | .assign .., _ => by simp [graft, isSettled, mergesInto, ha]
  | .unary .., ht | .call .., ht => by
    simp only [isSettled] at ht
    simp [graft, isSettled, mergesInto, ha, ht]

mutual

/-- **A regrouped expression is settled.** -/
theorem isSettled_regrouped : ∀ e : Expr, e.regrouped.isSettled
  | .binary p l r => by
    rw [regrouped_binary]
    split_ifs with h
    · exact isSettled_graft (isSettled_regrouped l) (isSettled_regrouped r)
    · have hm : mergesInto p r.regrouped = false := by
        cases r with
        | binary q b c =>
          obtain ⟨top, l', r', he, ht⟩ := regrouped_top q b c
          simp only [mergesInto] at h
          rw [he, mergesInto]
          rcases ht with rfl | ⟨rfl, rfl⟩
          · simpa using h
          · cases p <;> simp_all [BinaryOp.regroups]
        | _ => simp [regrouped, mergesInto]
      simp [isSettled, hm, isSettled_regrouped l, isSettled_regrouped r]
  | .unary op e => by rw [regrouped, isSettled]; exact isSettled_regrouped e
  | .call f type owner args note => by rw [regrouped, isSettled]; exact allSettled_regroupedAll args
  | .hole | .int _ | .real _ | .str _ | .const .. | .param .. | .prop .. | .var .. | .assign .. => rfl

theorem allSettled_regroupedAll : ∀ es : List Expr, allSettled (regroupedAll es)
  | [] => rfl
  | e :: es => by simp [regroupedAll, allSettled, isSettled_regrouped e, allSettled_regroupedAll es]

end

end Expr

end ScriptLift
