import ScriptLift.Proofs.Dialect.ReadBack

/-!
# Types of emitted expressions

The text of an expression is cut into lexemes, each leaf with its type, and read from the left. The
tree that comes out may have another type than the expression: a string is added to what a
difference starts with, and a skill is no skill any more once it was multiplied.

* `Lexeme.read`: the tree that lexemes spell, by the levels of the operators.
* `Dialect.lexemes`: an expression as lexemes; their texts make up its text.
* **`Dialect.read_lexemes`**: the lexemes of an expression read as the regrouped expression.
* `Expr.keepsTypeAt`: when an operator before a left edge keeps its type; `Expr.keepsType`: when all
  operators do.
* **`read_type_iff`**: every part of an expression reads as its type exactly then.
-/

namespace ScriptLift

/-! ## Trees of typed leaves -/

/-- Operations on leaves, which are known by text and type. -/
inductive Typed where
  | leaf (text type : String)
  | binary (op : BinaryOp) (left right : Typed)
  deriving Repr, DecidableEq, Inhabited

/-- The type of a tree. -/
def Typed.type : Typed → String
  | leaf _ t => t
  | binary op l r => Expr.binaryType op l.type r.type

/-- A leaf, an operator or a parenthesis. -/
inductive Lexeme where
  | leaf (text type : String)
  | op (op : BinaryOp)
  | lpar
  | rpar
  deriving Repr, DecidableEq, Inhabited

namespace Lexeme

/-- The text of a lexeme. -/
def text : Lexeme → String
  | leaf t _ => t
  | op q => " " ++ q.symbol ++ " "
  | lpar => "("
  | rpar => ")"

/-! ## Reading lexemes -/

/-- A part of a tree that is not finished. -/
inductive Frame where
  /-- A left operand and its operator. -/
  | left (t : Typed) (op : BinaryOp)
  /-- An open parenthesis. -/
  | group
  deriving Repr, DecidableEq, Inhabited

/-- Completes the parts that an operator of a level does not reach into. -/
def reduce (level : Nat) : List Frame → Typed → List Frame × Typed
  | .left a p :: s, t => if level ≤ p.level then reduce level s (.binary p a t) else (.left a p :: s, t)
  | s, t => (s, t)

/-- Closes the innermost parenthesis. -/
def close : List Frame × Typed → Option (List Frame × Option Typed)
  | (.group :: s, t) => some (s, some t)
  | _ => none

/-- Takes one lexeme; the operand just read is known, unless one is expected. -/
def step : List Frame × Option Typed → Lexeme → Option (List Frame × Option Typed)
  | (s, none), .leaf text type => some (s, some (.leaf text type))
  | (s, none), .lpar => some (.group :: s, none)
  | (s, some t), .op q => some (.left (reduce q.level s t).2 q :: (reduce q.level s t).1, none)
  | (s, some t), .rpar => close (reduce 0 s t)
  | _, _ => none

/-- Takes lexemes one by one. -/
def run (st : List Frame × Option Typed) : List Lexeme → Option (List Frame × Option Typed)
  | [] => some st
  | x :: xs => (step st x).bind fun st' => run st' xs

/-- The tree when no lexeme is left. -/
def finish : List Frame × Typed → Option Typed
  | ([], t) => some t
  | _ => none

/-- **The tree that lexemes spell**: operators associate to the left and bind by their level. -/
def read (xs : List Lexeme) : Option Typed :=
  (run ([], none) xs).bind fun st => st.2.bind fun t => finish (reduce 0 st.1 t)

theorem run_append (st : List Frame × Option Typed) (xs ys : List Lexeme) :
    run st (xs ++ ys) = (run st xs).bind fun st' => run st' ys := by
  induction xs generalizing st with
  | nil => rfl
  | cons x xs ih => simp [run, ih, Option.bind_assoc]

/-- No part on top of the stack is completed by an operator of a level. -/
def Stops (k : Nat) : List Frame → Prop
  | .left _ p :: _ => p.level < k
  | _ => True

theorem Stops.reduce {k : Nat} {s : List Frame} (h : Stops k s) (t : Typed) :
    reduce k s t = (s, t) := by
  cases s with
  | nil => rfl
  | cons f s =>
    cases f with
    | left a p => rw [Lexeme.reduce, if_neg (not_le.mpr h)]
    | group => rfl

theorem Stops.mono {k j : Nat} (hkj : k ≤ j) {s : List Frame} (h : Stops k s) : Stops j s := by
  cases s with
  | nil => trivial
  | cons f s =>
    cases f with
    | left a p => exact lt_of_lt_of_le h hkj
    | group => trivial

/-- **An operand has been read**: after its lexemes, an operator of level `k` or weaker finds the
stack as if the operand were complete. -/
def Reads (s : List Frame) (xs : List Lexeme) (t : Typed) (k : Nat) : Prop :=
  ∃ s' u, run (s, none) xs = some (s', some u) ∧ ∀ j ≤ k, reduce j s' u = reduce j s t

theorem Reads.leaf (s : List Frame) (text type : String) (k : Nat) :
    Reads s [.leaf text type] (.leaf text type) k :=
  ⟨s, .leaf text type, rfl, fun _ _ => rfl⟩

/-- An operand in parentheses. -/
theorem Reads.group {s : List Frame} {xs : List Lexeme} {t : Typed} {k : Nat}
    (h : Reads (.group :: s) xs t k) (j : Nat) : Reads s (.lpar :: (xs ++ [.rpar])) t j := by
  obtain ⟨s', u, hrun, hred⟩ := h
  refine ⟨s, t, ?_, fun _ _ => rfl⟩
  have hclose : step (s', some u) .rpar = some (s, some t) := by
    rw [step, hred 0 (Nat.zero_le k)]
    rfl
  calc run (s, none) (.lpar :: (xs ++ [.rpar]))
      = run (.group :: s, none) (xs ++ [.rpar]) := rfl
    _ = run (s', some u) [.rpar] := by rw [run_append, hrun, Option.bind_some]
    _ = some (s, some t) := by rw [run, hclose]; rfl

/-- Two operands and the operator between them. -/
theorem Reads.binary {s : List Frame} {op : BinaryOp} {xs ys : List Lexeme} {l r : Typed}
    {kl kr : Nat} (hs : Stops op.level s) (hl : Reads s xs l kl) (hkl : op.level ≤ kl)
    (hr : Reads (.left l op :: s) ys r kr) (hkr : op.level ≤ kr) :
    Reads s (xs ++ .op op :: ys) (.binary op l r) op.level := by
  obtain ⟨s₁, u₁, hrun₁, hred₁⟩ := hl
  obtain ⟨s₂, u₂, hrun₂, hred₂⟩ := hr
  have hstep : step (s₁, some u₁) (.op op) = some (.left l op :: s, none) := by
    rw [step, hred₁ _ hkl, hs.reduce]
  refine ⟨s₂, u₂, ?_, fun j hj => ?_⟩
  · rw [run_append, hrun₁, Option.bind_some, run, hstep, Option.bind_some, hrun₂]
  · rw [hred₂ j (hj.trans hkr), Lexeme.reduce, if_pos hj]

theorem Reads.read {xs : List Lexeme} {t : Typed} {k : Nat} (h : Reads [] xs t k) :
    Lexeme.read xs = some t := by
  obtain ⟨s, u, hrun, hred⟩ := h
  rw [Lexeme.read, hrun, Option.bind_some, Option.bind_some, hred 0 (Nat.zero_le k)]
  rfl

/-- Lexemes in parentheses, where asked for. -/
def grouped (yes : Bool) (xs : List Lexeme) : List Lexeme :=
  if yes then .lpar :: (xs ++ [.rpar]) else xs

end Lexeme

/-! ## Expressions as lexemes -/

namespace Expr

/-- A literal, a name or a call without owner. -/
def isAtom : Expr → Bool
  | .int _ | .real _ | .str _ | .const .. | .param .. | .prop .. | .var .. => true
  | .call _ _ owner _ _ => owner.isHole
  | _ => false

/-- Operations with two operands on literals, names and calls without owner. -/
def isTree : Expr → Bool
  | .binary _ l r => l.isTree && r.isTree
  | e => e.isAtom

end Expr

namespace Dialect

/-- An expression at a place as lexemes; what is no operation on two operands is a leaf. -/
def lexemes (d : Dialect) (place : Place) : Expr → List Lexeme
  | .binary op l r =>
    Lexeme.grouped (place.needsParens op)
      (d.lexemes (.beside op false) l ++ .op op :: d.lexemes (.beside op true) r)
  | e => [.leaf (d.expr place e) e.type]

/-- An expression at a place as a tree of typed leaves. -/
def typed (d : Dialect) (place : Place) : Expr → Typed
  | .binary op l r => .binary op (d.typed (.beside op false) l) (d.typed (.beside op true) r)
  | e => .leaf (d.expr place e) e.type

variable (d : Dialect)

theorem type_typed (place : Place) : ∀ e : Expr, (d.typed place e).type = e.type
  | .binary op l r => by rw [typed, Typed.type, type_typed _ l, type_typed _ r, Expr.type]
  | .hole | .int _ | .real _ | .str _ | .const .. | .param .. | .prop .. | .var .. | .unary ..
  | .assign .. | .call .. => rfl

theorem lexemes_free_binary (op : BinaryOp) (l r : Expr) : d.lexemes .free (.binary op l r) =
    d.lexemes (.beside op false) l ++ .op op :: d.lexemes (.beside op true) r := rfl

theorem lexemes_binary_eq (place : Place) (op : BinaryOp) (l r : Expr) :
    d.lexemes place (.binary op l r) =
      Lexeme.grouped (place.needsParens op) (d.lexemes .free (.binary op l r)) := rfl

/-- **The texts of the lexemes make up the text of the expression.** -/
theorem join_lexemes (place : Place) : ∀ e : Expr,
    String.join ((d.lexemes place e).map Lexeme.text) = d.expr place e
  | .binary op l r => by
    have hl := join_lexemes (.beside op false) l
    have hr := join_lexemes (.beside op true) r
    rw [expr_binary_eq, expr_free_binary, lexemes_binary_eq, lexemes_free_binary, ← hl, ← hr]
    cases place.needsParens op <;>
      simp [Lexeme.grouped, parenthesized, Lexeme.text, String.join_append, String.join_cons,
        String.append_assoc]
  | .hole | .int _ | .real _ | .str _ | .const .. | .param .. | .prop .. | .var .. | .unary ..
  | .assign .. | .call .. => by simp [lexemes, Lexeme.text]

theorem lexemes_leaf {place place' : Place} {e : Expr} (he : e.isBinary = false)
    (h : d.expr place e = d.expr place' e) : d.lexemes place e = d.lexemes place' e := by
  cases e with
  | binary => simp [Expr.isBinary] at he
  | _ => exact congrArg (fun text => [Lexeme.leaf text _]) h

theorem lexemes_left_congr {p q : BinaryOp} (h : p.level = q.level) (e : Expr) :
    d.lexemes (.beside p false) e = d.lexemes (.beside q false) e := by
  cases e with
  | binary op l r =>
    rw [lexemes_binary_eq, lexemes_binary_eq d (.beside q false)]
    simp [Place.needsParens, h]
  | _ => exact d.lexemes_leaf rfl (d.expr_left_congr h _)

theorem lexemes_left_of_level_eq {p q : BinaryOp} (h : q.level = p.level) (b c : Expr) :
    d.lexemes (.beside p false) (.binary q b c) = d.lexemes .free (.binary q b c) := by
  rw [lexemes_binary_eq]
  simp [Place.needsParens, h, Lexeme.grouped]

theorem lexemes_right_of_level_ne {p : BinaryOp} {t : Expr}
    (h : ∀ q b c, t = .binary q b c → q.level ≠ p.level) :
    d.lexemes (.beside p true) t = d.lexemes (.beside p false) t := by
  cases t with
  | binary q b c =>
    rw [lexemes_binary_eq, lexemes_binary_eq d (.beside p false)]
    simp [Place.needsParens, h q b c rfl]
  | _ => exact d.lexemes_leaf rfl (d.expr_right_of_level_ne h)

/-- A grafted operand continues the left one. -/
theorem lexemes_graft (p : BinaryOp) (a : Expr) : ∀ t : Expr, d.lexemes .free (.graft p a t) =
    d.lexemes (.beside p false) a ++ .op p :: d.lexemes (.beside p false) t
  | .binary q b c => by
    by_cases hq : q.level = p.level
    · obtain ⟨op, l, r, hg, hop⟩ := Expr.graft_top p a b
      have hleft : d.lexemes (.beside q false) (.graft p a b) = d.lexemes .free (.graft p a b) := by
        rw [hg]; exact lexemes_left_of_level_eq d (hop.trans hq.symm) l r
      rw [Expr.graft_binary, if_pos hq, lexemes_left_of_level_eq d hq, lexemes_free_binary,
        lexemes_free_binary, hleft, lexemes_graft p a b, lexemes_left_congr d hq b,
        List.append_assoc, List.cons_append]
    · have h : ∀ q' b' c', Expr.binary q b c = .binary q' b' c' → q'.level ≠ p.level := by
        rintro _ _ _ ⟨⟩; exact hq
      rw [Expr.graft_of_level_ne h, lexemes_free_binary, lexemes_right_of_level_ne d h]
  | .hole | .int _ | .real _ | .str _ | .const .. | .param .. | .prop .. | .var .. | .unary ..
  | .assign .. | .call .. => by
    rw [Expr.graft_of_level_ne (by simp), lexemes_free_binary, lexemes_right_of_level_ne d (by simp)]

/-- An expression and the regrouped one have the same lexemes. -/
theorem lexemes_regrouped (place : Place) : ∀ {e : Expr}, e.isTree →
    d.lexemes place e.regrouped = d.lexemes place e
  | .binary p l r, he => by
    simp only [Expr.isTree, Bool.and_eq_true] at he
    have hl (place : Place) := lexemes_regrouped place he.1
    have hr (place : Place) := lexemes_regrouped place he.2
    obtain ⟨top, l', r', htop, ht⟩ := Expr.regrouped_top p l r
    rw [htop, lexemes_binary_eq, lexemes_binary_eq d place p, ht.needsParens, ← htop,
      Expr.regrouped_binary]
    congr 1
    split_ifs with h
    · cases r with
      | binary q b c =>
        have hq := BinaryOp.level_eq_of_regroups (p := p) (q := q) h
        have hside : d.lexemes (.beside p true) (.binary q b c) =
            d.lexemes (.beside p false) (.binary q b c) := by
          rw [lexemes_binary_eq, lexemes_left_of_level_eq d hq]
          simp [Place.needsParens, hq, show p.regroups q = true from h, Lexeme.grouped]
        rw [lexemes_graft, hl, hr, lexemes_free_binary, hside]
      | _ => simp [Expr.mergesInto] at h
    · rw [lexemes_free_binary, lexemes_free_binary, hl, hr]
  | .call f type owner args note, _ => by
    have htext := d.expr_regrouped place (.call f type owner args note)
    rw [Expr.regrouped] at htext ⊢
    simp only [lexemes, htext, Expr.type]
  | .unary .., he => by simp [Expr.isTree, Expr.isAtom] at he
  | .hole, _ | .int _, _ | .real _, _ | .str _, _ | .const .., _ | .param .., _ | .prop .., _
  | .var .., _ | .assign .., _ => rfl

/-- **The lexemes of a settled expression read as that expression**, above any stack that its
operator leaves alone. -/
theorem reads_lexemes : ∀ {e : Expr}, e.isSettled → ∀ (place : Place) {s : List Lexeme.Frame},
    (∀ op l r, e = .binary op l r → place.needsParens op = false → Lexeme.Stops op.level s) →
      Lexeme.Reads s (d.lexemes place e) (d.typed place e) (strength place e)
  | .binary op l r, hs, place, s, hstops => by
    simp only [Expr.isSettled, Bool.and_eq_true, Bool.not_eq_true'] at hs
    obtain ⟨⟨hm, hsl⟩, hsr⟩ := hs
    have hfree : ∀ {s}, Lexeme.Stops op.level s →
        Lexeme.Reads s (d.lexemes .free (.binary op l r)) (d.typed place (.binary op l r)) op.level := by
      intro s hstop
      have hleft := reads_lexemes hsl (.beside op false) (s := s) (by
        rintro q b c rfl hq
        have := level_le_strength op false (.binary q b c)
        rw [strength, hq] at this
        exact hstop.mono this)
      have hright := reads_lexemes hsr (.beside op true)
        (s := .left (d.typed (.beside op false) l) op :: s) (by
          -- A right operand of the same level stands in parentheses, since it does not merge.
          rintro q b c rfl hq
          simp only [Expr.mergesInto] at hm
          simp only [Place.needsParens, hm] at hq
          show op.level < q.level
          split_ifs at hq with heq
          · simp at hq
          · simp at hq
            omega)
      rw [lexemes_free_binary, typed]
      exact .binary hstop hleft (level_le_strength op false l) hright (level_le_strength op true r)
    rw [lexemes_binary_eq, strength]
    by_cases hp : place.needsParens op
    · rw [hp, if_pos rfl]
      exact (hfree (s := .group :: s) trivial).group 10
    · rw [Bool.not_eq_true] at hp
      rw [hp, if_neg Bool.false_ne_true]
      exact hfree (hstops op l r rfl hp)
  | .hole, _, place, s, _ | .int _, _, place, s, _ | .real _, _, place, s, _
  | .str _, _, place, s, _ | .const .., _, place, s, _ | .param .., _, place, s, _
  | .prop .., _, place, s, _ | .var .., _, place, s, _ | .unary .., _, place, s, _
  | .assign .., _, place, s, _ | .call .., _, place, s, _ => .leaf s _ _ _

/-- **The lexemes of an expression read as the regrouped expression.** -/
theorem read_lexemes {e : Expr} (he : e.isTree) :
    Lexeme.read (d.lexemes .free e) = some (d.typed .free e.regrouped) := by
  rw [← d.lexemes_regrouped .free he]
  exact (d.reads_lexemes (Expr.isSettled_regrouped e) .free (s := []) fun _ _ _ _ _ => trivial).read

end Dialect

/-! ## Types along a left edge -/

namespace Expr

/-- The operators of a level on the left edge of an expression, outermost first, with the types of
their right operands. -/
def edge (k : Nat) : Expr → List (BinaryOp × String)
  | .binary q b c => if q.level = k then (q, c.type) :: edge k b else []
  | _ => []

/-- The type of what stands at the inner end of the left edge of an expression. -/
def headType (k : Nat) : Expr → String
  | .binary q b c => if q.level = k then headType k b else (binary q b c).type
  | e => e.type

/-- The type of operations on a left operand of a type, outermost first. -/
def typeAlong (left : String) : List (BinaryOp × String) → String
  | [] => left
  | (q, t) :: ys => binaryType q (typeAlong left ys) t

theorem type_eq_typeAlong (k : Nat) : ∀ e : Expr, e.type = typeAlong (headType k e) (edge k e)
  | .binary q b c => by
    rw [headType, edge]
    split_ifs
    · rw [typeAlong, ← type_eq_typeAlong k b, type]
    · rfl
  | .hole | .int _ | .real _ | .str _ | .const .. | .param .. | .prop .. | .var .. | .unary ..
  | .assign .. | .call .. => rfl

theorem type_graft (p : BinaryOp) (a : Expr) : ∀ t : Expr, (graft p a t).type =
    typeAlong (binaryType p a.type (headType p.level t)) (edge p.level t)
  | .binary q b c => by
    rw [graft, headType, edge]
    split_ifs
    · rw [typeAlong, ← type_graft p a b, type]
    · rfl
  | .hole | .int _ | .real _ | .str _ | .const .. | .param .. | .prop .. | .var .. | .unary ..
  | .assign .. | .call .. => rfl

theorem level_of_mem_edge {k : Nat} : ∀ {e : Expr}, ∀ y ∈ edge k e, y.1.level = k
  | .binary q b c => by
    rw [edge]
    split_ifs with h
    · intro y hy
      rcases List.mem_cons.mp hy with rfl | hy
      · exact h
      · exact level_of_mem_edge y hy
    · simp
  | .hole | .int _ | .real _ | .str _ | .const .. | .param .. | .prop .. | .var .. | .unary ..
  | .assign .. | .call .. => by simp [edge]

/-- Whether what comes after the last `stop` hides the left operand, or else the left operand does
no harm. -/
def shielded (stop : BinaryOp) (harmless : Bool) (hides : String → Bool) :
    List (BinaryOp × String) → Bool
  | [] => true
  | (q, t) :: ys => if q = stop then harmless else hides t || shielded stop harmless hides ys

/-- Whether an operator before a left edge keeps its type. The left operand has the type `left`, and
the edge starts at an operand of the type `head`. -/
def keepsTypeAt (p : BinaryOp) (left head : String) : List (BinaryOp × String) → Bool
  | [] => true
  | (q, t) :: ys =>
    match p, q with
    | .add, .sub =>
      left != "string" && t == "int" && typeAlong (binaryType .add left head) ys == "int"
    | .add, _ => shielded .sub (left != "string") (· == "string") ((q, t) :: ys)
    | .mul, _ => left != "SKILL" && shielded .mod (left == "int") (· != "int") ((q, t) :: ys)
    | _, _ => true

/-! ## Operators and types -/

theorem binaryType_add (l r : String) : binaryType .add l r =
    if l == "string" || r == "string" then "string" else "int" := rfl

/-- A difference, a product or a quotient. -/
theorem binaryType_arith {op : BinaryOp} (h : op = .sub ∨ op = .mul ∨ op = .div) (l r : String) :
    binaryType op l r =
      if l == "SKILL" then "SKILL_SHORT" else if l == "int" && r == "int" then "int" else "double" := by
  rcases h with rfl | rfl | rfl <;> rfl

theorem binaryType_add_eq_string {l r : String} :
    binaryType .add l r = "string" ↔ l = "string" ∨ r = "string" := by
  by_cases h : l = "string" ∨ r = "string" <;> simp [binaryType_add, h]

theorem binaryType_add_of_ne {l r : String} (hl : l ≠ "string") (hr : r ≠ "string") :
    binaryType .add l r = "int" := by
  simp [binaryType_add, hl, hr]

theorem binaryType_eq_int {op : BinaryOp} (h : op = .sub ∨ op = .mul ∨ op = .div) {l r : String} :
    binaryType op l r = "int" ↔ l = "int" ∧ r = "int" := by
  rw [binaryType_arith h]
  by_cases hl : l = "SKILL"
  · simp [hl]
  · by_cases hlr : l = "int" ∧ r = "int" <;> simp [hl, hlr]

theorem binaryType_sub_ne_string (l r : String) : binaryType .sub l r ≠ "string" := by
  rw [binaryType_arith (.inl rfl)]
  split_ifs <;> decide

theorem binaryType_ne_skill (op : BinaryOp) (l r : String) : binaryType op l r ≠ "SKILL" := by
  unfold binaryType
  split <;> (try split_ifs) <;> decide

theorem binaryType_mul_ne_short {l : String} (hl : l ≠ "SKILL") (r : String) :
    binaryType .mul l r ≠ "SKILL_SHORT" := by
  simp only [binaryType_arith (.inr (.inl rfl)), beq_iff_eq, hl, if_false]
  split_ifs <;> decide

theorem typeAlong_ne_skill (p : BinaryOp) (l r : String) (ys : List (BinaryOp × String)) :
    typeAlong (binaryType p l r) ys ≠ "SKILL" := by
  cases ys with
  | nil => exact binaryType_ne_skill p l r
  | cons y ys => exact binaryType_ne_skill y.1 _ y.2

/-- Two sums have the same type when both are strings or none is. -/
theorem binaryType_add_inj {l r l' r' : String} : binaryType .add l r = binaryType .add l' r' ↔
    (binaryType .add l r = "string" ↔ binaryType .add l' r' = "string") := by
  by_cases h : l = "string" ∨ r = "string" <;> by_cases h' : l' = "string" ∨ r' = "string" <;>
    simp [binaryType_add, h, h']

/-- Two products of no skills have the same type when both are integers or none is. -/
theorem binaryType_mul_inj {l r l' r' : String} (hl : l ≠ "SKILL") (hl' : l' ≠ "SKILL") :
    binaryType .mul l r = binaryType .mul l' r' ↔
      (binaryType .mul l r = "int" ↔ binaryType .mul l' r' = "int") := by
  by_cases h : l = "int" ∧ r = "int" <;> by_cases h' : l' = "int" ∧ r' = "int" <;>
    simp [binaryType_arith (.inr (.inl rfl)), hl, hl', h, h']

/-- **A string on the left** is seen at the end of a row of sums and differences exactly when it is
seen through the row. -/
theorem shielded_sum (left head : String) {ys : List (BinaryOp × String)}
    (h : ∀ y ∈ ys, y.1.level = BinaryOp.add.level) :
    shielded .sub (left != "string") (· == "string") ys ↔
      (typeAlong (binaryType .add left head) ys = "string" ↔
        left = "string" ∨ typeAlong head ys = "string") := by
  induction ys with
  | nil => simp [shielded, typeAlong, binaryType_add_eq_string]
  | cons y ys ih =>
    obtain ⟨q, t⟩ := y
    have ih := ih fun y hy => h y (List.mem_cons_of_mem _ hy)
    have hq : q.level = BinaryOp.add.level := h (q, t) List.mem_cons_self
    cases q <;> simp only [BinaryOp.level, reduceCtorEq] at hq
    all_goals try omega
    case add =>
      simp only [shielded, reduceCtorEq, if_false, Bool.or_eq_true, beq_iff_eq, ih, typeAlong,
        binaryType_add_eq_string]
      by_cases ht : t = "string" <;> simp [ht]
    case sub => simp [shielded, typeAlong, binaryType_sub_ne_string]

/-- **No integer on the left** is seen at the end of a row of products, quotients and remainders
exactly when it is seen through the row. -/
theorem shielded_product (left head : String) {ys : List (BinaryOp × String)}
    (h : ∀ y ∈ ys, y.1.level = BinaryOp.mul.level) :
    shielded .mod (left == "int") (· != "int") ys ↔
      (typeAlong (binaryType .mul left head) ys = "int" ↔
        left = "int" ∧ typeAlong head ys = "int") := by
  induction ys with
  | nil => simp [shielded, typeAlong, binaryType_eq_int]
  | cons y ys ih =>
    obtain ⟨q, t⟩ := y
    have ih := ih fun y hy => h y (List.mem_cons_of_mem _ hy)
    have hq : q.level = BinaryOp.mul.level := h (q, t) List.mem_cons_self
    cases q <;> simp only [BinaryOp.level, reduceCtorEq] at hq
    all_goals try omega
    case mod =>
      have hmod (l r : String) : binaryType .mod l r = "int" := rfl
      simp [shielded, typeAlong, hmod]
    all_goals
      simp only [shielded, reduceCtorEq, if_false, Bool.or_eq_true, bne_iff_ne, ih, typeAlong,
        binaryType_eq_int, true_or, or_true]
      by_cases ht : t = "int" <;> simp [ht]

/-- **When an operator before a left edge keeps its type.** -/
theorem keepsTypeAt_iff {p : BinaryOp} {ys : List (BinaryOp × String)}
    (hlevel : ∀ y ∈ ys, y.1.level = p.level) (htop : ∀ y ∈ ys.head?, p.regroups y.1)
    (left head : String) : keepsTypeAt p left head ys ↔
      typeAlong (binaryType p left head) ys = binaryType p left (typeAlong head ys) := by
  cases ys with
  | nil => simp [keepsTypeAt, typeAlong]
  | cons y ys =>
    obtain ⟨q, t⟩ := y
    have hq : p.regroups q := htop (q, t) (by simp)
    cases p <;> simp only [BinaryOp.regroups, Bool.false_eq_true, Bool.or_eq_true, beq_iff_eq] at hq
    case add =>
      rcases hq with rfl | rfl
      · rw [keepsTypeAt, shielded_sum left head hlevel, typeAlong, binaryType_add_inj,
          binaryType_add_eq_string (l := left), ← typeAlong]
        simp
      · by_cases hs : left = "string"
        · have := binaryType_sub_ne_string (typeAlong (binaryType .add left head) ys) t
          simpa [keepsTypeAt, typeAlong, hs, binaryType_add] using this
        · rw [typeAlong, typeAlong, binaryType_add_of_ne hs (binaryType_sub_ne_string _ t),
            binaryType_eq_int (.inl rfl)]
          simp [keepsTypeAt, hs, and_comm]
    case mul =>
      subst hq
      have hne := typeAlong_ne_skill .mul left head ys
      by_cases hs : left = "SKILL"
      · have hskill : binaryType .mul left (typeAlong head ((.mul, t) :: ys)) = "SKILL_SHORT" := by
          simp [binaryType_arith (.inr (.inl rfl)), hs]
        rw [hskill, typeAlong]
        simpa [keepsTypeAt, hs] using binaryType_mul_ne_short hne t
      · rw [typeAlong, binaryType_mul_inj hne hs, ← typeAlong,
          binaryType_eq_int (.inr (.inl rfl)) (l := left), ← shielded_product left head hlevel]
        simp [keepsTypeAt, hs]
    all_goals subst hq; simp [keepsTypeAt, typeAlong, binaryType]

/-! ## Expressions that keep their types -/

/-- Whether every operator that merges with its right operand keeps its type before the left edge of
that operand, as it is read. -/
def keepsType : Expr → Bool
  | .binary p l r =>
    (!mergesInto p r ||
        keepsTypeAt p l.type (headType p.level r.regrouped) (edge p.level r.regrouped)) &&
      l.keepsType && r.keepsType
  | _ => true

/-- An expression and the operands in it. -/
def parts : Expr → List Expr
  | .binary op l r => .binary op l r :: (l.parts ++ r.parts)
  | e => [e]

theorem mem_parts (e : Expr) : e ∈ e.parts := by
  cases e <;> simp [parts]

theorem isTree_of_mem_parts : ∀ {e u : Expr}, e.isTree → u ∈ e.parts → u.isTree
  | .binary op l r, u, he, hu => by
    rw [parts, List.mem_cons, List.mem_append] at hu
    rcases hu with rfl | hu | hu
    · exact he
    · simp only [isTree, Bool.and_eq_true] at he
      exact isTree_of_mem_parts he.1 hu
    · simp only [isTree, Bool.and_eq_true] at he
      exact isTree_of_mem_parts he.2 hu
  | .hole, u, he, hu | .int _, u, he, hu | .real _, u, he, hu | .str _, u, he, hu
  | .const .., u, he, hu | .param .., u, he, hu | .prop .., u, he, hu | .var .., u, he, hu
  | .unary .., u, he, hu | .assign .., u, he, hu | .call .., u, he, hu => by
    obtain rfl : u = _ := by simpa [parts] using hu
    exact he

/-- The operator on the left edge of a regrouped operand that merges. -/
theorem regroups_edge_regrouped {p : BinaryOp} {r : Expr} (h : mergesInto p r) :
    ∀ y ∈ (edge p.level r.regrouped).head?, p.regroups y.1 := by
  cases r with
  | binary q b c =>
    have hq : p.regroups q := h
    obtain ⟨top, b', c', he, ht⟩ := regrouped_top q b c
    have hlevel : top.level = p.level := ht.level.trans (BinaryOp.level_eq_of_regroups hq)
    rw [he, edge, if_pos hlevel]
    rintro _ ⟨⟩
    rcases ht with rfl | ⟨rfl, rfl⟩
    · exact hq
    · cases p <;> simp_all [BinaryOp.regroups]
  | _ => simp [mergesInto] at h

/-- An operation on operands that keep their types keeps its own exactly under the condition at its
operator. -/
theorem type_regrouped_iff {p : BinaryOp} {l r : Expr} (hl : l.regrouped.type = l.type)
    (hr : r.regrouped.type = r.type) : (binary p l r).regrouped.type = (binary p l r).type ↔
      (!mergesInto p r ||
        keepsTypeAt p l.type (headType p.level r.regrouped) (edge p.level r.regrouped)) := by
  rw [regrouped]
  split_ifs with h
  · rw [type_graft, hl, type, ← hr, type_eq_typeAlong p.level r.regrouped, h, Bool.not_true,
      Bool.false_or, keepsTypeAt_iff level_of_mem_edge (regroups_edge_regrouped h)]
  · simp [type, hl, hr, h]

/-- **All parts of an expression keep their types when regrouped** exactly if every merging operator
does. -/
theorem type_regrouped_parts_iff : ∀ {e : Expr}, e.isTree →
    ((∀ u ∈ e.parts, u.regrouped.type = u.type) ↔ e.keepsType)
  | .binary p l r, he => by
    simp only [isTree, Bool.and_eq_true] at he
    have hl := type_regrouped_parts_iff he.1
    have hr := type_regrouped_parts_iff he.2
    simp only [parts, List.forall_mem_cons, List.forall_mem_append, hl, hr, keepsType,
      Bool.and_eq_true]
    constructor
    · rintro ⟨h, hkl, hkr⟩
      have hiff := type_regrouped_iff (p := p) (hl.mpr hkl l l.mem_parts) (hr.mpr hkr r r.mem_parts)
      exact ⟨⟨hiff.mp h, hkl⟩, hkr⟩
    · rintro ⟨⟨h, hkl⟩, hkr⟩
      have hiff := type_regrouped_iff (p := p) (hl.mpr hkl l l.mem_parts) (hr.mpr hkr r r.mem_parts)
      exact ⟨hiff.mpr h, hkl, hkr⟩
  | .unary .., he => by simp [isTree, isAtom] at he
  | .hole, _ | .int _, _ | .real _, _ | .str _, _ | .const .., _ | .param .., _ | .prop .., _
  | .var .., _ | .assign .., _ | .call .., _ => by simp [parts, keepsType, regrouped, type]

end Expr

/-! ## Reading with types -/

/-- **The text of an expression has its type**: the tree that its lexemes spell does. -/
def Dialect.KeepsType (d : Dialect) (e : Expr) : Prop :=
  ∃ t, Lexeme.read (d.lexemes .free e) = some t ∧ t.type = e.type

theorem Dialect.keepsType_iff (d : Dialect) {e : Expr} (he : e.isTree) :
    d.KeepsType e ↔ e.regrouped.type = e.type := by
  simp [KeepsType, d.read_lexemes he, d.type_typed]

/-- **When the text of an expression has its type.** The lexemes make up the text, they always spell
a tree, and every part of the expression reads as its type exactly if every operator that merges with
its right operand keeps its type there. -/
theorem read_type_iff (d : Dialect) (e : Expr) (he : e.isTree) :
    String.join ((d.lexemes .free e).map Lexeme.text) = d.expr .free e ∧
    (∃ t, Lexeme.read (d.lexemes .free e) = some t) ∧
    ((∀ u ∈ e.parts, d.KeepsType u) ↔ e.keepsType) := by
  refine ⟨d.join_lexemes .free e, ⟨_, d.read_lexemes he⟩, ?_⟩
  rw [← Expr.type_regrouped_parts_iff he]
  exact forall₂_congr fun u hu => d.keepsType_iff (Expr.isTree_of_mem_parts he hu)

/-- A sum of numbers takes a difference along and keeps its type, a sum with a string does not. -/
theorem read_type_sums :
    Dialect.default.KeepsType (.binary .add (.param "a" "int")
      (.binary .sub (.call "f" "int" .hole [.str "x"] "") (.var "b" "int" .hole))) ∧
    ¬ ∀ u ∈ (Expr.binary .add (.str "s") (.binary .sub (.param "a" "int") (.param "b" "int"))).parts,
      Dialect.default.KeepsType u := by
  refine ⟨(read_type_iff Dialect.default _ (by decide)).2.2.mpr (by decide) _ (Expr.mem_parts _), ?_⟩
  rw [(read_type_iff Dialect.default _ (by decide)).2.2]
  decide

end ScriptLift
