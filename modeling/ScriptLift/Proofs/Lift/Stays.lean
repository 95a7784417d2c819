import ScriptLift.Proofs.Lift.Address

/-!
# Statements that stay

While a class is lifted its blocks grow at their ends, selects get further arms, and expression
statements are taken back. No other statement moves or goes.

* `Kind`: the kinds of statements other than expression statements.
* `Stmt.count`, `handlerCount`: how often a kind occurs in a tree, at any depth.
* `handlerCount_modifyBlock`: the count after one block was changed.
* `HandlersStay`: every block and every statement other than an expression statement stays at its address.
* **`handlersStay_modifyBlock`**: changing one block keeps all others and what is in them.
-/

namespace ScriptLift

/-- The kinds of statements other than expression statements. -/
inductive Kind where
  | ifElse
  | whileLoop
  | forLoop
  | select
  | ret
  | brk
  | super
  deriving Repr, DecidableEq, Inhabited

namespace Stmt

/-- The kind of a statement. -/
def kind? : Stmt → Option Kind
  | ifElse .. => some .ifElse
  | whileLoop .. => some .whileLoop
  | forLoop .. => some .forLoop
  | select .. => some .select
  | ret => some .ret
  | brk => some .brk
  | super _ => some .super
  | _ => none

/-- A statement without its bodies. -/
def bare : Stmt → Stmt
  | ifElse c _ _ => ifElse c [] []
  | whileLoop c _ => whileLoop c []
  | forLoop i c u _ => forLoop i c u []
  | select e _ => select e []
  | block _ => block []
  | s => s

/-- The number of arms. -/
def arms : Stmt → Nat
  | select _ cases => cases.length
  | _ => 0

/-! ## Counting -/

mutual

/-- How often a kind occurs in a statement, at any depth. -/
def count (k : Kind) : Stmt → Nat
  | ifElse _ yes no => (if k = .ifElse then 1 else 0) + (countAll k yes + countAll k no)
  | whileLoop _ b => (if k = .whileLoop then 1 else 0) + countAll k b
  | forLoop _ _ _ b => (if k = .forLoop then 1 else 0) + countAll k b
  | select _ cases => (if k = .select then 1 else 0) + countCases k cases
  | ret => if k = .ret then 1 else 0
  | brk => if k = .brk then 1 else 0
  | super _ => if k = .super then 1 else 0
  | block b => countAll k b
  | missing | eval _ => 0

/-- How often a kind occurs in a body, at any depth. -/
def countAll (k : Kind) : List Stmt → Nat
  | [] => 0
  | s :: r => s.count k + countAll k r

/-- How often a kind occurs in arms, at any depth. -/
def countCases (k : Kind) : List Case → Nat
  | [] => 0
  | .mk _ b :: r => countAll k b + countCases k r

end

variable (k : Kind)

theorem countAll_append (b c : List Stmt) : countAll k (b ++ c) = countAll k b + countAll k c := by
  induction b with
  | nil => simp [countAll]
  | cons s b ih =>
    simp only [List.cons_append, countAll, ih]
    omega

theorem countCases_append (b c : List Case) :
    countCases k (b ++ c) = countCases k b + countCases k c := by
  induction b with
  | nil => simp [countCases]
  | cons arm b ih =>
    cases arm
    simp only [List.cons_append, countCases, ih]
    omega

variable {k}

theorem countAll_modify {b : List Stmt} {i : Nat} {s : Stmt} (hs : b[i]? = some s) (f : Stmt → Stmt) :
    countAll k (b.modify i f) + s.count k = countAll k b + (f s).count k := by
  induction b generalizing i with
  | nil => simp at hs
  | cons x b ih =>
    cases i with
    | zero =>
      obtain rfl : x = s := by simpa using hs
      simp only [List.modify_zero_cons, countAll]
      omega
    | succ i =>
      have := ih (i := i) (by simpa using hs)
      simp only [List.modify_succ_cons, countAll]
      omega

theorem countCases_modify {b : List Case} {i : Nat} {arm : Case} (hs : b[i]? = some arm)
    (f : List Stmt → List Stmt) :
    countCases k (b.modify i (Case.modifyBody f)) + countAll k arm.body =
      countCases k b + countAll k (f arm.body) := by
  induction b generalizing i with
  | nil => simp at hs
  | cons x b ih =>
    obtain ⟨v, c⟩ := x
    cases i with
    | zero =>
      obtain rfl : Case.mk v c = arm := by simpa using hs
      simp only [List.modify_zero_cons, Case.modifyBody, countCases, Case.body]
      omega
    | succ i =>
      have := ih (i := i) (by simpa using hs)
      simp only [List.modify_succ_cons, countCases]
      omega

theorem count_modifyBody {s : Stmt} {slot : Slot} {c : List Stmt} (hc : s.body? slot = some c)
    (f : List Stmt → List Stmt) :
    (s.modifyBody f slot).count k + countAll k c = s.count k + countAll k (f c) := by
  cases slot <;> cases s <;> simp only [body?, reduceCtorEq, Option.some.injEq] at hc
  case arm.select n e cases =>
    obtain ⟨arm, harm, rfl⟩ := Option.map_eq_some_iff.mp hc
    have := countCases_modify (k := k) harm f
    simp only [modifyBody, count]
    omega
  all_goals
    subst hc
    simp only [modifyBody, count]
    omega

theorem count_addCase (s : Stmt) (v : Expr) : (s.addCase (.mk v [])).count k = s.count k := by
  cases s <;> try rfl
  simp [addCase, count, countCases_append, countCases, countAll]

theorem countAll_modifyPath {p : List (Nat × Slot)} {b c : List Stmt} (hc : getPath? p b = some c)
    (f : List Stmt → List Stmt) :
    countAll k (modifyPath f p b) + countAll k c = countAll k b + countAll k (f c) := by
  induction p generalizing b with
  | nil =>
    obtain rfl := Option.some.inj hc
    exact Nat.add_comm _ _
  | cons x p ih =>
    obtain ⟨i, slot⟩ := x
    simp only [getPath?_cons, Option.bind_eq_some_iff] at hc
    obtain ⟨d, ⟨s, hs, hd⟩, hc⟩ := hc
    have h₁ := countAll_modify (k := k) hs (modifyBody (modifyPath f p) slot)
    have h₂ := count_modifyBody (k := k) hd (modifyPath f p)
    have h₃ := ih hc
    rw [modifyPath_cons]
    omega

end Stmt

/-- How often a kind occurs in the bodies of handlers, at any depth. -/
def handlerCount (k : Kind) (hs : List Handler) : Nat :=
  (hs.map fun h => Stmt.countAll k h.body).sum

theorem handlerCount_append (k : Kind) (hs hs' : List Handler) :
    handlerCount k (hs ++ hs') = handlerCount k hs + handlerCount k hs' := by
  simp [handlerCount]

theorem handlerCount_congr {k : Kind} {hs hs' : List Handler}
    (h : hs'.map Handler.body = hs.map Handler.body) : handlerCount k hs' = handlerCount k hs := by
  have := congrArg (fun bs => (bs.map (Stmt.countAll k)).sum) h
  simpa [handlerCount, Function.comp_def] using this

theorem handlerCount_modify {k : Kind} {hs : List Handler} {n : Nat} {h : Handler} (hn : hs[n]? = some h)
    (f : Handler → Handler) : handlerCount k (hs.modify n f) + Stmt.countAll k h.body =
      handlerCount k hs + Stmt.countAll k (f h).body := by
  unfold handlerCount
  induction hs generalizing n with
  | nil => simp at hn
  | cons x hs ih =>
    cases n with
    | zero =>
      obtain rfl : x = h := by simpa using hn
      simp only [List.modify_zero_cons, List.map_cons, List.sum_cons]
      omega
    | succ n =>
      have := ih (n := n) (by simpa using hn)
      simp only [List.modify_succ_cons, List.map_cons, List.sum_cons]
      omega

/-- The count after a block was changed differs as the block does. -/
theorem handlerCount_modifyBlock {k : Kind} {hs : List Handler} {a : Address} {b : List Stmt}
    (hb : getBlock? hs a = some b) (f : List Stmt → List Stmt) :
    handlerCount k (modifyBlock hs a f) + Stmt.countAll k b =
      handlerCount k hs + Stmt.countAll k (f b) := by
  obtain ⟨h, hh, hb⟩ := Option.bind_eq_some_iff.mp hb
  have h₁ := handlerCount_modify (k := k) hh fun h => { h with body := modifyPath f a.path h.body }
  have h₂ := Stmt.countAll_modifyPath (k := k) hb f
  simp only at h₁
  unfold modifyBlock
  omega

/-! ## Staying at an address -/

namespace Stmt

/-- A statement with more in it: its head is the same, and it has at least as many arms. -/
structure Grows (s s' : Stmt) : Prop where
  bare : s'.bare = s.bare
  arms : s.arms ≤ s'.arms

theorem Grows.refl (s : Stmt) : Grows s s := ⟨rfl, Nat.le_refl _⟩

theorem Grows.trans {s s' s'' : Stmt} (h : Grows s s') (h' : Grows s' s'') : Grows s s'' :=
  ⟨h'.bare.trans h.bare, h.arms.trans h'.arms⟩

theorem grows_modifyBody (s : Stmt) (f : List Stmt → List Stmt) (slot : Slot) :
    Grows s (s.modifyBody f slot) := by
  cases slot <;> cases s <;> exact ⟨by simp [modifyBody, Stmt.bare], by simp [modifyBody, Stmt.arms]⟩

theorem grows_addCase (s : Stmt) (arm : Case) : Grows s (s.addCase arm) := by
  cases s <;> exact ⟨by simp [addCase, Stmt.bare], by simp [addCase, Stmt.arms]⟩

theorem body?_modifyBody_ne {slot slot' : Slot} (h : slot ≠ slot') (f : List Stmt → List Stmt)
    (s : Stmt) : (s.modifyBody f slot).body? slot' = s.body? slot' := by
  cases slot <;> cases slot' <;> cases s <;> try first | rfl | exact absurd rfl h
  rename_i n m e cases
  have hn : n ≠ m := fun e => h (congrArg Slot.arm e)
  simp [modifyBody_arm, body?_arm, hn]

theorem body?_addCase {s : Stmt} {slot : Slot} {c : List Stmt} (hc : s.body? slot = some c)
    (arm : Case) : (s.addCase arm).body? slot = some c := by
  cases s <;> try exact hc
  rename_i e cases
  cases slot <;> try exact hc
  rename_i n
  obtain ⟨x, hx, rfl⟩ := Option.map_eq_some_iff.mp hc
  have hn : n < cases.length := (List.getElem?_eq_some_iff.mp hx).1
  simp [addCase, body?_arm, List.getElem?_append_left hn, hx]

theorem kind?_of_body? {s : Stmt} {slot : Slot} {c : List Stmt} (hc : s.body? slot = some c) :
    s.kind?.isSome := by
  cases slot <;> cases s <;> first | rfl | cases hc

end Stmt

/-- The statements of a body other than expression statements stay where they are. -/
def Stays (b b' : List Stmt) : Prop :=
  ∀ (i : Nat) (s : Stmt), b[i]? = some s → s.kind?.isSome → ∃ s', b'[i]? = some s' ∧ s.Grows s'

theorem Stays.refl (b : List Stmt) : Stays b b := fun _ s hs _ => ⟨s, hs, .refl s⟩

theorem Stmt.Grows.kind? {s s' : Stmt} (h : s.Grows s') : s'.kind? = s.kind? := by
  have := h.bare
  cases s <;> cases s' <;> simp_all [Stmt.bare, Stmt.kind?]

theorem Stays.trans {b b' b'' : List Stmt} (h : Stays b b') (h' : Stays b' b'') : Stays b b'' := by
  intro i s hs hk
  obtain ⟨s', hs', hg⟩ := h i s hs hk
  obtain ⟨s'', hs'', hg'⟩ := h' i s' hs' (hg.kind? ▸ hk)
  exact ⟨s'', hs'', hg.trans hg'⟩

/-- A change of a block under which its statements stay, with all that is in their bodies. -/
def StaysWhole (b b' : List Stmt) : Prop :=
  ∀ (i : Nat) (s : Stmt), b[i]? = some s → s.kind?.isSome →
    ∃ s', b'[i]? = some s' ∧ s.Grows s' ∧ ∀ slot c, s.body? slot = some c → s'.body? slot = some c

theorem staysWhole_append (b : List Stmt) (s : Stmt) : StaysWhole b (b ++ [s]) := by
  intro i x hx _
  have hi : i < b.length := (List.getElem?_eq_some_iff.mp hx).1
  exact ⟨x, by rw [List.getElem?_append_left hi, hx], .refl x, fun _ _ h => h⟩

theorem staysWhole_dropLast (b : List Stmt) (e : Expr) : StaysWhole (b ++ [.eval e]) b := by
  intro i x hx hk
  by_cases hi : i < b.length
  · rw [List.getElem?_append_left hi] at hx
    exact ⟨x, hx, .refl x, fun _ _ h => h⟩
  · rw [List.getElem?_append_right (by omega)] at hx
    obtain ⟨-, rfl⟩ : i - b.length = 0 ∧ Stmt.eval e = x := by
      cases hj : i - b.length with
      | zero => exact ⟨rfl, by simpa [hj] using hx⟩
      | succ j => simp [hj] at hx
    simp [Stmt.kind?] at hk

theorem staysWhole_addCase (b : List Stmt) (i : Nat) (arm : Case) :
    StaysWhole b (b.modify i (Stmt.addCase arm)) := by
  intro j x hx _
  rw [List.getElem?_modify, hx]
  by_cases hi : i = j
  · exact ⟨x.addCase arm, by simp [hi], Stmt.grows_addCase x arm, fun _ _ h => Stmt.body?_addCase h arm⟩
  · exact ⟨x, by simp [hi], .refl x, fun _ _ h => h⟩

theorem StaysWhole.stays {b b' : List Stmt} (h : StaysWhole b b') : Stays b b' := by
  intro i s hs hk
  obtain ⟨s', hs', hg, -⟩ := h i s hs hk
  exact ⟨s', hs', hg⟩

theorem stays_modifyBody (b : List Stmt) (i : Nat) (f : List Stmt → List Stmt) (slot : Slot) :
    Stays b (b.modify i (Stmt.modifyBody f slot)) := by
  intro j s hs _
  rw [List.getElem?_modify, hs]
  by_cases hi : i = j
  · exact ⟨s.modifyBody f slot, by simp [hi], s.grows_modifyBody f slot⟩
  · exact ⟨s, by simp [hi], .refl s⟩

/-- A block at the end of a path `q` after the one at the end of `p` was changed. -/
theorem getPath?_modifyPath_of_stays {f : List Stmt → List Stmt} {p q : List (Nat × Slot)}
    {b c : List Stmt} (hf : ∀ d, getPath? p b = some d → StaysWhole d (f d))
    (hc : getPath? q b = some c) : ∃ c', getPath? q (modifyPath f p b) = some c' ∧ Stays c c' := by
  induction p generalizing b q with
  | nil =>
    have hb : StaysWhole b (f b) := hf b rfl
    cases q with
    | nil =>
      obtain rfl := Option.some.inj hc
      exact ⟨f b, rfl, hb.stays⟩
    | cons y q =>
      obtain ⟨j, slot'⟩ := y
      simp only [getPath?_cons, Option.bind_eq_some_iff] at hc
      obtain ⟨d, ⟨s, hs, hd⟩, hc⟩ := hc
      obtain ⟨s', hs', -, hbody⟩ := hb j s hs (Stmt.kind?_of_body? hd)
      refine ⟨c, ?_, .refl c⟩
      show getPath? ((j, slot') :: q) (f b) = some c
      simp [getPath?_cons, hs', hbody slot' d hd, hc]
  | cons x p ih =>
    obtain ⟨i, slot⟩ := x
    cases q with
    | nil =>
      obtain rfl := Option.some.inj hc
      exact ⟨_, rfl, stays_modifyBody b i _ slot⟩
    | cons y q =>
      obtain ⟨j, slot'⟩ := y
      simp only [getPath?_cons, Option.bind_eq_some_iff] at hc
      obtain ⟨d, ⟨s, hs, hd⟩, hc⟩ := hc
      simp only [modifyPath_cons, getPath?_cons, List.getElem?_modify, hs]
      by_cases hi : i = j
      · subst hi
        -- The paths go on together only through the same body.
        by_cases hslot : slot = slot'
        · subst hslot
          obtain ⟨c', hc', hst⟩ := ih (b := d) (q := q)
            (fun e he => hf e (by simp [getPath?_cons, hs, hd, he])) hc
          exact ⟨c', by simp [Stmt.body?_modifyBody, hd, hc'], hst⟩
        · exact ⟨c, by simp [Stmt.body?_modifyBody_ne hslot, hd, hc], .refl c⟩
      · exact ⟨c, by simp [hi, hd, hc], .refl c⟩

/-- Every block stays at its address, and so does every statement in it that is no expression
statement. -/
def HandlersStay (hs hs' : List Handler) : Prop :=
  ∀ a b, getBlock? hs a = some b → ∃ b', getBlock? hs' a = some b' ∧ Stays b b'

namespace HandlersStay

variable {hs hs' hs'' : List Handler}

theorem refl (hs : List Handler) : HandlersStay hs hs := fun _ b hb => ⟨b, hb, .refl b⟩

theorem trans (h : HandlersStay hs hs') (h' : HandlersStay hs' hs'') : HandlersStay hs hs'' := by
  intro a b hb
  obtain ⟨b', hb', hst⟩ := h a b hb
  obtain ⟨b'', hb'', hst'⟩ := h' a b' hb'
  exact ⟨b'', hb'', hst.trans hst'⟩

theorem of_bodies (h : hs'.map Handler.body = hs.map Handler.body) : HandlersStay hs hs' := by
  intro a b hb
  refine ⟨b, ?_, .refl b⟩
  have hget := congrArg (·[a.handler]?) h
  simp only [List.getElem?_map] at hget
  unfold getBlock? at hb ⊢
  cases hx : hs[a.handler]? with
  | none => simp [hx] at hb
  | some x =>
    rw [hx] at hget hb
    obtain ⟨y, hy, hbody⟩ := Option.map_eq_some_iff.mp hget
    simpa [hy, hbody] using hb

theorem append (hs : List Handler) (h : Handler) : HandlersStay hs (hs ++ [h]) := by
  intro a b hb
  refine ⟨b, ?_, .refl b⟩
  unfold getBlock? at hb ⊢
  obtain ⟨x, hx, hb⟩ := Option.bind_eq_some_iff.mp hb
  have hi : a.handler < hs.length := (List.getElem?_eq_some_iff.mp hx).1
  simpa [List.getElem?_append_left hi, hx] using hb

end HandlersStay

/-- **Changing one block** keeps all blocks, if the statements of that block stay. -/
theorem handlersStay_modifyBlock {hs : List Handler} {a : Address} {f : List Stmt → List Stmt}
    (hf : ∀ b, getBlock? hs a = some b → StaysWhole b (f b)) : HandlersStay hs (modifyBlock hs a f) := by
  intro a' b hb
  unfold getBlock? at hf hb ⊢
  obtain ⟨x, hx, hb⟩ := Option.bind_eq_some_iff.mp hb
  simp only [modifyBlock, List.getElem?_modify, hx]
  by_cases ha : a.handler = a'.handler
  · obtain ⟨b', hb', hst⟩ := getPath?_modifyPath_of_stays (f := f) (p := a.path)
      (fun d hd => hf d (by rw [ha, hx]; exact hd)) hb
    exact ⟨b', by simpa [ha] using hb', hst⟩
  · exact ⟨b, by simpa [ha] using hb, .refl b⟩

/-! ## Statements at an address -/

/-- The statement at an address. -/
def stmtAt? (hs : List Handler) (s : StmtAddress) : Option Stmt :=
  (getBlock? hs s.block).bind (·[s.index]?)

theorem getBlock?_body_stmtAt? (hs : List Handler) (s : StmtAddress) (slot : Slot) :
    getBlock? hs (s.body slot) = (stmtAt? hs s).bind (Stmt.body? slot) := by
  rw [getBlock?_body, stmtAt?, Option.bind_assoc]

theorem stmtAt?_modify {hs : List Handler} {s : StmtAddress} {x : Stmt} (hx : stmtAt? hs s = some x)
    (f : Stmt → Stmt) : stmtAt? (modifyBlock hs s.block fun b => b.modify s.index f) s = some (f x) := by
  obtain ⟨b, hb, hx⟩ := Option.bind_eq_some_iff.mp hx
  simp [stmtAt?, getBlock?_modifyBlock, hb, hx]

theorem HandlersStay.stmtAt? {hs hs' : List Handler} (h : HandlersStay hs hs') {s : StmtAddress} {x : Stmt}
    (hx : ScriptLift.stmtAt? hs s = some x) (hk : x.kind?.isSome) :
    ∃ x', ScriptLift.stmtAt? hs' s = some x' ∧ x.Grows x' := by
  obtain ⟨b, hb, hx⟩ := Option.bind_eq_some_iff.mp hx
  obtain ⟨b', hb', hst⟩ := h s.block b hb
  obtain ⟨x', hx', hg⟩ := hst s.index x hx hk
  exact ⟨x', by simp [ScriptLift.stmtAt?, hb', hx'], hg⟩

theorem HandlersStay.getBlock? {hs hs' : List Handler} (h : HandlersStay hs hs') {a : Address}
    (ha : (ScriptLift.getBlock? hs a).isSome) : (ScriptLift.getBlock? hs' a).isSome := by
  obtain ⟨b, hb⟩ := Option.isSome_iff_exists.mp ha
  obtain ⟨b', hb', -⟩ := h a b hb
  exact Option.isSome_iff_exists.mpr ⟨b', hb'⟩

end ScriptLift
