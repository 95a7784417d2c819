import ScriptLift.Dialect.Source
import ScriptLift.Lift.Operand
import ScriptLift.Proofs.Lift.Address
import ScriptLift.Tree.Outline

/-!
# Trees with nothing absent

A tree is full when no expression and no body that it needs is absent. The source and the outline of
such a tree can be written.

* `Stmt.isFull`, `Stmt.areFull`: nothing is absent, at any depth.
* `areOutlined_of_areFull`, `haveBodies_of_areFull`: what writing needs is there.
* `isWhole_combine`, `isWhole_ofUnary`, `takeArguments_whole`: operations on whole values give whole
  values.
* **`areFull_modifyBlock`**: filling one block with full statements leaves all bodies full.
-/

namespace ScriptLift

/-! ## Values -/

namespace Expr

theorem isTyped_of_isWhole {e : Expr} (h : e.isWhole) : e.isTyped := by
  induction e using Expr.isTyped.induct with
  | case1 => simp [isWhole] at h
  | case2 op e ih => exact ih h
  | case3 op l r ihl ihr =>
    simp only [isWhole, Bool.and_eq_true] at h
    simp [isTyped, ihl h.1, ihr h.2]
  | case4 name type owner v ih =>
    simp only [isWhole, Bool.and_eq_true] at h
    exact ih h.2
  | case5 e h₁ h₂ h₃ h₄ => cases e <;> simp_all [isTyped]

theorem isWhole_ofUnary (op : UnaryOp) {e : Expr} (h : e.isWhole) : (ofUnary op e).isWhole := by
  unfold ofUnary
  split
  · rfl
  · exact h

theorem areWhole_iff {es : List Expr} : areWhole es ↔ ∀ e ∈ es, e.isWhole := by
  induction es with
  | nil => simp [areWhole]
  | cons e es ih => simp [areWhole, ih]

theorem isWhole_assign {name type : String} {owner value : Expr} (h : (var name type owner).isWhole)
    (hv : value.isWhole) : (assign name type owner value).isWhole := by
  rw [isWhole, Bool.and_eq_true]
  exact ⟨h, hv⟩

end Expr

namespace Lift

variable (sy : Symbols)

theorem isWhole_resolve (id : Int64) (domains : List String) : (resolve sy id domains).isWhole := by
  induction domains with
  | nil => rfl
  | cons domain rest ih =>
    unfold resolve
    split
    · split <;> rfl
    · exact ih

theorem isWhole_resolveLiteral (domains : List String) {e : Expr} (h : e.isWhole) :
    (resolveLiteral sy domains e).isWhole := by
  unfold resolveLiteral
  split
  · exact isWhole_resolve sy _ _
  · exact h

theorem isWhole_combine (op : BinaryOp) {l r : Expr} (hl : l.isWhole) (hr : r.isWhole) :
    (combine sy op l r).isWhole := by
  simp only [combine, Expr.isWhole, Bool.and_eq_true]
  exact ⟨isWhole_resolveLiteral sy _ hl, isWhole_resolveLiteral sy _ hr⟩

/-- The arguments taken from whole operands are whole, and the operands left are the lower ones. -/
theorem takeArguments_whole {types : List String} {operands args : List Expr} {notes : List String}
    {args' : List Expr} {notes' : List String} {rest : List Expr}
    (h : takeArguments sy types operands args notes = some (args', notes', rest))
    (ho : ∀ e ∈ operands, e.isWhole) (ha : ∀ e ∈ args, e.isWhole) :
    (∀ e ∈ args', e.isWhole) ∧ rest <:+ operands := by
  induction types generalizing operands args notes with
  | nil =>
    simp only [takeArguments, Option.some.injEq, Prod.mk.injEq] at h
    obtain ⟨rfl, -, rfl⟩ := h
    exact ⟨ha, List.suffix_refl _⟩
  | cons type types ih =>
    cases operands with
    | nil => simp [takeArguments] at h
    | cons e operands =>
      unfold takeArguments at h
      have he : (resolveLiteral sy [type] e).isWhole :=
        isWhole_resolveLiteral sy _ (ho e List.mem_cons_self)
      obtain ⟨hargs, hrest⟩ := ih h (fun x hx => ho x (List.mem_cons_of_mem _ hx)) fun x hx => by
        rcases List.mem_cons.mp hx with rfl | hx
        · exact he
        · exact ha x hx
      exact ⟨hargs, hrest.trans (List.suffix_cons _ _)⟩

end Lift

/-! ## Statements -/

namespace Stmt

mutual

/-- Whether a statement has all its expressions and bodies, at any depth. -/
def isFull : Stmt → Bool
  | missing => false
  | eval e => e.isWhole
  | block b => areFull b
  | ifElse c yes no => c.isWhole && areFull yes && areFull no
  | whileLoop c b => c.isWhole && areFull b
  | forLoop i c u b => i.isWhole && c.isWhole && u.isWhole && areFull b
  | select e cases => e.isWhole && casesFull cases
  | ret | brk | super _ => true

/-- Whether all statements of a body have all their expressions and bodies. -/
def areFull : List Stmt → Bool
  | [] => true
  | s :: r => s.isFull && areFull r

/-- Whether all arms have all their expressions and bodies. -/
def casesFull : List Case → Bool
  | [] => true
  | .mk v b :: r => v.isWhole && areFull b && casesFull r

end

theorem areFull_iff {b : List Stmt} : areFull b ↔ ∀ s ∈ b, s.isFull := by
  induction b with
  | nil => simp [areFull]
  | cons s b ih => simp [areFull, ih]

theorem casesFull_iff {cases : List Case} :
    casesFull cases ↔ ∀ arm ∈ cases, arm.value.isWhole ∧ areFull arm.body := by
  induction cases with
  | nil => simp [casesFull]
  | cons arm cases ih =>
    cases arm
    simp [casesFull, ih, Case.value, Case.body, and_assoc]

mutual

theorem isWhole_of_isFull : (s : Stmt) → s.isFull → s.isWhole
  | missing, h => h
  | eval _, h => h
  | block b, h => areWhole_of_areFull b h
  | ifElse _ yes no, h => by
    simp only [isFull, isWhole, Bool.and_eq_true] at h ⊢
    exact ⟨⟨h.1.1, areWhole_of_areFull yes h.1.2⟩, areWhole_of_areFull no h.2⟩
  | whileLoop _ b, h => by
    simp only [isFull, isWhole, Bool.and_eq_true] at h ⊢
    exact ⟨h.1, areWhole_of_areFull b h.2⟩
  | forLoop .., _ => rfl
  | select _ cases, h => by
    simp only [isFull, isWhole, Bool.and_eq_true] at h ⊢
    exact ⟨h.1, casesWhole_of_casesFull cases h.2⟩
  | ret, _ | brk, _ | super _, _ => rfl

theorem areWhole_of_areFull : (b : List Stmt) → areFull b → areWhole b
  | [], _ => rfl
  | s :: b, h => by
    simp only [areFull, areWhole, Bool.and_eq_true] at h ⊢
    exact ⟨isWhole_of_isFull s h.1, areWhole_of_areFull b h.2⟩

theorem casesWhole_of_casesFull : (cases : List Case) → casesFull cases → casesWhole cases
  | [], _ => rfl
  | .mk _ b :: cases, h => by
    simp only [casesFull, casesWhole, Bool.and_eq_true] at h ⊢
    exact ⟨⟨h.1.1, areWhole_of_areFull b h.1.2⟩, casesWhole_of_casesFull cases h.2⟩

end

mutual

theorem isOutlined_of_isFull : (s : Stmt) → s.isFull → s.isOutlined
  | missing, h => h
  | eval _, h => h
  | block b, h => areWhole_of_areFull b h
  | ifElse _ yes no, h => by
    simp only [isFull, isOutlined, Bool.and_eq_true] at h ⊢
    exact ⟨⟨h.1.1, areOutlined_of_areFull yes h.1.2⟩, areOutlined_of_areFull no h.2⟩
  | whileLoop _ b, h => by
    simp only [isFull, isOutlined, Bool.and_eq_true] at h ⊢
    exact ⟨h.1, areOutlined_of_areFull b h.2⟩
  | forLoop _ _ _ b, h => by
    simp only [isFull, isOutlined, Bool.and_eq_true] at h ⊢
    exact areOutlined_of_areFull b h.2
  | select _ cases, h => by
    simp only [isFull, isOutlined, Bool.and_eq_true] at h ⊢
    exact ⟨h.1, casesOutlined_of_casesFull cases h.2⟩
  | ret, _ | brk, _ | super _, _ => rfl

theorem areOutlined_of_areFull : (b : List Stmt) → areFull b → areOutlined b
  | [], _ => rfl
  | s :: b, h => by
    simp only [areFull, areOutlined, Bool.and_eq_true] at h ⊢
    exact ⟨isOutlined_of_isFull s h.1, areOutlined_of_areFull b h.2⟩

theorem casesOutlined_of_casesFull : (cases : List Case) → casesFull cases → casesOutlined cases
  | [], _ => rfl
  | .mk _ b :: cases, h => by
    simp only [casesFull, casesOutlined, Bool.and_eq_true] at h ⊢
    exact ⟨⟨h.1.1, areOutlined_of_areFull b h.1.2⟩, casesOutlined_of_casesFull cases h.2⟩

end

end Stmt

namespace Dialect

theorem elseHasBodies_of_haveBodies {b : List Stmt} (h : haveBodies b) : elseHasBodies b := by
  unfold elseHasBodies
  split
  · rfl
  · rfl
  · simpa [haveBodies] using h

mutual

theorem hasBodies_of_isFull : (s : Stmt) → s.isFull → hasBodies s
  | .missing, h => h
  | .block b, h => haveBodies_of_areFull b h
  | .ifElse _ yes no, h => by
    simp only [Stmt.isFull, hasBodies, Bool.and_eq_true] at h ⊢
    exact ⟨haveBodies_of_areFull yes h.1.2, elseHasBodies_of_haveBodies (haveBodies_of_areFull no h.2)⟩
  | .whileLoop _ b, h => by
    simp only [Stmt.isFull, hasBodies, Bool.and_eq_true] at h ⊢
    exact haveBodies_of_areFull b h.2
  | .forLoop _ _ _ b, h => by
    simp only [Stmt.isFull, hasBodies, Bool.and_eq_true] at h ⊢
    exact haveBodies_of_areFull b h.2
  | .select _ cases, h => by
    simp only [Stmt.isFull, hasBodies, Bool.and_eq_true] at h ⊢
    exact casesHaveBodies_of_casesFull cases h.2
  | .eval _, _ | .ret, _ | .brk, _ | .super _, _ => rfl

theorem haveBodies_of_areFull : (b : List Stmt) → Stmt.areFull b → haveBodies b
  | [], _ => rfl
  | s :: b, h => by
    simp only [Stmt.areFull, haveBodies, Bool.and_eq_true] at h ⊢
    exact ⟨hasBodies_of_isFull s h.1, haveBodies_of_areFull b h.2⟩

theorem casesHaveBodies_of_casesFull : (cases : List Case) → Stmt.casesFull cases →
    casesHaveBodies cases
  | [], _ => rfl
  | .mk _ b :: cases, h => by
    simp only [Stmt.casesFull, casesHaveBodies, Bool.and_eq_true] at h ⊢
    exact ⟨haveBodies_of_areFull b h.1.2, casesHaveBodies_of_casesFull cases h.2⟩

end

end Dialect

/-! ## Filling blocks -/

theorem mem_modify {α : Type} {f : α → α} {i : Nat} {l : List α} {x : α} (h : x ∈ l.modify i f) :
    x ∈ l ∨ ∃ y ∈ l, x = f y := by
  obtain ⟨j, hj⟩ := List.mem_iff_getElem?.mp h
  rw [List.getElem?_modify] at hj
  obtain ⟨y, hy, hxy⟩ := Option.map_eq_some_iff.mp hj
  split at hxy
  · exact .inr ⟨y, List.mem_of_getElem? hy, hxy.symm⟩
  · obtain rfl : y = x := hxy
    exact .inl (List.mem_of_getElem? hy)

/-- A change of blocks that leaves full ones full. -/
def FillsFull (f : List Stmt → List Stmt) : Prop := ∀ b, Stmt.areFull b → Stmt.areFull (f b)

namespace FillsFull

theorem modify {g : Stmt → Stmt} (hg : ∀ s : Stmt, s.isFull → (g s).isFull) (i : Nat) :
    FillsFull (·.modify i g) := by
  intro b hb
  rw [Stmt.areFull_iff] at hb ⊢
  intro s hs
  rcases mem_modify hs with hs | ⟨y, hy, rfl⟩
  · exact hb s hs
  · exact hg y (hb y hy)

theorem append {s : Stmt} (hs : s.isFull) : FillsFull (· ++ [s]) := by
  intro b hb
  rw [Stmt.areFull_iff] at hb ⊢
  intro x hx
  rcases List.mem_append.mp hx with hx | hx
  · exact hb x hx
  · obtain rfl := List.mem_singleton.mp hx
    exact hs

theorem dropLast : FillsFull List.dropLast := by
  intro b hb
  rw [Stmt.areFull_iff] at hb ⊢
  exact fun s hs => hb s (List.dropLast_subset b hs)

theorem addCase {v : Expr} (hv : v.isWhole) (i : Nat) :
    FillsFull (·.modify i (Stmt.addCase (.mk v []))) := by
  refine modify (fun s hs => ?_) i
  cases s <;> try exact hs
  simp only [Stmt.addCase, Stmt.isFull, Bool.and_eq_true, Stmt.casesFull_iff] at hs ⊢
  refine ⟨hs.1, fun arm harm => ?_⟩
  rcases List.mem_append.mp harm with harm | harm
  · exact hs.2 arm harm
  · obtain rfl := List.mem_singleton.mp harm
    exact ⟨hv, rfl⟩

theorem modifyBody {f : List Stmt → List Stmt} (hf : FillsFull f) (slot : Slot) {s : Stmt}
    (hs : s.isFull) : (s.modifyBody f slot).isFull := by
  cases slot <;> cases s <;> try exact hs
  all_goals simp only [Stmt.modifyBody, Stmt.isFull, Bool.and_eq_true] at hs ⊢
  case yes.ifElse => exact ⟨⟨hs.1.1, hf _ hs.1.2⟩, hs.2⟩
  case no.ifElse => exact ⟨hs.1, hf _ hs.2⟩
  case loop.whileLoop => exact ⟨hs.1, hf _ hs.2⟩
  case loop.forLoop => exact ⟨hs.1, hf _ hs.2⟩
  case arm.select n e cases =>
    rw [Stmt.casesFull_iff] at hs ⊢
    refine ⟨hs.1, fun arm harm => ?_⟩
    rcases mem_modify harm with harm | ⟨x, hx, rfl⟩
    · exact hs.2 arm harm
    · obtain ⟨hv, hb⟩ := hs.2 x hx
      cases x
      exact ⟨hv, hf _ hb⟩

theorem modifyPath {f : List Stmt → List Stmt} (hf : FillsFull f) (p : List (Nat × Slot)) :
    FillsFull (ScriptLift.modifyPath f p) := by
  induction p with
  | nil => exact hf
  | cons x p ih => exact modify (fun s hs => modifyBody ih x.2 hs) x.1

end FillsFull

/-- **Filling one block** with full statements leaves all bodies full. -/
theorem areFull_modifyBlock {hs : List Handler} {f : List Stmt → List Stmt}
    (h : ∀ x ∈ hs, Stmt.areFull x.body) (hf : FillsFull f) (a : Address) :
    ∀ x ∈ modifyBlock hs a f, Stmt.areFull x.body := by
  intro x hx
  rcases mem_modify hx with hx | ⟨y, hy, rfl⟩
  · exact h x hx
  · exact hf.modifyPath a.path _ (h y hy)

theorem areFull_of_getPath? {p : List (Nat × Slot)} {b c : List Stmt} (hc : getPath? p b = some c)
    (hb : Stmt.areFull b) : Stmt.areFull c := by
  induction p generalizing b with
  | nil =>
    obtain rfl : b = c := by simpa [getPath?] using hc
    exact hb
  | cons x p ih =>
    obtain ⟨i, slot⟩ := x
    simp only [getPath?, Option.bind_eq_some_iff] at hc
    obtain ⟨d, ⟨s, hs, hd⟩, hc⟩ := hc
    have hfull : s.isFull := Stmt.areFull_iff.mp hb s (List.mem_of_getElem? hs)
    refine ih hc ?_
    cases slot <;> cases s <;> simp only [Stmt.body?, reduceCtorEq, Option.some.injEq] at hd
    case arm.select n e cases =>
      obtain ⟨arm, harm, rfl⟩ := Option.map_eq_some_iff.mp hd
      simp only [Stmt.isFull, Bool.and_eq_true, Stmt.casesFull_iff] at hfull
      exact (hfull.2 arm (List.mem_of_getElem? harm)).2
    all_goals
      subst hd
      simp only [Stmt.isFull, Bool.and_eq_true] at hfull
      simp [hfull]

theorem areFull_of_getBlock? {hs : List Handler} {a : Address} {b : List Stmt}
    (h : ∀ x ∈ hs, Stmt.areFull x.body) (hb : getBlock? hs a = some b) : Stmt.areFull b := by
  obtain ⟨x, hx, hb⟩ := Option.bind_eq_some_iff.mp hb
  exact areFull_of_getPath? hb (h x (List.mem_of_getElem? hx))

end ScriptLift
