import Mathlib.Tactic
import ScriptLift.Lift.Address

/-!
# Blocks at their addresses

* `modifyBlock_modifyBlock`, `getBlock?_modifyBlock`: changing one block twice, and reading it.
* `getBlock?_body`, `modifyBlock_body`: a body of a statement, by the block that the statement is in.
* **`modifyBlock_body_last`**: filling a body of the statement just added adds the filled statement.
-/

namespace ScriptLift

namespace Stmt

variable (f g : List Stmt → List Stmt) (slot : Slot) (s : Stmt)

theorem body?_arm (n : Nat) (e : Expr) (cases : List Case) :
    (select e cases).body? (.arm n) = cases[n]?.map Case.body := rfl

theorem modifyBody_arm (n : Nat) (e : Expr) (cases : List Case) :
    (select e cases).modifyBody f (.arm n) = select e (cases.modify n (Case.modifyBody f)) := rfl

theorem body?_modifyBody : (s.modifyBody f slot).body? slot = (s.body? slot).map f := by
  cases slot <;> cases s <;> try rfl
  rename_i n _ cases
  simp only [modifyBody_arm, body?_arm, List.getElem?_modify_eq]
  cases cases[n]? with
  | none => rfl
  | some arm => cases arm; rfl

theorem modifyBody_modifyBody :
    (s.modifyBody f slot).modifyBody g slot = s.modifyBody (g ∘ f) slot := by
  cases slot <;> cases s <;> try rfl
  rename_i n _ cases
  simp only [modifyBody_arm, List.modify_modify_eq]
  congr 2
  funext arm
  cases arm
  rfl

theorem modifyBody_id : s.modifyBody (fun b => b) slot = s := by
  cases slot <;> cases s <;> try rfl
  rename_i n e cases
  have hid : Case.modifyBody (fun b => b) = id := by
    funext arm
    cases arm
    rfl
  simp only [modifyBody_arm, hid, List.modify_id]

variable {f g slot s} in
theorem modifyBody_congr {b : List Stmt} (hb : s.body? slot = some b) (h : f b = g b) :
    s.modifyBody f slot = s.modifyBody g slot := by
  cases slot <;> cases s <;> try cases hb
  case yes.ifElse.refl c no => exact congrArg (ifElse c · no) h
  case no.ifElse.refl c yes => exact congrArg (ifElse c yes) h
  case loop.whileLoop.refl c => exact congrArg (whileLoop c) h
  case loop.forLoop.refl i c u => exact congrArg (forLoop i c u) h
  rename_i n e cases
  obtain ⟨arm, harm, rfl⟩ := Option.map_eq_some_iff.mp hb
  rw [modifyBody_arm, modifyBody_arm]
  congr 1
  refine List.ext_getElem? fun i => ?_
  rw [List.getElem?_modify, List.getElem?_modify]
  by_cases hi : n = i
  · subst hi
    rw [harm]
    cases arm
    simpa [Case.modifyBody, Case.body] using h
  · simp [hi]

end Stmt

/-! ## Paths -/

theorem getPath?_cons (i : Nat) (slot : Slot) (p : List (Nat × Slot)) (b : List Stmt) :
    getPath? ((i, slot) :: p) b = (b[i]?.bind (Stmt.body? slot)).bind (getPath? p) := rfl

theorem modifyPath_cons (f : List Stmt → List Stmt) (i : Nat) (slot : Slot)
    (p : List (Nat × Slot)) (b : List Stmt) :
    modifyPath f ((i, slot) :: p) b = b.modify i (Stmt.modifyBody (modifyPath f p) slot) := rfl

theorem getPath?_append (p q : List (Nat × Slot)) (b : List Stmt) :
    getPath? (p ++ q) b = (getPath? p b).bind (getPath? q) := by
  induction p generalizing b with
  | nil => rfl
  | cons x p ih =>
    obtain ⟨i, slot⟩ := x
    simp only [List.cons_append, getPath?_cons]
    cases b[i]?.bind (Stmt.body? slot) with
    | none => rfl
    | some c => exact ih c

theorem modifyPath_append (f : List Stmt → List Stmt) (p q : List (Nat × Slot)) (b : List Stmt) :
    modifyPath f (p ++ q) b = modifyPath (modifyPath f q) p b := by
  induction p generalizing b with
  | nil => rfl
  | cons x p ih =>
    obtain ⟨i, slot⟩ := x
    simp only [List.cons_append, modifyPath_cons, funext ih]

theorem getPath?_modifyPath (f : List Stmt → List Stmt) (p : List (Nat × Slot)) (b : List Stmt) :
    getPath? p (modifyPath f p b) = (getPath? p b).map f := by
  induction p generalizing b with
  | nil => rfl
  | cons x p ih =>
    obtain ⟨i, slot⟩ := x
    simp only [getPath?_cons, modifyPath_cons, List.getElem?_modify_eq]
    cases b[i]? with
    | none => rfl
    | some s =>
      show (Stmt.body? slot (s.modifyBody _ slot)).bind _ = ((Stmt.body? slot s).bind _).map f
      rw [Stmt.body?_modifyBody]
      cases s.body? slot with
      | none => rfl
      | some c => exact ih c

theorem modifyPath_modifyPath (f g : List Stmt → List Stmt) (p : List (Nat × Slot)) (b : List Stmt) :
    modifyPath g p (modifyPath f p b) = modifyPath (g ∘ f) p b := by
  induction p generalizing b with
  | nil => rfl
  | cons x p ih =>
    obtain ⟨i, slot⟩ := x
    simp only [modifyPath_cons, List.modify_modify_eq]
    congr 1
    funext s
    show (s.modifyBody _ slot).modifyBody _ slot = _
    rw [Stmt.modifyBody_modifyBody]
    congr 1
    funext c
    exact ih c

theorem modifyPath_congr {f g : List Stmt → List Stmt} {p : List (Nat × Slot)} {b c : List Stmt}
    (hc : getPath? p b = some c) (h : f c = g c) : modifyPath f p b = modifyPath g p b := by
  induction p generalizing b with
  | nil =>
    obtain rfl := Option.some.inj hc
    exact h
  | cons x p ih =>
    obtain ⟨i, slot⟩ := x
    simp only [getPath?_cons, Option.bind_eq_some_iff] at hc
    obtain ⟨b', ⟨s, hs, hb'⟩, hc⟩ := hc
    simp only [modifyPath_cons]
    refine List.ext_getElem? fun j => ?_
    rw [List.getElem?_modify, List.getElem?_modify]
    by_cases hi : i = j
    · subst hi
      rw [hs]
      simp only [if_true, Option.map_eq_map, Option.map_some]
      rw [Stmt.modifyBody_congr hb' (ih hc)]
    · simp [hi]

theorem modifyPath_id (p : List (Nat × Slot)) (b : List Stmt) : modifyPath (fun b => b) p b = b := by
  induction p generalizing b with
  | nil => rfl
  | cons x p ih =>
    obtain ⟨i, slot⟩ := x
    simp only [modifyPath_cons, funext ih]
    exact (congrArg (b.modify i ·) (funext (Stmt.modifyBody_id slot))).trans (List.modify_id i b)

/-! ## Blocks -/

variable {hs : List Handler} {a : Address} {f g : List Stmt → List Stmt} {b : List Stmt}

theorem getBlock?_modifyBlock (hs : List Handler) (a : Address) (f : List Stmt → List Stmt) :
    getBlock? (modifyBlock hs a f) a = (getBlock? hs a).map f := by
  unfold getBlock? modifyBlock
  rw [List.getElem?_modify_eq]
  cases hs[a.handler]? with
  | none => rfl
  | some h => exact getPath?_modifyPath f a.path h.body

theorem modifyBlock_modifyBlock (hs : List Handler) (a : Address) (f g : List Stmt → List Stmt) :
    modifyBlock (modifyBlock hs a f) a g = modifyBlock hs a (g ∘ f) := by
  unfold modifyBlock
  rw [List.modify_modify_eq]
  congr 1
  funext h
  show { h with body := modifyPath g a.path (modifyPath f a.path h.body) } = _
  rw [modifyPath_modifyPath]

theorem modifyBlock_congr (hb : getBlock? hs a = some b) (h : f b = g b) :
    modifyBlock hs a f = modifyBlock hs a g := by
  unfold getBlock? at hb
  obtain ⟨x, hx, hb⟩ := Option.bind_eq_some_iff.mp hb
  unfold modifyBlock
  refine List.ext_getElem? fun j => ?_
  rw [List.getElem?_modify, List.getElem?_modify]
  by_cases hi : a.handler = j
  · subst hi
    rw [hx]
    simp only [if_true, Option.map_eq_map, Option.map_some]
    rw [modifyPath_congr hb h]
  · simp [hi]

theorem modifyBlock_id (hs : List Handler) (a : Address) : modifyBlock hs a (fun b => b) = hs := by
  unfold modifyBlock
  simp only [modifyPath_id]
  exact List.modify_id _ _

theorem modifyBlock_append_nil (hs : List Handler) (a : Address) :
    modifyBlock hs a (· ++ []) = hs := by
  simp only [List.append_nil]
  exact modifyBlock_id hs a

theorem getBlock?_body (hs : List Handler) (s : StmtAddress) (slot : Slot) :
    getBlock? hs (s.body slot) =
      (getBlock? hs s.block).bind fun b => b[s.index]?.bind (Stmt.body? slot) := by
  unfold getBlock? StmtAddress.body
  cases hs[s.block.handler]? with
  | none => rfl
  | some h =>
    simp only [Option.bind_some]
    rw [getPath?_append]
    cases getPath? s.block.path h.body with
    | none => rfl
    | some b =>
      simp only [Option.bind_some, getPath?_cons]
      cases b[s.index]?.bind (Stmt.body? slot) <;> rfl

theorem modifyBlock_body (hs : List Handler) (s : StmtAddress) (slot : Slot)
    (f : List Stmt → List Stmt) : modifyBlock hs (s.body slot) f =
      modifyBlock hs s.block fun b => b.modify s.index (Stmt.modifyBody f slot) := by
  unfold modifyBlock StmtAddress.body
  congr 1
  funext h
  rw [modifyPath_append]
  rfl

theorem modify_length_append {α : Type} (b : List α) (s : α) (f : α → α) :
    (b ++ [s]).modify b.length f = b ++ [f s] := by
  induction b with
  | nil => rfl
  | cons x b ih => rw [List.cons_append, List.length_cons, List.modify_succ_cons, ih, List.cons_append]

/-- A body of the statement just added. -/
theorem getBlock?_body_last (hb : getBlock? hs a = some b) (s : Stmt) (slot : Slot) :
    getBlock? (modifyBlock hs a (· ++ [s])) (StmtAddress.body ⟨a, b.length⟩ slot) = s.body? slot := by
  rw [getBlock?_body, getBlock?_modifyBlock, hb]
  simp

/-- **Filling a body of the statement just added** adds the filled statement. -/
theorem modifyBlock_body_last (hb : getBlock? hs a = some b) (s : Stmt) (slot : Slot)
    (f : List Stmt → List Stmt) :
    modifyBlock (modifyBlock hs a (· ++ [s])) (StmtAddress.body ⟨a, b.length⟩ slot) f =
      modifyBlock hs a (· ++ [s.modifyBody f slot]) := by
  rw [modifyBlock_body, modifyBlock_modifyBlock]
  exact modifyBlock_congr hb (modify_length_append b s _)

/-- Changing the statement just added. -/
theorem modifyBlock_modify_last (hb : getBlock? hs a = some b) (s : Stmt) (f : Stmt → Stmt) :
    modifyBlock (modifyBlock hs a (· ++ [s])) a (fun b' => b'.modify b.length f) =
      modifyBlock hs a (· ++ [f s]) := by
  rw [modifyBlock_modifyBlock]
  exact modifyBlock_congr hb (modify_length_append b s f)

end ScriptLift
