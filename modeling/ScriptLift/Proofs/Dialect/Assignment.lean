import ScriptLift.Proofs.Dialect.Chunks
import ScriptLift.Proofs.Dialect.Regroup
import ScriptLift.Tree.Describe

/-!
# Assignments inside expressions

An assignment binds weaker than everything around it, yet its text stands in parentheses only behind
an operator before it. As an operand or an owner it takes over what surrounds it: `x = a` plus `b` is
written as `x = a + b`.

* `Dialect.chunks`, `Dialect.spelt`: the chunks of the text of an expression, and the tree that they are
  meant to spell.
* `Chunk.ReadsBack`: chunks are read as a tree wherever it may stand.
* `Dialect.keepsPlaces`: no assignment is an operand of a binary operator or an owner, and no operation
  an owner; an assignment that steps its target by one is an operation.
* **`Dialect.read_chunks_iff`**: the text of an expression reads as its tree exactly then.
-/

namespace ScriptLift

/-! ## Trees read from the left -/

namespace Spelt

/-- A tree, in parentheses where asked for. -/
def grouped (yes : Bool) (t : Spelt) : Spelt := if yes then .group t else t

/-- `a p t`, read from the left. -/
def join (p : BinaryOp) (a : Spelt) : Spelt → Spelt
  | .binary q b c =>
    if q.level = p.level then .binary q (join p a b) c else .binary p a (.binary q b c)
  | t => .binary p a t

theorem join_binary (p q : BinaryOp) (a b c : Spelt) : join p a (.binary q b c) =
    if q.level = p.level then .binary q (join p a b) c else .binary p a (.binary q b c) := rfl

theorem join_of_level_ne {p : BinaryOp} {t : Spelt}
    (h : ∀ q b c, t = .binary q b c → q.level ≠ p.level) (a : Spelt) : join p a t = .binary p a t := by
  cases t with
  | binary q b c => rw [join_binary, if_neg (h q b c rfl)]
  | _ => rfl

theorem join_top (p : BinaryOp) (a t : Spelt) :
    ∃ q b c, join p a t = .binary q b c ∧ q.level = p.level := by
  cases t with
  | binary q b c =>
    rw [join_binary]
    split_ifs with h
    · exact ⟨_, _, _, rfl, h⟩
    · exact ⟨_, _, _, rfl, rfl⟩
  | _ => exact ⟨_, _, _, rfl, rfl⟩

theorem join_join {p q : BinaryOp} (h : q.level = p.level) (a b : Spelt) :
    ∀ c : Spelt, join p a (join q b c) = join q (join p a b) c
  | .binary r c₁ c₂ => by
    rw [join_binary, join_binary]
    split_ifs with hr
    · rw [join_binary, if_pos (hr.trans h), join_join h a b c₁]
    · rw [join_binary, if_pos h]
  | .word _ | .group _ | .unary .. | .assign .. | .member .. | .call .. => if_pos h

theorem isAssign_join (p : BinaryOp) (a t : Spelt) : (join p a t).isAssign = false := by
  obtain ⟨_, _, _, h, _⟩ := join_top p a t
  rw [h]
  rfl

theorem isTight_join (p : BinaryOp) (a t : Spelt) : (join p a t).isTight = false := by
  obtain ⟨_, _, _, h, _⟩ := join_top p a t
  rw [h]
  rfl

theorem isPlaced_join (p : BinaryOp) (a : Spelt) : ∀ t : Spelt,
    (join p a t).isPlaced = (!a.isAssign && !t.isAssign && a.isPlaced && t.isPlaced)
  | .binary q b c => by
    rw [join_binary]
    split_ifs
    · rw [isPlaced, isAssign_join, isPlaced_join p a b, isPlaced, isAssign.eq_def (.binary q b c)]
      simp only [Bool.not_false, Bool.true_and, Bool.and_true]
      ac_rfl
    · rw [isPlaced]
  | .word _ | .group _ | .unary .. | .assign .. | .member .. | .call .. => by
    rw [join_of_level_ne (by simp)]
    rfl

end Spelt

/-! ## What a reader does with chunks -/

namespace Chunk

/-- Chunks in parentheses, where asked for. -/
def grouped (yes : Bool) (xs : List Chunk) : List Chunk := if yes then .lpar :: (xs ++ [.rpar]) else xs

/-- What is open below a tree does not reach into it. -/
def Fits (s : List Frame) : Spelt → Prop
  | .binary p _ _ => Stops (strength p) s
  | .assign .. => Stops 1 s
  | _ => True

/-- What follows a tree with a strength does not reach into it. -/
def Admits (k : Nat) : Spelt → Prop
  | .binary p _ _ => k ≤ strength p
  | .assign .. => k = 0
  | _ => True

theorem strength_congr {p q : BinaryOp} (h : q.level = p.level) : strength q = strength p := by
  rw [strength, strength, h]

theorem fits_join {s : List Frame} {p : BinaryOp} {a t : Spelt} :
    Fits s (.join p a t) ↔ Stops (strength p) s := by
  obtain ⟨q, b, c, h, hq⟩ := Spelt.join_top p a t
  rw [h, Fits, strength_congr hq]

theorem admits_join {k : Nat} {p : BinaryOp} {a t : Spelt} :
    Admits k (.join p a t) ↔ k ≤ strength p := by
  obtain ⟨q, b, c, h, hq⟩ := Spelt.join_top p a t
  rw [h, Admits, strength_congr hq]

theorem admits_zero (t : Spelt) : Admits 0 t := by
  cases t <;> first | exact Nat.zero_le _ | trivial

/-- From a state the chunks lead to a tree on a stack, up to what may follow. -/
def Takes (st : List Frame × Option Spelt) (xs : List Chunk) (s : List Frame) (t : Spelt) : Prop :=
  ∃ s' u, run st xs = some (s', some u) ∧ ∀ k, Admits k t → reduce k s' u = reduce k s t

theorem Takes.cons {st mid : List Frame × Option Spelt} {x : Chunk} {xs : List Chunk}
    {s : List Frame} {t : Spelt} (hx : step st x = some mid) (h : Takes mid xs s t) :
    Takes st (x :: xs) s t := by
  obtain ⟨s', u, hrun, hu⟩ := h
  exact ⟨s', u, by rw [run, hx, Option.bind_some, hrun], hu⟩

theorem Takes.append {st mid : List Frame × Option Spelt} {xs ys : List Chunk} {s : List Frame}
    {t : Spelt} (hx : run st xs = some mid) (h : Takes mid ys s t) : Takes st (xs ++ ys) s t := by
  obtain ⟨s', u, hrun, hu⟩ := h
  exact ⟨s', u, by rw [run_append, hx, Option.bind_some, hrun], hu⟩

/-- An operator that binds as strongly as a tree before it, where nothing below binds as strongly. -/
theorem Takes.op {st : List Frame × Option Spelt} {xs ys : List Chunk} {s : List Frame} {a t : Spelt}
    {p : BinaryOp} (h : Takes st xs s a) (ha : Admits (strength p) a) (hs : Stops (strength p) s)
    (hys : Takes (.left a p :: s, none) ys s t) : Takes st (xs ++ .op p :: ys) s t := by
  obtain ⟨s', u, hrun, hu⟩ := h
  refine .append hrun (.cons ?_ hys)
  rw [step, hu _ ha, hs.reduce]

/-- A tree may be an operand without parentheses, as far as its own operator goes. -/
structure Follows (p : BinaryOp) (t : Spelt) : Prop where
  isAssign : t.isAssign = false
  level : ∀ q b c, t = .binary q b c → p.level ≤ q.level

theorem Follows.admits {p : BinaryOp} {t : Spelt} (h : Follows p t) {k : Nat} (hk : k ≤ strength p) :
    Admits k t := by
  cases t with
  | binary q b c => exact le_trans hk (Nat.add_le_add_right (h.level q b c rfl) 2)
  | assign x v => exact absurd h.isAssign (by simp [Spelt.isAssign])
  | _ => trivial

theorem Follows.fits {p : BinaryOp} {t : Spelt} (h : Follows p t) {s : List Frame}
    (hs : Stops (strength p) s) : Fits s t := by
  cases t with
  | binary q b c => exact hs.mono (Nat.add_le_add_right (h.level q b c rfl) 2)
  | assign x v => exact absurd h.isAssign (by simp [Spelt.isAssign])
  | _ => trivial

/-- An operand that its operator does not reach into. -/
theorem Takes.behind {s : List Frame} {a t : Spelt} {p : BinaryOp} {xs : List Chunk}
    (h : Takes (.left a p :: s, none) xs (.left a p :: s) t) (ht : Follows p t)
    (hlevel : ∀ q b c, t = .binary q b c → q.level ≠ p.level) :
    Takes (.left a p :: s, none) xs s (.join p a t) := by
  obtain ⟨s', u, hrun, hu⟩ := h
  refine ⟨s', u, hrun, fun k hk => ?_⟩
  rw [admits_join] at hk
  rw [hu k (ht.admits hk), reduce, if_pos hk, Spelt.join_of_level_ne hlevel]

/-- Chunks are read as a tree wherever it may stand: exactly if the tree is an owner, alone, and behind
an operator. -/
structure ReadsBack (xs : List Chunk) (t : Spelt) : Prop where
  tight : t.isTight → ∀ s, run (s, none) xs = some (s, some t)
  alone : ∀ s, Fits s t → Takes (s, none) xs s t
  behind : ∀ s p a, Stops (strength p) s → Follows p t →
    Takes (.left a p :: s, none) xs s (.join p a t)

/-! ## One kind of tree after the other -/

theorem readsBack_of_tight {xs : List Chunk} {t : Spelt} (ht : t.isTight)
    (h : ∀ s, run (s, none) xs = some (s, some t)) : ReadsBack xs t := by
  have halone s : Takes (s, none) xs s t := ⟨s, t, h s, fun _ _ => rfl⟩
  exact ⟨fun _ => h, fun s _ => halone s, fun s p a _ hf => (halone _).behind hf
    (by rintro q b c rfl; simp [Spelt.isTight] at ht)⟩

theorem readsBack_word (w : String) : ReadsBack [.word w] (.word w) :=
  readsBack_of_tight rfl fun _ => rfl

theorem ReadsBack.unary {xs : List Chunk} {t : Spelt} (h : ReadsBack xs t) (ht : t.isTight)
    (m : String) : ReadsBack (.mark m :: xs) (.unary m t) := by
  have halone s : Takes (s, none) (.mark m :: xs) s (.unary m t) :=
    .cons rfl ⟨_, _, h.tight ht _, fun _ _ => rfl⟩
  exact ⟨by simp [Spelt.isTight], fun s _ => halone s, fun s p a _ hf => (halone _).behind hf (by simp)⟩

theorem ReadsBack.assign {xs ys : List Chunk} {x v : Spelt} (hx : ReadsBack xs x) (ht : x.isTight)
    (hv : ReadsBack ys v) : ReadsBack (xs ++ .gets :: ys) (.assign x v) := by
  refine ⟨by simp [Spelt.isTight], fun s hs => ?_, fun _ _ _ _ hf => absurd hf.isAssign
    (by simp [Spelt.isAssign])⟩
  have hfits : Fits (.gets x :: s) v := by
    cases v with
    | binary q b c => exact Nat.le_add_left _ _
    | assign => exact le_rfl
    | _ => trivial
  obtain ⟨s', u, hrun, hu⟩ := hv.alone _ hfits
  have hgets : step (s, some x) .gets = some (.gets x :: s, none) := by rw [step, Stops.reduce hs]
  refine .append (hx.tight ht s) (.cons hgets ⟨s', u, hrun, ?_⟩)
  rintro k rfl
  rw [hu 0 (admits_zero v)]
  rfl

/-- **An operation is read with its right operand taken over.** -/
theorem ReadsBack.binary {xs ys : List Chunk} {a b : Spelt} {p : BinaryOp} (ha : ReadsBack xs a)
    (hb : ReadsBack ys b) (hfa : Follows p a) (hfb : Follows p b) :
    ReadsBack (xs ++ .op p :: ys) (.join p a b) := by
  have halone s (hs : Stops (strength p) s) : Takes (s, none) (xs ++ .op p :: ys) s (.join p a b) :=
    (ha.alone s (hfa.fits hs)).op (hfa.admits le_rfl) hs (hb.behind s p a hs hfb)
  refine ⟨by simp [Spelt.isTight_join], fun s hs => halone s (fits_join.mp hs), fun s o c hs hf => ?_⟩
  obtain ⟨q, l, r, hjoin, hq⟩ := Spelt.join_top p a b
  have hop : o.level ≤ p.level := hq ▸ hf.level q l r hjoin
  rcases hop.lt_or_eq with hlt | heq
  · refine (halone (.left c o :: s) (Nat.add_lt_add_right hlt 2)).behind hf fun q' l' r' h' => ?_
    rw [hjoin] at h'
    cases h'
    omega
  · -- the operators of one level are read from the left, over both left edges
    have hfa' : Follows o a := ⟨hfa.isAssign, fun q b c h => heq ▸ hfa.level q b c h⟩
    rw [Spelt.join_join heq.symm]
    rw [strength_congr heq] at hs
    exact (ha.behind s o c (strength_congr heq ▸ hs) hfa').op
      (admits_join.mpr (strength_congr heq).ge) hs (hb.behind s p _ hs hfb)

/-- In front of an open part that waits for nothing of its own, a tree is read alone and completed. -/
theorem ReadsBack.inside {xs : List Chunk} {t : Spelt} (h : ReadsBack xs t) {s : List Frame}
    (hs : ∀ k, Stops k s) :
    ∃ s' u, run (s, none) xs = some (s', some u) ∧ reduce 0 s' u = (s, t) := by
  have hfits : Fits s t := by cases t <;> first | exact hs _ | trivial
  obtain ⟨s', u, hrun, hu⟩ := h.alone s hfits
  exact ⟨s', u, hrun, by rw [hu 0 (admits_zero t), (hs 0).reduce]⟩

theorem ReadsBack.grouped {xs : List Chunk} {t : Spelt} (h : ReadsBack xs t) (yes : Bool) :
    ReadsBack (grouped yes xs) (t.grouped yes) := by
  cases yes with
  | false => exact h
  | true =>
    refine readsBack_of_tight rfl fun s => ?_
    obtain ⟨s', u, hrun, hu⟩ := h.inside (s := .group :: s) fun _ => trivial
    have hclose : step (s', some u) .rpar = some (s, some (.group t)) := by rw [step, hu, close]
    rw [Chunk.grouped, if_pos rfl, run, step, Option.bind_some, run_append, hrun, Option.bind_some,
      run, hclose]
    rfl

/-! ## Texts, names and calls -/

/-- The text of chunks. -/
def texts (xs : List Chunk) : String := String.join (xs.map text)

@[simp] theorem texts_nil : texts [] = "" := rfl

@[simp] theorem texts_cons (x : Chunk) (xs : List Chunk) : texts (x :: xs) = x.text ++ texts xs := by
  rw [texts, List.map_cons, String.join_cons, texts]

@[simp] theorem texts_append (xs ys : List Chunk) : texts (xs ++ ys) = texts xs ++ texts ys := by
  rw [texts, List.map_append, String.join_append, texts, texts]

theorem texts_grouped (yes : Bool) (xs : List Chunk) :
    texts (grouped yes xs) = parenthesized yes (texts xs) := by
  cases yes <;> simp [grouped, parenthesized, text, String.append_assoc]

/-- A name, or a member of an owner. -/
def named (owner : Expr) (xs : List Chunk) (name : String) : List Chunk :=
  if owner.isHole then [.word name] else xs ++ [.dot name]

/-- A function under a name of its own, or as a member of an owner. -/
def called (alone : Option String) (xs : List Chunk) (function : String) : List Chunk :=
  (alone.map fun w => [word w]).getD (xs ++ [dot function])

/-- Rows of chunks with commas between them. -/
def separated (xss : List (List Chunk)) : List Chunk := [Chunk.comma].intercalate xss

theorem texts_separated : ∀ xss : List (List Chunk),
    texts (separated xss) = String.intercalate ", " (xss.map texts)
  | [] => rfl
  | [xs] => by rw [separated, List.intercalate_singleton]; simp
  | xs :: ys :: xss => by
    have ih := texts_separated (ys :: xss)
    rw [separated] at ih ⊢
    rw [List.intercalate_cons_of_ne_nil (by simp), texts_append, ih]
    simp [text, String.append_assoc]

end Chunk

namespace Spelt

/-- A name, or a member of an owner. -/
def named (owner : Expr) (t : Spelt) (name : String) : Spelt :=
  if owner.isHole then .word name else .member t name

/-- A function under a name of its own, or as a member of an owner. -/
def called (alone : Option String) (t : Spelt) (function : String) : Spelt :=
  (alone.map word).getD (member t function)

theorem isTight_named (owner : Expr) (t : Spelt) (name : String) : (named owner t name).isTight := by
  rw [named]
  split_ifs <;> rfl

theorem isTight_called (alone : Option String) (t : Spelt) (f : String) : (called alone t f).isTight := by
  cases alone <;> rfl

end Spelt

namespace Chunk

theorem ReadsBack.member {xs : List Chunk} {t : Spelt} (h : ReadsBack xs t) (ht : t.isTight)
    (name : String) : ReadsBack (xs ++ [.dot name]) (.member t name) := by
  refine readsBack_of_tight rfl fun s => ?_
  rw [run_append, h.tight ht]
  rfl

theorem ReadsBack.named {xs : List Chunk} {t : Spelt} {owner : Expr}
    (h : owner.isHole = false → ReadsBack xs t ∧ t.isTight) (name : String) :
    ReadsBack (named owner xs name) (.named owner t name) := by
  rw [Chunk.named, Spelt.named]
  split_ifs with hole
  · exact readsBack_word name
  · obtain ⟨hr, ht⟩ := h (by simpa using hole)
    exact hr.member ht name

theorem ReadsBack.called {xs : List Chunk} {t : Spelt} {alone : Option String}
    (h : alone = none → ReadsBack xs t ∧ t.isTight) (f : String) :
    ReadsBack (called alone xs f) (.called alone t f) := by
  cases alone with
  | some w => exact readsBack_word w
  | none =>
    obtain ⟨hr, ht⟩ := h rfl
    exact hr.member ht f

/-- Arguments are read one after the other. -/
theorem run_separated {xss : List (List Chunk)} {ts : List Spelt} (h : List.Forall₂ ReadsBack xss ts)
    (hne : xss ≠ []) (s : List Frame) (f : Spelt) (done : List Spelt) :
    run (.call f done :: s, none) (separated xss ++ [.rpar]) =
      some (s, some (.call f (done ++ ts))) := by
  induction h generalizing done with
  | nil => exact absurd rfl hne
  | @cons xs t xss ts hx hxs ih =>
    obtain ⟨s', u, hrun, hu⟩ := hx.inside (s := .call f done :: s) fun _ => trivial
    cases hxs with
    | nil =>
      have hclose : step (s', some u) .rpar = some (s, some (.call f (done ++ [t]))) := by
        rw [step, hu, close]
      rw [separated, List.intercalate_singleton, run_append, hrun, Option.bind_some, run, hclose]
      rfl
    | cons hy hys =>
      have hnext : step (s', some u) .comma = some (.call f (done ++ [t]) :: s, none) := by
        rw [step, hu, separate]
      have ih := ih (by simp) (done ++ [t])
      rw [separated] at ih ⊢
      rw [List.intercalate_cons_of_ne_nil (by simp), List.append_assoc, List.append_assoc, run_append,
        hrun, Option.bind_some, List.singleton_append, run, hnext, Option.bind_some, ih]
      simp

theorem ReadsBack.call {xs : List Chunk} {t : Spelt} {xss : List (List Chunk)} {ts : List Spelt}
    (h : ReadsBack xs t) (ht : t.isTight) (hargs : List.Forall₂ ReadsBack xss ts)
    (notes : List Chunk) (hnotes : ∀ x ∈ notes, ∃ n, x = .note n) :
    ReadsBack (xs ++ .lpar :: (separated xss ++ .rpar :: notes)) (.call t ts) := by
  refine readsBack_of_tight rfl fun s => ?_
  have hcall : run (.call t [] :: s, none) (separated xss ++ [.rpar]) = some (s, some (.call t ts)) := by
    cases hargs with
    | nil => rfl
    | cons hx hxs => simpa using run_separated (.cons hx hxs) (by simp) s t []
  have hskip : run (s, some (.call t ts)) notes = some (s, some (.call t ts)) := by
    induction notes with
    | nil => rfl
    | cons x notes ih =>
      obtain ⟨n, rfl⟩ := hnotes x List.mem_cons_self
      exact ih fun y hy => hnotes y (List.mem_cons_of_mem _ hy)
  have hlpar : step (s, some t) .lpar = some (.call t [] :: s, none) := by rw [step]
  rw [← List.singleton_append (l := notes), ← List.append_assoc (separated xss), run_append,
    h.tight ht, Option.bind_some, run, hlpar, Option.bind_some, run_append, hcall, Option.bind_some,
    hskip]

end Chunk

/-! ## The chunks of an expression -/

namespace Expr

/-- Whether a member or a call may follow an expression. -/
def mayOwn : Expr → Bool
  | unary .. | binary .. | assign .. => false
  | _ => true

/-- Whether an expression is a name, or a variable of such a one. -/
def isNamePath : Expr → Bool
  | const .. | param .. | prop .. => true
  | var _ _ owner => owner.isHole || owner.isNamePath
  | _ => false

theorem mayOwn_of_isHole {e : Expr} (h : e.isHole) : e.mayOwn := by
  cases e <;> first | rfl | simp [isHole] at h

theorem mayOwn_of_isNamePath {e : Expr} (h : e.isNamePath) : e.mayOwn := by
  cases e <;> first | rfl | simp [isNamePath] at h

end Expr

namespace Dialect

/-- The text of a variable. -/
def path (d : Dialect) (owner : Expr) (name : String) : String :=
  if owner.isHole then name else d.expr .free owner ++ "." ++ name

/-- Whether calls leave out a part of an owner. -/
def shortens (d : Dialect) (owner : Expr) : Bool :=
  d.elide (d.expr .free owner ++ ".") != d.expr .free owner ++ "."

/-- The name that a function is called by, if its owner is absent or shortened. -/
def calledAs? (d : Dialect) (owner : Expr) (function : String) : Option String :=
  if owner.isHole then some function
  else if d.shortens owner then some (d.elide (d.expr .free owner ++ ".") ++ function)
  else none

mutual

/-- The chunks of the text of an expression at a place. -/
def chunks (d : Dialect) (place : Place) : Expr → List Chunk
  | .hole => []
  | .var name _ owner => Chunk.named owner (d.chunks .free owner) name
  | .unary op e => .mark op.symbol :: Chunk.grouped (wrapsOperand op e) (d.chunks (.behind op) e)
  | .binary op l r =>
    Chunk.grouped (place.needsParens op)
      (d.chunks (.beside op false) l ++ .op op :: d.chunks (.beside op true) r)
  | .assign name _ owner v =>
    match d.stepMark? (d.path owner name) v with
    | some mark => .mark mark :: Chunk.named owner (d.chunks .free owner) name
    | none => Chunk.named owner (d.chunks .free owner) name ++ .gets :: d.chunks .free v
  | .call f _ owner args note =>
    Chunk.called (d.calledAs? owner f) (d.chunks .free owner) f
      ++ .lpar :: (Chunk.separated (d.chunkRows args)
        ++ .rpar :: if note.isEmpty then [] else [.note note])
  | e => [.word (d.expr place e)]

/-- The chunks of arguments. -/
def chunkRows (d : Dialect) : List Expr → List (List Chunk)
  | [] => []
  | e :: r => d.chunks .free e :: d.chunkRows r

end

mutual

/-- The tree that the text of an expression is meant to spell; operators of one level that stand
without parentheses go from the left. -/
def spelt (d : Dialect) (place : Place) : Expr → Spelt
  | .hole => .word ""
  | .var name _ owner => .named owner (d.spelt .free owner) name
  | .unary op e => .unary op.symbol ((d.spelt (.behind op) e).grouped (wrapsOperand op e))
  | .binary op l r =>
    (Spelt.join op (d.spelt (.beside op false) l) (d.spelt (.beside op true) r)).grouped
      (place.needsParens op)
  | .assign name _ owner v =>
    match d.stepMark? (d.path owner name) v with
    | some mark => .unary mark (.named owner (d.spelt .free owner) name)
    | none => .assign (.named owner (d.spelt .free owner) name) (d.spelt .free v)
  | .call f _ owner args _ =>
    .call (.called (d.calledAs? owner f) (d.spelt .free owner) f) (d.speltAll args)
  | e => .word (d.expr place e)

/-- The trees of arguments. -/
def speltAll (d : Dialect) : List Expr → List Spelt
  | [] => []
  | e :: r => d.spelt .free e :: d.speltAll r

end

/-- Whether an expression is an assignment that is written with its value. -/
def isLoose (d : Dialect) : Expr → Bool
  | .assign name _ owner v => (d.stepMark? (d.path owner name) v).isNone
  | _ => false

mutual

/-- Whether no assignment is an operand of a binary operator or an owner, and no operation an owner,
in what is written of an expression. -/
def keepsPlaces (d : Dialect) : Expr → Bool
  | .var _ _ owner => owner.mayOwn && d.keepsPlaces owner
  | .unary _ e => d.keepsPlaces e
  | .binary _ l r => !d.isLoose l && !d.isLoose r && d.keepsPlaces l && d.keepsPlaces r
  | .assign name _ owner v =>
    owner.mayOwn && d.keepsPlaces owner &&
      ((d.stepMark? (d.path owner name) v).isSome || d.keepsPlaces v)
  | .call _ _ owner args _ => owner.mayOwn && d.keepsPlaces owner && d.allKeepPlaces args
  | _ => true

/-- Whether this holds of all arguments. -/
def allKeepPlaces (d : Dialect) : List Expr → Bool
  | [] => true
  | e :: r => d.keepsPlaces e && d.allKeepPlaces r

end

mutual

/-- Whether calls leave out parts of paths of names only. -/
def shortensPaths (d : Dialect) : Expr → Bool
  | .var _ _ owner => d.shortensPaths owner
  | .unary _ e => d.shortensPaths e
  | .binary _ l r => d.shortensPaths l && d.shortensPaths r
  | .assign _ _ owner v => d.shortensPaths owner && d.shortensPaths v
  | .call _ _ owner args _ =>
    (owner.isHole || !d.shortens owner || owner.isNamePath) && d.shortensPaths owner &&
      d.allShortenPaths args
  | _ => true

/-- Whether this holds of all arguments. -/
def allShortenPaths (d : Dialect) : List Expr → Bool
  | [] => true
  | e :: r => d.shortensPaths e && d.allShortenPaths r

end

/-! ## The text is the text of its chunks -/

theorem texts_named (d : Dialect) {owner : Expr} {xs : List Chunk}
    (h : Chunk.texts xs = d.expr .free owner) (name : String) :
    Chunk.texts (Chunk.named owner xs name) = d.path owner name := by
  rw [Chunk.named, path]
  split_ifs
  · simp [Chunk.text]
  · simp [h, Chunk.text, String.append_assoc]

theorem texts_called (d : Dialect) {owner : Expr} {xs : List Chunk}
    (h : Chunk.texts xs = d.expr .free owner) (f : String) :
    Chunk.texts (Chunk.called (d.calledAs? owner f) xs f) =
      (if owner.isHole then "" else d.elide (d.expr .free owner ++ ".")) ++ f := by
  rw [calledAs?]
  split_ifs with hole hshort
  · simp [Chunk.called, Chunk.text]
  · simp [Chunk.called, Chunk.text]
  · have hkept : d.elide (d.expr .free owner ++ ".") = d.expr .free owner ++ "." := by
      simpa [shortens] using hshort
    simp [h, hkept, Chunk.called, Chunk.text, String.append_assoc]

theorem texts_note (note : String) :
    Chunk.texts (if note.isEmpty then [] else [.note note]) = comment note := by
  split_ifs with h
  · rw [Chunk.texts_nil, comment, if_pos h]
  · simp [Chunk.text]

theorem expr_assign (d : Dialect) (place : Place) (name type : String) (owner v : Expr) :
    d.expr place (.assign name type owner v) = match d.stepMark? (d.path owner name) v with
      | some mark => mark ++ d.path owner name
      | none => d.path owner name ++ " = " ++ d.expr .free v := by
  rw [expr]
  rfl

mutual

/-- **The text of an expression is the text of its chunks.** -/
theorem texts_chunks (d : Dialect) (place : Place) : ∀ e : Expr,
    Chunk.texts (d.chunks place e) = d.expr place e
  | .hole => by rw [chunks, expr, Chunk.texts_nil]
  | .var name type owner => by
    rw [chunks, texts_named d (texts_chunks d .free owner), expr, path]
  | .unary op e => by
    rw [chunks, Chunk.texts_cons, Chunk.texts_grouped, texts_chunks d _ e, expr, Chunk.text]
  | .binary op l r => by
    rw [chunks, Chunk.texts_grouped, Chunk.texts_append, Chunk.texts_cons, texts_chunks d _ l,
      texts_chunks d _ r, expr, Chunk.text]
    simp only [String.append_assoc]
  | .assign name type owner v => by
    have htarget := texts_named d (texts_chunks d .free owner) name
    rw [chunks, expr_assign]
    cases d.stepMark? (d.path owner name) v with
    | some mark => simp only [Chunk.texts_cons, htarget, Chunk.text]
    | none =>
      simp only [Chunk.texts_append, Chunk.texts_cons, htarget, texts_chunks d _ v, Chunk.text,
        String.append_assoc]
  | .call f type owner args note => by
    rw [chunks, expr, Chunk.texts_append, texts_called d (texts_chunks d .free owner),
      Chunk.texts_cons, Chunk.texts_append, Chunk.texts_cons, texts_note, Chunk.texts_separated,
      texts_chunkRows d args]
    simp only [Chunk.text, String.append_assoc]
  | .int v | .real x | .str s | .const .. | .param .. | .prop .. => by
    simp [chunks, Chunk.text]

theorem texts_chunkRows (d : Dialect) : ∀ es : List Expr,
    (d.chunkRows es).map Chunk.texts = d.exprs es
  | [] => rfl
  | e :: es => by rw [chunkRows, exprs, List.map_cons, texts_chunks d .free e, texts_chunkRows d es]

end

/-! ## Where assignments stand in the tree -/

theorem spelt_var (d : Dialect) (place : Place) (name type : String) (owner : Expr) :
    d.spelt place (.var name type owner) = .named owner (d.spelt .free owner) name := rfl

theorem spelt_binary (d : Dialect) (place : Place) (op : BinaryOp) (l r : Expr) :
    d.spelt place (.binary op l r) =
      (Spelt.join op (d.spelt (.beside op false) l) (d.spelt (.beside op true) r)).grouped
        (place.needsParens op) := rfl

theorem spelt_assign (d : Dialect) (place : Place) (name type : String) (owner v : Expr) :
    d.spelt place (.assign name type owner v) = match d.stepMark? (d.path owner name) v with
      | some mark => .unary mark (.named owner (d.spelt .free owner) name)
      | none => .assign (.named owner (d.spelt .free owner) name) (d.spelt .free v) := rfl

theorem isAssign_spelt (d : Dialect) (place : Place) (e : Expr) :
    (d.spelt place e).isAssign = d.isLoose e := by
  cases e with
  | var name type owner =>
    rw [spelt_var, Spelt.isAssign_of_isTight (Spelt.isTight_named ..)]
    rfl
  | binary op l r =>
    rw [spelt_binary]
    cases place.needsParens op with
    | false => exact Spelt.isAssign_join ..
    | true => rfl
  | assign name type owner v =>
    rw [spelt_assign, isLoose]
    cases d.stepMark? (d.path owner name) v <;> rfl
  | _ => rfl

theorem isTight_spelt (d : Dialect) (e : Expr) : (d.spelt .free e).isTight = e.mayOwn := by
  cases e with
  | var name type owner => exact Spelt.isTight_named ..
  | binary op l r => exact Spelt.isTight_join ..
  | assign name type owner v =>
    rw [spelt_assign]
    cases d.stepMark? (d.path owner name) v <;> rfl
  | _ => rfl

/-- The operand of an operator before it is an owner, or stands in parentheses. -/
theorem isTight_operand (d : Dialect) (op : UnaryOp) (e : Expr) :
    ((d.spelt (.behind op) e).grouped (wrapsOperand op e)).isTight := by
  cases h : wrapsOperand op e with
  | true => rfl
  | false =>
    change (d.spelt (.behind op) e).isTight
    cases e with
    | var name type owner => exact Spelt.isTight_named ..
    | binary | assign | unary => simp [wrapsOperand] at h
    | _ => rfl

/-- An operand that is no loose assignment binds at least as strongly as its operator. -/
theorem follows_spelt (d : Dialect) {e : Expr} (h : d.isLoose e = false) (p : BinaryOp) (right : Bool) :
    Chunk.Follows p (d.spelt (.beside p right) e) := by
  refine ⟨by rw [isAssign_spelt, h], fun q b c heq => ?_⟩
  cases e with
  | binary op l r =>
    rw [spelt_binary] at heq
    cases hp : (Place.beside p right).needsParens op with
    | true => simp [hp, Spelt.grouped] at heq
    | false =>
      obtain ⟨top, b', c', hjoin, htop⟩ := Spelt.join_top op (d.spelt (.beside op false) l)
        (d.spelt (.beside op true) r)
      rw [hp, hjoin] at heq
      cases heq
      rw [htop]
      simp only [Place.needsParens] at hp
      split_ifs at hp <;> simp_all
  | var name type owner =>
    have ht := Spelt.isTight_named owner (d.spelt .free owner) name
    rw [spelt_var] at heq
    simp [heq, Spelt.isTight] at ht
  | assign name type owner v =>
    rw [spelt_assign] at heq
    cases hm : d.stepMark? (d.path owner name) v <;> simp [hm] at heq
  | _ => simp [spelt] at heq

theorem keepsPlaces_of_isHole (d : Dialect) {e : Expr} (h : e.isHole) : d.keepsPlaces e := by
  cases e <;> first | rfl | simp [Expr.isHole] at h

theorem keepsPlaces_of_isNamePath (d : Dialect) : ∀ {e : Expr}, e.isNamePath → d.keepsPlaces e
  | .var name type owner, h => by
    rw [Expr.isNamePath, Bool.or_eq_true] at h
    rw [keepsPlaces]
    rcases h with h | h
    · rw [Expr.mayOwn_of_isHole h, keepsPlaces_of_isHole d h]
      rfl
    · rw [Expr.mayOwn_of_isNamePath h, keepsPlaces_of_isNamePath d h]
      rfl
  | .const .., _ | .param .., _ | .prop .., _ => rfl
  | .hole, h | .int _, h | .real _, h | .str _, h | .unary .., h | .binary .., h | .assign .., h
  | .call .., h => by simp [Expr.isNamePath] at h

theorem isPlaced_named (d : Dialect) {owner : Expr}
    (h : (d.spelt .free owner).isPlaced = d.keepsPlaces owner) (name : String) :
    (Spelt.named owner (d.spelt .free owner) name).isPlaced =
      (owner.mayOwn && d.keepsPlaces owner) := by
  rw [Spelt.named]
  split_ifs with hole
  · rw [Expr.mayOwn_of_isHole hole, keepsPlaces_of_isHole d hole]
    rfl
  · rw [Spelt.isPlaced, isTight_spelt, h]

theorem isPlaced_called (d : Dialect) {owner : Expr}
    (h : (d.spelt .free owner).isPlaced = d.keepsPlaces owner)
    (hpath : owner.isHole || !d.shortens owner || owner.isNamePath) (f : String) :
    (Spelt.called (d.calledAs? owner f) (d.spelt .free owner) f).isPlaced =
      (owner.mayOwn && d.keepsPlaces owner) := by
  rw [calledAs?]
  split_ifs with hole hshort
  · rw [Expr.mayOwn_of_isHole hole, keepsPlaces_of_isHole d hole]
    rfl
  · have hname : owner.isNamePath := by simpa [hole, hshort] using hpath
    rw [Expr.mayOwn_of_isNamePath hname, keepsPlaces_of_isNamePath d hname]
    rfl
  · change (Spelt.member (d.spelt .free owner) f).isPlaced = _
    rw [Spelt.isPlaced, isTight_spelt, h]

mutual

/-- **Assignments stand in the tree where they may exactly if none loses its place.** -/
theorem isPlaced_spelt (d : Dialect) (place : Place) : ∀ {e : Expr}, d.shortensPaths e →
    (d.spelt place e).isPlaced = d.keepsPlaces e
  | .var name type owner, h => by
    rw [spelt, keepsPlaces, isPlaced_named d (isPlaced_spelt d .free (e := owner) h)]
  | .unary op e, h => by
    have ih := isPlaced_spelt d (.behind op) (e := e) h
    rw [spelt, Spelt.isPlaced, Spelt.isAssign_of_isTight (isTight_operand d op e), keepsPlaces, ← ih]
    cases wrapsOperand op e <;> rfl
  | .binary op l r, h => by
    rw [shortensPaths, Bool.and_eq_true] at h
    have hjoin := Spelt.isPlaced_join op (d.spelt (.beside op false) l) (d.spelt (.beside op true) r)
    rw [isAssign_spelt, isAssign_spelt, isPlaced_spelt d _ h.1, isPlaced_spelt d _ h.2] at hjoin
    rw [spelt, keepsPlaces, ← hjoin]
    cases place.needsParens op <;> rfl
  | .assign name type owner v, h => by
    rw [shortensPaths, Bool.and_eq_true] at h
    have htarget := isPlaced_named d (isPlaced_spelt d .free h.1) name
    have htight := Spelt.isAssign_of_isTight (Spelt.isTight_named owner (d.spelt .free owner) name)
    rw [spelt, keepsPlaces]
    cases d.stepMark? (d.path owner name) v with
    | some mark => simp [Spelt.isPlaced, htarget, htight]
    | none => simp [Spelt.isPlaced, htarget, htight, isPlaced_spelt d .free h.2]
  | .call f type owner args note, h => by
    simp only [shortensPaths, Bool.and_eq_true] at h
    obtain ⟨⟨hpath, howner⟩, hargs⟩ := h
    rw [spelt, Spelt.isPlaced, Spelt.isTight_called, isPlaced_called d (isPlaced_spelt d .free howner) hpath,
      allPlaced_speltAll d hargs, keepsPlaces]
    rfl
  | .hole, _ | .int _, _ | .real _, _ | .str _, _ | .const .., _ | .param .., _ | .prop .., _ => rfl

theorem allPlaced_speltAll (d : Dialect) : ∀ {es : List Expr}, d.allShortenPaths es →
    Spelt.allPlaced (d.speltAll es) = d.allKeepPlaces es
  | [], _ => rfl
  | e :: es, h => by
    rw [allShortenPaths, Bool.and_eq_true] at h
    rw [speltAll, Spelt.allPlaced, isPlaced_spelt d .free h.1, allPlaced_speltAll d h.2, allKeepPlaces]

end

/-! ## The text read back -/

/-- What an owner needs before a member or a call. -/
theorem readsBack_owner (d : Dialect) {owner : Expr} (hw : owner.isHole || owner.isWhole)
    (hk : owner.mayOwn && d.keepsPlaces owner)
    (h : owner.isWhole → d.keepsPlaces owner →
      Chunk.ReadsBack (d.chunks .free owner) (d.spelt .free owner))
    (hole : owner.isHole = false) :
    Chunk.ReadsBack (d.chunks .free owner) (d.spelt .free owner) ∧ (d.spelt .free owner).isTight := by
  rw [Bool.and_eq_true] at hk
  exact ⟨h (by simpa [hole] using hw) hk.2, by rw [isTight_spelt, hk.1]⟩

mutual

/-- **An expression in which no assignment loses its place reads back.** -/
theorem readsBack_chunks (d : Dialect) (place : Place) : ∀ {e : Expr}, e.isWhole → d.keepsPlaces e →
    Chunk.ReadsBack (d.chunks place e) (d.spelt place e)
  | .hole, hw, _ => by simp [Expr.isWhole] at hw
  | .var name type owner, hw, hk => by
    have howner := readsBack_owner d hw hk fun hw hk => readsBack_chunks d .free (e := owner) hw hk
    rw [chunks, spelt]
    exact .named howner name
  | .unary op e, hw, hk => by
    have hoperand := readsBack_chunks d (.behind op) (e := e) hw hk
    rw [chunks, spelt]
    exact (hoperand.grouped _).unary (isTight_operand d op e) _
  | .binary op l r, hw, hk => by
    simp only [Expr.isWhole, Bool.and_eq_true] at hw
    simp only [keepsPlaces, Bool.and_eq_true, Bool.not_eq_true'] at hk
    obtain ⟨⟨⟨hl, hr⟩, hkl⟩, hkr⟩ := hk
    have hleft := readsBack_chunks d (.beside op false) hw.1 hkl
    have hright := readsBack_chunks d (.beside op true) hw.2 hkr
    rw [chunks, spelt]
    exact (hleft.binary hright (follows_spelt d hl op false) (follows_spelt d hr op true)).grouped _
  | .assign name type owner v, hw, hk => by
    rw [Expr.isWhole, Bool.and_eq_true] at hw
    rw [keepsPlaces, Bool.and_eq_true] at hk
    have htarget := Chunk.ReadsBack.named (readsBack_owner d hw.1 hk.1 fun hw hk =>
      readsBack_chunks d .free (e := owner) hw hk) name
    have htight := Spelt.isTight_named owner (d.spelt .free owner) name
    rw [chunks, spelt]
    cases hmark : d.stepMark? (d.path owner name) v with
    | some mark => exact htarget.unary htight mark
    | none => exact htarget.assign htight (readsBack_chunks d .free hw.2 (by simpa [hmark] using hk.2))
  | .call f type owner args note, hw, hk => by
    rw [Expr.isWhole, Bool.and_eq_true] at hw
    rw [keepsPlaces, Bool.and_eq_true] at hk
    have howner := readsBack_owner d hw.1 hk.1 fun hw hk => readsBack_chunks d .free (e := owner) hw hk
    have hcalled : Chunk.ReadsBack (Chunk.called (d.calledAs? owner f) (d.chunks .free owner) f)
        (.called (d.calledAs? owner f) (d.spelt .free owner) f) := by
      refine .called (fun hnone => howner ?_) f
      by_contra hole
      rw [calledAs?, if_pos (by simpa using hole)] at hnone
      cases hnone
    rw [chunks, spelt]
    refine hcalled.call (Spelt.isTight_called ..) (forall₂_chunkRows d hw.2 hk.2) _ ?_
    intro x hx
    split_ifs at hx
    · simp at hx
    · exact ⟨note, by simpa using hx⟩
  | .int _, _, _ | .real _, _, _ | .str _, _, _ | .const .., _, _ | .param .., _, _
  | .prop .., _, _ => Chunk.readsBack_word _

theorem forall₂_chunkRows (d : Dialect) : ∀ {es : List Expr}, Expr.areWhole es →
    d.allKeepPlaces es → List.Forall₂ Chunk.ReadsBack (d.chunkRows es) (d.speltAll es)
  | [], _, _ => .nil
  | e :: es, hw, hk => by
    rw [Expr.areWhole, Bool.and_eq_true] at hw
    rw [allKeepPlaces, Bool.and_eq_true] at hk
    exact .cons (readsBack_chunks d .free hw.1 hk.1) (forall₂_chunkRows d hw.2 hk.2)

end

/-- **The text of an expression reads as its tree exactly if no assignment loses its place.** Otherwise
no chunks read as the tree, whatever their text. -/
theorem read_chunks_iff (d : Dialect) {e : Expr} (hw : e.isWhole) (hs : d.shortensPaths e) :
    Chunk.texts (d.chunks .free e) = d.expr .free e ∧
      (Chunk.read (d.chunks .free e) = some (d.spelt .free e) ↔ d.keepsPlaces e) ∧
      ((∃ xs, Chunk.read xs = some (d.spelt .free e)) ↔ d.keepsPlaces e) := by
  have hnever : (∃ xs, Chunk.read xs = some (d.spelt .free e)) → d.keepsPlaces e := by
    rintro ⟨xs, hread⟩
    rw [← isPlaced_spelt d .free hs]
    exact Chunk.isPlaced_of_read hread
  have hread (hk : d.keepsPlaces e) : Chunk.read (d.chunks .free e) = some (d.spelt .free e) := by
    obtain ⟨s', u, hrun, hu⟩ := (readsBack_chunks d .free hw hk).inside (s := []) fun _ => trivial
    rw [Chunk.read, hrun, Option.bind_some, Option.bind_some, hu, Chunk.finish]
  exact ⟨texts_chunks d .free e, ⟨fun h => hnever ⟨_, h⟩, hread⟩, hnever, fun hk => ⟨_, hread hk⟩⟩

/-- The call `myself.Say((x = a) + b)`. -/
def looseSum : Expr :=
  .call "Say" "void" (.var "myself" "creature" .hole)
    [.binary .add (.assign "x" "int" .hole (.param "a" "int")) (.param "b" "int")] ""

/-- The assignment takes over the sum that it is an operand of. -/
theorem read_chunks_looseSum : looseSum.isWhole ∧ Dialect.default.shortensPaths looseSum ∧
    Dialect.default.expr .free looseSum = "Say(x = a + b)" ∧
    Chunk.read (Dialect.default.chunks .free looseSum) = some (.call (.word "Say")
      [.assign (.word "x") (.binary .add (.word "a") (.word "b"))]) ∧
    ¬ ∃ xs, Chunk.read xs = some (Dialect.default.spelt .free looseSum) := by
  have hw : looseSum.isWhole := rfl
  have hs : Dialect.default.shortensPaths looseSum := by decide
  obtain ⟨htexts, -, hnever⟩ := read_chunks_iff Dialect.default hw hs
  exact ⟨hw, hs, htexts ▸ by decide, rfl, fun h => absurd (hnever.mp h) (by decide)⟩

end Dialect

end ScriptLift
