import Mathlib.Tactic
import ScriptLift.Dialect.Expr

/-!
# Reading with assignments

The text of an expression is a row of chunks, and the chunks are read from the left. Members and calls
belong to the operand just read; the operators before an operand bind tighter than those between
operands, and these by their levels, from the left; an assignment binds weakest, from the right.

* `Chunk`: words, operators and punctuation; `Spelt`: the trees that they spell.
* `Chunk.read`: the tree that chunks spell.
* `Spelt.isPlaced`: where assignments stand without parentheses.
* **`Chunk.isPlaced_of_read`**: no reading makes an assignment an operand or an owner, unless it stands
  in parentheses.
-/

namespace ScriptLift

/-! ## Chunks and trees -/

/-- A chunk of the text of an expression. -/
inductive Chunk where
  /-- A literal or a name. -/
  | word (text : String)
  | op (op : BinaryOp)
  /-- An operator before its operand. -/
  | mark (text : String)
  | gets
  /-- A member. -/
  | dot (name : String)
  | lpar
  | rpar
  | comma
  /-- A comment after a call. -/
  | note (text : String)
  deriving Repr, DecidableEq, Inhabited

/-- What chunks spell. Parentheses are kept. -/
inductive Spelt where
  | word (text : String)
  | group (t : Spelt)
  | unary (mark : String) (t : Spelt)
  | binary (op : BinaryOp) (left right : Spelt)
  | assign (target value : Spelt)
  | member (owner : Spelt) (name : String)
  | call (function : Spelt) (args : List Spelt)
  deriving Repr, Inhabited

namespace Spelt

/-- Whether a tree is an assignment outside parentheses. -/
def isAssign : Spelt → Bool
  | assign .. => true
  | _ => false

/-- Whether a member or a call may follow. -/
def isTight : Spelt → Bool
  | word _ | group _ | member .. | call .. => true
  | _ => false

mutual

/-- Whether no assignment outside parentheses is an operand, a target or an owner, and no operation
outside parentheses an owner. -/
def isPlaced : Spelt → Bool
  | word _ => true
  | group t => t.isPlaced
  | unary _ t => !t.isAssign && t.isPlaced
  | binary _ l r => !l.isAssign && !r.isAssign && l.isPlaced && r.isPlaced
  | assign x v => !x.isAssign && x.isPlaced && v.isPlaced
  | member o _ => o.isTight && o.isPlaced
  | call f args => f.isTight && f.isPlaced && allPlaced args

/-- Whether all trees of a list are so. -/
def allPlaced : List Spelt → Bool
  | [] => true
  | t :: r => t.isPlaced && allPlaced r

end

theorem allPlaced_append (ts us : List Spelt) :
    allPlaced (ts ++ us) = (allPlaced ts && allPlaced us) := by
  induction ts with
  | nil => rw [List.nil_append, allPlaced, Bool.true_and]
  | cons t ts ih => rw [List.cons_append, allPlaced, allPlaced, ih, Bool.and_assoc]

theorem isAssign_of_isTight {t : Spelt} (h : t.isTight) : t.isAssign = false := by
  cases t <;> first | rfl | simp [isTight] at h

end Spelt

namespace Chunk

/-- The text of a chunk. -/
def text : Chunk → String
  | word s => s
  | op q => " " ++ q.symbol ++ " "
  | mark s => s
  | gets => " = "
  | dot n => "." ++ n
  | lpar => "("
  | rpar => ")"
  | comma => ", "
  | note s => Dialect.comment s

/-! ## The reader -/

/-- A part of a tree that is not finished. -/
inductive Frame where
  /-- A left operand and its operator. -/
  | left (t : Spelt) (op : BinaryOp)
  /-- An operator that waits for its operand. -/
  | unary (mark : String)
  /-- A target that waits for its value. -/
  | gets (target : Spelt)
  /-- An open parenthesis. -/
  | group
  /-- A call with the arguments read so far. -/
  | call (function : Spelt) (args : List Spelt)
  deriving Repr, Inhabited

/-- How strongly an operator binds; an assignment binds with strength 1, what closes with 0. -/
def strength (q : BinaryOp) : Nat := q.level + 2

/-- Completes the parts that do not wait for something of a strength. -/
def reduce (k : Nat) : List Frame → Spelt → List Frame × Spelt
  | .left a p :: s, t => if k ≤ strength p then reduce k s (.binary p a t) else (.left a p :: s, t)
  | .unary m :: s, t => reduce k s (.unary m t)
  | .gets x :: s, t => if k = 0 then reduce k s (.assign x t) else (.gets x :: s, t)
  | s, t => (s, t)

/-- Closes the innermost parenthesis or call. -/
def close : List Frame × Spelt → Option (List Frame × Option Spelt)
  | (.group :: s, t) => some (s, some (.group t))
  | (.call f args :: s, t) => some (s, some (.call f (args ++ [t])))
  | _ => none

/-- Ends an argument. -/
def separate : List Frame × Spelt → Option (List Frame × Option Spelt)
  | (.call f args :: s, t) => some (.call f (args ++ [t]) :: s, none)
  | _ => none

/-- Takes one chunk; the operand just read is known, unless one is expected. -/
def step : List Frame × Option Spelt → Chunk → Option (List Frame × Option Spelt)
  | (s, none), .word w => some (s, some (.word w))
  | (s, none), .mark m => some (.unary m :: s, none)
  | (s, none), .lpar => some (.group :: s, none)
  | (.call f [] :: s, none), .rpar => some (s, some (.call f []))
  | (s, some t), .op q =>
    some (.left (reduce (strength q) s t).2 q :: (reduce (strength q) s t).1, none)
  | (s, some t), .gets => some (.gets (reduce 1 s t).2 :: (reduce 1 s t).1, none)
  | (s, some t), .dot n => some (s, some (.member t n))
  | (s, some t), .lpar => some (.call t [] :: s, none)
  | (s, some t), .comma => separate (reduce 0 s t)
  | (s, some t), .rpar => close (reduce 0 s t)
  | (s, some t), .note _ => some (s, some t)
  | _, _ => none

/-- Takes chunks one by one. -/
def run (st : List Frame × Option Spelt) : List Chunk → Option (List Frame × Option Spelt)
  | [] => some st
  | x :: xs => (step st x).bind fun st' => run st' xs

/-- The tree when no chunk is left. -/
def finish : List Frame × Spelt → Option Spelt
  | ([], t) => some t
  | _ => none

/-- **The tree that chunks spell.** -/
def read (xs : List Chunk) : Option Spelt :=
  (run ([], none) xs).bind fun st => st.2.bind fun t => finish (reduce 0 st.1 t)

theorem run_append (st : List Frame × Option Spelt) (xs ys : List Chunk) :
    run st (xs ++ ys) = (run st xs).bind fun st' => run st' ys := by
  induction xs generalizing st with
  | nil => rfl
  | cons x xs ih => simp [run, ih, Option.bind_assoc]

/-! ## What stops a reduction -/

/-- The part on top of the stack waits for something of a strength. -/
def Stops (k : Nat) : List Frame → Prop
  | .left _ p :: _ => strength p < k
  | .unary _ :: _ => False
  | .gets _ :: _ => 1 ≤ k
  | _ => True

theorem Stops.reduce {k : Nat} {s : List Frame} (h : Stops k s) (t : Spelt) :
    reduce k s t = (s, t) := by
  match s, h with
  | [], _ | .group :: _, _ | .call .. :: _, _ => rfl
  | .left _ _ :: _, h => rw [Chunk.reduce, if_neg (not_le.mpr h)]
  | .gets _ :: _, h => rw [Chunk.reduce, if_neg (Nat.one_le_iff_ne_zero.mp h)]

theorem Stops.mono {k j : Nat} (hkj : k ≤ j) {s : List Frame} (h : Stops k s) : Stops j s := by
  match s, h with
  | [], _ | .group :: _, _ | .call .. :: _, _ => trivial
  | .left _ _ :: _, h => exact lt_of_lt_of_le h hkj
  | .gets _ :: _, h => exact le_trans h hkj

/-! ## Placed trees -/

/-- Whether a part may be completed. -/
def Frame.isPlaced : Frame → Bool
  | .left t _ | .gets t => !t.isAssign && t.isPlaced
  | .unary _ | .group => true
  | .call f args => f.isTight && f.isPlaced && Spelt.allPlaced args

/-- All parts may be completed, and no target stands behind an operator. -/
def Stacked : List Frame → Prop
  | [] => True
  | .gets x :: s => (Frame.gets x).isPlaced ∧ Stops 1 s ∧ Stacked s
  | f :: s => f.isPlaced ∧ Stacked s

/-- What a reduction leaves: an assignment only where everything is completed, and then nothing that
waits for an operand below it. -/
structure Reduced (k : Nat) (t : Spelt) (r : List Frame × Spelt) : Prop where
  stacked : Stacked r.1
  placed : r.2.isPlaced
  assign : 1 ≤ k → t.isAssign = false → r.2.isAssign = false
  stops : k ≤ 1 → Stops 1 r.1

theorem Reduced.refl {k : Nat} {s : List Frame} {t : Spelt} (hs : Stacked s) (ht : t.isPlaced)
    (hstop : k ≤ 1 → Stops 1 s) : Reduced k t (s, t) :=
  ⟨hs, ht, fun _ h => h, hstop⟩

theorem reduced {k : Nat} : ∀ {s : List Frame} {t : Spelt}, Stacked s → t.isPlaced →
    (t.isAssign → Stops 1 s) → Reduced k t (reduce k s t)
  | [], t, hs, ht, _ | .group :: _, t, hs, ht, _ | .call .. :: _, t, hs, ht, _ =>
    .refl hs ht fun _ => trivial
  | .left a p :: s, t, hs, ht, ha => by
    obtain ⟨hleft, hs⟩ := hs
    have hnot : t.isAssign = false := by
      by_contra h
      exact absurd (ha (by simpa using h)) (by simp [Stops, strength])
    rw [reduce]
    split_ifs with hk
    · have hbinary : (Spelt.binary p a t).isPlaced := by
        simp only [Frame.isPlaced, Bool.and_eq_true] at hleft
        simp [Spelt.isPlaced, hleft, hnot, ht]
      have hr := reduced (k := k) hs hbinary (by simp [Spelt.isAssign])
      exact ⟨hr.stacked, hr.placed, fun h _ => hr.assign h rfl, hr.stops⟩
    · exact .refl ⟨hleft, hs⟩ ht fun h => absurd h (by simp [strength] at hk; omega)
  | .unary m :: s, t, hs, ht, ha => by
    have hnot : t.isAssign = false := by
      by_contra h
      exact ha (by simpa using h)
    rw [reduce]
    have hr := reduced (k := k) (s := s) (t := .unary m t) hs.2 (by simp [Spelt.isPlaced, hnot, ht])
      (by simp [Spelt.isAssign])
    exact ⟨hr.stacked, hr.placed, fun h _ => hr.assign h rfl, hr.stops⟩
  | .gets x :: s, t, hs, ht, _ => by
    obtain ⟨hx, hstop, hs'⟩ := hs
    rw [reduce]
    split_ifs with hk
    · have hassign : (Spelt.assign x t).isPlaced := by
        simp only [Frame.isPlaced, Bool.and_eq_true] at hx
        simp [Spelt.isPlaced, hx, ht]
      have hr := reduced (k := k) hs' hassign fun _ => hstop
      exact ⟨hr.stacked, hr.placed, fun h => absurd h (by omega), hr.stops⟩
    · exact .refl ⟨hx, hstop, hs'⟩ ht fun _ => le_rfl

/-- What is read so far may be completed, and the operand just read may be an owner. -/
def Sound (st : List Frame × Option Spelt) : Prop :=
  Stacked st.1 ∧ ∀ t ∈ st.2, t.isTight ∧ t.isPlaced

theorem Sound.reduced {s : List Frame} {t : Spelt} (h : Sound (s, some t)) (k : Nat) :
    Reduced k t (reduce k s t) := by
  obtain ⟨hs, ht⟩ := h
  obtain ⟨htight, hplaced⟩ := ht t rfl
  exact Chunk.reduced hs hplaced (by simp [Spelt.isAssign_of_isTight htight])

theorem Sound.isAssign {s : List Frame} {t : Spelt} (h : Sound (s, some t)) : t.isAssign = false :=
  Spelt.isAssign_of_isTight (h.2 t rfl).1

theorem Sound.fresh {s : List Frame} (h : Stacked s) : Sound (s, none) :=
  ⟨h, by simp⟩

theorem Sound.operand {s : List Frame} {t : Spelt} (h : Stacked s) (htight : t.isTight)
    (hplaced : t.isPlaced) : Sound (s, some t) :=
  ⟨h, by simp [htight, hplaced]⟩

theorem sound_close {k : Nat} {t : Spelt} {r : List Frame × Spelt} {st : List Frame × Option Spelt}
    (hr : Reduced k t r) (h : close r = some st) : Sound st := by
  unfold close at h
  split at h
  · cases h
    exact .operand hr.stacked.2 rfl hr.placed
  · cases h
    obtain ⟨hf, hs⟩ := hr.stacked
    simp only [Frame.isPlaced, Bool.and_eq_true] at hf
    refine .operand hs rfl ?_
    simpa [Spelt.isPlaced, Spelt.allPlaced_append, Spelt.allPlaced, hf] using hr.placed
  · cases h

theorem sound_separate {k : Nat} {t : Spelt} {r : List Frame × Spelt}
    {st : List Frame × Option Spelt} (hr : Reduced k t r) (h : separate r = some st) : Sound st := by
  unfold separate at h
  split at h
  · cases h
    obtain ⟨hf, hs⟩ := hr.stacked
    simp only [Frame.isPlaced, Bool.and_eq_true] at hf
    refine .fresh ⟨?_, hs⟩
    simpa [Frame.isPlaced, Spelt.allPlaced_append, Spelt.allPlaced, hf] using hr.placed
  · cases h

/-- **One chunk keeps what is read so far sound.** -/
theorem sound_step {st st' : List Frame × Option Spelt} {x : Chunk} (h : Sound st)
    (hx : step st x = some st') : Sound st' := by
  unfold step at hx
  split at hx
  · cases hx
    exact .operand h.1 rfl rfl
  · cases hx
    exact .fresh ⟨rfl, h.1⟩
  · cases hx
    exact .fresh ⟨rfl, h.1⟩
  · cases hx
    obtain ⟨hf, hs⟩ := h.1
    exact .operand hs rfl (by simpa [Spelt.isPlaced, Frame.isPlaced] using hf)
  · rename_i q
    cases hx
    have hr := h.reduced (strength q)
    have hassign := hr.assign (by simp [strength]) h.isAssign
    exact .fresh ⟨by simp [Frame.isPlaced, hassign, hr.placed], hr.stacked⟩
  · cases hx
    have hr := h.reduced 1
    have hassign := hr.assign le_rfl h.isAssign
    exact .fresh ⟨by simp [Frame.isPlaced, hassign, hr.placed], hr.stops le_rfl, hr.stacked⟩
  · obtain ⟨htight, hplaced⟩ := h.2 _ rfl
    cases hx
    exact .operand h.1 rfl (by simp [Spelt.isPlaced, htight, hplaced])
  · obtain ⟨htight, hplaced⟩ := h.2 _ rfl
    cases hx
    exact .fresh ⟨by simp [Frame.isPlaced, htight, hplaced, Spelt.allPlaced], h.1⟩
  · exact sound_separate (h.reduced 0) hx
  · exact sound_close (h.reduced 0) hx
  · cases hx
    exact h
  · cases hx

theorem sound_run {xs : List Chunk} : ∀ {st st' : List Frame × Option Spelt}, Sound st →
    run st xs = some st' → Sound st' := by
  induction xs with
  | nil =>
    rintro st _ h ⟨⟩
    exact h
  | cons x xs ih =>
    intro st st' h hrun
    obtain ⟨mid, hx, hxs⟩ := Option.bind_eq_some_iff.mp hrun
    exact ih (sound_step h hx) hxs

/-- **No reading makes an assignment outside parentheses an operand or an owner.** -/
theorem isPlaced_of_read {xs : List Chunk} {t : Spelt} (h : read xs = some t) : t.isPlaced := by
  obtain ⟨⟨s, m⟩, hrun, hfinish⟩ := Option.bind_eq_some_iff.mp h
  obtain ⟨u, rfl, hu⟩ := Option.bind_eq_some_iff.mp hfinish
  have hstart : Sound ([], none) := .fresh (s := []) trivial
  have hplaced := ((sound_run hstart hrun).reduced 0).placed
  unfold finish at hu
  split at hu
  · rename_i heq
    cases hu
    simpa [heq] using hplaced
  · cases hu

end Chunk

end ScriptLift
